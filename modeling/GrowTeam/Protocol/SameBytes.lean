import GrowTeam.Protocol.Documents

/-!
# Digests of one value on both sides

What each side rejects, what it writes otherwise, and for which values the two
hash the same bytes.
-/

namespace GrowTeam.Canonical

open Utf16 JsonText List Json
open Function (comp_def)

namespace Json

/-- The integers are safe integers. -/
def Safe (v : Json) : Prop := ∀ n, Part.integer n ∈ v.parts → n.natAbs ≤ maxSafeInteger

/-- A number is a double that is no safe integer. -/
def Refused (v : Json) : Prop := ∃ x, Part.float x ∈ v.parts ∧ x.safeInteger? = none

/-- A string or a key has a surrogate that stands alone. -/
def Lone (v : Json) : Prop := ∃ s, Part.string s ∈ v.parts ∧ ¬ Paired s

/-- A number is too large for a double. -/
def Infinite (v : Json) : Prop := ∃ x, Part.float x ∈ v.parts ∧ x.isFinite = false

/-- No number is a double, and no key of an object crosses another one. -/
def Settled (v : Json) : Prop :=
  (∀ x, Part.float x ∉ v.parts) ∧
    ∀ keys, Part.keys keys ∈ v.parts → ∀ s ∈ keys, ∀ t ∈ keys,
      crossed (decode s) (decode t) = false

end Json

variable {members : List (List CodeUnit × Json)}

@[simp] theorem mem_parts_array {items : List Json} {p : Part} :
    p ∈ (Json.array items).parts ↔ ∃ v ∈ items, p ∈ v.parts := by
  simp [parts]

@[simp] theorem mem_parts_object {p : Part} :
    p ∈ (Json.object members).parts ↔
      p = .keys (members.map Prod.fst) ∨ ∃ m ∈ members, p = .string m.1 ∨ p ∈ m.2.parts := by
  simp [parts]

variable {v : Json} {s : List CodeUnit} {ts : List Text} {t : Text} {p : ℕ}

theorem infinite_refused (h : v.Infinite) : v.Refused := by
  obtain ⟨x, hx, hfinite⟩ := h
  refine ⟨x, hx, ?_⟩
  cases x with
  | finite negative m => cases hfinite
  | infinite negative => rfl

/-! ## The runner -/

/-- **What the runner writes** of a value whose numbers are safe integers. -/
theorem canonical_ok (hsafe : v.Safe) (hrefused : ¬ v.Refused) :
    canonical v = .ok (write (runnerDoc v)) := by
  induction v using parts_induction with
  | null => rfl
  | bool b => cases b <;> rfl
  | integer n =>
    have hn := hsafe n (mem_singleton.mpr rfl)
    rw [canonical, safeInteger?, if_pos hn]
    rfl
  | float x =>
    cases hx : x.safeInteger? with
    | none => exact absurd ⟨x, mem_singleton.mpr rfl, hx⟩ hrefused
    | some n =>
      rw [canonical]
      simp [canonicalNumber, runnerDoc, doc, write, runnerNumber, integerAtom, hx]
  | string s => rfl
  | array items ih =>
    have hitems : ∀ v ∈ items, canonical v = .ok (write (runnerDoc v)) := by
      intro v hv
      refine ih v hv (fun n hn => hsafe n (mem_parts_array.mpr ⟨v, hv, hn⟩)) ?_
      rintro ⟨x, hx, hnone⟩
      exact hrefused ⟨x, mem_parts_array.mpr ⟨v, hv, hx⟩, hnone⟩
    rw [canonical, canonicalItems_eq, mapM_ok hitems]
    simp [runnerDoc, doc, write, comp_def, pure, Except.pure, bind, Except.bind]
  | object members ih =>
    have hmembers : ∀ m ∈ members, ((canonical m.2).map fun t => (m.1, t)) =
        .ok (m.1, write (runnerDoc m.2)) := by
      intro m hm
      rw [ih m hm (fun n hn => hsafe n (mem_parts_object.mpr (.inr ⟨m, hm, .inr hn⟩))) ?_]
      · rfl
      · rintro ⟨x, hx, hnone⟩
        exact hrefused ⟨x, mem_parts_object.mpr (.inr ⟨m, hm, .inr hx⟩), hnone⟩
    rw [canonical, canonicalMembers_eq, mapM_ok hmembers]
    have hsort : sortKeys (members.map fun m => (m.1, write (runnerDoc m.2))) =
        (sorted unitsLe (members.map fun m => (m.1, runnerDoc m.2))).map
          fun m => (m.1, write m.2) := by
      rw [← sorted_map, map_map]
      rfl
    simp only [bind, Except.bind, pure, Except.pure]
    rw [hsort]
    simp [runnerDoc, doc, write, writeMember, member, stringify, comp_def]

/-- A number that the runner rejects. -/
def Part.rejected : Part → Bool
  | .integer n => maxSafeInteger < n.natAbs
  | .float x => x.safeInteger?.isNone
  | _ => false

/-- **The runner rejects** a value with a number that is no safe integer. -/
theorem canonical_rejects {p : Part} (hp : p ∈ v.parts) (h : p.rejected = true) :
    ∃ e, canonical v = .error e := by
  induction v using parts_induction with
  | null | bool b => cases hp
  | integer n =>
    cases mem_singleton.mp hp
    have hn : ¬ n.natAbs ≤ maxSafeInteger := by simpa [Part.rejected] using h
    rw [canonical, safeInteger?, if_neg hn]
    exact ⟨_, rfl⟩
  | float x =>
    cases mem_singleton.mp hp
    have hx : x.safeInteger? = none := by simpa [Part.rejected] using h
    rw [canonical, hx]
    exact ⟨_, rfl⟩
  | string s =>
    cases mem_singleton.mp hp
    cases h
  | array items ih =>
    obtain ⟨v, hv, hp⟩ := mem_parts_array.mp hp
    obtain ⟨e, he⟩ := mapM_error ⟨v, hv, ih v hv hp⟩
    rw [canonical, canonicalItems_eq, he]
    exact ⟨e, rfl⟩
  | object members ih =>
    obtain rfl | ⟨m, hm, rfl | hp⟩ := mem_parts_object.mp hp
    · cases h
    · cases h
    · obtain ⟨e, he⟩ := ih m hm hp
      obtain ⟨e', he'⟩ := mapM_error (f := fun m => (canonical m.2).map fun t => (m.1, t))
        ⟨m, hm, e, by rw [he]; rfl⟩
      rw [canonical, canonicalMembers_eq, he']
      exact ⟨e', rfl⟩

theorem canonical_error (h : v.Refused) : ∃ e, canonical v = .error e := by
  obtain ⟨x, hx, hnone⟩ := h
  exact canonical_rejects hx (by rw [Part.rejected, hnone]; rfl)

/-! ## The server -/

theorem encodeBasestring_eq (h : Paired s) : encodeBasestring (decode s) = quote (decode s) := by
  have hescape : ∀ p ∈ decode s, escapeBasestring p = escape p := by
    intro p hp
    cases hshort : shortEscape p with
    | some letter => rw [escapeBasestring, escape, hshort]
    | none => simp [escapeBasestring, escape, hshort, h p hp]
  rw [encodeBasestring, quote, flatMap_congr hescape]

/-- **What the server writes** of a value without lone surrogates and infinite numbers. -/
theorem dumps_ok (hlone : ¬ v.Lone) (hinfinite : ¬ v.Infinite) :
    dumps v = .ok (write (serverDoc v)) := by
  induction v using parts_induction with
  | null => rfl
  | bool b => cases b <;> rfl
  | integer n => rfl
  | float x =>
    have hfinite : x.isFinite = true := by
      by_contra h
      exact hinfinite ⟨x, mem_singleton.mpr rfl, by simpa using h⟩
    rw [dumps, floatstr, if_pos hfinite]
    rfl
  | string s =>
    have hs : Paired s := by
      by_contra h
      exact hlone ⟨s, mem_singleton.mpr rfl, h⟩
    rw [dumps, encodeBasestring_eq hs]
    rfl
  | array items ih =>
    have hitems : ∀ v ∈ items, dumps v = .ok (write (serverDoc v)) := by
      intro v hv
      refine ih v hv ?_ ?_
      · rintro ⟨s, hs, hnot⟩
        exact hlone ⟨s, mem_parts_array.mpr ⟨v, hv, hs⟩, hnot⟩
      · rintro ⟨x, hx, hnot⟩
        exact hinfinite ⟨x, mem_parts_array.mpr ⟨v, hv, hx⟩, hnot⟩
    rw [dumps, dumpsItems_eq, mapM_ok hitems]
    simp [serverDoc, doc, write, comp_def, pure, Except.pure, bind, Except.bind]
  | object members ih =>
    have hmembers : ∀ m ∈ members, ((dumps m.2).map fun t => (m.1, t)) =
        .ok (m.1, write (serverDoc m.2)) := by
      intro m hm
      rw [ih m hm ?_ ?_]
      · rfl
      · rintro ⟨s, hs, hnot⟩
        exact hlone ⟨s, mem_parts_object.mpr (.inr ⟨m, hm, .inr hs⟩), hnot⟩
      · rintro ⟨x, hx, hnot⟩
        exact hinfinite ⟨x, mem_parts_object.mpr (.inr ⟨m, hm, .inr hx⟩), hnot⟩
    have hpaired : ∀ m ∈ members, Paired m.1 := by
      intro m hm
      by_contra h
      exact hlone ⟨m.1, mem_parts_object.mpr (.inr ⟨m, hm, .inl rfl⟩), h⟩
    rw [dumps, dumpsMembers_eq, mapM_ok hmembers]
    have hsort : sortItems (members.map fun m => (m.1, write (serverDoc m.2))) =
        (sorted pointsLe (members.map fun m => (m.1, serverDoc m.2))).map
          fun m => (m.1, write m.2) := by
      rw [← sorted_map, map_map]
      rfl
    have htexts : ∀ m ∈ sorted pointsLe (members.map fun m => (m.1, serverDoc m.2)),
        encodeBasestring (decode m.1) ++ 58 :: write m.2 = writeMember (decode m.1, m.2) := by
      intro m hm
      obtain ⟨n, hn, rfl⟩ := mem_map.mp (mem_sorted.mp hm)
      rw [encodeBasestring_eq (hpaired n hn)]
      rfl
    simp only [bind, Except.bind, pure, Except.pure]
    rw [hsort, map_map]
    rw [comp_def, map_congr_left htexts]
    simp [serverDoc, doc, write, comp_def]

/-- **The server rejects** a value with an infinite number. -/
theorem dumps_error (h : v.Infinite) : ∃ e, dumps v = .error e := by
  induction v using parts_induction with
  | null | bool b => obtain ⟨x, hx, _⟩ := h; cases hx
  | integer | string =>
    obtain ⟨x, hx, _⟩ := h
    cases mem_singleton.mp hx
  | float y =>
    obtain ⟨x, hx, hfinite⟩ := h
    cases mem_singleton.mp hx
    exact ⟨_, by rw [dumps, floatstr, hfinite]; rfl⟩
  | array items ih =>
    obtain ⟨x, hx, hfinite⟩ := h
    obtain ⟨v, hv, hx⟩ := mem_parts_array.mp hx
    obtain ⟨e, he⟩ := mapM_error ⟨v, hv, ih v hv ⟨x, hx, hfinite⟩⟩
    rw [dumps, dumpsItems_eq, he]
    exact ⟨e, rfl⟩
  | object members ih =>
    obtain ⟨x, hx, hfinite⟩ := h
    obtain hx | ⟨m, hm, hx | hx⟩ := mem_parts_object.mp hx
    · cases hx
    · cases hx
    · obtain ⟨e, he⟩ := ih m hm ⟨x, hx, hfinite⟩
      obtain ⟨e', he'⟩ := mapM_error (f := fun m => (dumps m.2).map fun t => (m.1, t))
        ⟨m, hm, e, by rw [he]; rfl⟩
      rw [dumps, dumpsMembers_eq, he']
      exact ⟨e', rfl⟩

theorem mem_commas (ht : t ∈ ts) (hp : p ∈ t) : p ∈ commas ts := by
  induction ts with
  | nil => cases ht
  | cons u ts ih =>
    cases ts with
    | nil =>
      obtain rfl := mem_singleton.mp ht
      exact hp
    | cons w ts =>
      obtain rfl | ht := mem_cons.mp ht
      · exact mem_append_left _ hp
      · exact mem_append_right _ (mem_cons_of_mem _ (ih ht))

theorem encodeBasestring_lone (h : ¬ Paired s) :
    ∃ p ∈ encodeBasestring (decode s), isSurrogate p = true := by
  obtain ⟨p, hp, hsurrogate⟩ : ∃ p ∈ decode s, isSurrogate p = true := by
    simpa [Paired] using h
  have hescape : p ∈ escapeBasestring p := by
    simp only [isSurrogate, Bool.and_eq_true, decide_eq_true_eq] at hsurrogate
    have hshort : shortEscape p = none := by
      unfold shortEscape
      split_ifs <;> first | omega | rfl
    rw [escapeBasestring, hshort]
    rw [if_neg (by omega)]
    exact mem_singleton.mpr rfl
  refine ⟨p, ?_, hsurrogate⟩
  exact mem_append_left _ (mem_cons_of_mem _ (mem_flatMap.mpr ⟨p, hp, hescape⟩))

/-- A lone surrogate stays in the text. -/
theorem dumps_lone (h : v.Lone) (ht : dumps v = .ok t) : ∃ p ∈ t, isSurrogate p = true := by
  induction v using parts_induction generalizing t with
  | null | bool b => obtain ⟨s, hs, _⟩ := h; cases hs
  | integer | float =>
    obtain ⟨s, hs, _⟩ := h
    cases mem_singleton.mp hs
  | string s =>
    obtain ⟨s, hs, hnot⟩ := h
    cases mem_singleton.mp hs
    cases ht
    exact encodeBasestring_lone hnot
  | array items ih =>
    obtain ⟨s, hs, hnot⟩ := h
    obtain ⟨v, hv, hs⟩ := mem_parts_array.mp hs
    rw [dumps, dumpsItems_eq] at ht
    cases htexts : items.mapM dumps with
    | error e =>
      rw [htexts] at ht
      cases ht
    | ok texts =>
      rw [htexts] at ht
      cases ht
      obtain ⟨u, hu, hdumps⟩ := mapM_mem htexts v hv
      obtain ⟨p, hp, hsurrogate⟩ := ih v hv ⟨s, hs, hnot⟩ hdumps
      exact ⟨p, mem_append_left _ (mem_cons_of_mem _ (mem_commas hu hp)), hsurrogate⟩
  | object members ih =>
    obtain ⟨s, hs, hnot⟩ := h
    rw [dumps, dumpsMembers_eq] at ht
    cases htexts : members.mapM fun m => (dumps m.2).map fun t => (m.1, t) with
    | error e =>
      rw [htexts] at ht
      cases ht
    | ok texts =>
      rw [htexts] at ht
      cases ht
      -- The text of a member is among the sorted ones.
      have hmember : ∀ n ∈ texts, ∀ p ∈ encodeBasestring (decode n.1) ++ 58 :: n.2,
          p ∈ 123 :: commas ((sortItems texts).map fun m =>
            encodeBasestring (decode m.1) ++ 58 :: m.2) ++ [125] := by
        intro n hn p hp
        refine mem_append_left _ (mem_cons_of_mem _ (mem_commas ?_ hp))
        exact mem_map.mpr ⟨n, mem_sorted.mpr hn, rfl⟩
      obtain hs | ⟨m, hm, hs⟩ := mem_parts_object.mp hs
      · cases hs
      · obtain ⟨n, hn, hdumps⟩ := mapM_mem htexts m hm
        cases hm2 : dumps m.2 with
        | error e =>
          rw [hm2] at hdumps
          cases hdumps
        | ok u =>
          rw [hm2] at hdumps
          cases hdumps
          obtain hs | hs := hs
          · cases hs
            obtain ⟨p, hp, hsurrogate⟩ := encodeBasestring_lone hnot
            exact ⟨p, hmember _ hn p (mem_append_left _ hp), hsurrogate⟩
          · obtain ⟨p, hp, hsurrogate⟩ := ih m hm ⟨s, hs, hnot⟩ hm2
            exact ⟨p, hmember _ hn p (mem_append_right _ (mem_cons_of_mem _ hp)), hsurrogate⟩

/-! ## The documents of the two sides -/

theorem settled_array {items : List Json} :
    (Json.array items).Settled ↔ ∀ v ∈ items, v.Settled := by
  simp only [Json.Settled, mem_parts_array, not_exists, not_and]
  grind

theorem settled_object :
    (Json.object members).Settled ↔
      (∀ s ∈ members.map Prod.fst, ∀ t ∈ members.map Prod.fst,
        crossed (decode s) (decode t) = false) ∧ ∀ m ∈ members, m.2.Settled := by
  simp only [Json.Settled, mem_parts_object]
  grind

theorem map_inj_on {α β : Type} {f : α → β} : ∀ {l l' : List α},
    (∀ a ∈ l, ∀ b ∈ l', f a = f b → a = b) → l.map f = l'.map f → l = l'
  | [], [], _, _ => rfl
  | [], _ :: _, _, h => by cases h
  | _ :: _, [], _, h => by cases h
  | a :: l, b :: l', hinj, h => by
    obtain ⟨hhead, htail⟩ := List.cons.inj h
    rw [hinj a (mem_cons_self ..) b (mem_cons_self ..) hhead,
      map_inj_on (fun c hc d hd => hinj c (mem_cons_of_mem _ hc) d
        (mem_cons_of_mem _ hd)) htail]

/-- The members that both sides write are the same when the two orders agree on the keys and
the values are written alike. -/
theorem members_eq_iff (hnodup : (members.map Prod.fst).Nodup)
    (hpaired : ∀ s ∈ members.map Prod.fst, Paired s) :
    (sorted unitsLe (members.map fun m => (m.1, runnerDoc m.2))).map
        (fun m => (decode m.1, m.2)) =
      (sorted pointsLe (members.map fun m => (m.1, serverDoc m.2))).map
        (fun m => (decode m.1, m.2)) ↔
    (∀ s ∈ members.map Prod.fst, ∀ t ∈ members.map Prod.fst, unitsLe s t = pointsLe s t) ∧
      ∀ m ∈ members, runnerDoc m.2 = serverDoc m.2 := by
  have hkeys : ∀ f : Json → Doc,
      (members.map fun m => (m.1, f m.2)).map Prod.fst = members.map Prod.fst := by
    intro f
    rw [map_map]
    rfl
  constructor
  · intro h
    have horder : ((members.map Prod.fst).insertionSort fun s t => unitsLe s t = true) =
        (members.map Prod.fst).insertionSort fun s t => pointsLe s t = true := by
      have hfst := congrArg (List.map Prod.fst) h
      rw [map_map, map_map] at hfst
      have hdecoded :
          ((members.map Prod.fst).insertionSort fun s t => unitsLe s t = true).map decode =
            ((members.map Prod.fst).insertionSort fun s t => pointsLe s t = true).map decode := by
        rw [← hkeys runnerDoc, ← sorted_keys, hkeys runnerDoc, ← hkeys serverDoc, ← sorted_keys,
          map_map, map_map]
        exact hfst
      refine map_inj_on (fun s hs t ht => ?_) hdecoded
      exact decode_injective (hpaired s ((mem_insertionSort _).mp hs))
        (hpaired t ((mem_insertionSort _).mp ht))
    refine ⟨fun s hs t ht => agree_of_sorted_eq hpaired horder hs ht, ?_⟩
    intro m hm
    -- The member of the runner's list is one of the server's, under the same key.
    have hmem : (decode m.1, runnerDoc m.2) ∈
        (sorted pointsLe (members.map fun m => (m.1, serverDoc m.2))).map
          (fun m => (decode m.1, m.2)) := by
      rw [← h]
      exact mem_map.mpr ⟨(m.1, runnerDoc m.2), mem_sorted.mpr (mem_map.mpr ⟨m, hm, rfl⟩), rfl⟩
    obtain ⟨d, hd, heq⟩ := mem_map.mp hmem
    obtain ⟨n, hn, rfl⟩ := mem_map.mp (mem_sorted.mp hd)
    obtain ⟨hdecode, hdoc⟩ := Prod.mk.inj heq
    have hkey : n.1 = m.1 := decode_injective (hpaired _ (mem_map_of_mem hn))
      (hpaired _ (mem_map_of_mem hm)) hdecode
    obtain rfl : n = m := inj_on_of_nodup_map hnodup hn hm hkey
    exact hdoc.symm
  · rintro ⟨horder, hdocs⟩
    have hvalues : (members.map fun m => (m.1, runnerDoc m.2)) =
        members.map fun m => (m.1, serverDoc m.2) :=
      map_congr_left fun m hm => by rw [hdocs m hm]
    rw [hvalues, sorted_congr]
    rw [hkeys serverDoc]
    exact horder

/-- **When both sides write one document.** -/
theorem docs_eq_iff (hdistinct : ∀ keys, Part.keys keys ∈ v.parts → keys.Nodup)
    (hlone : ¬ v.Lone) : runnerDoc v = serverDoc v ↔ v.Settled := by
  induction v using parts_induction with
  | null | bool b | integer n => simp [runnerDoc, serverDoc, doc, Json.Settled, parts]
  | float x =>
    have hne : runnerDoc (.float x) ≠ serverDoc (.float x) := by
      intro h
      exact integerAtom_ne_floatAtom _ _ (Doc.atom.inj h)
    simp [hne, Json.Settled, parts]
  | string s => simp [runnerDoc, serverDoc, doc, Json.Settled, parts]
  | array items ih =>
    have hitems : ∀ v ∈ items, (runnerDoc v = serverDoc v ↔ v.Settled) := by
      intro v hv
      refine ih v hv (fun keys h => hdistinct keys (mem_parts_array.mpr ⟨v, hv, h⟩)) ?_
      rintro ⟨s, hs, hnot⟩
      exact hlone ⟨s, mem_parts_array.mpr ⟨v, hv, hs⟩, hnot⟩
    have hdocs : runnerDoc (.array items) = serverDoc (.array items) ↔
        items.map runnerDoc = items.map serverDoc := by
      simp [runnerDoc, serverDoc, doc]
    rw [hdocs, map_inj_left, settled_array]
    exact forall₂_congr hitems
  | object members ih =>
    have hmembers : ∀ m ∈ members, (runnerDoc m.2 = serverDoc m.2 ↔ m.2.Settled) := by
      intro m hm
      refine ih m hm
        (fun keys h => hdistinct keys (mem_parts_object.mpr (.inr ⟨m, hm, .inr h⟩))) ?_
      rintro ⟨s, hs, hnot⟩
      exact hlone ⟨s, mem_parts_object.mpr (.inr ⟨m, hm, .inr hs⟩), hnot⟩
    have hpaired : ∀ s ∈ members.map Prod.fst, Paired s := by
      intro s hs
      obtain ⟨m, hm, rfl⟩ := mem_map.mp hs
      by_contra h
      exact hlone ⟨m.1, mem_parts_object.mpr (.inr ⟨m, hm, .inl rfl⟩), h⟩
    have hnodup := hdistinct _ (mem_parts_object.mpr (.inl rfl))
    have hdocs : runnerDoc (.object members) = serverDoc (.object members) ↔
        (sorted unitsLe (members.map fun m => (m.1, runnerDoc m.2))).map
            (fun m => (decode m.1, m.2)) =
          (sorted pointsLe (members.map fun m => (m.1, serverDoc m.2))).map
            (fun m => (decode m.1, m.2)) := by
      simp only [runnerDoc, serverDoc, doc, memberDocs_eq, Doc.object.injEq]
    rw [hdocs, members_eq_iff hnodup hpaired, settled_object]
    refine and_congr ?_ (forall₂_congr hmembers)
    constructor
    · intro h s hs t ht
      exact ((unitsLe_eq_pointsLe (hpaired s hs) (hpaired t ht)).mp (h s hs t ht)).1
    · intro h s hs t ht
      exact (unitsLe_eq_pointsLe (hpaired s hs) (hpaired t ht)).mpr ⟨h s hs t ht, h t ht s hs⟩

/-! ## Bytes -/

/-- A code point that UTF-8 encodes. -/
def IsScalar (p : ℕ) : Prop := p < 0x110000 ∧ isSurrogate p = false

theorem isScalar_of_lt (h : p < 0xD800) : IsScalar p := by
  refine ⟨by omega, ?_⟩
  simp only [isSurrogate, Bool.and_eq_false_iff, decide_eq_false_iff_not]
  omega

theorem isScalar_of_plain (h : isPlain p = true) : IsScalar p := by
  refine isScalar_of_lt ?_
  simp only [isPlain, Bool.or_eq_true, Bool.and_eq_true, beq_iff_eq, decide_eq_true_eq] at h
  omega

theorem escape_isScalar (hp : p < 0x110000) {c : ℕ} (h : c ∈ escape p) : IsScalar c := by
  unfold escape at h
  split at h
  · next letter hshort =>
    have hletter : letter < 128 := by
      unfold shortEscape at hshort
      split_ifs at hshort
      all_goals
        cases hshort
        omega
    refine isScalar_of_lt ?_
    simp only [mem_cons, not_mem_nil, or_false] at h
    omega
  · split at h
    · have hdigit : ∀ n, n < 16 → hexDigit n < 128 := by
        intro n hn
        unfold hexDigit
        split <;> omega
      have hmod : ∀ k, hexDigit (k % 16) < 128 := fun k => hdigit _ (Nat.mod_lt _ (by omega))
      refine isScalar_of_lt ?_
      simp only [unicodeEscape, mem_cons, not_mem_nil, or_false] at h
      obtain rfl | rfl | rfl | rfl | rfl | rfl := h
      · omega
      · omega
      all_goals exact (hmod _).trans (by omega)
    · next hraw =>
      obtain rfl := mem_singleton.mp h
      refine ⟨hp, ?_⟩
      by_contra hsurrogate
      simp [hsurrogate] at hraw

theorem quote_isScalar {c : ℕ} (h : c ∈ quote (decode s)) : IsScalar c := by
  obtain h | h := mem_append.mp h
  · obtain rfl | h := mem_cons.mp h
    · exact isScalar_of_lt (by omega)
    · obtain ⟨p, hp, hc⟩ := mem_flatMap.mp h
      exact escape_isScalar (decode_lt s p hp) hc
  · obtain rfl := mem_singleton.mp h
    exact isScalar_of_lt (by omega)

theorem commas_isScalar (h : ∀ t ∈ ts, ∀ p ∈ t, IsScalar p) : ∀ p ∈ commas ts, IsScalar p := by
  induction ts with
  | nil =>
    intro p hp
    cases hp
  | cons t ts ih =>
    intro p hp
    cases ts with
    | nil => exact h t (mem_cons_self ..) p hp
    | cons u ts =>
      obtain hp | hp := mem_append.mp hp
      · exact h t (mem_cons_self ..) p hp
      · obtain rfl | hp := mem_cons.mp hp
        · exact isScalar_of_lt (by omega)
        · exact ih (fun w hw => h w (mem_cons_of_mem _ hw)) p hp

/-- A text of commas between two brackets. -/
theorem bracketed_isScalar {a b : ℕ} (ha : a < 128) (hb : b < 128)
    (h : ∀ t ∈ ts, ∀ p ∈ t, IsScalar p) : ∀ p ∈ a :: commas ts ++ [b], IsScalar p := by
  intro p hp
  obtain hp | hp := mem_append.mp hp
  · obtain rfl | hp := mem_cons.mp hp
    · exact isScalar_of_lt (by omega)
    · exact commas_isScalar h p hp
  · obtain rfl := mem_singleton.mp hp
    exact isScalar_of_lt (by omega)

/-- **What is written has no surrogate.** -/
theorem write_isScalar (le : List CodeUnit → List CodeUnit → Bool) (number : Double → Atom)
    (v : Json) : ∀ p ∈ write (doc le number v), IsScalar p := by
  have hatom : ∀ a : Atom, ∀ p ∈ write (.atom a), IsScalar p :=
    fun a p hp => isScalar_of_plain (a.plain p hp)
  induction v using parts_induction with
  | null => exact hatom _
  | bool b => cases b <;> exact hatom _
  | integer n | float x => exact hatom _
  | string s => exact fun p hp => quote_isScalar hp
  | array items ih =>
    rw [doc, write, writeItems_eq, itemDocs_eq]
    refine bracketed_isScalar (by omega) (by omega) ?_
    intro t ht
    obtain ⟨d, hd, rfl⟩ := mem_map.mp ht
    obtain ⟨v, hv, rfl⟩ := mem_map.mp hd
    exact ih v hv
  | object members ih =>
    rw [doc, write, writeMembers_eq, memberDocs_eq]
    refine bracketed_isScalar (by omega) (by omega) ?_
    intro t ht p hp
    obtain ⟨d, hd, rfl⟩ := mem_map.mp ht
    obtain ⟨e, he, rfl⟩ := mem_map.mp hd
    obtain ⟨m, hm, rfl⟩ := mem_map.mp (mem_sorted.mp he)
    obtain hp | hp := mem_append.mp hp
    · exact quote_isScalar hp
    · obtain rfl | hp := mem_cons.mp hp
      · exact isScalar_of_lt (by omega)
      · exact ih m hm p hp

theorem toNat_ofNat_of_isScalar (h : IsScalar p) : (Char.ofNat p).toNat = p := by
  have hvalid : p.isValidChar := by
    obtain ⟨hlt, hsurrogate⟩ := h
    simp only [isSurrogate, Bool.and_eq_false_iff, decide_eq_false_iff_not] at hsurrogate
    omega
  rw [Char.ofNat, dif_pos hvalid]
  rfl

def utf8 (t : Text) : ByteArray := (String.ofList (t.map Char.ofNat)).toUTF8

theorem utf8_injective {t t' : Text} (ht : ∀ p ∈ t, IsScalar p) (ht' : ∀ p ∈ t', IsScalar p)
    (h : utf8 t = utf8 t') : t = t' := by
  have hchars : t.map Char.ofNat = t'.map Char.ofNat :=
    String.ofList_injective (String.toByteArray_inj.mp h)
  refine map_inj_on (fun p hp q hq hpq => ?_) hchars
  rw [← toNat_ofNat_of_isScalar (ht p hp), ← toNat_ofNat_of_isScalar (ht' q hq), hpq]

theorem update_eq (ht : ∀ p ∈ t, IsScalar p) : update t = utf8 t := by
  have hmap : (t.map fun p => if isSurrogate p then Char.ofNat 0xFFFD else Char.ofNat p) =
      t.map Char.ofNat :=
    map_congr_left fun p hp => by rw [(ht p hp).2]; rfl
  rw [update, hmap, utf8]

theorem encode_eq (ht : ∀ p ∈ t, IsScalar p) : encode t = .ok (utf8 t) := by
  have hnone : t.any isSurrogate = false := by
    rw [any_eq_false]
    intro p hp
    rw [(ht p hp).2]
    exact Bool.false_ne_true
  rw [encode, hnone]
  rfl

/-! ## Same bytes -/

variable {v : Value}

theorem digestInput_ok (hsafe : v.json.Safe) (h : ¬ v.json.Refused) :
    digestInput v = .ok (utf8 (write (runnerDoc v.json))) := by
  rw [digestInput, canonical_ok hsafe h]
  exact congrArg Except.ok (update_eq (write_isScalar _ _ _))

theorem digestInput_error (h : v.json.Refused) : ∃ e, digestInput v = .error e := by
  obtain ⟨e, he⟩ := canonical_error h
  exact ⟨e, by rw [digestInput, he]; rfl⟩

theorem canonicalJson_ok (hlone : ¬ v.json.Lone) (hinfinite : ¬ v.json.Infinite) :
    canonicalJson v = .ok (utf8 (write (serverDoc v.json))) := by
  rw [canonicalJson, dumps_ok hlone hinfinite]
  exact encode_eq (write_isScalar _ _ _)

theorem canonicalJson_error (h : v.json.Lone ∨ v.json.Infinite) :
    ∃ e, canonicalJson v = .error e := by
  cases ht : dumps v.json with
  | error e => exact ⟨e, by rw [canonicalJson, ht]; rfl⟩
  | ok t =>
    obtain hlone | hinfinite := h
    · obtain ⟨p, hp, hsurrogate⟩ := dumps_lone hlone ht
      have hany : t.any isSurrogate = true := any_eq_true.mpr ⟨p, hp, hsurrogate⟩
      refine ⟨"surrogates not allowed", ?_⟩
      rw [canonicalJson, ht]
      exact if_pos hany
    · obtain ⟨e, he⟩ := dumps_error hinfinite
      rw [ht] at he
      cases he

/-- Both sides reject the value; or it has neither doubles nor lone surrogates, and no object
has two keys that first differ at a character of `U+E000`..`U+FFFF` in one and at a character
above `U+FFFF` in the other. -/
def Agrees (v : Json) : Prop :=
  v.Refused ∧ (v.Lone ∨ v.Infinite) ∨ ¬ v.Lone ∧ v.Settled

/-- **Both sides hash the same bytes, or both reject**, exactly for the values that agree. -/
theorem same_bytes_iff (v : Value) (hsafe : v.json.Safe) : SameBytes v ↔ Agrees v.json := by
  unfold SameBytes Agrees
  have hdoubles : v.json.Settled → ¬ v.json.Refused := by
    rintro hsettled ⟨x, hx, _⟩
    exact hsettled.1 x hx
  by_cases hrefused : v.json.Refused
  · -- The runner rejects the value, so the server has to.
    obtain ⟨e, he⟩ := digestInput_error hrefused
    have hsettled : ¬ v.json.Settled := fun h => hdoubles h hrefused
    by_cases hserver : v.json.Lone ∨ v.json.Infinite
    · obtain ⟨e', he'⟩ := canonicalJson_error hserver
      rw [he, he']
      exact iff_of_true trivial (.inl ⟨hrefused, hserver⟩)
    · obtain ⟨hlone, hinfinite⟩ := not_or.mp hserver
      rw [he, canonicalJson_ok hlone hinfinite]
      refine iff_of_false id ?_
      rintro (⟨_, h⟩ | ⟨_, h⟩)
      · exact hserver h
      · exact hsettled h
  · have hinfinite : ¬ v.json.Infinite := fun h => hrefused (infinite_refused h)
    rw [digestInput_ok hsafe hrefused]
    by_cases hlone : v.json.Lone
    · obtain ⟨e, he⟩ := canonicalJson_error (.inl hlone)
      rw [he]
      refine iff_of_false id ?_
      rintro (⟨h, _⟩ | ⟨h, _⟩)
      · exact hrefused h
      · exact h hlone
    · -- Both accept the value, and the bytes are the same if the documents are.
      rw [canonicalJson_ok hlone hinfinite]
      have hbytes : utf8 (write (runnerDoc v.json)) = utf8 (write (serverDoc v.json)) ↔
          v.json.Settled := by
        rw [← docs_eq_iff v.distinct hlone]
        refine ⟨fun h => write_injective ?_, fun h => by rw [h]⟩
        exact utf8_injective (write_isScalar _ _ _) (write_isScalar _ _ _) h
      refine hbytes.trans ⟨fun h => .inr ⟨hlone, h⟩, ?_⟩
      rintro (⟨h, _⟩ | ⟨_, h⟩)
      · exact absurd h hrefused
      · exact h

/-- `{"b": [1, "U+1F600"], "a": -7}`. -/
def twoKeysJson : Json :=
  .object [([0x62], .array [.integer 1, .string [0xD83D, 0xDE00]]), ([0x61], .integer (-7))]

theorem twoKeys_distinct : ∀ keys, Part.keys keys ∈ twoKeysJson.parts → keys.Nodup := by
  intro keys h
  obtain rfl : keys = [[0x62], [0x61]] := by simpa [twoKeysJson, parts] using h
  decide

def twoKeys : Value := ⟨twoKeysJson, twoKeys_distinct⟩

theorem twoKeys_same : SameBytes twoKeys := by
  refine (same_bytes_iff twoKeys ?_).mpr (.inr ⟨?_, ?_, ?_⟩)
  · intro n hn
    obtain rfl | rfl : n = 1 ∨ n = -7 := by simpa [twoKeys, twoKeysJson, Json.parts] using hn
    all_goals decide
  · rintro ⟨s, hs, hnot⟩
    obtain rfl | rfl | rfl : s = [0x62] ∨ s = [0xD83D, 0xDE00] ∨ s = [0x61] := by
      simpa [twoKeys, twoKeysJson, Json.parts] using hs
    all_goals exact hnot (by decide)
  · intro x
    simp [twoKeys, twoKeysJson, Json.parts]
  · intro keys h
    obtain rfl : keys = [[0x62], [0x61]] := by simpa [twoKeys, twoKeysJson, Json.parts] using h
    decide

/-- An object whose keys are `U+1F600` and `U+E000`. -/
def crossedKeysJson : Json := .object [([0xD83D, 0xDE00], .null), ([0xE000], .null)]

theorem crossedKeys_distinct : ∀ keys, Part.keys keys ∈ crossedKeysJson.parts → keys.Nodup := by
  intro keys h
  obtain rfl : keys = [[0xD83D, 0xDE00], [0xE000]] := by simpa [crossedKeysJson, parts] using h
  decide

def crossedKeys : Value := ⟨crossedKeysJson, crossedKeys_distinct⟩

/-- The two sides sort the keys of one value differently. -/
theorem not_same_bytes : ¬ ∀ v : Value, v.json.Safe → SameBytes v := by
  intro h
  have hsafe : crossedKeys.json.Safe := by simp [crossedKeys, crossedKeysJson, Json.Safe, Json.parts]
  have hsame := h crossedKeys hsafe
  revert hsame
  decide

/-- Only the server rejects a lone surrogate. -/
example : ¬ SameBytes ⟨.string [0xD800], by simp [Json.parts]⟩ := by decide

end GrowTeam.Canonical
