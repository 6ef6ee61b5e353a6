/-
# The promise of the rate limiter

Which keys Redis has dropped makes no difference: when the key of the fields expires, all stored
times lie in the past, where they count as now.  So the meters of the rules are those of the
algorithm, and the bound on the requests of an interval is the bound of each meter.
-/
import GrowTeam.RateLimiter.Script
import Mathlib.Tactic.FieldSimp

namespace GrowTeam.RateLimiter

open Gcra History List Function Rule Store

variable {rules : List Rule} {rule last : Rule} {s s' : Store} {now : ℚ} {gone : ℚ → ℚ → Bool}

/-! ## One scan of the rules -/

section Scan

variable {a b c : Seconds} {sc : Scan}

theorem not_exceeds_self : exceeds a a = false := by
  cases a <;> simp [exceeds]

theorem not_exceeds_trans (hab : exceeds a b = false) (hbc : exceeds b c = false) :
    exceeds a c = false := by
  cases a <;> cases b <;> cases c <;> simp_all [exceeds]
  exact le_trans hab hbc

/-- The larger of two. -/
theorem not_exceeds_if : exceeds a (if exceeds b a then b else a) = false ∧
    exceeds b (if exceeds b a then b else a) = false := by
  cases h : exceeds b a
  · exact ⟨not_exceeds_self, h⟩
  · refine ⟨?_, not_exceeds_self⟩
    cases a <;> cases b <;> simp_all [exceeds]
    exact h.le

/-- The meter of the rule overflows. -/
def Rule.overflows (rule : Rule) (s : Store) (now : ℚ) : Bool :=
  exceeds (rule.newTat s now) (some (now + rule.window))

theorem foldl_newTats :
    (rules.foldl (scanRule s now) sc).newTats =
      sc.newTats ++ rules.map fun rule => (rule.field, rule.newTat s now) := by
  induction rules generalizing sc with
  | nil => simp
  | cons rule rules ih => rw [foldl_cons, ih, scanRule, append_assoc]; rfl

theorem foldl_limited :
    (rules.foldl (scanRule s now) sc).limited = true ↔
      sc.limited = true ∨ ∃ rule ∈ rules, rule.overflows s now = true := by
  induction rules generalizing sc with
  | nil => simp
  | cons rule rules ih =>
    have hturn : (scanRule s now sc rule).limited = (sc.limited || rule.overflows s now) := rfl
    rw [foldl_cons, ih, exists_mem_cons_iff, ← or_assoc, hturn, Bool.or_eq_true]

variable (rules s now sc) in
theorem foldl_maxTtl :
    (rules.foldl (scanRule s now) sc).maxTtl = sc.maxTtl ∨ ∃ rule ∈ rules,
      (rules.foldl (scanRule s now) sc).maxTtl = (rule.newTat s now).map fun tat => tat - now := by
  induction rules generalizing sc with
  | nil => exact .inl rfl
  | cons rule rules ih =>
    rw [foldl_cons, exists_mem_cons_iff]
    rcases ih (scanRule s now sc rule) with hsame | hlater
    · rw [hsame]
      unfold scanRule
      dsimp only
      split
      · exact .inr (.inl rfl)
      · exact .inl rfl
    · exact .inr (.inr hlater)

variable (rules s now sc) in
theorem remaining_le :
    exceeds sc.maxTtl (rules.foldl (scanRule s now) sc).maxTtl = false ∧ ∀ rule ∈ rules,
      exceeds ((rule.newTat s now).map fun tat => tat - now)
        (rules.foldl (scanRule s now) sc).maxTtl = false := by
  induction rules generalizing sc with
  | nil => exact ⟨not_exceeds_self, by simp⟩
  | cons rule rules ih =>
    rw [foldl_cons]
    obtain ⟨hfirst, hrest⟩ := ih (scanRule s now sc rule)
    have hturn := not_exceeds_if (a := sc.maxTtl)
      (b := (rule.newTat s now).map fun tat => tat - now)
    refine ⟨not_exceeds_trans hturn.1 hfirst, ?_⟩
    intro other hother
    rcases mem_cons.mp hother with rfl | hother
    · exact not_exceeds_trans hturn.2 hfirst
    · exact hrest other hother

variable (rules s now sc) in
theorem freedom_le :
    exceeds sc.secsToFreedom (rules.foldl (scanRule s now) sc).secsToFreedom = false ∧
      ∀ rule ∈ rules, rule.overflows s now = true →
        exceeds ((rule.newTat s now).map fun tat => tat - rule.window - now)
          (rules.foldl (scanRule s now) sc).secsToFreedom = false := by
  induction rules generalizing sc with
  | nil => exact ⟨not_exceeds_self, by simp⟩
  | cons rule rules ih =>
    rw [foldl_cons]
    obtain ⟨hfirst, hrest⟩ := ih (scanRule s now sc rule)
    have hturn := not_exceeds_if (a := sc.secsToFreedom)
      (b := (rule.newTat s now).map fun tat => tat - rule.window - now)
    have hsecs : (scanRule s now sc rule).secsToFreedom =
        if rule.overflows s now && exceeds ((rule.newTat s now).map fun tat =>
          tat - rule.window - now) sc.secsToFreedom then
          (rule.newTat s now).map fun tat => tat - rule.window - now
        else sc.secsToFreedom := rfl
    refine ⟨not_exceeds_trans ?_ hfirst, ?_⟩
    · rw [hsecs]
      cases rule.overflows s now
      · exact not_exceeds_self
      · exact hturn.1
    · intro other hother hover
      rcases mem_cons.mp hother with rfl | hother
      · refine not_exceeds_trans ?_ hfirst
        rw [hsecs, hover]
        exact hturn.2
      · exact hrest other hother hover

/-- A scan only looks at the new times. -/
theorem scan_congr (h : ∀ rule ∈ rules, rule.newTat s now = rule.newTat s' now) :
    scan rules s now = scan rules s' now := by
  unfold scan
  generalize (⟨[], some 0, false, some 0⟩ : Scan) = sc
  induction rules generalizing sc with
  | nil => rfl
  | cons rule rules ih =>
    have hturn : scanRule s now sc rule = scanRule s' now sc rule := by
      unfold scanRule
      rw [h rule mem_cons_self]
    rw [foldl_cons, foldl_cons, hturn,
      ih (fun r hr => h r (mem_cons_of_mem _ hr)) (scanRule s' now sc rule)]

end Scan

/-! ## What is written -/

variable {tats : ℕ × ℕ → Option ℚ}

theorem hset_eq {newTats : List ((ℕ × ℕ) × Seconds)} {f : ℕ × ℕ}
    {v : Seconds} (h : ∀ e ∈ newTats, e.1 = f → e.2 = v) :
    ((∃ e ∈ newTats, e.1 = f) → hset tats newTats f = v) ∧
      ((∀ e ∈ newTats, e.1 ≠ f) → hset tats newTats f = tats f) := by
  unfold hset
  induction newTats generalizing tats with
  | nil => simp
  | cons e newTats ih =>
    obtain ⟨hsome, hnone⟩ := @ih (update tats e.1 e.2)
      fun e' he' => h e' (mem_cons_of_mem _ he')
    rw [foldl_cons]
    constructor
    · intro hex
      by_cases hlater : ∃ e' ∈ newTats, e'.1 = f
      · exact hsome hlater
      · have hfirst : e.1 = f := by
          obtain ⟨e', he', hf⟩ := hex
          rcases mem_cons.mp he' with rfl | he'
          · exact hf
          · exact absurd ⟨e', he', hf⟩ hlater
        rw [hnone fun e' he' hf => hlater ⟨e', he', hf⟩, ← hfirst, update_self]
        exact h e mem_cons_self hfirst
    · intro hall
      rw [hnone fun e' he' => hall e' (mem_cons_of_mem _ he'),
        update_of_ne (hall e mem_cons_self).symm]

/-- Rules with one field are one rule. -/
theorem newTat_of_field {rule other : Rule} (h : other.field = rule.field) :
    other.newTat s now = rule.newTat s now := by
  obtain ⟨window, limit, hpos⟩ := rule
  obtain ⟨rfl, rfl⟩ := Prod.mk.inj h
  rfl

theorem hset_field (hrule : rule ∈ rules) :
    hset tats (rules.map fun rule => (rule.field, rule.newTat s now)) rule.field =
      rule.newTat s now := by
  refine (hset_eq ?_).1 ⟨_, mem_map_of_mem hrule, rfl⟩
  intro e he hf
  obtain ⟨other, -, rfl⟩ := mem_map.mp he
  exact newTat_of_field hf

theorem hset_other {f : ℕ × ℕ} (h : ∀ rule ∈ rules, rule.field ≠ f) :
    hset tats (rules.map fun rule => (rule.field, rule.newTat s now)) f = tats f := by
  have hall : ∀ e ∈ rules.map fun rule => (rule.field, rule.newTat s now), e.1 ≠ f := by
    intro e he
    obtain ⟨rule, hrule, rfl⟩ := mem_map.mp he
    exact h rule hrule
  exact (hset_eq (v := none) fun e he hf => absurd hf (hall e he)).2 hall

/-! ## One request -/

/-- The time of a meter, where a stored time that lies in the past counts as now. -/
def Rule.tat (rule : Rule) (s : Store) (now : ℚ) : ℚ := later ((s.tats rule.field).getD now) now

/-- The time between requests at the pace of a rule that lets some through. -/
def Rule.interval (rule : Rule) : ℚ := (rule.window : ℚ) / rule.limit

theorem Rule.interval_pos (hlimit : rule.limit ≠ 0) : 0 < rule.interval :=
  div_pos (Nat.cast_pos.mpr rule.window_pos) (Nat.cast_pos.mpr (Nat.pos_of_ne_zero hlimit))

theorem Rule.interval_le (rule : Rule) : rule.interval ≤ rule.window := by
  unfold interval
  rcases Nat.eq_zero_or_pos rule.limit with hzero | hpos
  · rw [hzero, Nat.cast_zero, div_zero]
    exact Nat.cast_nonneg _
  · exact div_le_self (Nat.cast_nonneg _) (Nat.one_le_cast.mpr hpos)

theorem newTat_of_limit (hlimit : rule.limit ≠ 0) :
    rule.newTat s now = some (rule.tat s now + rule.interval) := by
  unfold newTat emissionInterval
  rw [if_neg hlimit]
  rfl

/-- What it means that a meter does not overflow. -/
theorem overflows_eq_false :
    rule.overflows s now = false ↔
      rule.limit ≠ 0 ∧ rule.tat s now + rule.interval ≤ now + rule.window := by
  unfold overflows
  by_cases hlimit : rule.limit = 0
  · unfold newTat emissionInterval
    simp [exceeds, hlimit]
  · rw [newTat_of_limit hlimit]
    simp [exceeds, hlimit]

theorem script_of_limited (hblock : s.blockedUntil = none)
    (h : ∃ rule ∈ rules, rule.overflows s now = true) :
    script rules last now s = (⟨true, (scan rules s now).secsToFreedom, 0, 0⟩, s) := by
  have hlimited : (scan rules s now).limited = true := foldl_limited.mpr (.inr h)
  unfold script
  rw [hblock]
  exact if_pos hlimited

theorem script_of_free (hblock : s.blockedUntil = none)
    (h : ∀ rule ∈ rules, rule.overflows s now = false) :
    script rules last now s = (allowed now last (last.newTat s now),
      { s with
        tats := hset s.tats (rules.map fun rule => (rule.field, rule.newTat s now))
        expiresAt := expire now (scan rules s now).maxTtl s.expiresAt }) := by
  have hfree : ¬(scan rules s now).limited = true := by
    intro hlimited
    rcases foldl_limited.mp hlimited with hstart | ⟨rule, hrule, hover⟩
    · cases hstart
    · rw [h rule hrule] at hover
      cases hover
  have hnew : (scan rules s now).newTats =
      rules.map fun rule => (rule.field, rule.newTat s now) := by
    unfold scan
    rw [foldl_newTats]
    rfl
  unfold script
  rw [hblock, ← hnew]
  exact if_neg hfree

/-! ## Expiry -/

/-- Nothing expires before the times that are stored. -/
structure Lasting (rules : List Rule) (s : Store) : Prop where
  unblocked : s.blockedUntil = none
  expires : ∀ f tat, s.tats f = some tat → ∃ deadline ∈ s.expiresAt, tat ≤ deadline
  fields : ∀ f tat, s.tats f = some tat → ∃ rule ∈ rules, rule.field = f

theorem Lasting.find (h : Lasting rules s) : Lasting rules (s.find gone now) := by
  unfold Store.find
  cases hgone : s.expiresAt.any (gone · now)
  · refine ⟨?_, h.expires, h.fields⟩
    rw [h.unblocked]
    rfl
  · refine ⟨?_, by simp, by simp⟩
    rw [h.unblocked]
    rfl

/-- A key that has expired made no difference. -/
theorem tat_find (h : Lasting rules s)
    (hgone : ∀ deadline now, gone deadline now = true → deadline ≤ now) {t : ℚ} (ht : now ≤ t) :
    rule.tat (s.find gone now) t = rule.tat s t := by
  unfold Rule.tat Store.find
  cases hexpired : s.expiresAt.any (gone · now)
  · rfl
  · rw [if_pos rfl]
    cases hstored : s.tats rule.field with
    | none => rfl
    | some tat =>
      obtain ⟨deadline, hdeadline, hle⟩ := h.expires _ _ hstored
      rw [hdeadline] at hexpired
      have hpast : tat ≤ t := hle.trans ((hgone deadline now hexpired).trans ht)
      rw [Option.getD_none, Option.getD_some, later_of_le le_rfl, later_of_le hpast]

/-- The key is set to expire after all the times that are written. -/
theorem Lasting.accept (h : Lasting rules s) (hrules : rules ≠ [])
    (hfree : ∀ rule ∈ rules, rule.overflows s now = false) :
    Lasting rules { s with
      tats := hset s.tats (rules.map fun rule => (rule.field, rule.newTat s now))
      expiresAt := expire now (scan rules s now).maxTtl s.expiresAt } := by
  have hnew : ∀ rule ∈ rules, rule.newTat s now = some (rule.tat s now + rule.interval) ∧
      now < rule.tat s now + rule.interval := by
    intro rule hrule
    obtain ⟨hlimit, -⟩ := overflows_eq_false.mp (hfree rule hrule)
    have hlate : now ≤ rule.tat s now := right_le_later
    exact ⟨newTat_of_limit hlimit, by linarith [interval_pos hlimit]⟩
  obtain ⟨first, hfirst⟩ := exists_mem_of_ne_nil rules hrules
  have hle := (remaining_le rules s now ⟨[], some 0, false, some 0⟩).2
  obtain ⟨maxTtl, hmax⟩ : ∃ maxTtl, (scan rules s now).maxTtl = some maxTtl := by
    rcases foldl_maxTtl rules s now ⟨[], some 0, false, some 0⟩ with hstart | ⟨rule, hrule, hmax⟩
    · exact ⟨0, hstart⟩
    · exact ⟨_, by rw [scan, hmax, (hnew rule hrule).1]; rfl⟩
  have hbound : ∀ rule ∈ rules, rule.tat s now + rule.interval - now ≤ maxTtl := by
    intro rule hrule
    have hremaining := hle rule hrule
    rw [← scan, hmax, (hnew rule hrule).1] at hremaining
    exact not_lt.mp (of_decide_eq_false hremaining)
  have hpos : 0 < ⌈maxTtl⌉ := by
    rw [Int.ceil_pos]
    linarith [hbound first hfirst, (hnew first hfirst).2]
  have hexpire : expire now (scan rules s now).maxTtl s.expiresAt =
      some (now + (⌈maxTtl⌉ : ℤ)) := by
    rw [hmax]
    exact if_pos hpos
  have hfields : ∀ f tat, hset s.tats (rules.map fun rule => (rule.field, rule.newTat s now)) f =
      some tat → ∃ rule ∈ rules, rule.field = f := by
    intro f tat hstored
    by_contra hnot
    push Not at hnot
    rw [hset_other hnot] at hstored
    obtain ⟨rule, hrule, hf⟩ := h.fields f tat hstored
    exact hnot rule hrule hf
  refine ⟨h.unblocked, ?_, hfields⟩
  intro f tat hstored
  obtain ⟨rule, hrule, rfl⟩ := hfields f tat hstored
  dsimp only at hstored ⊢
  rw [hset_field hrule, (hnew rule hrule).1, Option.some.injEq] at hstored
  refine ⟨_, hexpire, ?_⟩
  have hceil : maxTtl ≤ (⌈maxTtl⌉ : ℤ) := Int.le_ceil maxTtl
  linarith [hbound rule hrule]

/-! ## A store whose keys stay -/

/-- No key is ever dropped. -/
def keepsAll (_ _ : ℚ) : Bool := false

theorem find_keepsAll : s.find keepsAll now = s := by
  obtain ⟨tats, expiresAt, blockedUntil⟩ := s
  cases expiresAt <;> rcases blockedUntil with - | - | deadline <;> rfl

/-- What a request does where no key is dropped, if it is not let through. -/
theorem entity_of_limited (hrules : rules ≠ []) (hblock : s.blockedUntil = none)
    (h : ∃ rule ∈ rules, rule.overflows s now = true) :
    rateLimitEntity keepsAll rules now s =
      (some ⟨true, (scan rules s now).secsToFreedom, 0, 0⟩, s) := by
  unfold rateLimitEntity
  rw [getLast?_eq_some_getLast hrules, find_keepsAll]
  dsimp only
  rw [script_of_limited hblock h]

theorem entity_of_free (hrules : rules ≠ []) (hblock : s.blockedUntil = none)
    (h : ∀ rule ∈ rules, rule.overflows s now = false) :
    rateLimitEntity keepsAll rules now s =
      (some (allowed now (rules.getLast hrules) ((rules.getLast hrules).newTat s now)),
        { s with
          tats := hset s.tats (rules.map fun rule => (rule.field, rule.newTat s now))
          expiresAt := expire now (scan rules s now).maxTtl s.expiresAt }) := by
  unfold rateLimitEntity
  rw [getLast?_eq_some_getLast hrules, find_keepsAll]
  dsimp only
  rw [script_of_free hblock h]

/-- No meter overflows, or one does. -/
theorem free_or_limited (rules : List Rule) (s : Store) (now : ℚ) :
    (∀ rule ∈ rules, rule.overflows s now = false) ∨
      ∃ rule ∈ rules, rule.overflows s now = true := by
  by_cases h : ∃ rule ∈ rules, rule.overflows s now = true
  · exact .inr h
  · left
    intro rule hrule
    by_contra hover
    exact h ⟨rule, hrule, by simpa using hover⟩

/-- Two stores whose meters show the same from some time on, the first of which may lose keys. -/
structure Same (rules : List Rule) (now : ℚ) (s s' : Store) : Prop where
  lasting : Lasting rules s
  unblocked : s'.blockedUntil = none
  tats : ∀ rule ∈ rules, ∀ t, now ≤ t → rule.tat s t = rule.tat s' t

theorem Same.mono {t : ℚ} (h : Same rules now s s') (ht : now ≤ t) : Same rules t s s' :=
  ⟨h.lasting, h.unblocked, fun rule hrule _ hle => h.tats rule hrule _ (ht.trans hle)⟩

theorem newTat_congr (h : rule.tat s now = rule.tat s' now) :
    rule.newTat s now = rule.newTat s' now := by
  by_cases hlimit : rule.limit = 0
  · unfold newTat emissionInterval
    rw [if_pos hlimit]
    rfl
  · rw [newTat_of_limit hlimit, newTat_of_limit hlimit, h]

/-- A request has the same reply, and leaves the meters the same. -/
theorem Same.step {t : ℚ} (h : Same rules now s s') (ht : now ≤ t)
    (hgone : ∀ deadline now, gone deadline now = true → deadline ≤ now) :
    (rateLimitEntity gone rules t s).1 = (rateLimitEntity keepsAll rules t s').1 ∧
      Same rules t (rateLimitEntity gone rules t s).2 (rateLimitEntity keepsAll rules t s').2 := by
  by_cases hrules : rules = []
  · subst hrules
    exact ⟨rfl, h.mono ht⟩
  have hlasting : Lasting rules (s.find gone t) := h.lasting.find
  have htats : ∀ rule ∈ rules, ∀ u, t ≤ u → rule.tat (s.find gone t) u = rule.tat s' u := by
    intro rule hrule u hu
    rw [tat_find h.lasting hgone hu]
    exact h.tats rule hrule u (ht.trans hu)
  have hnew : ∀ rule ∈ rules, rule.newTat (s.find gone t) t = rule.newTat s' t :=
    fun rule hrule => newTat_congr (htats rule hrule t le_rfl)
  have hover : ∀ rule ∈ rules, rule.overflows (s.find gone t) t = rule.overflows s' t := by
    intro rule hrule
    unfold overflows
    rw [hnew rule hrule]
  have hentity : rateLimitEntity gone rules t s =
      (some (script rules (rules.getLast hrules) t (s.find gone t)).1,
        (script rules (rules.getLast hrules) t (s.find gone t)).2) := by
    unfold rateLimitEntity
    rw [getLast?_eq_some_getLast hrules]
  rcases free_or_limited rules s' t with hfree | hlimited
  · have hfree' : ∀ rule ∈ rules, rule.overflows (s.find gone t) t = false :=
      fun rule hrule => (hover rule hrule).trans (hfree rule hrule)
    rw [hentity, script_of_free hlasting.unblocked hfree',
      entity_of_free hrules h.unblocked hfree, hnew _ (getLast_mem hrules)]
    refine ⟨rfl, hlasting.accept hrules hfree', h.unblocked, fun rule hrule u _ => ?_⟩
    unfold Rule.tat
    dsimp only
    rw [hset_field hrule, hset_field hrule, hnew rule hrule]
  · have hlimited' : ∃ rule ∈ rules, rule.overflows (s.find gone t) t = true := by
      obtain ⟨rule, hrule, hyes⟩ := hlimited
      exact ⟨rule, hrule, (hover rule hrule).trans hyes⟩
    rw [hentity, script_of_limited hlasting.unblocked hlimited',
      entity_of_limited hrules h.unblocked hlimited, scan_congr hnew]
    exact ⟨rfl, hlasting, h.unblocked, htats⟩

/-- So have all later requests. -/
theorem Same.run (h : Same rules now s s') (times : List ℚ)
    (hgone : ∀ deadline now, gone deadline now = true → deadline ≤ now)
    (hclock : (now :: times).Pairwise (· ≤ ·)) :
    decisions gone rules s times = decisions keepsAll rules s' times ∧
      Same rules ((now :: times).getLast (cons_ne_nil _ _))
        (run (rateLimitEntity gone rules) s times)
        (run (rateLimitEntity keepsAll rules) s' times) := by
  induction times generalizing now s s' with
  | nil => exact ⟨rfl, h⟩
  | cons t times ih =>
    obtain ⟨hle, hlater⟩ := pairwise_cons.mp hclock
    obtain ⟨hreply, hnext⟩ := h.step (hle t mem_cons_self) hgone
    obtain ⟨hrest, hend⟩ := ih hnext hlater
    constructor
    · unfold decisions at hrest ⊢
      unfold history
      rw [map_cons, map_cons, hreply, hrest]
    · exact hend

/-- There are no keys at first. -/
theorem same_empty (rules : List Rule) (now : ℚ) : Same rules now empty empty :=
  ⟨⟨rfl, by simp [empty], by simp [empty]⟩, rfl, fun _ _ _ _ => rfl⟩

/-! ## The bound -/

theorem acceptedTimes_append (ds : List (ℚ × Option Reply)) (d : ℚ × Option Reply) :
    acceptedTimes (ds ++ [d]) = acceptedTimes ds ++
      if (d.2.any fun reply => !reply.ratelimited) = true then [d.1] else [] := by
  unfold acceptedTimes
  cases h : d.2.any fun reply => !reply.ratelimited
  · simp [h]
  · simp [h]

/-- The requests that were let through, as the meter of a rule sees them. -/
structure Metered (rule : Rule) (ds : List (ℚ × Option Reply)) (s : Store) : Prop where
  unblocked : s.blockedUntil = none
  paced : rule.limit ≠ 0 →
    Paced rule.interval rule.window (s.tats rule.field) (acceptedTimes ds).reverse
  none : rule.limit = 0 → acceptedTimes ds = []

variable (now) in
theorem Metered.step {ds : List (ℚ × Option Reply)} (h : Metered rule ds s)
    (hrule : rule ∈ rules) :
    Metered rule (ds ++ [(now, (rateLimitEntity keepsAll rules now s).1)])
      (rateLimitEntity keepsAll rules now s).2 := by
  have hrules : rules ≠ [] := ne_nil_of_mem hrule
  rcases free_or_limited rules s now with hfree | hlimited
  · obtain ⟨hlimit, hroom⟩ := overflows_eq_false.mp (hfree rule hrule)
    have hds : acceptedTimes (ds ++ [(now, (rateLimitEntity keepsAll rules now s).1)]) =
        acceptedTimes ds ++ [now] := by
      rw [acceptedTimes_append, entity_of_free hrules h.unblocked hfree]
      rfl
    rw [entity_of_free hrules h.unblocked hfree] at hds ⊢
    refine ⟨h.unblocked, fun _ => ?_, fun hzero => absurd hzero hlimit⟩
    rw [hds, reverse_append, reverse_singleton, singleton_append]
    dsimp only
    rw [hset_field hrule, newTat_of_limit hlimit]
    refine .accept now _ (h.paced hlimit) ?_ ?_ hroom
    · intro before hbefore
      rw [Option.mem_def] at hbefore
      unfold Rule.tat
      rw [hbefore, Option.getD_some]
      linarith [left_le_later (a := before) (b := now)]
    · have hlate : now ≤ rule.tat s now := right_le_later
      linarith
  · have hds : acceptedTimes (ds ++ [(now, (rateLimitEntity keepsAll rules now s).1)]) =
        acceptedTimes ds := by
      rw [acceptedTimes_append, entity_of_limited hrules h.unblocked hlimited]
      exact append_nil _
    rw [entity_of_limited hrules h.unblocked hlimited] at hds ⊢
    refine ⟨h.unblocked, ?_, ?_⟩
    · rw [hds]
      exact h.paced
    · rw [hds]
      exact h.none

theorem metered_run (hrule : rule ∈ rules) (times : List ℚ) :
    Metered rule (decisions keepsAll rules empty times)
      (run (rateLimitEntity keepsAll rules) empty times) := by
  refine (history_past (rateLimitEntity keepsAll rules)
    (J := fun past s => Metered rule (past.map fun e => (e.input, e.answer)) s)
    empty times ⟨rfl, fun _ => .start none, fun _ => rfl⟩ ?_).1
  intro past e he h
  rw [map_append]
  have hstep := h.step e.input hrule
  rw [he] at hstep
  exact hstep

/-- As many requests as fit into the interval and the window fit into the limit and its share. -/
theorem le_limit_add_floor {n : ℕ} {length : ℚ} (hlimit : rule.limit ≠ 0)
    (h : n * rule.interval ≤ length + rule.window) :
    (n : ℤ) ≤ rule.limit + ⌊length * rule.limit / rule.window⌋ := by
  have hwindow : (0 : ℚ) < rule.window := Nat.cast_pos.mpr rule.window_pos
  have hpos : (0 : ℚ) < rule.limit := Nat.cast_pos.mpr (Nat.pos_of_ne_zero hlimit)
  have hn : (n : ℚ) ≤ rule.limit + length * rule.limit / rule.window := by
    unfold interval at h
    rw [← mul_div_assoc, div_le_iff₀ hpos] at h
    rw [← sub_le_iff_le_add', le_div_iff₀ hwindow]
    linarith
  have hfloor : (n : ℤ) - rule.limit ≤ ⌊length * rule.limit / rule.window⌋ := by
    rw [Int.le_floor]
    push_cast
    linarith
  linarith

/-! ## The promise -/

/-- A reply that lets the request through. -/
def Reply.accepts (reply : Option Reply) : Prop := ∃ r, reply = some r ∧ r.ratelimited = false

/-- What the rate limiter promises to those who send requests at times that do not decrease. -/
structure KeepsPromise (gone : ℚ → ℚ → Bool) (rules : List Rule) : Prop where
  /-- An interval has room for the limit and its share of the window. -/
  bounded : ∀ times : List ℚ, times.Pairwise (· ≤ ·) → ∀ rule ∈ rules, ∀ start length, 0 ≤ length →
    (countIn start length (acceptedTimes (decisions gone rules Store.empty times)) : ℤ) ≤
      rule.limit + ⌊length * rule.limit / rule.window⌋
  /-- A request that is rejected does not count. -/
  rejected : ∀ past now later, (past ++ now :: later).Pairwise (· ≤ ·) → ∀ reply,
    (rateLimitEntity gone rules now (stateAfter gone rules past)).1 = some reply →
    reply.ratelimited = true →
    decisions gone rules (stateAfter gone rules (past ++ [now])) later =
      decisions gone rules (stateAfter gone rules past) later
  /-- After the time that was reported a request is let through. -/
  waited : ∀ past now, (past ++ [now]).Pairwise (· ≤ ·) → ∀ reply wait,
    (rateLimitEntity gone rules now (stateAfter gone rules past)).1 = some reply →
    reply.ratelimited = true → reply.secsToFreedom = some wait →
    Reply.accepts
      (rateLimitEntity gone rules (now + wait) (stateAfter gone rules (past ++ [now]))).1
  /-- It makes no difference which keys have expired. -/
  expiry : ∀ times : List ℚ, times.Pairwise (· ≤ ·) →
    decisions gone rules Store.empty times = decisions keepsAll rules Store.empty times

theorem stateAfter_append (past : List ℚ) (now : ℚ) :
    stateAfter gone rules (past ++ [now]) =
      (rateLimitEntity gone rules now (stateAfter gone rules past)).2 := by
  unfold stateAfter
  generalize empty = s
  induction past generalizing s with
  | nil => rfl
  | cons t past ih => exact ih _

section

variable (hgone : ∀ deadline now, gone deadline now = true → deadline ≤ now)

include hgone

theorem decisions_eq {times : List ℚ}
    (hclock : times.Pairwise (· ≤ ·)) :
    decisions gone rules empty times = decisions keepsAll rules empty times := by
  cases times with
  | nil => rfl
  | cons t times =>
    refine ((same_empty rules t).run _ hgone ?_).1
    refine pairwise_cons.mpr ⟨fun u hu => ?_, hclock⟩
    rcases mem_cons.mp hu with rfl | hu
    · exact le_rfl
    · exact (pairwise_cons.mp hclock).1 u hu

/-- The two stores, after requests that are not later than some time. -/
theorem same_stateAfter {past : List ℚ}
    (hclock : (past ++ [now]).Pairwise (· ≤ ·)) :
    Same rules now (stateAfter gone rules past) (stateAfter keepsAll rules past) := by
  cases past with
  | nil => exact same_empty rules now
  | cons t past =>
    obtain ⟨-, hsame⟩ := (same_empty rules t).run (t :: past) hgone (by
      rw [pairwise_append] at hclock
      refine pairwise_cons.mpr ⟨fun u hu => ?_, hclock.1⟩
      rcases mem_cons.mp hu with rfl | hu
      · exact le_rfl
      · exact (pairwise_cons.mp hclock.1).1 u hu)
    refine hsame.mono ?_
    rw [pairwise_append] at hclock
    exact hclock.2.2 _ (by exact getLast_mem _)
      now (mem_singleton.mpr rfl)

end

/-- A rejection names the meter that takes longest. -/
theorem limited_of_rejected {reply : Reply} (hblock : s.blockedUntil = none)
    (hreply : (rateLimitEntity keepsAll rules now s).1 = some reply)
    (hlimited : reply.ratelimited = true) :
    rules ≠ [] ∧ (∃ rule ∈ rules, rule.overflows s now = true) ∧
      reply = ⟨true, (scan rules s now).secsToFreedom, 0, 0⟩ := by
  have hrules : rules ≠ [] := by
    rintro rfl
    cases hreply
  rcases free_or_limited rules s now with hfree | hover
  · rw [entity_of_free hrules hblock hfree, Option.some.injEq] at hreply
    rw [← hreply] at hlimited
    cases hlimited
  · rw [entity_of_limited hrules hblock hover, Option.some.injEq] at hreply
    exact ⟨hrules, hover, hreply.symm⟩

theorem wait_nonneg {wait : ℚ} (hwait : (scan rules s now).secsToFreedom = some wait) :
    0 ≤ wait := by
  have hstart := (freedom_le rules s now ⟨[], some 0, false, some 0⟩).1
  rw [← scan, hwait] at hstart
  exact not_lt.mp (of_decide_eq_false hstart)

/-- After the time that is reported no meter overflows. -/
theorem free_of_waited {wait : ℚ} (hwait : (scan rules s now).secsToFreedom = some wait) :
    ∀ rule ∈ rules, rule.overflows s (now + wait) = false := by
  intro rule hrule
  have hnonneg := wait_nonneg hwait
  have hfreedom := (freedom_le rules s now ⟨[], some 0, false, some 0⟩).2
  rw [← scan, hwait] at hfreedom
  have hmissing : rule.limit ≠ 0 ∧
      rule.tat s now + rule.interval ≤ now + rule.window + wait := by
    cases hover : rule.overflows s now
    · obtain ⟨hlimit, hroom⟩ := overflows_eq_false.mp hover
      exact ⟨hlimit, by linarith⟩
    · have hle := hfreedom rule hrule hover
      by_cases hlimit : rule.limit = 0
      · unfold newTat emissionInterval at hle
        rw [if_pos hlimit] at hle
        cases hle
      · rw [newTat_of_limit hlimit] at hle
        have hle : rule.tat s now + rule.interval - rule.window - now ≤ wait :=
          not_lt.mp (of_decide_eq_false hle)
        exact ⟨hlimit, by linarith⟩
  rw [overflows_eq_false]
  refine ⟨hmissing.1, ?_⟩
  unfold Rule.tat at hmissing ⊢
  cases hstored : s.tats rule.field with
  | none =>
    rw [Option.getD_none, later_of_le le_rfl]
    linarith [rule.interval_le]
  | some tat =>
    rw [hstored] at hmissing
    exact later_add_le_of_wait rule.interval_le hmissing.2

/-- The rate limiter keeps its promise, for all rules and whatever keys Redis drops after they have
expired. -/
theorem keepsPromise (hgone : ∀ deadline now, gone deadline now = true → deadline ≤ now)
    (rules : List Rule) : KeepsPromise gone rules where
  bounded := by
    intro times hclock rule hrule start length hlength
    have h := metered_run hrule times
    rw [decisions_eq hgone hclock]
    by_cases hlimit : rule.limit = 0
    · rw [h.none hlimit, hlimit]
      simp [countIn]
    · refine le_limit_add_floor hlimit ?_
      have hcount := (h.paced hlimit).countIn_mul_le start
        (Rule.interval_pos hlimit).le (Nat.cast_nonneg _) hlength
      unfold countIn at hcount ⊢
      rwa [countP_reverse] at hcount
  rejected := by
    intro past now later hclock reply hreply hlimited
    have hbefore : (past ++ [now]).Pairwise (· ≤ ·) := by
      refine hclock.sublist ?_
      exact List.Sublist.append_left (singleton_sublist.mpr mem_cons_self) past
    have hafter : (now :: later).Pairwise (· ≤ ·) :=
      hclock.sublist (sublist_append_right past _)
    have hsame : Same rules now _ _ := same_stateAfter hgone hbefore
    obtain ⟨hfirst, hnext⟩ := hsame.step le_rfl hgone
    rw [hreply] at hfirst
    obtain ⟨hrules, hover, -⟩ := limited_of_rejected hsame.unblocked hfirst.symm hlimited
    rw [entity_of_limited hrules hsame.unblocked hover] at hnext
    rw [stateAfter_append, (hnext.run _ hgone hafter).1, (hsame.run _ hgone hafter).1]
  waited := by
    intro past now hclock reply wait hreply hlimited hwait
    have hsame : Same rules now _ _ := same_stateAfter hgone hclock
    obtain ⟨hfirst, hnext⟩ := hsame.step le_rfl hgone
    rw [hreply] at hfirst
    obtain ⟨hrules, hover, rfl⟩ := limited_of_rejected hsame.unblocked hfirst.symm hlimited
    rw [entity_of_limited hrules hsame.unblocked hover] at hnext
    have hnonneg := wait_nonneg hwait
    obtain ⟨hlater, -⟩ := hnext.step (t := now + wait) (by linarith) hgone
    rw [stateAfter_append, hlater, entity_of_free hrules hsame.unblocked (free_of_waited hwait)]
    exact ⟨_, rfl, rfl⟩
  expiry := fun times hclock => decisions_eq hgone hclock

/-- One request in ten seconds, and two in a hundred: Redis drops keys as soon as they expire. -/
theorem keepsPromise_promptly :
    (decisions (fun deadline now => decide (deadline ≤ now))
        [⟨10, 1, by decide⟩, ⟨100, 2, by decide⟩] Store.empty [0, 4, 10, 60, 210]).map
        (fun d => d.2.map (·.ratelimited)) =
      [some false, some true, some false, some false, some false] ∧
    KeepsPromise (fun deadline now => decide (deadline ≤ now))
      [⟨10, 1, by decide⟩, ⟨100, 2, by decide⟩] :=
  ⟨by decide +kernel, keepsPromise (fun _ _ h => of_decide_eq_true h) _⟩

end GrowTeam.RateLimiter
