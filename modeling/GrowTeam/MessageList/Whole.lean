/-
# A message list stays whole

`_hash`, `_local_only` and `_items` follow `_all_items` through every operation.  Its messages with
ids of the server are in order, while a local echo may stand anywhere: when an echo gets its id, the
test for the order skips other echoes.  The test looks at visible messages, `clear` leaves
`_local_only`, and the place of a new message is found by the first and the last one even if these
are echoes, so a run must not come to depend on that (`Proper`).
-/
import GrowTeam.MessageList.Data

namespace GrowTeam.MessageList

open History MessageListData List Function

variable {d : MessageListData} {messages new all : List Message} {msg : Message} {op : Op}
  {oldId newId : ℚ}

/-- The ids differ, and two ids of the server are in order. -/
def InOrder (a b : Message) : Prop :=
  a.id ≠ b.id ∧ (isLocalonlyId a.id = false → isLocalonlyId b.id = false → a.id < b.id)

/-- The parts of the data fit together. -/
structure Whole (d : MessageListData) : Prop where
  order : d.allItems.Pairwise InOrder
  hash : ∀ id msg, d.hash id = some msg ↔ msg ∈ d.allItems ∧ msg.id = id
  localOnly : ∀ id, d.localOnly id = true ↔
    isLocalonlyId id = true ∧ ∃ msg ∈ d.allItems, msg.id = id
  items : d.items = d.unmutedMessages d.allItems

/-! ## Sorting and filtering -/

variable {a b : Message}

theorem inOrder_of_lt (h : a.id < b.id) : InOrder a b := ⟨ne_of_lt h, fun _ _ => h⟩

instance instTotalIdLe : Std.Total idLe := ⟨fun a b => le_total a.id b.id⟩

instance instIsTransIdLe : IsTrans Message idLe := ⟨fun _ _ _ => le_trans⟩

theorem pairwise_sortById (h : messages.Pairwise fun a b => a.id ≠ b.id) :
    (sortById messages).Pairwise fun a b => a.id < b.id := by
  have hle : (sortById messages).Pairwise idLe := pairwise_insertionSort idLe messages
  have hne : (sortById messages).Pairwise fun a b => a.id ≠ b.id :=
    (perm_insertionSort idLe messages).symm.pairwise h fun hab => hab.symm
  exact (hle.and hne).imp fun hab => lt_of_le_of_ne hab.1 hab.2

theorem perm_sortById (messages : List Message) : (sortById messages).Perm messages :=
  perm_insertionSort idLe messages

theorem unmuted_append : d.unmutedMessages (messages ++ all) =
    d.unmutedMessages messages ++ d.unmutedMessages all := by
  unfold unmutedMessages
  rw [filter_append, filter_append]

theorem unmuted_sublist : (d.unmutedMessages messages).Sublist messages :=
  filter_sublist.trans filter_sublist

theorem unmuted_perm (h : messages.Perm all) :
    (d.unmutedMessages messages).Perm (d.unmutedMessages all) :=
  (h.filter _).filter _

/-- Muting and sorting do not mind each other. -/
theorem unmuted_sortById (h : messages.Pairwise fun a b => a.id ≠ b.id) :
    d.unmutedMessages (sortById messages) = sortById (d.unmutedMessages messages) := by
  have hleft : (d.unmutedMessages (sortById messages)).Pairwise fun a b => a.id < b.id :=
    (pairwise_sortById h).sublist unmuted_sublist
  have hright := pairwise_sortById (h.sublist (unmuted_sublist (d := d)))
  exact List.Perm.eq_of_pairwise (fun a b _ _ hab hba => absurd hab (lt_asymm hba)) hleft hright
    ((unmuted_perm (perm_sortById messages)).trans (perm_sortById _).symm)

/-! ## Adding messages -/

/-- Only `_hash` and `_local_only` change. -/
structure SameLists (d d' : MessageListData) : Prop where
  settings : d'.settings = d.settings
  mutes : d'.mutes = d.mutes
  fetchStatus : d'.fetchStatus = d.fetchStatus
  allItems : d'.allItems = d.allItems
  items : d'.items = d.items

variable (messages) in
theorem addToHash_same (d : MessageListData) : SameLists d (addToHash messages d) := by
  induction messages generalizing d with
  | nil => exact ⟨rfl, rfl, rfl, rfl, rfl⟩
  | cons msg messages ih =>
    rw [addToHash]
    split <;> split <;> exact ⟨(ih _).settings, (ih _).mutes, (ih _).fetchStatus, (ih _).allItems,
      (ih _).items⟩

/-- A message gets into `_hash`. -/
theorem hash_addToHash (hnew : messages.Pairwise fun a b => a.id ≠ b.id)
    (hfresh : ∀ msg ∈ messages, d.hash msg.id = none) (id : ℚ) (msg : Message) :
    (addToHash messages d).hash id = some msg ↔
      d.hash id = some msg ∨ (msg ∈ messages ∧ msg.id = id) := by
  induction messages generalizing d with
  | nil => simp [addToHash]
  | cons first messages ih =>
    obtain ⟨hfirst, hnew⟩ := pairwise_cons.mp hnew
    have hnone : d.hash first.id = none := hfresh first mem_cons_self
    have hrest : ∀ d' : MessageListData, d'.hash = d.hash →
        ((addToHash messages { d' with hash := update d'.hash first.id (some first) }).hash
          id = some msg ↔ d.hash id = some msg ∨ (msg ∈ first :: messages ∧ msg.id = id)) := by
      intro d' hd'
      rw [ih hnew, hd']
      · by_cases hid : id = first.id
        · subst hid
          dsimp only
          rw [update_self, hnone, mem_cons]
          constructor
          · rintro (hsome | ⟨hin, hsame⟩)
            · cases hsome
              exact .inr ⟨.inl rfl, rfl⟩
            · exact absurd hsame.symm (hfirst msg hin)
          · rintro (hsome | ⟨rfl | hin, hsame⟩)
            · cases hsome
            · exact .inl rfl
            · exact .inr ⟨hin, hsame⟩
        · dsimp only
          rw [update_of_ne hid, mem_cons]
          refine or_congr_right ?_
          constructor
          · exact fun h => ⟨.inr h.1, h.2⟩
          · rintro ⟨rfl | hin, hsame⟩
            · exact absurd hsame.symm hid
            · exact ⟨hin, hsame⟩
      · intro other hother
        dsimp only
        rw [update_of_ne (hfirst other hother).symm, hd']
        exact hfresh other (mem_cons_of_mem _ hother)
    rw [addToHash]
    split
    · rw [if_neg (by rw [hnone]; simp)]
      exact hrest { d with localOnly := update d.localOnly first.id true } rfl
    · rw [if_neg (by rw [hnone]; simp)]
      exact hrest d rfl

theorem localOnly_addToHash (d : MessageListData) (id : ℚ) :
    (addToHash messages d).localOnly id = true ↔
      d.localOnly id = true ∨ (isLocalonlyId id = true ∧ ∃ msg ∈ messages, msg.id = id) := by
  induction messages generalizing d with
  | nil => simp [addToHash]
  | cons first messages ih =>
    have hrest : ∀ d' : MessageListData, (d'.localOnly id = true ↔
        d.localOnly id = true ∨ (isLocalonlyId id = true ∧ first.id = id)) →
        ((addToHash messages d').localOnly id = true ↔ d.localOnly id = true ∨
          (isLocalonlyId id = true ∧ ∃ msg ∈ first :: messages, msg.id = id)) := by
      intro d' hd'
      rw [ih, hd', exists_mem_cons_iff, or_assoc, ← and_or_left]
    rw [addToHash]
    by_cases hlocal : isLocalonlyId first.id = true
    · rw [if_pos hlocal]
      have hupdate : update d.localOnly first.id true id = true ↔
          d.localOnly id = true ∨ (isLocalonlyId id = true ∧ first.id = id) := by
        by_cases hid : id = first.id
        · subst hid
          simp [hlocal]
        · rw [update_of_ne hid]
          simp [Ne.symm hid]
      split
      · exact hrest _ hupdate
      · exact hrest _ hupdate
    · rw [if_neg hlocal]
      have hkept : d.localOnly id = true ↔
          d.localOnly id = true ∨ (isLocalonlyId id = true ∧ first.id = id) := by
        refine (or_iff_left ?_).symm
        rintro ⟨htrue, rfl⟩
        exact hlocal htrue
      split
      · exact hrest _ hkept
      · exact hrest _ hkept

theorem unmuted_congr {d' : MessageListData} (hsettings : d'.settings = d.settings)
    (hmutes : d'.mutes = d.mutes) : d'.unmutedMessages messages = d.unmutedMessages messages := by
  unfold unmutedMessages
  rw [hsettings, hmutes]

theorem Whole.hash_eq_none (h : Whole d) {id : ℚ} :
    d.hash id = none ↔ ∀ msg ∈ d.allItems, msg.id ≠ id := by
  rw [Option.eq_none_iff_forall_ne_some]
  constructor
  · intro hnone msg hmsg hid
    exact hnone msg ((h.hash id msg).mpr ⟨hmsg, hid⟩)
  · intro hnone msg hsome
    obtain ⟨hmsg, hid⟩ := (h.hash id msg).mp hsome
    exact hnone msg hmsg hid

/-- New messages at places that are right, in both lists. -/
theorem Whole.extend {items : List Message} (h : Whole d)
    (hnew : new.Pairwise fun a b => a.id ≠ b.id)
    (hfresh : ∀ msg ∈ new, ∀ old ∈ d.allItems, old.id ≠ msg.id) (hperm : all.Perm (new ++ d.allItems))
    (horder : all.Pairwise InOrder) (hitems : items = d.unmutedMessages all) :
    Whole (addToHash new { d with allItems := all, items := items }) := by
  have hsame := addToHash_same new { d with allItems := all, items := items }
  have hmem : ∀ msg, msg ∈ all ↔ msg ∈ new ∨ msg ∈ d.allItems := by
    intro msg
    rw [hperm.mem_iff, mem_append]
  have hnone : ∀ msg ∈ new, d.hash msg.id = none :=
    fun msg hmsg => h.hash_eq_none.mpr (hfresh msg hmsg)
  exact {
    order := by
      rw [hsame.allItems]
      exact horder
    hash := by
      intro id msg
      have hhash := hash_addToHash (d := { d with allItems := all, items := items }) hnew hnone id msg
      rw [hhash, hsame.allItems]
      rw [hmem, or_and_right, h.hash, or_comm]
    localOnly := by
      intro id
      rw [localOnly_addToHash, hsame.allItems]
      rw [h.localOnly, ← and_or_left]
      refine and_congr_right fun _ => ?_
      simp only [hmem, or_and_right, exists_or]
      exact or_comm
    items := by
      rw [hsame.items, hsame.allItems, unmuted_congr hsame.settings hsame.mutes]
      exact hitems }

theorem pairwise_ne (h : messages.Pairwise fun a b => a.id < b.id) :
    messages.Pairwise fun a b => a.id ≠ b.id := h.imp ne_of_lt

theorem pairwise_inOrder (h : messages.Pairwise fun a b => a.id < b.id) :
    messages.Pairwise InOrder := h.imp inOrder_of_lt

section

variable (new)

/-- The messages are added, and neither the status nor the settings change. -/
structure Extends (d d' : MessageListData) : Prop where
  mem : ∀ msg, msg ∈ d'.allItems ↔ msg ∈ new ∨ msg ∈ d.allItems
  fetchStatus : d'.fetchStatus = d.fetchStatus
  settings : d'.settings = d.settings

theorem extends_whenAny {add : MessageListData → List Message → MessageListData}
    (hadd : Extends new d (add d new)) : Extends new d (d.whenAny new add) := by
  unfold MessageListData.whenAny
  split
  · next hnil => exact ⟨by simp [hnil], rfl, rfl⟩
  · exact hadd

theorem extends_addToHash {all items : List Message}
    (hall : ∀ msg, msg ∈ all ↔ msg ∈ new ∨ msg ∈ d.allItems) :
    Extends new d (MessageListData.addToHash new { d with allItems := all, items := items }) := by
  have hsame := addToHash_same new { d with allItems := all, items := items }
  exact ⟨fun msg => by rw [hsame.allItems]; exact hall msg, hsame.fetchStatus, hsame.settings⟩

theorem extends_addAnywhere : Extends new d (d.addAnywhere new) :=
  extends_addToHash new fun _ => (perm_sortById _).mem_iff.trans mem_append

theorem extends_prepend : Extends new d (d.prepend new) :=
  extends_addToHash new fun _ => mem_append

theorem extends_append : Extends new d (d.append new) :=
  extends_addToHash new fun _ => mem_append.trans or_comm

end

theorem Whole.whenAny {add : MessageListData → List Message → MessageListData} (h : Whole d)
    (hadd : Whole (add d new)) : Whole (d.whenAny new add) := by
  unfold MessageListData.whenAny
  split
  · exact h
  · exact hadd

theorem Whole.addAnywhere (h : Whole d) (hnew : new.Pairwise fun a b => a.id < b.id)
    (hfresh : ∀ msg ∈ new, ∀ old ∈ d.allItems, old.id ≠ msg.id) :
    Whole (d.whenAny new addAnywhere) := by
  have hne : (new ++ d.allItems).Pairwise fun a b => a.id ≠ b.id :=
    pairwise_append.mpr ⟨pairwise_ne hnew, h.order.imp And.left,
      fun msg hmsg old hold => (hfresh msg hmsg old hold).symm⟩
  refine h.whenAny (h.extend (pairwise_ne hnew) hfresh (perm_sortById _)
    (pairwise_inOrder (pairwise_sortById hne)) ?_)
  rw [unmuted_sortById hne, unmuted_append, h.items]

theorem Whole.prepend (h : Whole d) (hnew : new.Pairwise fun a b => a.id < b.id)
    (hplace : ∀ msg ∈ new, ∀ old ∈ d.allItems, InOrder msg old) :
    Whole (d.whenAny new prepend) := by
  refine h.whenAny (h.extend (pairwise_ne hnew)
    (fun msg hmsg old hold => (hplace msg hmsg old hold).1.symm) (List.Perm.refl _)
    (pairwise_append.mpr ⟨pairwise_inOrder hnew, h.order, hplace⟩) ?_)
  rw [unmuted_append, h.items]

theorem Whole.append (h : Whole d) (hnew : new.Pairwise fun a b => a.id < b.id)
    (hplace : ∀ msg ∈ new, ∀ old ∈ d.allItems, InOrder old msg) :
    Whole (d.whenAny new append) := by
  refine h.whenAny (h.extend (pairwise_ne hnew)
    (fun msg hmsg old hold => (hplace msg hmsg old hold).1) perm_append_comm
    (pairwise_append.mpr ⟨h.order, pairwise_inOrder hnew,
      fun old hold msg hmsg => hplace msg hmsg old hold⟩) ?_)
  rw [unmuted_append, h.items]

/-- The place of a message that is found by the first or the last one is right for the messages with
ids of the server. -/
def Placed (d : MessageListData) (msg : Message) : Prop :=
  isLocalonlyId msg.id = false → ∀ old ∈ d.allItems, isLocalonlyId old.id = false →
    (d.isBottom msg = true → old.id < msg.id) ∧ (d.isTop msg = true → msg.id < old.id)

/-- What is not at the bottom is below what is. -/
theorem lt_of_bottom (ha : d.isBottom a = false) (hb : d.isBottom b = true) :
    a.id < b.id := by
  unfold isBottom at ha hb
  cases hlast : d.allItems.getLast? with
  | none =>
    rw [hlast] at ha
    cases ha
  | some last =>
    rw [hlast] at ha hb
    exact lt_of_le_of_lt (not_lt.mp (of_decide_eq_false ha)) (of_decide_eq_true hb)

/-- What is at the top is below what is not. -/
theorem lt_of_top (ha : d.isTop a = true) (hb : d.isBottom b = false)
    (hnot : d.isTop b = false) : a.id < b.id := by
  unfold isTop at ha hnot
  rw [hb] at hnot
  rw [Bool.and_eq_true] at ha
  cases hfirst : d.allItems.head? with
  | none =>
    rw [hfirst] at ha
    exact absurd ha.2 (by simp)
  | some first =>
    rw [hfirst] at ha hnot
    have hle : ¬b.id < first.id := of_decide_eq_false hnot
    exact lt_of_lt_of_le (of_decide_eq_true ha.2) (not_lt.mp hle)

theorem not_bottom_of_top (h : d.isTop msg = true) : d.isBottom msg = false := by
  unfold isTop at h
  rw [Bool.and_eq_true, Bool.not_eq_true'] at h
  exact h.1

theorem Whole.addMessages (h : Whole d) {isContiguousHistory : Bool}
    (hsorted : messages.Pairwise fun a b => a.id < b.id)
    (hplaced : ∀ msg ∈ d.validNonDuplicatedMessages messages, Placed d msg) :
    Whole (d.addMessages messages isContiguousHistory) := by
  let valid := d.validNonDuplicatedMessages messages
  have hvalid : valid.Pairwise fun a b => a.id < b.id :=
    hsorted.sublist filter_sublist
  have hfresh : ∀ msg ∈ d.validNonDuplicatedMessages messages, ∀ old ∈ d.allItems,
      old.id ≠ msg.id := by
    intro msg hmsg
    have hcond := (mem_filter.mp hmsg).2
    rw [Bool.and_eq_true, decide_eq_true_eq] at hcond
    exact h.hash_eq_none.mp hcond.1
  unfold MessageListData.addMessages
  dsimp only
  generalize hbottom : valid.filter d.isBottom = bottom
  generalize htop : valid.filter d.isTop = top
  generalize hinterior : (valid.filter fun msg =>
    !d.isBottom msg && !d.isTop msg) = interior
  have hmemBottom : ∀ msg ∈ bottom, msg ∈ d.validNonDuplicatedMessages messages ∧
      d.isBottom msg = true := by
    intro msg hmsg
    rw [← hbottom] at hmsg
    exact mem_filter.mp hmsg
  have hmemTop : ∀ msg ∈ top, msg ∈ d.validNonDuplicatedMessages messages ∧
      d.isTop msg = true := by
    intro msg hmsg
    rw [← htop] at hmsg
    exact mem_filter.mp hmsg
  have hmemInterior : ∀ msg ∈ interior, msg ∈ d.validNonDuplicatedMessages messages ∧
      d.isBottom msg = false ∧ d.isTop msg = false := by
    intro msg hmsg
    rw [← hinterior, mem_filter, Bool.and_eq_true, Bool.not_eq_true', Bool.not_eq_true'] at hmsg
    exact hmsg
  have hinteriorSorted : interior.Pairwise fun a b => a.id < b.id :=
    hinterior ▸ hvalid.sublist filter_sublist
  have h₁ := h.addAnywhere hinteriorSorted fun msg hmsg old hold =>
    hfresh msg (hmemInterior msg hmsg).1 old hold
  have hadded₁ := extends_whenAny interior (extends_addAnywhere interior (d := d))
  have htopSorted : top.Pairwise fun a b => a.id < b.id :=
    htop ▸ hvalid.sublist filter_sublist
  have hadded₂ := extends_whenAny top
    (extends_prepend top (d := d.whenAny interior MessageListData.addAnywhere))
  have h₂ := h₁.prepend htopSorted (by
    intro msg hmsg old hold
    obtain ⟨hin, hmsgTop⟩ := hmemTop msg hmsg
    rcases (hadded₁.mem old).mp hold with hold | hold
    · obtain ⟨-, hnot, hnotTop⟩ := hmemInterior old hold
      exact inOrder_of_lt (lt_of_top hmsgTop hnot hnotTop)
    · exact ⟨(hfresh msg hin old hold).symm,
        fun hserver hserver' => (hplaced msg hin hserver old hold hserver').2 hmsgTop⟩)
  split
  · exact { h₂ with }
  · have hbottomSorted : bottom.Pairwise fun a b => a.id < b.id :=
      hbottom ▸ hvalid.sublist filter_sublist
    refine h₂.append hbottomSorted ?_
    intro msg hmsg old hold
    obtain ⟨hin, hmsgBottom⟩ := hmemBottom msg hmsg
    rcases (hadded₂.mem old).mp hold with hold | hold
    · exact inOrder_of_lt (lt_of_bottom (not_bottom_of_top (hmemTop old hold).2) hmsgBottom)
    · rcases (hadded₁.mem old).mp hold with hold | hold
      · exact inOrder_of_lt (lt_of_bottom (hmemInterior old hold).2.1 hmsgBottom)
      · exact ⟨hfresh msg hin old hold,
          fun hserver hserver' => (hplaced msg hin hserver' old hold hserver).1 hmsgBottom⟩

/-! ## Removing messages -/

theorem unmuted_filter {p : Message → Bool} :
    (d.unmutedMessages messages).filter p = d.unmutedMessages (messages.filter p) := by
  unfold unmutedMessages
  rw [filter_comm, filter_comm p]

theorem Whole.remove (h : Whole d) (messageIds : List ℚ) : Whole (d.remove messageIds).2 where
  order := h.order.sublist filter_sublist
  hash := by
    intro id msg
    show (if id ∈ messageIds then none else d.hash id) = some msg ↔
      msg ∈ d.allItems.filter (fun msg => msg.id ∉ messageIds) ∧ msg.id = id
    rw [mem_filter, decide_eq_true_eq]
    by_cases hid : id ∈ messageIds
    · rw [if_pos hid]
      constructor
      · intro hnone
        cases hnone
      · rintro ⟨⟨-, hout⟩, rfl⟩
        exact absurd hid hout
    · rw [if_neg hid, h.hash]
      constructor
      · rintro ⟨hmsg, rfl⟩
        exact ⟨⟨hmsg, hid⟩, rfl⟩
      · exact fun hin => ⟨hin.1.1, hin.2⟩
  localOnly := by
    intro id
    show (decide (id ∉ messageIds) && d.localOnly id) = true ↔ isLocalonlyId id = true ∧
      ∃ msg ∈ d.allItems.filter fun msg => msg.id ∉ messageIds, msg.id = id
    rw [Bool.and_eq_true, decide_eq_true_eq, h.localOnly]
    constructor
    · rintro ⟨hout, hlocal, msg, hmsg, rfl⟩
      exact ⟨hlocal, msg, mem_filter.mpr ⟨hmsg, decide_eq_true hout⟩, rfl⟩
    · rintro ⟨hlocal, msg, hmsg, rfl⟩
      obtain ⟨hin, hout⟩ := mem_filter.mp hmsg
      exact ⟨of_decide_eq_true hout, hlocal, msg, hin, rfl⟩
  items := by
    show d.items.filter (fun msg => msg.id ∉ messageIds) =
      d.unmutedMessages (d.allItems.filter fun msg => msg.id ∉ messageIds)
    rw [h.items, unmuted_filter]

theorem Whole.updateItemsForMuting (h : Whole d) (mutes : Mutes) :
    Whole (d.updateItemsForMuting mutes) :=
  { h with items := rfl }

theorem Whole.clear (h : Whole d) (hnone : ∀ msg ∈ d.allItems, isLocalonlyId msg.id = false) :
    Whole d.clear where
  order := .nil
  hash := by
    intro id msg
    simp [MessageListData.clear]
  localOnly := by
    intro id
    show d.localOnly id = true ↔ isLocalonlyId id = true ∧ ∃ msg ∈ ([] : List Message), msg.id = id
    rw [h.localOnly]
    constructor
    · rintro ⟨hlocal, msg, hmsg, rfl⟩
      rw [hnone msg hmsg] at hlocal
      cases hlocal
    · rintro ⟨-, msg, ⟨⟩, -⟩
  items := rfl

/-! ## Replacing an id -/

/-- `replaceId`, for a message. -/
def replace (oldId newId : ℚ) (msg : Message) : Message :=
  if msg.id = oldId then { msg with id := newId } else msg

theorem replace_of_eq (h : msg.id = oldId) : replace oldId newId msg = { msg with id := newId } :=
  if_pos h

theorem replace_of_ne (h : msg.id ≠ oldId) : replace oldId newId msg = msg := if_neg h

theorem unmuted_map_replace :
    (d.unmutedMessages messages).map (replace oldId newId) =
      d.unmutedMessages (messages.map (replace oldId newId)) := by
  have hcontent : ∀ msg, (replace oldId newId msg).content = msg.content := by
    intro msg
    unfold replace
    split
    · rfl
    · rfl
  unfold unmutedMessages
  rw [filter_map, filter_map]
  simp only [Function.comp_def, hcontent]

/-- Reordering keeps all but the order, which is right afterwards if it was before or if the test
has noticed that it was not. -/
theorem whole_reorder (hne : d.allItems.Pairwise fun a b => a.id ≠ b.id)
    (hhash : ∀ id msg, d.hash id = some msg ↔ msg ∈ d.allItems ∧ msg.id = id)
    (hlocal : ∀ id, d.localOnly id = true ↔
      isLocalonlyId id = true ∧ ∃ msg ∈ d.allItems, msg.id = id)
    (hitems : d.items = d.unmutedMessages d.allItems)
    (horder : d.allItems.Pairwise InOrder ∨ (d.reorderMessages newId).1 = true) :
    Whole (d.reorderMessages newId).2 := by
  have hsame : d.allItems.Pairwise InOrder → Whole d := fun h => ⟨h, hhash, hlocal, hitems⟩
  unfold reorderMessages at horder ⊢
  cases hnew : d.hash newId with
  | none =>
    rw [hnew] at horder
    exact hsame (horder.resolve_right (by simp))
  | some msg =>
    rw [hnew] at horder
    dsimp only at horder ⊢
    split at horder
    · next htest =>
      rw [if_pos htest]
      have hperm := perm_sortById d.allItems
      exact {
        order := pairwise_inOrder (pairwise_sortById hne)
        hash := by
          intro id msg
          rw [hhash, hperm.mem_iff]
        localOnly := by
          intro id
          simp only [hlocal, hperm.mem_iff]
        items := by
          show sortById d.items = d.unmutedMessages (sortById d.allItems)
          rw [hitems, unmuted_sortById hne] }
    · next htest =>
      rw [if_neg htest]
      exact hsame (horder.resolve_right (by simp))

/-- The new id is one of the server and not in the list yet.  If something in the list is muted, the
visible neighbours show it when the new id is out of order at the old place. -/
structure Echoed (d : MessageListData) (oldId newId : ℚ) : Prop where
  server : isLocalonlyId newId = false
  fresh : d.hash newId = none
  noticed : d.unmutedMessages d.allItems ≠ d.allItems →
    (d.replaceId oldId newId).allItems.Pairwise InOrder ∨
      ((d.replaceId oldId newId).changeMessageId oldId newId).1 = true

theorem map_replace_of_ne (h : ∀ msg ∈ messages, msg.id ≠ oldId) :
    messages.map (replace oldId newId) = messages := by
  refine (map_congr_left fun msg hmsg => ?_).trans (map_id messages)
  exact replace_of_ne (h msg hmsg)

variable (newId) in
/-- The list with the new id in place of the old one. -/
theorem Whole.split (h : Whole d) (hold : d.hash oldId = some msg) :
    msg.id = oldId ∧ ∃ before after, d.allItems = before ++ msg :: after ∧
      (d.replaceId oldId newId).allItems = before ++ { msg with id := newId } :: after := by
  obtain ⟨hmsg, hid⟩ := (h.hash oldId msg).mp hold
  obtain ⟨before, after, hall⟩ := append_of_mem hmsg
  refine ⟨hid, before, after, hall, ?_⟩
  have horder := h.order
  rw [hall, pairwise_append, pairwise_cons] at horder
  obtain ⟨-, ⟨hafter, -⟩, hbefore⟩ := horder
  show d.allItems.map (replace oldId newId) = _
  rw [hall, map_append, map_cons, replace_of_eq hid, map_replace_of_ne, map_replace_of_ne]
  · exact fun other hother => hid ▸ (hafter other hother).1.symm
  · exact fun other hother => hid ▸ (hbefore other hother msg mem_cons_self).1

/-- What `change_message_id` works with after the id has been replaced everywhere. -/
def renumber (d : MessageListData) (oldId newId : ℚ) (msg : Message) : MessageListData :=
  { d.replaceId oldId newId with
    hash := update (update (d.replaceId oldId newId).hash oldId none) newId
      (some { msg with id := newId })
    localOnly := if d.localOnly oldId then
        update
          (if isLocalonlyId newId then update d.localOnly newId true else d.localOnly)
          oldId false
      else d.localOnly
    selectedId := if d.selectedId = oldId then newId else d.selectedId }

theorem changeMessageId_of_hash (hold : d.hash oldId = some msg) (hid : msg.id = oldId) :
    (d.replaceId oldId newId).changeMessageId oldId newId =
      (renumber d oldId newId msg).reorderMessages newId := by
  have hhash : (d.replaceId oldId newId).hash oldId = some { msg with id := newId } := by
    show (d.hash oldId).map (replace oldId newId) = _
    rw [hold, Option.map_some, replace_of_eq hid]
  unfold MessageListData.changeMessageId
  rw [hhash]
  rfl

theorem changeMessageId_of_none (h : Whole d) (hold : d.hash oldId = none) :
    ((d.replaceId oldId newId).changeMessageId oldId newId).2 = d := by
  have hnone := h.hash_eq_none.mp hold
  have hhash : (fun id => (d.hash id).map (replace oldId newId)) = d.hash := by
    funext id
    cases hid : d.hash id with
    | none => rfl
    | some msg => exact congrArg some (replace_of_ne (hnone msg ((h.hash id msg).mp hid).1))
  have hsame : d.replaceId oldId newId = d := by
    have hall : d.allItems.map (replace oldId newId) = d.allItems := map_replace_of_ne hnone
    have hitems : d.items.map (replace oldId newId) = d.items := by
      refine map_replace_of_ne fun msg hmsg => ?_
      rw [h.items] at hmsg
      exact hnone msg (unmuted_sublist.subset hmsg)
    show { d with
      allItems := d.allItems.map (replace oldId newId)
      items := d.items.map (replace oldId newId)
      hash := fun id => (d.hash id).map (replace oldId newId) } = d
    rw [hall, hitems, hhash]
  unfold MessageListData.changeMessageId
  rw [hsame, hold]

/-- What is found first is related to what else would have been found. -/
theorem rel_of_find? {r : Message → Message → Prop} {p : Message → Bool}
    (hall : all.Pairwise r) (hfind : all.find? p = some a) (hb : b ∈ all) (hp : p b = true) :
    b = a ∨ r a b := by
  induction all with
  | nil => cases hb
  | cons first all ih =>
    obtain ⟨hfirst, hall⟩ := pairwise_cons.mp hall
    rw [find?_cons] at hfind
    cases htest : p first with
    | true =>
      rw [htest] at hfind
      cases hfind
      rcases mem_cons.mp hb with rfl | hb
      · exact .inl rfl
      · exact .inr (hfirst b hb)
    | false =>
      rw [htest] at hfind
      rcases mem_cons.mp hb with rfl | hb
      · rw [htest] at hp
        cases hp
      · exact ih hall hfind hb

/-- If everything is visible then the neighbours show that the new id is out of order. -/
theorem noticed_of_visible {before after : List Message} (hitems : d.items = before ++ msg :: after)
    (horder : (before ++ after).Pairwise InOrder)
    (hfresh : ∀ other ∈ before ++ after, other.id ≠ msg.id) (htest : d.outOfOrder msg = false) :
    (before ++ msg :: after).Pairwise InOrder := by
  have hindex : d.items.findIdx? (· = msg) = some before.length := by
    rw [hitems, findIdx?_append, findIdx?_eq_none_iff.mpr, findIdx?_cons]
    · simp
    · intro other hother
      exact decide_eq_false fun hsame =>
        hfresh other (mem_append_left _ hother) (congrArg Message.id hsame)
  unfold outOfOrder at htest
  rw [hindex, Bool.or_eq_false_iff, hitems] at htest
  unfold nextNonlocal prevNonlocal at htest
  dsimp only at htest
  rw [take_left, drop_append, drop_of_length_le (Nat.le_succ _), Nat.add_sub_cancel_left,
    nil_append, drop_one, tail_cons] at htest
  obtain ⟨hnext, hprev⟩ := htest
  obtain ⟨hbefore, hafter, hcross⟩ := pairwise_append.mp horder
  -- The nearest message with an id of the server is on the right side, and the others are beyond.
  have hmsgAfter : ∀ other ∈ after, InOrder msg other := by
    intro other hother
    have hne := (hfresh other (mem_append_right _ hother)).symm
    refine ⟨hne, fun _ hserver => ?_⟩
    cases hfind : after.find? fun msg => !isLocalonlyId msg.id with
    | none =>
      have hnone := find?_eq_none.mp hfind other hother
      rw [hserver] at hnone
      exact absurd rfl hnone
    | some next =>
      rw [hfind] at hnext
      have hnextServer : isLocalonlyId next.id = false := by
        simpa using find?_some hfind
      have hle : msg.id ≤ next.id := not_lt.mp (of_decide_eq_false hnext)
      rcases rel_of_find? hafter hfind hother (by rw [hserver]; rfl) with rfl | hbeyond
      · exact lt_of_le_of_ne hle hne
      · exact lt_of_le_of_lt hle (hbeyond.2 hnextServer hserver)
  have hmsgBefore : ∀ other ∈ before, InOrder other msg := by
    intro other hother
    have hne := hfresh other (mem_append_left _ hother)
    refine ⟨hne, fun hserver _ => ?_⟩
    cases hfind : before.reverse.find? fun msg => !isLocalonlyId msg.id with
    | none =>
      have hnone := find?_eq_none.mp hfind other (mem_reverse.mpr hother)
      rw [hserver] at hnone
      exact absurd rfl hnone
    | some prev =>
      rw [hfind] at hprev
      have hprevServer : isLocalonlyId prev.id = false := by
        simpa using find?_some hfind
      have hle : prev.id ≤ msg.id := not_lt.mp (of_decide_eq_false hprev)
      rcases rel_of_find? (pairwise_reverse.mpr hbefore) hfind (mem_reverse.mpr hother)
        (by rw [hserver]; rfl) with rfl | hbeyond
      · exact lt_of_le_of_ne hle hne
      · exact lt_of_lt_of_le (hbeyond.2 hserver hprevServer) hle
  refine pairwise_append.mpr ⟨hbefore, pairwise_cons.mpr ⟨hmsgAfter, hafter⟩, ?_⟩
  rintro a ha b (_ | ⟨_, hb⟩)
  · exact hmsgBefore a ha
  · exact hcross a ha b hb

/-- The message with the new id instead of the one with the old id. -/
theorem Whole.mem_replaceId (h : Whole d) (hold : d.hash oldId = some msg) (other : Message) :
    other ∈ (d.replaceId oldId newId).allItems ↔
      other = { msg with id := newId } ∨ (other ∈ d.allItems ∧ other.id ≠ oldId) := by
  obtain ⟨hid, before, after, hall, hall'⟩ := h.split newId hold
  have horder := h.order
  rw [hall, pairwise_append, pairwise_cons] at horder
  obtain ⟨-, ⟨hafter, -⟩, hbefore⟩ := horder
  rw [hall', hall]
  simp only [mem_append, mem_cons]
  constructor
  · rintro (hother | rfl | hother)
    · refine .inr ⟨.inl hother, fun hsame => ?_⟩
      exact (hbefore other hother msg mem_cons_self).1 (hsame.trans hid.symm)
    · exact .inl rfl
    · refine .inr ⟨.inr (.inr hother), fun hsame => ?_⟩
      exact (hafter other hother).1 (hid.trans hsame.symm)
  · rintro (rfl | ⟨hother | rfl | hother, hne⟩)
    · exact .inr (.inl rfl)
    · exact .inl hother
    · exact absurd hid hne
    · exact .inr (.inr hother)

theorem Whole.hash_renumber (h : Whole d) (hold : d.hash oldId = some msg)
    (hnew : ∀ other ∈ d.allItems, other.id ≠ newId) (id : ℚ) (other : Message) :
    (renumber d oldId newId msg).hash id = some other ↔
      other ∈ (renumber d oldId newId msg).allItems ∧ other.id = id := by
  show update (update (fun id => (d.hash id).map (replace oldId newId)) oldId
    none) newId (some { msg with id := newId }) id = some other ↔
      other ∈ (d.replaceId oldId newId).allItems ∧ other.id = id
  rw [h.mem_replaceId hold]
  by_cases hidNew : id = newId
  · subst hidNew
    rw [update_self]
    constructor
    · intro hsome
      cases hsome
      exact ⟨.inl rfl, rfl⟩
    · rintro ⟨rfl | ⟨hother, _⟩, hsame⟩
      · rfl
      · exact absurd hsame (hnew other hother)
  rw [update_of_ne hidNew]
  by_cases hidOld : id = oldId
  · subst hidOld
    rw [update_self]
    constructor
    · intro hnone
      cases hnone
    · rintro ⟨rfl | ⟨_, hne⟩, hsame⟩
      · exact absurd hsame.symm hidNew
      · exact absurd hsame hne
  rw [update_of_ne hidOld]
  constructor
  · intro hsome
    obtain ⟨old, hhash, rfl⟩ := Option.map_eq_some_iff.mp hsome
    obtain ⟨hin, rfl⟩ := (h.hash id old).mp hhash
    rw [replace_of_ne hidOld]
    exact ⟨.inr ⟨hin, hidOld⟩, rfl⟩
  · rintro ⟨rfl | ⟨hother, hne⟩, rfl⟩
    · exact absurd rfl hidNew
    · rw [(h.hash other.id other).mpr ⟨hother, rfl⟩, Option.map_some, replace_of_ne hne]

theorem Whole.localOnly_renumber (h : Whole d) (hold : d.hash oldId = some msg)
    (hserver : isLocalonlyId newId = false) (id : ℚ) :
    (renumber d oldId newId msg).localOnly id = true ↔ isLocalonlyId id = true ∧
      ∃ other ∈ (renumber d oldId newId msg).allItems, other.id = id := by
  have hcount : (isLocalonlyId id = true ∧
      ∃ other ∈ (d.replaceId oldId newId).allItems, other.id = id) ↔
        d.localOnly id = true ∧ id ≠ oldId := by
    rw [h.localOnly]
    constructor
    · rintro ⟨hlocal, other, hother, rfl⟩
      rcases (h.mem_replaceId hold other).mp hother with rfl | ⟨hin, hne⟩
      · rw [hserver] at hlocal
        cases hlocal
      · exact ⟨⟨hlocal, other, hin, rfl⟩, hne⟩
    · rintro ⟨⟨hlocal, other, hin, rfl⟩, hne⟩
      exact ⟨hlocal, other, (h.mem_replaceId hold other).mpr (.inr ⟨hin, hne⟩), rfl⟩
  show (if d.localOnly oldId then update (if isLocalonlyId newId then
    update d.localOnly newId true else d.localOnly) oldId false
      else d.localOnly) id = true ↔ isLocalonlyId id = true ∧
        ∃ other ∈ (d.replaceId oldId newId).allItems, other.id = id
  rw [hcount, if_neg (by rw [hserver]; simp : ¬isLocalonlyId newId = true)]
  by_cases hidOld : id = oldId
  · subst hidOld
    cases hlocal : d.localOnly id with
    | true => simp
    | false => simp [hlocal]
  · split
    · rw [update_of_ne hidOld]
      exact (and_iff_left hidOld).symm
    · exact (and_iff_left hidOld).symm

theorem Whole.changeMessageId (h : Whole d) (hechoed : Echoed d oldId newId) :
    Whole ((d.replaceId oldId newId).changeMessageId oldId newId).2 := by
  obtain ⟨hserver, hfresh, hnoticed⟩ := hechoed
  have hnew := h.hash_eq_none.mp hfresh
  cases hold : d.hash oldId with
  | none =>
    rw [changeMessageId_of_none h hold]
    exact h
  | some msg =>
    obtain ⟨hid, before, after, hall, hall'⟩ := h.split newId hold
    rw [changeMessageId_of_hash hold hid] at hnoticed ⊢
    have hothers : (before ++ after).Pairwise InOrder :=
      (hall ▸ h.order).sublist (List.Sublist.append_left (sublist_cons_self msg after) before)
    have hnotNew : ∀ other ∈ before ++ after, other.id ≠ newId := by
      intro other hother
      refine hnew other ?_
      rw [hall]
      exact (List.Sublist.append_left (sublist_cons_self msg after) before).subset hother
    refine whole_reorder ?_ (h.hash_renumber hold hnew) (h.localOnly_renumber hold hserver) ?_ ?_
    · show (d.replaceId oldId newId).allItems.Pairwise fun a b => a.id ≠ b.id
      rw [hall', pairwise_append, pairwise_cons]
      obtain ⟨hbefore, hafter, hcross⟩ := pairwise_append.mp hothers
      refine ⟨hbefore.imp And.left, ⟨?_, hafter.imp And.left⟩, ?_⟩
      · exact fun other hother => (hnotNew other (mem_append_right _ hother)).symm
      · rintro a ha b (_ | ⟨_, hb⟩)
        · exact hnotNew a (mem_append_left _ ha)
        · exact (hcross a ha b hb).1
    · show d.items.map (replace oldId newId) =
        d.unmutedMessages (d.allItems.map (replace oldId newId))
      rw [h.items, unmuted_map_replace]
    · by_cases hvisible : d.unmutedMessages d.allItems = d.allItems
      · refine or_iff_not_imp_right.mpr fun hnot => ?_
        show (d.replaceId oldId newId).allItems.Pairwise InOrder
        rw [hall']
        refine noticed_of_visible (d := renumber d oldId newId msg) ?_ hothers hnotNew ?_
        · show d.items.map (replace oldId newId) = _
          rw [h.items, hvisible]
          exact hall'
        · have hhash : (renumber d oldId newId msg).hash newId = some { msg with id := newId } := by
            show update _ newId _ newId = _
            rw [update_self]
          unfold reorderMessages at hnot
          rw [hhash] at hnot
          dsimp only at hnot
          split at hnot
          · exact absurd rfl hnot
          · next htest => exact Bool.eq_false_iff.mpr htest
      · exact hnoticed hvisible

/-! ## Runs -/

/-- What is asked of a step.  A batch is in order; a new id is as `Echoed` says; the list is cleared
while it has no local echo. -/
def Proper (d : MessageListData) : Op → Prop
  | .addMessages messages _ => (messages.Pairwise fun a b => a.id < b.id) ∧
    ∀ msg ∈ d.validNonDuplicatedMessages messages, Placed d msg
  | .changeMessageId oldId newId => Echoed d oldId newId
  | .clear => ∀ msg ∈ d.allItems, isLocalonlyId msg.id = false
  | .remove _ => True
  | .updateItemsForMuting _ => True
  | .foundNewest _ => True

theorem Whole.step (h : Whole d) (hproper : Proper d op) : Whole (MessageList.step op d).2 := by
  cases op with
  | addMessages messages isContiguousHistory => exact h.addMessages hproper.1 hproper.2
  | remove messageIds => exact h.remove messageIds
  | changeMessageId oldId newId => exact h.changeMessageId hproper
  | updateItemsForMuting mutes => exact h.updateItemsForMuting mutes
  | foundNewest found => exact { h with }
  | clear => exact h.clear hproper

theorem whole_new (settings : Settings) (mutes : Mutes) : Whole (.new settings mutes) where
  order := .nil
  hash := by
    intro id msg
    simp [MessageListData.new]
  localOnly := by
    intro id
    simp [MessageListData.new]
  items := rfl

/-- A view of everything, without muting. -/
def everything : Settings := ⟨false, false, false, fun _ => true⟩

/-- The home view. -/
def home : Settings := ⟨true, true, true, fun _ => true⟩

/-- Topic `noise` is muted. -/
def quiet : Mutes := ⟨fun _ topic => topic != "noise", fun _ topic => topic = "noise", fun _ => false⟩

def note (id : ℚ) : Message := ⟨id, .stream 1 "notes" false⟩

def noise (id : ℚ) : Message := ⟨id, .stream 1 "noise" false⟩

/-- Two messages are sent after message 10, and the first one gets its id. -/
def twoEchoes : List Op :=
  [.addMessages [note 10] true, .addMessages [note (1001 / 100)] true,
    .addMessages [note (1002 / 100)] true, .changeMessageId (1001 / 100) 11]

/-- A message is sent between two others, one of them muted, and gets its id; then history is
loaded, a message is deleted and the topic is unmuted. -/
def oneEcho : List Op :=
  [.addMessages [note 10, noise 11] true, .addMessages [note (1101 / 100)] true,
    .addMessages [note 12] true, .changeMessageId (1101 / 100) 13,
    .addMessages [noise 7, note 8] true, .remove [10],
    .updateItemsForMuting ⟨fun _ _ => true, fun _ _ => false, fun _ => false⟩]

end GrowTeam.MessageList
