/-
# Feeds that are read by cursor

A feed hands out entries with ascending identifiers.  A reader names the last entry it has, its
cursor, and is answered with a stretch of the feed that leaves no gap behind the cursor.
Answers may be lost, come late or come twice: what a reader keeps of them is always a beginning
of the feed (`read_segment`).

A feed may also compact what it has not handed out yet: `Compacts` says that a list of entries
stands for a log, each item of the log once, with items of one kind possibly merged into the
entry of the latest of them.  Nothing in this file mentions a particular component.
-/
import Mathlib.Data.Int.Notation
import Mathlib.Data.List.Induction
import Mathlib.Data.Nat.Notation
import Mathlib.Tactic.Common

namespace Feed

open List

variable {α κ : Type}

structure Item (α : Type) where
  id : ℕ
  body : α
  deriving DecidableEq

def Ascending (l : List (Item α)) : Prop := l.Pairwise fun a b => a.id < b.id

/-- The identifier of the last entry, or -1. -/
def cursor (l : List (Item α)) : ℤ :=
  match l.getLast? with
  | some e => e.id
  | none => -1

/-- The entries behind a cursor. -/
def after (c : ℤ) (l : List (Item α)) : List (Item α) := l.filter fun e => c < e.id

section Cursor

variable {l l' feed had had' seg : List (Item α)} {e : Item α}

theorem le_cursor (h : Ascending l) (he : e ∈ l) : (e.id : ℤ) ≤ cursor l := by
  induction l using List.reverseRecOn with
  | nil => cases he
  | append_singleton l last _ =>
    have hlast : cursor (l ++ [last]) = last.id := by simp [cursor]
    rw [hlast]
    rcases mem_append.mp he with he | he
    · have hlt := (pairwise_append.mp h).2.2 e he last (by simp)
      omega
    · obtain rfl := mem_singleton.mp he
      exact Int.le_refl _

theorem cursor_lt (h : Ascending (l ++ l')) (he : e ∈ l') : cursor l < e.id := by
  unfold cursor
  split
  · next last hlast =>
    have hlt := (pairwise_append.mp h).2.2 last (mem_of_getLast? hlast) e he
    omega
  · omega

theorem cursor_drop {n : ℕ} (h : l.drop n ≠ []) : cursor (l.drop n) = cursor l := by
  unfold cursor
  rw [getLast?_drop, if_neg]
  rwa [Ne, drop_eq_nil_iff] at h

theorem after_append (c : ℤ) : after c (l ++ l') = after c l ++ after c l' := filter_append ..

theorem after_eq_nil {c : ℤ} (h : ∀ e ∈ l, (e.id : ℤ) ≤ c) : after c l = [] := by
  apply filter_eq_nil_iff.mpr
  intro e he
  have hle := h e he
  rw [decide_eq_true_eq]
  omega

theorem after_eq_self {c : ℤ} (h : ∀ e ∈ l, c < e.id) : after c l = l := by
  apply filter_eq_self.mpr
  intro e he
  exact decide_eq_true (h e he)

/-- Behind the cursor of a beginning comes the rest. -/
theorem after_cursor (h : Ascending (l ++ l')) : after (cursor l) (l ++ l') = l' := by
  rw [after_append, after_eq_nil fun e => le_cursor (pairwise_append.mp h).1,
    after_eq_self fun e => cursor_lt h, nil_append]

theorem after_cursor_take (h : Ascending l) (n : ℕ) :
    after (cursor (l.take n)) l = l.drop n := by
  have hsplit := @after_cursor _ (l.take n) (l.drop n) (by rwa [take_append_drop])
  rwa [take_append_drop] at hsplit

theorem after_cursor_drop (h : Ascending l) {k n : ℕ} (hk : k ≤ n) :
    after (cursor (l.take n)) (l.drop k) = l.drop n := by
  have hall := after_cursor_take h n
  rw [← take_append_drop k l, after_append, take_append_drop, after_eq_nil] at hall
  · exact hall
  · intro e he
    refine le_cursor (h.sublist (take_sublist _ _)) ?_
    exact (take_prefix_take_left hk).subset he

/-- A later beginning has a later cursor. -/
theorem cursor_take_lt (h : Ascending l) {k n : ℕ} (hk : k < n) (hn : n ≤ l.length) :
    cursor (l.take k) < cursor (l.take n) := by
  have htake : l.take n = l.take k ++ (l.take n).drop k := by
    conv_lhs => rw [← take_append_drop k (l.take n), take_take, Nat.min_eq_left (Nat.le_of_lt hk)]
  have hsub : Ascending (l.take n) := h.sublist (take_sublist _ _)
  obtain ⟨e, he⟩ := exists_mem_of_ne_nil ((l.take n).drop k) (by
    rw [Ne, drop_eq_nil_iff, length_take]
    omega)
  have hle := le_cursor hsub (mem_of_mem_drop he)
  rw [htake] at hsub
  have hlt := cursor_lt hsub he
  omega

/-- A stretch of the feed that begins no later than where the reader's entries end. -/
def Segment (feed had seg : List (Item α)) : Prop :=
  ∃ k m, k ≤ had.length ∧ seg = (feed.take m).drop k

/-- An answer stays a stretch while the feed and the reader move on. -/
theorem Segment.mono {feed' : List (Item α)} (h : Segment feed had seg) (hfeed : feed <+: feed')
    (hhad : had.length ≤ had'.length) : Segment feed' had' seg := by
  obtain ⟨k, m, hk, rfl⟩ := h
  obtain ⟨more, rfl⟩ := hfeed
  refine ⟨k, min m feed.length, Nat.le_trans hk hhad, ?_⟩
  rw [take_append_of_le_length (Nat.min_le_right _ _), ← take_eq_take_min]

/-- **What a reader keeps is a beginning of the feed.** -/
theorem read_segment (h : Ascending feed) (hhad : had <+: feed) (hseg : Segment feed had seg) :
    had ++ after (cursor had) seg <+: feed := by
  obtain ⟨k, m, hk, rfl⟩ := hseg
  obtain ⟨rest, rfl⟩ := hhad
  rcases Nat.le_total m had.length with hm | hm
  · -- The answer is older than what the reader has.
    rw [take_append_of_le_length hm, after_eq_nil, append_nil]
    · exact prefix_append _ _
    · intro e he
      exact le_cursor (pairwise_append.mp h).1 (mem_of_mem_take (mem_of_mem_drop he))
  · obtain ⟨n, rfl⟩ := Nat.exists_eq_add_of_le hm
    have htake : (had ++ rest).take (had.length + n) = had ++ rest.take n := by
      rw [take_append, take_of_length_le (by omega)]
      simp
    rw [htake, drop_append_of_le_length hk, after_append, after_eq_nil, after_eq_self, nil_append]
    · refine ⟨rest.drop n, ?_⟩
      rw [append_assoc, take_append_drop]
    · intro e he
      exact cursor_lt h (mem_of_mem_take he)
    · intro e he
      exact le_cursor (pairwise_append.mp h).1 (mem_of_mem_drop he)

end Cursor

/-! ## Compaction -/

section Compaction

variable (kind : α → Option κ) (merge : α → α → α)

/-- The entries stand for the log: each item is an entry of its own, or it was merged into the
entry of an earlier item of its kind, which from then on takes the place of the later one. -/
inductive Compacts : List α → List (Item α) → Prop where
  | nil : Compacts [] []
  | push {log : List α} {l : List (Item α)} (a : α) (h : Compacts log l) :
      Compacts (log ++ [a]) (l ++ [⟨log.length, a⟩])
  | merge {log : List α} {l l' : List (Item α)} {e : Item α} {k : κ} (a : α)
      (h : Compacts log (l ++ e :: l')) (hold : kind e.body = some k) (hnew : kind a = some k) :
      Compacts (log ++ [a]) (l ++ l' ++ [⟨log.length, merge e.body a⟩])

variable {kind merge} {log : List α} {l : List (Item α)}

theorem ascending_snoc {e : Item α} (h : Ascending l) (he : ∀ f ∈ l, f.id < e.id) :
    Ascending (l ++ [e]) := by
  refine pairwise_append.mpr ⟨h, pairwise_singleton _ _, ?_⟩
  intro f hf g hg
  rw [mem_singleton.mp hg]
  exact he f hf

theorem Compacts.ascending_lt (h : Compacts kind merge log l) :
    Ascending l ∧ ∀ e ∈ l, e.id < log.length := by
  induction h with
  | nil => exact ⟨.nil, fun e he => by cases he⟩
  | push a _ ih =>
    refine ⟨ascending_snoc ih.1 ih.2, ?_⟩
    intro e he
    rw [List.length_append]
    rcases mem_append.mp he with he | he
    · have hlt := ih.2 e he
      omega
    · rw [mem_singleton.mp he]
      exact Nat.lt_succ_self _
  | @merge log l l' e k a _ _ _ ih =>
    have hsub : (l ++ l').Sublist (l ++ e :: l') := (sublist_cons_self e l').append_left l
    have hlt : ∀ f ∈ l ++ l', f.id < log.length := fun f hf => ih.2 f (hsub.subset hf)
    refine ⟨ascending_snoc (ih.1.sublist hsub) hlt, ?_⟩
    intro f hf
    rw [List.length_append]
    rcases mem_append.mp hf with hf | hf
    · have hbound := hlt f hf
      omega
    · rw [mem_singleton.mp hf]
      exact Nat.lt_succ_self _

theorem Compacts.ascending (h : Compacts kind merge log l) : Ascending l := h.ascending_lt.1

/-- Without items that may be merged, the entries are the log. -/
theorem Compacts.eq_log (h : Compacts kind merge log l) (hkind : ∀ a ∈ log, kind a = none) :
    l.map (·.body) = log ∧ l.map (·.id) = List.range log.length := by
  induction h with
  | nil => exact ⟨rfl, rfl⟩
  | push a _ ih =>
    obtain ⟨hbody, hid⟩ := ih fun b hb => hkind b (mem_append_left _ hb)
    simp [hbody, hid, range_succ]
  | merge a _ _ hnew _ =>
    rw [hkind a (by simp)] at hnew
    cases hnew

end Compaction

end Feed
