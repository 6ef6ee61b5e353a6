/-
# Whether the history is limited (`post_process_limited_query`)

The flag is read off the rows that were fetched.  A query after the anchor begins at the first
visible message, so what is hidden there is not fetched: the flag is wrong when nothing before the
anchor is fetched and the range that was asked for begins with a hidden message.
-/
import GrowTeam.Narrow.Access

namespace GrowTeam.Narrow

open Chat List

/-- Some message of the list is older than the first visible one. -/
def Hides (rows : List Message) (firstVisibleMessageId : ℕ) : Prop :=
  ∃ m ∈ rows, m.id < firstVisibleMessageId

/-- The rows are in the order of their ids. -/
def InOrder (rows : List Message) : Prop := rows.Pairwise fun a b => a.id ≤ b.id

variable {rows rows' : List Message} {v n : ℕ}

/-! ## The first and the last rows -/

theorem hides_append : Hides (rows ++ rows') v ↔ Hides rows v ∨ Hides rows' v := by
  unfold Hides
  simp only [mem_append, or_and_right, exists_or]

theorem not_hides (h : ∀ m ∈ rows, v ≤ m.id) : ¬Hides rows v := by
  rintro ⟨m, hm, hlt⟩
  exact absurd hlt (not_lt.mpr (h m hm))

theorem hides_iff (h : ∀ m ∈ rows, m.id < v) : Hides rows v ↔ 0 < rows.length := by
  constructor
  · rintro ⟨m, hm, -⟩
    exact length_pos_of_mem hm
  · intro hpos
    obtain ⟨m, hm⟩ := exists_mem_of_length_pos hpos
    exact ⟨m, hm, h m hm⟩

/-- What is hidden comes first. -/
theorem InOrder.split (h : InOrder rows) (v : ℕ) : ∃ hidden visible, rows = hidden ++ visible ∧
    (∀ m ∈ hidden, m.id < v) ∧ ∀ m ∈ visible, v ≤ m.id := by
  induction rows with
  | nil => exact ⟨[], [], rfl, by simp, by simp⟩
  | cons first rows ih =>
    obtain ⟨hfirst, hrest⟩ := pairwise_cons.mp h
    by_cases hlt : first.id < v
    · obtain ⟨hidden, visible, rfl, hhidden, hvisible⟩ := ih hrest
      exact ⟨first :: hidden, visible, rfl, forall_mem_cons.mpr ⟨hlt, hhidden⟩, hvisible⟩
    · rw [not_lt] at hlt
      exact ⟨[], first :: rows, rfl, by simp,
        forall_mem_cons.mpr ⟨hlt, fun m hm => le_trans hlt (hfirst m hm)⟩⟩

theorem hides_take (h : InOrder rows) (hn : 0 < n) : Hides (rows.take n) v ↔ Hides rows v := by
  constructor
  · rintro ⟨m, hm, hlt⟩
    exact ⟨m, mem_of_mem_take hm, hlt⟩
  · rintro ⟨m, hm, hlt⟩
    cases rows with
    | nil => cases hm
    | cons first rows =>
      refine ⟨first, ?_, lt_of_le_of_lt ?_ hlt⟩
      · obtain ⟨n, rfl⟩ := Nat.exists_eq_succ_of_ne_zero (Nat.pos_iff_ne_zero.mp hn)
        exact mem_cons_self
      · rcases mem_cons.mp hm with rfl | hm
        · exact le_refl _
        · exact (pairwise_cons.mp h).1 m hm

theorem hides_firstRows (h : InOrder rows) : Hides (firstRows rows n) v ↔ Hides rows v := by
  unfold firstRows
  split
  · exact .rfl
  · next hn => exact hides_take h (Nat.pos_of_ne_zero hn)

/-- Of the last rows one is hidden if one is hidden at all and there are too few visible ones. -/
theorem hides_lastRows (h : InOrder rows) (hn : 0 < n) : Hides (lastRows rows n) v ↔
    Hides rows v ∧ (rows.filter fun m => decide (v ≤ m.id)).length < n := by
  obtain ⟨hidden, visible, rfl, hhidden, hvisible⟩ := h.split v
  have hfilter : (hidden ++ visible).filter (fun m => decide (v ≤ m.id)) = visible := by
    rw [filter_append, filter_eq_nil_iff.mpr, filter_eq_self.mpr, nil_append]
    · exact fun m hm => decide_eq_true (hvisible m hm)
    · exact fun m hm => by simpa using hhidden m hm
  have hnone : ∀ k, ¬Hides (visible.drop k) v :=
    fun k => not_hides fun m hm => hvisible m (mem_of_mem_drop hm)
  unfold lastRows
  rw [if_neg hn.ne', hfilter, drop_append, hides_append, hides_append,
    or_iff_left (hnone _), or_iff_left (not_hides hvisible), hides_iff hhidden,
    hides_iff fun m hm => hhidden m (mem_of_mem_drop hm), length_drop, length_append]
  omega

theorem length_lastRows_lt : (lastRows rows n).length < n ↔ rows.length < n := by
  unfold lastRows
  split
  · exact .rfl
  · rw [length_drop]
    omega

theorem lastRows_of_le (h : n = 0 ∨ rows.length ≤ n) : lastRows rows n = rows := by
  unfold lastRows
  split
  · rfl
  · next hn => rw [Nat.sub_eq_zero_of_le (h.resolve_left hn), drop_zero]

/-! ## What the flag is read off -/

theorem visibleRows_eq : visibleRows rows v = rows.filter fun m => decide (v ≤ m.id) := by
  unfold visibleRows
  split
  · rfl
  · refine (filter_eq_self.mpr fun m _ => ?_).symm
    exact decide_eq_true (by omega)

theorem limited_iff : (visibleRows rows v).length ≠ rows.length ↔ Hides rows v := by
  rw [visibleRows_eq, ne_eq, length_filter_eq_length_iff]
  simp [Hides]

variable {numBefore numAfter : ℕ} {anchor : ℤ} {left right includeHistory isSearch : Bool}

/-- The rows before the anchor. -/
def beforeAnchor (rows : List Message) (anchor : ℤ) (anchoredToRight : Bool) : List Message :=
  if anchoredToRight then rows else rows.filter fun m => (m.id : ℤ) < anchor

theorem hides_parts (anchor : ℤ) (right : Bool) : Hides rows v ↔ Hides (beforeAnchor rows anchor right) v ∨
    (right = false ∧ ∃ m ∈ rows, m.id < v ∧ anchor ≤ m.id) := by
  cases right with
  | true => simp [beforeAnchor]
  | false =>
    constructor
    · rintro ⟨m, hm, hlt⟩
      by_cases hbefore : (m.id : ℤ) < anchor
      · exact .inl ⟨m, mem_filter.mpr ⟨hm, decide_eq_true hbefore⟩, hlt⟩
      · exact .inr ⟨rfl, m, hm, hlt, not_lt.mp hbefore⟩
    · rintro (⟨m, hm, hlt⟩ | ⟨-, m, hm, hlt, -⟩)
      · exact ⟨m, mem_of_mem_filter hm, hlt⟩
      · exact ⟨m, hm, hlt⟩

/-- Of the rows that are returned where nothing is hidden, some are older than the limit. -/
theorem hides_rows (h : InOrder rows) :
    Hides (postProcessLimitedQuery rows numBefore numAfter anchor left right 0 includeHistory
        isSearch).rows v ↔
      Hides (lastRows (beforeAnchor rows anchor right) numBefore) v ∨
        (right = false ∧ ∃ m ∈ rows, m.id < v ∧ anchor ≤ m.id) := by
  have hall : visibleRows rows 0 = rows := rfl
  unfold postProcessLimitedQuery
  dsimp only
  rw [hall, hides_append, hides_append, or_assoc]
  refine or_congr .rfl ?_
  cases right with
  | true => simp [Hides, firstRows]
  | false =>
    simp only [Bool.false_eq_true, if_false]
    rw [hides_firstRows (h.filter _)]
    simp only [Hides, mem_filter, decide_eq_true_eq, true_and]
    constructor
    · rintro (⟨m, ⟨hm, heq⟩, hlt⟩ | ⟨m, ⟨hm, hgt⟩, hlt⟩)
      · exact ⟨m, hm, hlt, heq.ge⟩
      · exact ⟨m, hm, hlt, hgt.le⟩
    · rintro ⟨m, hm, hlt, hle⟩
      rcases hle.eq_or_lt with heq | hgt
      · exact .inl ⟨m, ⟨hm, heq.symm⟩, hlt⟩
      · exact .inr ⟨m, ⟨hm, hgt⟩, hlt⟩

theorem hides_rows_of_few (h : InOrder rows)
    (hfew : numBefore = 0 ∨ (beforeAnchor rows anchor right).length ≤ numBefore) :
    Hides (postProcessLimitedQuery rows numBefore numAfter anchor left right 0 includeHistory
      isSearch).rows v ↔ Hides rows v := by
  rw [hides_rows h, lastRows_of_le hfew]
  exact (hides_parts anchor right).symm

theorem limited_flag :
    (postProcessLimitedQuery rows numBefore numAfter anchor left right v includeHistory
        isSearch).historyLimited = true ↔ Hides rows v ∧ (left = true ∨
      ((beforeAnchor rows anchor right).filter fun m => decide (v ≤ m.id)).length < numBefore) := by
  have hbefore : (if right then visibleRows rows v
      else (visibleRows rows v).filter fun m => (m.id : ℤ) < anchor) =
        (beforeAnchor rows anchor right).filter fun m => decide (v ≤ m.id) := by
    rw [visibleRows_eq]
    cases right with
    | true => rfl
    | false =>
      simp only [beforeAnchor, Bool.false_eq_true, if_false, filter_filter, Bool.and_comm]
  unfold postProcessLimitedQuery
  dsimp only
  rw [hbefore, Bool.and_eq_true, Bool.or_eq_true, decide_eq_true_eq, decide_eq_true_eq, limited_iff,
    length_lastRows_lt]

/-- **The flag is right about the rows that were fetched** where some before the anchor are asked
for or the fetch begins at the first message. -/
theorem limited_flag_iff (h : InOrder rows)
    (hleft : left = true → right = false ∧ ∀ m ∈ rows, anchor < m.id)
    (hpos : left = true ∨ 0 < numBefore) :
    (postProcessLimitedQuery rows numBefore numAfter anchor left right v includeHistory
        isSearch).historyLimited = true ↔
      Hides (postProcessLimitedQuery rows numBefore numAfter anchor left right 0 includeHistory
        isSearch).rows v := by
  rw [limited_flag, hides_rows h, hides_parts anchor right]
  by_cases hrange : right = false ∧ ∃ m ∈ rows, m.id < v ∧ anchor ≤ m.id
  · refine iff_of_true ⟨.inr hrange, hpos.imp_right fun hpos => ?_⟩ (.inr hrange)
    -- What is before the anchor is hidden as well.
    obtain ⟨rfl, m, -, hlt, hle⟩ := hrange
    rw [filter_eq_nil_iff.mpr fun m' hm' => ?_]
    · exact hpos
    · have hm' := of_decide_eq_true (mem_filter.mp hm').2
      rw [decide_eq_true_eq]
      omega
  · rw [or_iff_left hrange, or_iff_left hrange]
    cases hl : left with
    | true =>
      obtain ⟨rfl, hafter⟩ := hleft hl
      have hnone : beforeAnchor rows anchor false = [] :=
        filter_eq_nil_iff.mpr fun m hm => by simpa using (hafter m hm).le
      simp [hnone, Hides, lastRows]
    | false =>
      rw [hl] at hpos
      have hn := hpos.resolve_left Bool.false_ne_true
      have hin : InOrder (beforeAnchor rows anchor right) := by
        unfold beforeAnchor
        split
        · exact h
        · exact h.filter _
      simp [hides_lastRows hin hn]

/-! ## What is fetched -/

variable {includeAnchor : Bool}

/-- The rows of the query, in the order of their ids. -/
def ordered (rows : List Message) : List Message := rows.insertionSort fun m m' => m.id ≤ m'.id

theorem inOrder_ordered : InOrder (ordered rows) := by
  have htotal : Std.Total fun m m' : Message => m.id ≤ m'.id := ⟨fun _ _ => le_total _ _⟩
  have htrans : IsTrans Message fun m m' => m.id ≤ m'.id := ⟨fun _ _ _ => le_trans⟩
  exact pairwise_insertionSort _ _

theorem hides_ordered : Hides (ordered rows) v ↔ Hides rows v := by
  simp only [Hides, ordered, mem_insertionSort]

/-- The limit is about the query after the anchor alone. -/
theorem limit_same (h : left = true ∨ numAfter = 0) :
    limitQueryToRange rows numBefore numAfter anchor includeAnchor left right v =
      limitQueryToRange rows numBefore numAfter anchor includeAnchor left right 0 := by
  unfold limitQueryToRange
  rcases h with rfl | rfl
  · simp
  · simp

/-- The messages asked for from the anchor on. -/
def InRange (anchor : ℤ) (includeAnchor : Bool) (numBefore numAfter : ℕ) (m : Message) : Prop :=
  if numAfter = 0 then (m.id : ℤ) = anchor
  else if 0 < numBefore ∨ includeAnchor = true then anchor ≤ m.id else anchor < m.id

theorem hides_filter {p : Message → Bool} :
    Hides (rows.filter p) v ↔ ∃ m ∈ rows, m.id < v ∧ p m = true := by
  simp only [Hides, mem_filter, and_assoc, and_comm (a := p _ = true)]

/-- Without a query before the anchor something is hidden if it is in the range. -/
theorem hides_limit (h : InOrder rows) (hright : numAfter = 0 ∨ right = false) :
    Hides (limitQueryToRange rows 0 numAfter anchor includeAnchor false right 0) v ↔
      ∃ m ∈ rows, m.id < v ∧ InRange anchor includeAnchor 0 numAfter m := by
  unfold limitQueryToRange InRange
  rcases Nat.eq_zero_or_pos numAfter with rfl | hpos
  · simp [hides_filter]
  · obtain rfl := hright.resolve_left hpos.ne'
    simp only [Nat.lt_irrefl, decide_false, Bool.and_false, Bool.false_and, Bool.false_or,
      Bool.not_false, Bool.true_and, hpos, decide_true, if_false, if_true, hpos.ne',
      Bool.false_eq_true, false_or]
    rw [hides_take (h.filter _) (by split <;> omega), hides_filter]
    cases includeAnchor with
    | true => simp
    | false => simp [Int.add_one_le_iff]

/-- Two queries: the one after the anchor begins at the first visible message. -/
theorem limit_both (hbefore : 0 < numBefore) (hafter : 0 < numAfter) :
    limitQueryToRange rows numBefore numAfter anchor includeAnchor false false v =
      (rows.filter fun m => decide ((m.id : ℤ) ≤ anchor - 1)).reverse.take numBefore ++
        (rows.filter fun m => decide (max anchor (v : ℤ) ≤ m.id)).take (numAfter + 1) := by
  simp [limitQueryToRange, hbefore, hafter]

/-- Nothing before the anchor is fetched, and the range from the anchor on begins with a hidden
message. -/
def BeginsHidden (rows : List Message) (anchor : ℤ) (includeAnchor : Bool)
    (numBefore numAfter firstVisibleMessageId : ℕ) : Prop :=
  anchor ≠ 0 ∧ (numBefore = 0 ∨ (0 < numAfter ∧ ∀ m ∈ rows, anchor ≤ m.id)) ∧
    ∃ m ∈ rows, m.id < firstVisibleMessageId ∧ InRange anchor includeAnchor numBefore numAfter m

/-- The flag of a page, and what the page without the limit says. -/
def Tells (rows : List Message) (numBefore numAfter : ℕ) (anchor : ℤ)
    (includeAnchor anchoredToRight : Bool) (firstVisibleMessageId : ℕ)
    (includeHistory isSearch : Bool) : Prop :=
  let page := fun limit => postProcessLimitedQuery
    (ordered (limitQueryToRange rows numBefore numAfter anchor includeAnchor (decide (anchor = 0))
      anchoredToRight limit)) numBefore numAfter anchor (decide (anchor = 0)) anchoredToRight limit
      includeHistory isSearch
  (page firstVisibleMessageId).historyLimited = true ↔ Hides (page 0).rows firstVisibleMessageId

section Pages

variable (h : InOrder rows)

include h

/-- Both sides are fetched: the flag misses what is hidden from the anchor on. -/
theorem tells_both (hleft : anchor ≠ 0) (hbefore : 0 < numBefore) (hafter : 0 < numAfter) :
    Tells rows numBefore numAfter anchor includeAnchor false v includeHistory isSearch ↔
      ¬((∀ m ∈ rows, anchor ≤ m.id) ∧ ∃ m ∈ rows, m.id < v ∧ anchor ≤ m.id) := by
  have hfew : ∀ limit, (beforeAnchor (ordered (limitQueryToRange rows numBefore numAfter anchor
      includeAnchor false false limit)) anchor false).length ≤ numBefore := by
    intro limit
    unfold beforeAnchor ordered
    rw [if_neg Bool.false_ne_true, ((perm_insertionSort _ _).filter _).length_eq,
      limit_both hbefore hafter, filter_append, length_append]
    rw [show ((rows.filter _).take (numAfter + 1)).filter _ = [] from
      filter_eq_nil_iff.mpr fun m hm => ?_]
    · exact le_trans (length_filter_le _ _) (length_take_le _ _)
    · have hm := of_decide_eq_true (mem_filter.mp (mem_of_mem_take hm)).2
      simpa using (le_max_left _ _).trans hm
  unfold Tells
  dsimp only
  rw [decide_eq_false hleft,
    limited_flag_iff inOrder_ordered (fun hleft => absurd hleft Bool.false_ne_true)
      (.inr hbefore),
    hides_rows_of_few inOrder_ordered (.inr (hfew _)),
    hides_rows_of_few inOrder_ordered (.inr (hfew _)), hides_ordered, hides_ordered,
    limit_both hbefore hafter, limit_both hbefore hafter, hides_append, hides_append,
    hides_take (h.filter _) (Nat.succ_pos _), hides_take (h.filter _) (Nat.succ_pos _)]
  rw [or_iff_left (not_hides fun m hm => ?_), hides_filter (v := v)]
  · have hrange : ∀ m : Message,
        decide (max anchor ((0 : ℕ) : ℤ) ≤ m.id) = true ↔ anchor ≤ m.id := by
      intro m
      rw [decide_eq_true_eq, max_le_iff]
      exact and_iff_left (Int.natCast_nonneg _)
    simp only [hrange]
    by_cases hhidden : ∃ m ∈ rows, m.id < v ∧ anchor ≤ m.id
    · -- Whatever is before the anchor is hidden as well.
      obtain ⟨m, -, hlt, hle⟩ := id hhidden
      have hbelow : ∀ m' ∈ (rows.filter fun m => decide ((m.id : ℤ) ≤ anchor - 1)).reverse.take
          numBefore, m'.id < v := by
        intro m' hm'
        have hm' := of_decide_eq_true (mem_filter.mp (mem_reverse.mp (mem_of_mem_take hm'))).2
        omega
      rw [iff_true_right (Or.inr hhidden), and_iff_left hhidden, hides_iff hbelow, length_take,
        length_reverse, lt_min_iff, and_iff_right hbefore, length_pos_iff_exists_mem]
      simp [Int.le_sub_one_iff]
    · rw [or_iff_left hhidden]
      exact iff_of_true .rfl fun hbad => hhidden hbad.2
  · have hm := of_decide_eq_true (mem_filter.mp hm).2
    exact Int.ofNat_le.mp ((le_max_right _ _).trans hm)

theorem tells_iff (right includeHistory isSearch : Bool) (hpos : ∀ m ∈ rows, 0 < m.id)
    (hright : numAfter = 0 ∨ right = false) (hzero : anchor = 0 → right = false) :
    Tells rows numBefore numAfter anchor includeAnchor right v includeHistory isSearch ↔
      ¬BeginsHidden rows anchor includeAnchor numBefore numAfter v := by
  unfold BeginsHidden
  by_cases hbegin : anchor = 0 ∨ 0 < numBefore
  · by_cases hone : anchor = 0 ∨ numAfter = 0
    · -- The limit does not change what is fetched.
      refine iff_of_true ?_ ?_
      · unfold Tells
        dsimp only
        rw [limit_same (v := v) (hone.imp_left decide_eq_true)]
        refine limited_flag_iff inOrder_ordered (fun hleft => ?_) (hbegin.imp_left decide_eq_true)
        have hanchor := of_decide_eq_true hleft
        refine ⟨hzero hanchor, fun m hm => ?_⟩
        rw [hanchor]
        exact Int.natCast_pos.mpr (hpos m (mem_limitQueryToRange ((mem_insertionSort _).mp hm)))
      · rintro ⟨hleft, hnone | ⟨hafter, -⟩, -⟩
        · exact absurd (hbegin.resolve_left hleft) (by omega)
        · exact absurd (hone.resolve_left hleft) hafter.ne'
    · rw [not_or] at hone
      have hbefore := hbegin.resolve_left hone.1
      have hafter := Nat.pos_of_ne_zero hone.2
      obtain rfl := hright.resolve_left hone.2
      rw [tells_both h hone.1 hbefore hafter]
      simp [InRange, hone.1, hone.2, hbefore, hbefore.ne', hafter]
  · rw [not_or, Nat.pos_iff_ne_zero, not_not] at hbegin
    obtain ⟨hleft, rfl⟩ := hbegin
    unfold Tells
    dsimp only
    rw [limited_flag, hides_rows_of_few inOrder_ordered (.inl rfl), decide_eq_false hleft,
      hides_ordered, hides_ordered, hides_limit h hright]
    simp [hleft]

end Pages

/-- **The flag that the history is limited**: it tells that the page without the limit of the plan
has an older message, exactly when no hidden message begins a range with nothing before it. -/
theorem fetchRange_tells_iff (h : InOrder rows) (hpos : ∀ m ∈ rows, 0 < m.id) :
    ((fetchRange rows anchor includeAnchor numBefore numAfter v includeHistory
        isSearch).historyLimited = true ↔
      ∃ m ∈ (fetchRange rows anchor includeAnchor numBefore numAfter 0 includeHistory
        isSearch).rows, m.id < v) ↔
    ¬BeginsHidden rows anchor includeAnchor numBefore
      (if largerThanMaxMessageId ≤ anchor then 0 else numAfter) v := by
  refine Iff.trans ?_ (tells_iff h (decide (largerThanMaxMessageId ≤ anchor)) includeHistory
    isSearch hpos ?_ ?_)
  · unfold Tells fetchRange ordered Hides
    simp only [decide_eq_true_eq]
  · split
    · exact .inl rfl
    · next hlt => exact .inr (decide_eq_false hlt)
  · rintro rfl
    rfl

def lunch (id : ℕ) : Message := ⟨id, 2, ⟨9, .stream, 4⟩, "lunch"⟩

/-- The two messages up to the anchor are told to be cut. -/
theorem fetchRange_tells_lunch :
    (fetchRange [lunch 1, lunch 2, lunch 3] 2 true 1 0 2 true false).historyLimited = true ↔
      ∃ m ∈ (fetchRange [lunch 1, lunch 2, lunch 3] 2 true 1 0 0 true false).rows, m.id < 2 :=
  (fetchRange_tells_iff (by unfold InOrder; decide) (by decide)).mpr
    fun hbegins => absurd (hbegins.2.1.resolve_left (by decide)).1 (by decide)

/-- The page around the first message, of which two messages are hidden. -/
theorem fetchRange_tells_nothing :
    (fetchRange [lunch 1, lunch 2, lunch 3] 1 true 5 5 3 true false).historyLimited = false ∧
      ∃ m ∈ (fetchRange [lunch 1, lunch 2, lunch 3] 1 true 5 5 0 true false).rows, m.id < 3 :=
  ⟨by decide, lunch 1, by decide, by decide⟩

end GrowTeam.Narrow
