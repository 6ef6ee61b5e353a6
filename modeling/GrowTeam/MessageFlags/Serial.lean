/-
# An order that explains the flags

A request that needs new rows takes its place in the order when it is committed.  One that treats
messages without rows as done takes its place when it has locked the rows there are: a row that is
made before it is committed is not its business.  Between its first statement and its commit a
request holds the locks of all rows it changes, so the order explains the rows and what each event
names.
-/
import GrowTeam.MessageFlags.Requests
import Mathlib.Data.List.Nodup

namespace GrowTeam.MessageFlags

open History Database List

/-! ## Operations one after the other -/

/-- An operation on its own. -/
def Op.apply (site : Site) (op : Op) (rows : ℕ → Option Bits) (m : ℕ) : Option Bits :=
  match op with
  | .change c =>
    if m ∈ c.considered site ∧ flagsOf rows m c.flag ≠ c.isAdding then
      some ((flagsOf rows m).set c.flag c.isAdding)
    else rows m
  | .create flags messages => if m ∈ messages then (rows m).or (some flags) else rows m

/-- The event names the messages whose flag the operation changes. -/
def Done.Names (site : Site) (done : Done) (rows : ℕ → Option Bits) : Prop :=
  match done.op with
  | .change c => ∀ m, m ∈ done.messages ↔
      m ∈ c.considered site ∧ flagsOf rows m c.flag ≠ c.isAdding
  | .create _ _ => done.messages = []

/-- The operations lead from some rows to others, and each event names what was changed. -/
def Serial (site : Site) : (ℕ → Option Bits) → List Done → (ℕ → Option Bits) → Prop
  | rows, [], rows' => rows' = rows
  | rows, done :: later, rows' =>
    done.Names site rows ∧ Serial site (done.op.apply site rows) later rows'

variable {site : Site} {d d' : Database} {i j : ℕ} {t t' : Transaction} {c : Change}
  {messages ums : List ℕ} {rows rows' : ℕ → Option Bits} {done : Done} {m : ℕ}

variable {log commits : List Done}

theorem Serial.append (h : Serial site rows log rows')
    (hnames : done.Names site rows') :
    Serial site rows (log ++ [done]) (done.op.apply site rows') := by
  induction log generalizing rows with
  | nil =>
    subst h
    exact ⟨hnames, rfl⟩
  | cons first log ih => exact ⟨h.1, ih h.2⟩

/-! ## What a transaction has done so far -/

/-- The flags of a message without a row are as the request wants them. -/
def Change.Calm (c : Change) : Prop := defaultHistoricalFlags c.flag = c.isAdding

instance (c : Change) : Decidable c.Calm := inferInstanceAs (Decidable (_ = _))

/-- The request has locked the rows there were, and knows which messages it changes. -/
structure Chosen (site : Site) (d : Database) (i : ℕ) (c : Change) (messages ums : List ℕ) :
    Prop where
  locked : ∀ m ∈ ums, d.locks m = some i ∧ (d.rows m).isSome = true
  considered : ∀ m ∈ ums, m ∈ c.considered site
  mem : ∀ m, m ∈ messages ↔ m ∈ c.considered site ∧
    (m ∈ ums → flagsOf d.rows m c.flag ≠ c.isAdding) ∧ (m ∉ ums → ¬c.Calm)

/-- The request has inserted rows for the messages that had none. -/
structure Inserted (d : Database) (i : ℕ) (c : Change) (messages ums : List ℕ)
    (writes : ℕ → Option Bits) : Prop where
  written : ∀ m ∈ messages, m ∉ ums →
    writes m = some (defaultHistoricalFlags.set c.flag c.isAdding)
  locked : ∀ m ∈ messages, m ∉ ums → d.locks m = some i
  fresh : ∀ m ∈ messages, m ∉ ums → flagsOf d.rows m = defaultHistoricalFlags

/-- What a transaction has locked and written, by the statements that are done. -/
inductive Holds (site : Site) (d : Database) (i : ℕ) : Transaction → Prop where
  | created (flags : Bits) (messages : List ℕ) :
      Holds site d i ⟨.create flags messages, .start, fun _ => none⟩
  | creating (flags : Bits) (messages : List ℕ) (writes : ℕ → Option Bits)
      (hnew : ∀ m, writes m = none ∨
        (m ∈ messages ∧ writes m = some flags ∧ d.rows m = none ∧ d.locks m = some i))
      (hall : ∀ m ∈ messages, (d.rows m).isSome = true ∨ writes m = some flags) :
      Holds site d i ⟨.create flags messages, .updated [], writes⟩
  | start (c : Change) : Holds site d i ⟨.change c, .start, fun _ => none⟩
  | filtered (c : Change) : Holds site d i ⟨.change c, .filtered (c.considered site), fun _ => none⟩
  | selected (c : Change) (messages ums : List ℕ) (h : Chosen site d i c messages ums) :
      Holds site d i ⟨.change c, .selected messages ums, fun _ => none⟩
  | accessed (c : Change) (messages ums : List ℕ) (h : Chosen site d i c messages ums)
      (hcalm : ¬c.Calm) : Holds site d i ⟨.change c, .accessed messages ums, fun _ => none⟩
  | inserted (c : Change) (messages ums : List ℕ) (writes : ℕ → Option Bits)
      (h : Chosen site d i c messages ums) (hnew : Inserted d i c messages ums writes)
      (hrest : ∀ m, ¬(m ∈ messages ∧ m ∉ ums) → writes m = none) :
      Holds site d i ⟨.change c, .inserted messages ums, writes⟩
  | updated (c : Change) (messages ums : List ℕ) (writes : ℕ → Option Bits)
      (h : Chosen site d i c messages ums) (hnew : Inserted d i c messages ums writes)
      (hold : ∀ m ∈ messages, m ∈ ums → writes m = some ((flagsOf d.rows m).set c.flag c.isAdding))
      (hrest : ∀ m ∉ messages, writes m = none) :
      Holds site d i ⟨.change c, .updated messages, writes⟩

/-- A transaction does not notice what others do to rows that it has not locked. -/
structure Undisturbed (d d' : Database) (j : ℕ) : Prop where
  locks : ∀ m, d.locks m = some j → d'.locks m = some j
  rows : ∀ m, d.locks m = some j → d'.rows m = d.rows m
  kept : ∀ m, (d.rows m).isSome = true → (d'.rows m).isSome = true

theorem Undisturbed.flagsOf_eq (h : Undisturbed d d' j) (hm : d.locks m = some j) :
    flagsOf d'.rows m = flagsOf d.rows m := by
  unfold flagsOf
  rw [h.rows m hm]

theorem Chosen.transfer (hc : Chosen site d j c messages ums) (h : Undisturbed d d' j) :
    Chosen site d' j c messages ums where
  locked := fun m hm => ⟨h.locks m (hc.locked m hm).1, h.kept m (hc.locked m hm).2⟩
  considered := hc.considered
  mem := by
    intro m
    rw [hc.mem m]
    apply and_congr_right
    intro _
    apply and_congr_left
    intro _
    apply forall_congr'
    intro hm
    rw [h.flagsOf_eq (hc.locked m hm).1]

theorem Inserted.transfer {writes : ℕ → Option Bits} (hi : Inserted d j c messages ums writes)
    (h : Undisturbed d d' j) : Inserted d' j c messages ums writes where
  written := hi.written
  locked := fun m hm hnot => h.locks m (hi.locked m hm hnot)
  fresh := fun m hm hnot => (h.flagsOf_eq (hi.locked m hm hnot)).trans (hi.fresh m hm hnot)

theorem Holds.transfer (hh : Holds site d j t) (h : Undisturbed d d' j) : Holds site d' j t := by
  cases hh with
  | created flags messages => exact .created flags messages
  | creating flags messages writes hnew hall =>
    refine .creating flags messages writes (fun m => (hnew m).imp_right ?_) fun m hm =>
      (hall m hm).imp_left (h.kept m)
    rintro ⟨hm, hw, hnone, hlocked⟩
    exact ⟨hm, hw, (h.rows m hlocked).trans hnone, h.locks m hlocked⟩
  | start c => exact .start c
  | filtered c => exact .filtered c
  | selected c messages ums hc => exact .selected c messages ums (hc.transfer h)
  | accessed c messages ums hc hcalm => exact .accessed c messages ums (hc.transfer h) hcalm
  | inserted c messages ums writes hc hi hrest =>
    exact .inserted c messages ums writes (hc.transfer h) (hi.transfer h) hrest
  | updated c messages ums writes hc hi hold hrest =>
    refine .updated c messages ums writes (hc.transfer h) (hi.transfer h) ?_ hrest
    intro m hm hin
    rw [hold m hm hin, h.flagsOf_eq (hc.locked m hin).1]

/-! ## The order so far -/

/-- `messages`, once the rows are locked. -/
def Stage.chosen : Stage → Option (List ℕ)
  | .start => none
  | .filtered _ => none
  | .selected messages _ => some messages
  | .accessed messages _ => some messages
  | .inserted messages _ => some messages
  | .updated messages => some messages

/-- A request that has its place in the order before it is committed. -/
def Transaction.pending (t : Transaction) : Option Done :=
  match t.op, t.stage.chosen with
  | .change c, some messages => if c.Calm then some ⟨.change c, messages⟩ else none
  | _, _ => none

/-- The order `log` explains what is committed, with the open requests that are in it already. -/
structure Explained (site : Site) (init : ℕ → Option Bits) (commits : List Done) (d : Database)
    (log : List Done) (waiting : List (ℕ × Done)) (rows : ℕ → Option Bits) : Prop where
  holds : ∀ i t, d.transactions i = some t → Holds site d i t
  perm : log.Perm (commits ++ waiting.map Prod.snd)
  nodup : waiting.Nodup
  waiting : ∀ i done, (i, done) ∈ waiting ↔
    ∃ t, d.transactions i = some t ∧ t.pending = some done
  serial : Serial site init log rows
  pending : ∀ i t c messages, d.transactions i = some t →
    t.pending = some ⟨.change c, messages⟩ → ∀ m ∈ messages,
      rows m = some ((flagsOf d.rows m).set c.flag c.isAdding)
  settled : ∀ m, (∀ i t done, d.transactions i = some t → t.pending = some done →
    m ∉ done.messages) → rows m = d.rows m

/-- What a pending request changes has rows that it has locked. -/
theorem Holds.of_pending (h : Holds site d i t) (hp : t.pending = some done) :
    ∃ c, done.op = .change c ∧ c.Calm ∧ t.op = .change c ∧
      ∀ m ∈ done.messages, d.locks m = some i ∧ (d.rows m).isSome = true := by
  have hchosen : ∀ {c : Change} {messages ums : List ℕ}, Chosen site d i c messages ums →
      (if c.Calm then some ⟨.change c, messages⟩ else none) = some done →
      ∃ c', done.op = .change c' ∧ c'.Calm ∧ Op.change c = .change c' ∧
        ∀ m ∈ done.messages, d.locks m = some i ∧ (d.rows m).isSome = true := by
    intro c messages ums hc hdone
    by_cases hcalm : c.Calm
    · rw [if_pos hcalm, Option.some.injEq] at hdone
      subst hdone
      refine ⟨c, rfl, hcalm, rfl, fun m hm => ?_⟩
      by_cases hin : m ∈ ums
      · exact hc.locked m hin
      · exact absurd hcalm (((hc.mem m).mp hm).2.2 hin)
    · rw [if_neg hcalm] at hdone
      cases hdone
  cases h with
  | created flags messages | creating flags messages writes hnew hall | start c | filtered c =>
    cases hp
  | selected c messages ums hc | accessed c messages ums hc hcalm
  | inserted c messages ums writes hc hi hrest | updated c messages ums writes hc hi hold hrest =>
    exact hchosen hc hp

variable {init : ℕ → Option Bits}

/-- A row that a transaction has locked is not changed by a pending request of another. -/
theorem Explained.rows_eq
    {waiting : List (ℕ × Done)} (h : Explained site init commits d log waiting rows)
    (hfree : ∀ j, d.locks m = some j → j = i)
    (hi : ∀ t done, d.transactions i = some t → t.pending = some done → m ∉ done.messages) :
    rows m = d.rows m := by
  refine h.settled m fun j s done hs hp hm => ?_
  obtain ⟨c, -, -, -, hlocked⟩ := (h.holds j s hs).of_pending hp
  have hji := hfree j (hlocked m hm).1
  subst hji
  exact hi s done hs hp hm

/-- A row that is there stays in the order. -/
theorem Explained.isSome
    {waiting : List (ℕ × Done)} (h : Explained site init commits d log waiting rows) :
    (rows m).isSome = (d.rows m).isSome := by
  by_cases hp : ∃ i t done, d.transactions i = some t ∧ t.pending = some done ∧ m ∈ done.messages
  · obtain ⟨i, t, ⟨op, messages⟩, ht, hdone, hm⟩ := hp
    obtain ⟨c, rfl, -, -, hlocked⟩ := (h.holds i t ht).of_pending hdone
    rw [h.pending i t c messages ht hdone m hm, (hlocked m hm).2]
    rfl
  · rw [h.settled m fun i t done ht hdone hm => hp ⟨i, t, done, ht, hdone, hm⟩]

/-! ## A transaction goes on -/

variable {ms : List ℕ}

theorem transactions_proceed :
    (d.proceed i t ms).transactions j = if j = i then some t else d.transactions j := by
  unfold proceed
  by_cases h : j = i
  · subst h
    simp
  · simp [h]

theorem free_iff :
    d.free i ms = true ↔ ∀ m ∈ ms, ∀ j, d.locks m = some j → j = i := by
  unfold free
  simp only [all_eq_true, Bool.or_eq_true, decide_eq_true_eq]
  refine forall₂_congr fun m _ => ?_
  cases d.locks m with
  | none | some k => simp

theorem undisturbed_proceed (hfree : d.free i ms = true) (hji : j ≠ i) :
    Undisturbed d (d.proceed i t ms) j where
  locks := by
    intro m hm
    unfold proceed
    dsimp only
    rw [if_neg fun hin => hji (free_iff.mp hfree m hin j hm), hm]
  rows := fun _ _ => rfl
  kept := fun _ h => h

/-- Others hold on to what they have while a transaction goes on. -/
theorem holds_proceed (h : ∀ j s, d.transactions j = some s → Holds site d j s)
    (hfree : d.free i ms = true) (hholds : Holds site (d.proceed i t ms) i t) :
    ∀ j s, (d.proceed i t ms).transactions j = some s → Holds site (d.proceed i t ms) j s := by
  intro j s hs
  rw [transactions_proceed] at hs
  by_cases hji : j = i
  · subst hji
    rw [if_pos rfl, Option.some.injEq] at hs
    rwa [← hs]
  · rw [if_neg hji] at hs
    exact (h j s hs).transfer (undisturbed_proceed hfree hji)

variable {init : ℕ → Option Bits} {commits log : List Done} {waiting : List (ℕ × Done)}

/-- A transaction goes on and keeps its place in the order, or has none yet. -/
theorem Explained.proceed (h : Explained site init commits d log waiting rows)
    (hfree : d.free i ms = true) (hholds : Holds site (d.proceed i t ms) i t)
    (hsame : ∀ done, t.pending = some done ↔
      ∃ s, d.transactions i = some s ∧ s.pending = some done) :
    Explained site init commits (d.proceed i t ms) log waiting rows := by
  have hpending : ∀ j done, (∃ s, (d.proceed i t ms).transactions j = some s ∧
      s.pending = some done) ↔ ∃ s, d.transactions j = some s ∧ s.pending = some done := by
    intro j done
    rw [transactions_proceed]
    by_cases hji : j = i
    · subst hji
      rw [← hsame]
      simp
    · rw [if_neg hji]
  exact { h with
    holds := holds_proceed h.holds hfree hholds
    waiting := fun j done => (h.waiting j done).trans (hpending j done).symm
    pending := by
      intro j s c messages hs hp m hm
      obtain ⟨s', hs', hp'⟩ := (hpending j _).mp ⟨s, hs, hp⟩
      exact h.pending j s' c messages hs' hp' m hm
    settled := by
      intro m hm
      refine h.settled m fun j s done hs hp => ?_
      obtain ⟨s', hs', hp'⟩ := (hpending j done).mpr ⟨s, hs, hp⟩
      exact hm j s' done hs' hp' }

/-- A request that treats messages without rows as done takes its place. -/
theorem Explained.select (h : Explained site init commits d log waiting rows)
    (hs : d.transactions i = some t) (hnone : t.pending = none)
    (hfree : d.free i ums = true) (hcalm : c.Calm)
    (hholds : Holds site (d.proceed i t' ums) i t')
    (hp : t'.pending = some ⟨.change c, messages⟩)
    (hums : ums = (c.considered site).filter fun m => (d.rows m).isSome)
    (hmessages : messages =
      (c.considered site).filter fun m => flagsOf d.rows m c.flag ≠ c.isAdding) :
    Explained site init commits (d.proceed i t' ums) (log ++ [⟨.change c, messages⟩])
      (waiting ++ [(i, ⟨.change c, messages⟩)]) ((Op.change c).apply site rows) := by
  have hold : ∀ s done, d.transactions i = some s → s.pending ≠ some done := by
    intro s done hs' hp'
    cases hs.symm.trans hs'
    rw [hnone] at hp'
    cases hp'
  have hrows : ∀ m ∈ c.considered site, rows m = d.rows m := by
    intro m hconsidered
    cases hrow : d.rows m with
    | none =>
      have hsome := h.isSome (m := m)
      rw [hrow] at hsome
      simpa using hsome
    | some flags =>
      have hin : m ∈ ums := by
        rw [hums]
        exact mem_filter.mpr ⟨hconsidered, by rw [hrow]; rfl⟩
      rw [← hrow]
      exact h.rows_eq (i := i) (fun j hj => free_iff.mp hfree m hin j hj)
        fun s done hs' hp' => absurd hp' (hold s done hs')
  have hmem : ∀ m, m ∈ messages ↔ m ∈ c.considered site ∧ flagsOf rows m c.flag ≠ c.isAdding := by
    intro m
    rw [hmessages, mem_filter, decide_eq_true_eq]
    refine and_congr_right fun hconsidered => ?_
    unfold flagsOf
    rw [hrows m hconsidered]
  -- Only messages with rows are changed: the others are as the request wants them.
  have hlocked : ∀ m ∈ messages, m ∈ ums := by
    intro m hm
    obtain ⟨hconsidered, hflag⟩ := (hmem m).mp hm
    rw [hums, mem_filter]
    refine ⟨hconsidered, ?_⟩
    cases hrow : d.rows m with
    | none =>
      unfold flagsOf at hflag
      rw [hrows m hconsidered, hrow] at hflag
      exact absurd hcalm hflag
    | some flags => rfl
  have hnew : ∀ m, m ∉ messages → (Op.change c).apply site rows m = rows m :=
    fun m hm => if_neg fun hin => hm ((hmem m).mpr hin)
  exact {
    holds := holds_proceed h.holds hfree hholds
    perm := by
      rw [map_append, ← append_assoc]
      exact h.perm.append_right _
    nodup := by
      refine nodup_append.mpr ⟨h.nodup, nodup_singleton _, ?_⟩
      rintro ⟨j, done⟩ hj e he rfl
      obtain ⟨rfl, rfl⟩ := Prod.mk.inj (mem_singleton.mp he)
      obtain ⟨s, hs', hp'⟩ := (h.waiting _ _).mp hj
      exact hold s _ hs' hp'
    waiting := by
      intro j done
      rw [mem_append, mem_singleton, h.waiting, transactions_proceed]
      by_cases hji : j = i
      · subst hji
        rw [if_pos rfl]
        constructor
        · rintro (⟨s, hs', hp'⟩ | heq)
          · exact absurd hp' (hold s done hs')
          · obtain ⟨-, rfl⟩ := Prod.mk.inj heq
            exact ⟨t', rfl, hp⟩
        · rintro ⟨s, hs', hp'⟩
          cases hs'
          rw [hp, Option.some.injEq] at hp'
          exact Or.inr (by rw [hp'])
      · rw [if_neg hji]
        exact or_iff_left fun heq => hji (Prod.mk.inj heq).1
    serial := h.serial.append hmem
    pending := by
      intro j s c' ms hs' hp' m hm
      rw [transactions_proceed] at hs'
      by_cases hji : j = i
      · subst hji
        rw [if_pos rfl, Option.some.injEq] at hs'
        subst hs'
        rw [hp, Option.some.injEq, Done.mk.injEq, Op.change.injEq] at hp'
        obtain ⟨rfl, rfl⟩ := hp'
        have hin := (hmem m).mp hm
        have heq : flagsOf rows m = flagsOf d.rows m := by
          unfold flagsOf
          rw [hrows m hin.1]
        exact (if_pos hin).trans (by rw [heq]; rfl)
      · rw [if_neg hji] at hs'
        obtain ⟨-, -, -, -, hmine⟩ := (h.holds j s hs').of_pending hp'
        have hout : m ∉ messages := fun hin =>
          hji (free_iff.mp hfree m (hlocked m hin) j (hmine m hm).1)
        rw [hnew m hout]
        exact h.pending j s c' ms hs' hp' m hm
    settled := by
      intro m hm
      have hout : m ∉ messages := hm i t' _ (by rw [transactions_proceed, if_pos rfl]) hp
      rw [hnew m hout]
      refine h.settled m fun j s done hs' hp' => ?_
      by_cases hji : j = i
      · subst hji
        exact absurd hp' (hold s done hs')
      · exact hm j s done (by rw [transactions_proceed, if_neg hji, hs']) hp' }

/-! ## A transaction ends -/

theorem transactions_finish :
    (d.finish i rows').transactions j = if j = i then none else d.transactions j := by
  unfold finish
  by_cases h : j = i
  · subst h
    simp
  · simp [h]

theorem undisturbed_finish (hrows : ∀ m, d.locks m ≠ some i → rows' m = d.rows m)
    (hkept : ∀ m, (d.rows m).isSome = true → (rows' m).isSome = true) (hji : j ≠ i) :
    Undisturbed d (d.finish i rows') j where
  locks := by
    intro m hm
    unfold finish
    dsimp only
    rw [if_neg fun heq => hji (Option.some.inj (hm.symm.trans heq)), hm]
  rows := fun m hm => hrows m fun heq => hji (Option.some.inj (hm.symm.trans heq))
  kept := hkept

theorem holds_finish (h : ∀ j s, d.transactions j = some s → Holds site d j s)
    (hrows : ∀ m, d.locks m ≠ some i → rows' m = d.rows m)
    (hkept : ∀ m, (d.rows m).isSome = true → (rows' m).isSome = true) :
    ∀ j s, (d.finish i rows').transactions j = some s → Holds site (d.finish i rows') j s := by
  intro j s hs
  rw [transactions_finish] at hs
  by_cases hji : j = i
  · rw [if_pos hji] at hs
    cases hs
  · rw [if_neg hji] at hs
    exact (h j s hs).transfer (undisturbed_finish hrows hkept hji)

theorem isSome_written (h : (d.rows m).isSome = true) : (d.written t m).isSome = true := by
  unfold written
  rw [Option.isSome_or, h, Bool.or_true]

variable (rows') in
/-- Which transactions are pending after one that was not has ended. -/
theorem pending_finish (hnone : ∀ s, d.transactions i = some s → s.pending = none) {done : Done} :
    (∃ s, (d.finish i rows').transactions j = some s ∧ s.pending = some done) ↔
      ∃ s, d.transactions j = some s ∧ s.pending = some done := by
  rw [transactions_finish]
  by_cases hji : j = i
  · subst hji
    rw [if_pos rfl]
    constructor
    · rintro ⟨s, hs, -⟩
      cases hs
    · rintro ⟨s, hs, hp⟩
      rw [hnone s hs] at hp
      cases hp
  · rw [if_neg hji]

/-- A transaction fails before it has a place in the order. -/
theorem Explained.rollback (h : Explained site init commits d log waiting rows)
    (hnone : ∀ s, d.transactions i = some s → s.pending = none) :
    Explained site init commits (d.finish i d.rows) log waiting rows := { h with
  holds := holds_finish h.holds (fun _ _ => rfl) fun _ hm => hm
  waiting := fun j done => (h.waiting j done).trans (pending_finish _ hnone).symm
  pending := by
    intro j s c messages hs hp m hm
    obtain ⟨s', hs', hp'⟩ := (pending_finish _ hnone).mp ⟨s, hs, hp⟩
    exact h.pending j s' c messages hs' hp' m hm
  settled := by
    intro m hm
    refine h.settled m fun j s done hs hp => ?_
    obtain ⟨s', hs', hp'⟩ := (pending_finish d.rows hnone).mpr ⟨s, hs, hp⟩
    exact hm j s' done hs' hp' }

variable (done) in
/-- A transaction takes its place when it is committed. -/
theorem Explained.commit (h : Explained site init commits d log waiting rows)
    (hnone : ∀ s, d.transactions i = some s → s.pending = none)
    (hnames : done.Names site rows)
    (hmine : ∀ m, d.locks m = some i → rows m = d.rows m →
      done.op.apply site rows m = d.written t m)
    (hother : ∀ m, d.locks m ≠ some i →
      done.op.apply site rows m = rows m ∧ d.written t m = d.rows m) :
    Explained site init (commits ++ [done]) (d.finish i (d.written t)) (log ++ [done]) waiting
      (done.op.apply site rows) where
  holds := holds_finish h.holds (fun m hm => (hother m hm).2) fun _ hm => isSome_written hm
  perm := by
    refine (h.perm.append_right [done]).trans ?_
    rw [append_assoc, append_assoc]
    exact perm_append_comm.append_left commits
  nodup := h.nodup
  waiting := fun j done => (h.waiting j done).trans (pending_finish _ hnone).symm
  serial := h.serial.append hnames
  pending := by
    intro j s c messages hs hp m hm
    obtain ⟨s', hs', hp'⟩ := (pending_finish _ hnone).mp ⟨s, hs, hp⟩
    obtain ⟨-, -, -, -, hlocked⟩ := (h.holds j s' hs').of_pending hp'
    have hji : d.locks m ≠ some i := by
      intro heq
      have hsame : i = j := Option.some.inj (heq.symm.trans (hlocked m hm).1)
      subst hsame
      rw [hnone s' hs'] at hp'
      cases hp'
    have hflags : flagsOf (d.finish i (d.written t)).rows m = flagsOf d.rows m := by
      unfold flagsOf finish
      dsimp only
      rw [(hother m hji).2]
    rw [(hother m hji).1, hflags]
    exact h.pending j s' c messages hs' hp' m hm
  settled := by
    intro m hm
    by_cases hlocked : d.locks m = some i
    · refine hmine m hlocked (h.rows_eq (i := i) ?_ ?_)
      · intro j hj
        exact Option.some.inj (hj.symm.trans hlocked)
      · intro s done hs hp
        rw [hnone s hs] at hp
        cases hp
    · rw [(hother m hlocked).1]
      refine (h.settled m fun j s done hs hp => ?_).trans (hother m hlocked).2.symm
      obtain ⟨s', hs', hp'⟩ := (pending_finish (d.written t) hnone).mpr ⟨s, hs, hp⟩
      exact hm j s' done hs' hp'

/-- A request that has its place is committed. -/
theorem Explained.commitPending (h : Explained site init commits d log waiting rows)
    (hs : d.transactions i = some t) (hp : t.pending = some ⟨.change c, messages⟩)
    (hwritten : ∀ m ∈ messages, d.written t m = some ((flagsOf d.rows m).set c.flag c.isAdding))
    (hrest : ∀ m ∉ messages, d.written t m = d.rows m) :
    ∃ waiting', Explained site init (commits ++ [⟨.change c, messages⟩])
      (d.finish i (d.written t)) log waiting' rows := by
  obtain ⟨-, -, -, -, hlocked⟩ := (h.holds i t hs).of_pending hp
  have hin : (i, ⟨.change c, messages⟩) ∈ waiting := (h.waiting _ _).mpr ⟨t, hs, hp⟩
  obtain ⟨before, after, rfl⟩ := append_of_mem hin
  have hkeeps : ∀ m, d.locks m ≠ some i → d.written t m = d.rows m :=
    fun m hm => hrest m fun hmem => hm (hlocked m hmem).1
  have hnodup := nodup_middle.mp h.nodup
  refine ⟨before ++ after, ?_⟩
  exact {
    holds := holds_finish h.holds hkeeps fun _ hm => isSome_written hm
    perm := by
      refine h.perm.trans ?_
      rw [map_append, map_append, append_assoc]
      exact perm_middle.append_left commits
    nodup := (nodup_cons.mp hnodup).2
    waiting := by
      intro j done
      have hold := h.waiting j done
      rw [transactions_finish]
      by_cases hji : j = i
      · subst hji
        rw [if_pos rfl]
        constructor
        · intro hmem
          have hmem' : (j, done) ∈ before ++ (j, ⟨.change c, messages⟩) :: after :=
            (perm_middle.mem_iff).mpr (mem_cons_of_mem _ hmem)
          obtain ⟨s, hs', hp'⟩ := hold.mp hmem'
          cases hs.symm.trans hs'
          rw [hp, Option.some.injEq] at hp'
          subst hp'
          exact absurd hmem (nodup_cons.mp hnodup).1
        · rintro ⟨s, hs', -⟩
          cases hs'
      · rw [if_neg hji, ← hold, perm_middle.mem_iff, mem_cons]
        exact (or_iff_right fun heq => hji (Prod.mk.inj heq).1).symm
    serial := h.serial
    pending := by
      intro j s c' ms hs' hp' m hm
      rw [transactions_finish] at hs'
      by_cases hji : j = i
      · rw [if_pos hji] at hs'
        cases hs'
      · rw [if_neg hji] at hs'
        obtain ⟨-, -, -, -, hmine⟩ := (h.holds j s hs').of_pending hp'
        have hflags : flagsOf (d.finish i (d.written t)).rows m = flagsOf d.rows m := by
          unfold flagsOf finish
          dsimp only
          rw [hkeeps m fun heq => hji (Option.some.inj ((hmine m hm).1.symm.trans heq))]
        rw [hflags]
        exact h.pending j s c' ms hs' hp' m hm
    settled := by
      intro m hm
      by_cases hmem : m ∈ messages
      · exact (h.pending i t c messages hs hp m hmem).trans (hwritten m hmem).symm
      · refine (h.settled m fun j s done hs' hp' => ?_).trans (hrest m hmem).symm
        by_cases hji : j = i
        · subst hji
          cases hs.symm.trans hs'
          rw [hp, Option.some.injEq] at hp'
          subst hp'
          exact hmem
        · exact hm j s done (by rw [transactions_finish, if_neg hji, hs']) hp' }

end GrowTeam.MessageFlags
