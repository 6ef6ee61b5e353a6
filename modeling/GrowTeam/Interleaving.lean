/-
# Routines over a shared store, interleaved and crashed at will

A routine is a program whose effects are atomic steps on one shared store.  Any number
of routines is in flight at once; a scheduler picks which of them moves, and a crash
drops them all and leaves only what the store keeps.  Nothing in this file mentions a
particular program: `σ` is the store, `ι` what the environment answers to one step
(a reply, a failure, a clock value), `τ` the label a step carries in the trace, and `κ`
the calls a run may start.

* `Routine` is the syntax, with its monad, so a routine is written with `do`;
* `Machine.move`, `exec` and `trace` are the executions, total functions of a list of moves;
* `Sound` is the rely/guarantee triple: an assertion in front of a step that waits has to
  be stable under the steps of all the others;
* `Machine.sound_run` carries a sound machine's invariant over every run, and what each step
  owes with it; `rel_exec`, `trace_past` and `trace_once` are what follows for histories.

A step with `awaits = false` follows its predecessor without a scheduling point, which is
how a single-threaded event loop runs the code between two `await`s; a crash can still
fall between the two.
-/
import Mathlib.Data.List.Basic

namespace Interleaving

open List

/-! ## Routines -/

/-- A program made of atomic steps on a store `σ`.  Each step carries its trace label,
reads one environment input and continues with the value it produced. -/
inductive Routine (σ ι τ : Type) (α : Type) : Type 1 where
  | done (a : α) : Routine σ ι τ α
  | step {β : Type} (awaits : Bool) (tag : τ) (act : ι → σ → β × σ)
      (next : β → Routine σ ι τ α) : Routine σ ι τ α

namespace Routine

variable {σ ι τ ε α β : Type}

/-- Sequential composition. -/
def bind : Routine σ ι τ α → (α → Routine σ ι τ β) → Routine σ ι τ β
  | .done a, f => f a
  | .step w t act next, f => .step w t act (fun b => (next b).bind f)

instance : Monad (Routine σ ι τ) where
  pure := .done
  bind := bind

/-- A routine of one step. -/
def atom (awaits : Bool) (tag : τ) (act : ι → σ → β × σ) : Routine σ ι τ β :=
  .step awaits tag act .done

/-- One step that either commits a new store or fails and leaves the store as it was. -/
def attempt (awaits : Bool) (tag : τ) (act : ι → σ → Except ε (β × σ)) :
    ExceptT ε (Routine σ ι τ) β :=
  ExceptT.mk <| atom awaits tag fun input s =>
    match act input s with
    | .ok (b, s') => (.ok b, s')
    | .error e => (.error e, s)

/-- A routine is parked when it has ended or its next step waits. -/
def parked : Routine σ ι τ α → Bool
  | .done _ => true
  | .step w _ _ _ => w

/-- Whether a routine has ended. -/
def ended : Routine σ ι τ α → Bool
  | .done _ => true
  | .step .. => false

end Routine

/-! ## Machines, moves and runs -/

/-- What a run may start, and what a crash leaves of the store. -/
structure Machine (σ ι τ κ : Type) where
  routine : κ → Routine σ ι τ Unit
  reboot : σ → σ

/-- The store, the routines in flight (an ended one keeps its place) and the one that
holds the processor between two waits. -/
structure System (σ ι τ : Type) where
  store : σ
  tasks : List (Routine σ ι τ Unit)
  running : Option ℕ

/-- One choice of the scheduler or of the environment. -/
inductive Move (κ ι : Type) where
  | start (call : κ)
  | advance (i : ℕ) (input : ι)
  | drop (i : ℕ)
  | crash

/-- A step that was taken, with the stores before and after it. -/
structure Event (σ τ : Type) where
  tag : τ
  pre : σ
  post : σ

/-- A store with nothing in flight. -/
def System.idle {σ ι τ : Type} (s : σ) : System σ ι τ := ⟨s, [], none⟩

namespace Machine

variable {σ ι τ κ : Type} (M : Machine σ ι τ κ)

/-- One move.  A move that is not possible changes nothing. -/
def move : Move κ ι → System σ ι τ → System σ ι τ × Option (Event σ τ)
  | .start call, s =>
    if s.running = none then ({ s with tasks := s.tasks ++ [M.routine call] }, none)
    else (s, none)
  | .advance i input, s =>
    if s.running = none ∨ s.running = some i then
      match s.tasks[i]? with
      | some (.step _ tag act next) =>
        let r := act input s.store
        (⟨r.2, s.tasks.set i (next r.1), if (next r.1).parked then none else some i⟩,
          some ⟨tag, s.store, r.2⟩)
      | _ => (s, none)
    else (s, none)
  | .drop i, s =>
    ({ s with tasks := s.tasks.set i (.done ()),
              running := if s.running = some i then none else s.running }, none)
  | .crash, s => (.idle (M.reboot s.store), none)

/-- The system after a list of moves. -/
def exec (s : System σ ι τ) : List (Move κ ι) → System σ ι τ
  | [] => s
  | m :: ms => exec (M.move m s).1 ms

/-- The steps taken by a list of moves, in order. -/
def trace (s : System σ ι τ) : List (Move κ ι) → List (Event σ τ)
  | [] => []
  | m :: ms => (M.move m s).2.toList ++ trace (M.move m s).1 ms

theorem exec_append (s : System σ ι τ) (ms ns : List (Move κ ι)) :
    M.exec s (ms ++ ns) = M.exec (M.exec s ms) ns := by
  induction ms generalizing s with
  | nil => rfl
  | cons m ms ih => exact ih _

theorem trace_append (s : System σ ι τ) (ms ns : List (Move κ ι)) :
    M.trace s (ms ++ ns) = M.trace s ms ++ M.trace (M.exec s ms) ns := by
  induction ms generalizing s with
  | nil => rfl
  | cons m ms ih => simp only [cons_append, trace, exec, ih, append_assoc]

/-- A move that takes a step is an `advance`: the event's stores are the system's before
and after, and the step is the next one of that task. -/
theorem move_event {m : Move κ ι} {s : System σ ι τ} {e : Event σ τ}
    (h : (M.move m s).2 = some e) : e.pre = s.store ∧ e.post = (M.move m s).1.store := by
  cases m with
  | start call => simp only [move] at h; split at h <;> simp at h
  | drop i | crash => simp [move] at h
  | advance i input =>
    simp only [move] at h ⊢
    split at h
    · next hrun =>
      rw [if_pos hrun]
      cases ht : s.tasks[i]? with
      | none => rw [ht] at h; simp at h
      | some r =>
        rw [ht] at h
        cases r with
        | done a => simp at h
        | step w tag act next =>
          rw [Option.some.injEq] at h
          subst h
          exact ⟨rfl, rfl⟩
    · simp at h

/-- A move that takes no step keeps the store, except for a crash. -/
theorem move_silent {m : Move κ ι} {s : System σ ι τ} (h : (M.move m s).2 = none) :
    (M.move m s).1.store = s.store ∨ (M.move m s).1.store = M.reboot s.store := by
  cases m with
  | start call => left; simp only [move]; split <;> rfl
  | drop i => left; rfl
  | crash => right; rfl
  | advance i input =>
    left
    simp only [move] at h ⊢
    split
    · next hrun =>
      rw [if_pos hrun] at h
      cases ht : s.tasks[i]? with
      | none => rfl
      | some r =>
        cases r with
        | done a => rfl
        | step w tag act next => rw [ht] at h; simp at h
    · rfl

end Machine

/-! ## Rely/guarantee assertions -/

/-- The rules a family of routines keeps: a store invariant, a relation that every step
stays in, the condition under which a step is considered at all, and what is claimed of a
step with a given tag. -/
structure Rules (σ τ : Type) where
  inv : σ → Prop
  guar : σ → σ → Prop
  cond : τ → σ → Prop
  post : τ → σ → σ → Prop

namespace Rules

variable {σ ι τ α β : Type} (R : Rules σ τ)

/-- An assertion that no step of another routine can falsify. -/
def Stable (P : σ → Prop) : Prop :=
  ∀ s s', R.inv s → R.inv s' → R.guar s s' → P s → P s'

theorem stable_true : R.Stable fun _ => True := fun _ _ _ _ _ _ => trivial

variable {P P' F : σ → Prop}

theorem stable_and {Q : σ → Prop} (hP : R.Stable P) (hQ : R.Stable Q) :
    R.Stable fun s => P s ∧ Q s :=
  fun s s' hs hs' hg h => ⟨hP s s' hs hs' hg h.1, hQ s s' hs hs' hg h.2⟩

/-- What one step owes: the invariant, the guarantee and its tag's postcondition. -/
def Allowed (tag : τ) (s s' : σ) : Prop := R.inv s' ∧ R.guar s s' ∧ R.post tag s s'

/-- The triple `{P} r {Q}` under interference.  In front of a step that waits the
assertion may be weakened, but only to a stable one. -/
def Sound : Routine σ ι τ α → (σ → Prop) → (α → σ → Prop) → Prop
  | .done a, P, Q => ∀ s, R.inv s → P s → Q a s
  | .step w tag act next, P, Q =>
    ∃ P₀ : σ → Prop, (∀ s, R.inv s → P s → P₀ s) ∧ (w = true → R.Stable P₀) ∧
      ∃ P₁ : _ → σ → Prop,
        (∀ input s, R.inv s → P₀ s → R.cond tag s →
          R.Allowed tag s (act input s).2 ∧ P₁ (act input s).1 (act input s).2) ∧
        ∀ b, Sound (next b) (P₁ b) Q

variable {R}
variable {Q : α → σ → Prop} {r : Routine σ ι τ α} {P : σ → Prop}

theorem Sound.pre
    (h : R.Sound r P Q) (hP : ∀ s, R.inv s → P' s → P s) : R.Sound r P' Q := by
  cases r with
  | done a => exact fun s hs hp => h s hs (hP s hs hp)
  | step w tag act next =>
    obtain ⟨P₀, h₀, hst, P₁, hstep, hnext⟩ := h
    exact ⟨P₀, fun s hs hp => h₀ s hs (hP s hs hp), hst, P₁, hstep, hnext⟩

theorem Sound.post {Q Q' : α → σ → Prop}
    (h : R.Sound r P Q) (hQ : ∀ a s, R.inv s → Q a s → Q' a s) : R.Sound r P Q' := by
  induction r generalizing P with
  | done a => exact fun s hs hp => hQ a s hs (h s hs hp)
  | step w tag act next ih =>
    obtain ⟨P₀, h₀, hst, P₁, hstep, hnext⟩ := h
    exact ⟨P₀, h₀, hst, P₁, hstep, fun b => ih b (hnext b)⟩

/-- Sequential composition of triples. -/
theorem Sound.bind {f : α → Routine σ ι τ β} {Q' : β → σ → Prop}
    (hr : R.Sound r P Q) (hf : ∀ a, R.Sound (f a) (Q a) Q') : R.Sound (r.bind f) P Q' := by
  induction r generalizing P with
  | done a => exact (hf a).pre hr
  | step w tag act next ih =>
    obtain ⟨P₀, h₀, hst, P₁, hstep, hnext⟩ := hr
    exact ⟨P₀, h₀, hst, P₁, hstep, fun b => ih b (hnext b)⟩

/-- The frame rule: a stable assertion survives a routine that stays in the guarantee. -/
theorem Sound.frame (h : R.Sound r P Q) (hF : R.Stable F) :
    R.Sound r (fun s => P s ∧ F s) fun a s => Q a s ∧ F s := by
  induction r generalizing P with
  | done a => exact fun s hs hp => ⟨h s hs hp.1, hp.2⟩
  | step w tag act next ih =>
    obtain ⟨P₀, h₀, hst, P₁, hstep, hnext⟩ := h
    refine ⟨fun s => P₀ s ∧ F s, fun s hs hp => ⟨h₀ s hs hp.1, hp.2⟩,
      fun hw => R.stable_and (hst hw) hF, fun b s => P₁ b s ∧ F s, ?_, fun b => ih b (hnext b)⟩
    intro input s hs hp hc
    obtain ⟨hallowed, hp₁⟩ := hstep input s hs hp.1 hc
    exact ⟨hallowed, hp₁, hF _ _ hs hallowed.1 hallowed.2.1 hp.2⟩

/-- Nothing is owed from a precondition that cannot hold. -/
private theorem Sound.ofFalse (r : Routine σ ι τ α) (Q : α → σ → Prop) :
    R.Sound r (fun _ => False) Q := by
  induction r with
  | done a => exact fun _ _ h => h.elim
  | step w tag act next ih =>
    exact ⟨fun _ => False, fun _ _ h => h, fun _ _ _ _ _ _ h => h, fun _ _ => False,
      fun _ _ _ h => h.elim, ih⟩

/-- A precondition that does not speak of the store is a hypothesis. -/
theorem Sound.ofPure {V : Prop} (h : V → R.Sound r P Q) : R.Sound r (fun s => V ∧ P s) Q := by
  by_cases hV : V
  · exact (h hV).pre fun _ _ hp => hp.2
  · exact (Sound.ofFalse r Q).pre fun _ _ hp => hV hp.1

/-- The rule for one step. -/
theorem Sound.atom {w : Bool} {tag : τ} {act : ι → σ → β × σ}
    {Q : β → σ → Prop} (hst : w = true → R.Stable P)
    (hstep : ∀ input s, R.inv s → P s → R.cond tag s →
      R.Allowed tag s (act input s).2 ∧ Q (act input s).1 (act input s).2) :
    R.Sound (Routine.atom w tag act) P Q :=
  ⟨P, fun _ _ h => h, hst, Q, hstep, fun _ _ _ h => h⟩

/-! ### Routines that can fail -/

/-- The triple for a routine with exceptions: `Q` on a result, `E` on an error. -/
def SoundE (R : Rules σ τ) {ε : Type} (x : ExceptT ε (Routine σ ι τ) α) (P : σ → Prop)
    (Q : α → σ → Prop) (E : ε → σ → Prop) : Prop :=
  R.Sound x.run P fun r s => match r with
    | .ok a => Q a s
    | .error e => E e s

variable {ε : Type} {E : ε → σ → Prop}

variable {x : ExceptT ε (Routine σ ι τ) α}

theorem SoundE.pre
    (h : R.SoundE x P Q E) (hP : ∀ s, R.inv s → P' s → P s) : R.SoundE x P' Q E :=
  Sound.pre h hP

theorem SoundE.post {Q T : α → σ → Prop}
    (h : R.SoundE x P Q E) (hQ : ∀ a s, R.inv s → Q a s → T a s) : R.SoundE x P T E := by
  refine Sound.post h ?_
  rintro (e | a) s hs hq
  · exact hq
  · exact hQ a s hs hq

theorem SoundE.onError
    {E' : ε → σ → Prop} (h : R.SoundE x P Q E) (hE : ∀ e s, R.inv s → E e s → E' e s) :
    R.SoundE x P Q E' := by
  refine Sound.post h ?_
  rintro (e | a) s hs hq
  · exact hE e s hs hq
  · exact hq

theorem SoundE.frame
    (h : R.SoundE x P Q E) (hF : R.Stable F) :
    R.SoundE x (fun s => P s ∧ F s) (fun a s => Q a s ∧ F s) fun e s => E e s ∧ F s := by
  refine Sound.post (Sound.frame h hF) ?_
  rintro (e | a) s hs hq
  · exact hq
  · exact hq

theorem SoundE.ofPure {V : Prop} (h : V → R.SoundE x P Q E) : R.SoundE x (fun s => V ∧ P s) Q E :=
  Sound.ofPure h

theorem SoundE.pure {a : α} (h : ∀ s, R.inv s → P s → Q a s) :
    R.SoundE (Pure.pure a : ExceptT ε (Routine σ ι τ) α) P Q E := h

theorem SoundE.throw {e : ε} (h : ∀ s, R.inv s → P s → E e s) :
    R.SoundE (MonadExcept.throw e : ExceptT ε (Routine σ ι τ) α) P Q E := h

theorem SoundE.bind {f : α → ExceptT ε (Routine σ ι τ) β} {Q' : β → σ → Prop}
    (hx : R.SoundE x P Q E) (hf : ∀ a, R.SoundE (f a) (Q a) Q' E) : R.SoundE (x >>= f) P Q' E := by
  refine Sound.bind hx ?_
  rintro (e | a)
  · exact fun _ _ he => he
  · exact hf a

/-- The rule for one step that commits or fails. -/
theorem SoundE.attempt {w : Bool} {tag : τ} {act : ι → σ → Except ε (β × σ)}
    {Q : β → σ → Prop} (hst : w = true → R.Stable P)
    (hok : ∀ input s b s', R.inv s → P s → R.cond tag s → act input s = .ok (b, s') →
      R.Allowed tag s s' ∧ Q b s')
    (herr : ∀ input s e, R.inv s → P s → R.cond tag s → act input s = .error e →
      R.Allowed tag s s ∧ E e s) :
    R.SoundE (Routine.attempt w tag act) P Q E := by
  refine .atom hst ?_
  intro input s hs hp hc
  cases h : act input s with
  | ok r => exact hok input s r.1 r.2 hs hp hc h
  | error e => exact herr input s e hs hp hc h

/-- The rule for a loop over a list: `I l` holds once the items `l` are done. -/
theorem SoundE.forM {γ : Type} {f : γ → ExceptT ε (Routine σ ι τ) PUnit}
    {I : List γ → σ → Prop} (l : List γ)
    (hstep : ∀ front a back, l = front ++ a :: back →
      R.SoundE (f a) (I front) (fun _ => I (front ++ [a])) E) :
    R.SoundE (l.forM f) (I []) (fun _ => I l) E := by
  have key : ∀ back front, l = front ++ back →
      R.SoundE (back.forM f) (I front) (fun _ => I l) E := by
    intro back
    induction back with
    | nil =>
      rintro front rfl
      rw [append_nil]
      exact .pure fun _ _ h => h
    | cons a back ih =>
      rintro front rfl
      show R.SoundE (f a >>= fun _ => back.forM f) _ _ E
      refine .bind (hstep front a back rfl) fun _ => ih (front ++ [a]) ?_
      rw [append_assoc, singleton_append]
  exact key l [] rfl

/-- The rule for a handler. -/
theorem SoundE.tryCatch {handler : ε → ExceptT ε (Routine σ ι τ) α} {E' : ε → σ → Prop}
    (hx : R.SoundE x P Q E') (hh : ∀ e, R.SoundE (handler e) (E' e) Q E) :
    R.SoundE (MonadExcept.tryCatch x handler) P Q E := by
  refine Sound.bind hx ?_
  rintro (e | a)
  · exact hh e
  · exact fun _ _ h => h

/-- A finished routine discards its result or its error. -/
theorem SoundE.discard (h : R.SoundE x P Q E) :
    R.Sound (x.run.bind fun _ => .done ()) P fun _ _ => True :=
  Sound.bind h fun _ _ _ _ => trivial

end Rules

/-! ## Runs of a sound machine -/

namespace Machine

variable {σ ι τ κ : Type} {M : Machine σ ι τ κ} {R : Rules σ τ}

/-- Every call starts a sound routine, and a crash keeps the invariant. -/
structure Keeps (M : Machine σ ι τ κ) (R : Rules σ τ) : Prop where
  routine : ∀ call, R.Sound (M.routine call) (fun _ => True) fun _ _ => True
  reboot : ∀ s, R.inv s → R.inv (M.reboot s)

/-- What is known of a step that was taken. -/
structure Meets (R : Rules σ τ) (e : Event σ τ) : Prop where
  pre : R.inv e.pre
  post : R.inv e.post
  guar : R.guar e.pre e.post
  owed : R.post e.tag e.pre e.post

/-- The invariant of the whole system: each task has an assertion that holds now, from
which its rest is sound, and which is stable unless the task holds the processor. -/
def Covered (R : Rules σ τ) (s : System σ ι τ) : Prop :=
  R.inv s.store ∧ ∀ i r, s.tasks[i]? = some r →
    ∃ P : σ → Prop, P s.store ∧ R.Sound r P (fun _ _ => True) ∧
      (s.running ≠ some i → R.Stable P)

theorem covered_idle {s : σ} (hs : R.inv s) : Covered (ι := ι) R (.idle s) :=
  ⟨hs, fun i r h => by simp [System.idle] at h⟩

private theorem covered_done (Q : Unit → σ → Prop) (hQ : ∀ a s, Q a s) :
    R.Sound (.done () : Routine σ ι τ Unit) (fun _ => True) Q := fun s _ _ => hQ () s

/-- The assertion of a parked continuation can be taken stable. -/
private theorem parked_cover {r : Routine σ ι τ Unit} {P : σ → Prop} {s : σ}
    (hr : R.Sound r P fun _ _ => True) (hs : R.inv s) (hp : P s) (hpark : r.parked = true) :
    ∃ P' : σ → Prop, P' s ∧ R.Sound r P' (fun _ _ => True) ∧ R.Stable P' := by
  cases r with
  | done a => exact ⟨fun _ => True, trivial, fun _ _ _ => trivial, R.stable_true⟩
  | step w tag act next =>
    obtain ⟨P₀, h₀, hst, hrest⟩ := hr
    exact ⟨P₀, h₀ s hs hp, ⟨P₀, fun _ _ h => h, hst, hrest⟩, hst hpark⟩

private theorem covered_set {s : System σ ι τ} (h : Covered R s) (i : ℕ) {run : Option ℕ}
    (hrun : ∀ j, j ≠ i → run ≠ some j → s.running ≠ some j) :
    Covered R ⟨s.store, s.tasks.set i (.done ()), run⟩ := by
  refine ⟨h.1, fun j r hj => ?_⟩
  by_cases hij : j = i
  · subst hij
    by_cases hlt : j < s.tasks.length
    · rw [getElem?_set_self hlt, Option.some.injEq] at hj
      subst hj
      exact ⟨fun _ => True, trivial, covered_done _ fun _ _ => trivial,
        fun _ => R.stable_true⟩
    · rw [getElem?_eq_none (by simpa using hlt)] at hj
      simp at hj
  · rw [getElem?_set_ne (Ne.symm hij)] at hj
    obtain ⟨P, hp, hr, hst⟩ := h.2 j r hj
    exact ⟨P, hp, hr, fun hne => hst (hrun j hij hne)⟩

/-- Starting a call keeps the system covered: the new task needs no assertion. -/
private theorem covered_start (hM : M.Keeps R) {s : System σ ι τ} (h : Covered R s) (call : κ) :
    Covered R { s with tasks := s.tasks ++ [M.routine call] } := by
  refine ⟨h.1, fun i r hi => ?_⟩
  by_cases hlt : i < s.tasks.length
  · exact h.2 i r (by rwa [getElem?_append_left hlt] at hi)
  · rw [getElem?_append_right (by omega)] at hi
    obtain ⟨-, rfl⟩ : i - s.tasks.length = 0 ∧ M.routine call = r := by
      cases hk : i - s.tasks.length with
      | zero => rw [hk] at hi; exact ⟨rfl, by simpa using hi⟩
      | succ k => rw [hk] at hi; simp at hi
    exact ⟨fun _ => True, trivial, hM.routine call, fun _ => R.stable_true⟩

/-- The step of task `i` keeps the system covered. -/
private theorem covered_advance {s : System σ ι τ} (h : Covered R s) {i : ℕ} {β : Type}
    {w : Bool} {tag : τ} {act : ι → σ → β × σ} {next : β → Routine σ ι τ Unit} (input : ι)
    (hrun : s.running = none ∨ s.running = some i)
    (ht : s.tasks[i]? = some (.step w tag act next)) (hc : R.cond tag s.store) :
    Covered R ⟨(act input s.store).2, s.tasks.set i (next (act input s.store).1),
        if (next (act input s.store).1).parked then none else some i⟩ ∧
      R.guar s.store (act input s.store).2 ∧ R.post tag s.store (act input s.store).2 := by
  obtain ⟨P, hp, hr, -⟩ := h.2 i _ ht
  obtain ⟨P₀, h₀, -, P₁, hstep, hnext⟩ := hr
  obtain ⟨⟨hinv, hg, hpost⟩, hp₁⟩ := hstep input s.store h.1 (h₀ _ h.1 hp) hc
  have hlt : i < s.tasks.length := (List.getElem?_eq_some_iff.mp ht).1
  refine ⟨⟨hinv, fun j r hj => ?_⟩, hg, hpost⟩
  by_cases hij : i = j
  · subst hij
    rw [getElem?_set_self hlt, Option.some.injEq] at hj
    subst hj
    by_cases hpark : (next (act input s.store).1).parked = true
    · obtain ⟨P', hp', hr', hst'⟩ := parked_cover (hnext _) hinv hp₁ hpark
      exact ⟨P', hp', hr', fun _ => hst'⟩
    · exact ⟨_, hp₁, hnext _, fun hne => by simp [hpark] at hne⟩
  · rw [getElem?_set_ne hij] at hj
    obtain ⟨Q, hq, hrj, hst⟩ := h.2 j r hj
    have hstable : R.Stable Q := hst (by rcases hrun with hr | hr <;> simp [hr, hij])
    exact ⟨Q, hstable _ _ h.1 hinv hg hq, hrj, fun _ => hstable⟩

variable {s : System σ ι τ}

/-- One move of a sound machine whose step meets its condition keeps the system covered,
and the step it takes is an allowed one. -/
theorem covered_move (hM : M.Keeps R) (h : Covered R s) (m : Move κ ι)
    (hc : ∀ e, (M.move m s).2 = some e → R.cond e.tag e.pre) : Covered R (M.move m s).1 ∧
      ∀ e, (M.move m s).2 = some e → Meets R e := by
  cases m with
  | start call =>
    rw [move]
    split
    · exact ⟨covered_start hM h call, by simp⟩
    · exact ⟨h, by simp⟩
  | drop i =>
    refine ⟨covered_set h i fun j hij hne => ?_, by simp [move]⟩
    by_cases hi : s.running = some i
    · rw [hi]; simpa using Ne.symm hij
    · rwa [if_neg hi] at hne
  | crash => exact ⟨covered_idle (hM.reboot _ h.1), by simp [move]⟩
  | advance i input =>
    simp only [move] at hc ⊢
    by_cases hrun : s.running = none ∨ s.running = some i
    · rw [if_pos hrun] at hc ⊢
      cases ht : s.tasks[i]? with
      | none => exact ⟨h, by simp⟩
      | some r =>
        cases r with
        | done a => exact ⟨h, by simp⟩
        | step w tag act next =>
          rw [ht] at hc
          obtain ⟨hcov, hguar, howed⟩ := covered_advance h input hrun ht (hc _ rfl)
          refine ⟨hcov, ?_⟩
          rintro e ⟨rfl⟩
          exact ⟨h.1, hcov.1, hguar, howed⟩
    · rw [if_neg hrun]
      exact ⟨h, by simp⟩

/-- Between steps the store may be written from outside, within the rules. -/
theorem covered_write (h : Covered R s) (hpark : s.running = none) {t : σ}
    (hinv : R.inv t) (hguar : R.guar s.store t) : Covered R { s with store := t } := by
  refine ⟨hinv, fun i r hi => ?_⟩
  obtain ⟨P, hp, hr, hst⟩ := h.2 i r hi
  have hstable : R.Stable P := hst (by simp [hpark])
  exact ⟨P, hstable _ _ h.1 hinv hguar hp, hr, fun _ => hstable⟩

/-- **Runs of a sound machine.**  From a store with the invariant and nothing in flight,
every list of moves whose steps meet their conditions ends in a covered system, and each
step of the trace is an allowed one. -/
theorem sound_run (hM : M.Keeps R) (hs : Covered R s)
    (ms : List (Move κ ι)) (hc : ∀ e ∈ M.trace s ms, R.cond e.tag e.pre) : Covered R (M.exec s ms) ∧
      ∀ e ∈ M.trace s ms, Meets R e := by
  induction ms generalizing s with
  | nil => exact ⟨hs, by simp [trace]⟩
  | cons m ms ih =>
    simp only [trace, mem_append, Option.mem_toList] at hc ⊢
    obtain ⟨hcov, hev⟩ := covered_move hM hs m fun e he => hc e (.inl he)
    obtain ⟨hrun, htr⟩ := ih hcov fun e he => hc e (.inr he)
    refine ⟨hrun, ?_⟩
    rintro e (he | he)
    · exact hev e he
    · exact htr e he

/-- The store of every run of a sound machine has the invariant. -/
theorem sound_inv (hM : M.Keeps R) {s : σ} (hs : R.inv s) (ms : List (Move κ ι))
    (hc : ∀ e ∈ M.trace (.idle s) ms, R.cond e.tag e.pre) :
    R.inv (M.exec (.idle s) ms).store :=
  (sound_run hM (covered_idle hs) ms hc).1.1

/-- Every step of every run of a sound machine meets the rules. -/
theorem sound_trace (hM : M.Keeps R) {s : σ} (hs : R.inv s) (ms : List (Move κ ι))
    (hc : ∀ e ∈ M.trace (.idle s) ms, R.cond e.tag e.pre) {e : Event σ τ}
    (he : e ∈ M.trace (.idle s) ms) : Meets R e :=
  (sound_run hM (covered_idle hs) ms hc).2 e he

/-! ## Histories -/

/-- A preorder on stores that every step and every reboot stays in is a preorder along
the whole run. -/
theorem rel_exec {rel : σ → σ → Prop} (hrefl : ∀ s, rel s s)
    (htrans : ∀ a b c, rel a b → rel b c → rel a c) (hboot : ∀ s, rel s (M.reboot s))
    (s : System σ ι τ) (ms : List (Move κ ι))
    (hstep : ∀ e ∈ M.trace s ms, rel e.pre e.post) :
    rel s.store (M.exec s ms).store ∧
      (∀ e ∈ M.trace s ms, rel s.store e.pre ∧ rel e.post (M.exec s ms).store) ∧
      (M.trace s ms).Pairwise fun e f => rel e.post f.pre := by
  induction ms generalizing s with
  | nil => exact ⟨hrefl _, by simp [trace], .nil⟩
  | cons m ms ih =>
    simp only [trace, mem_append, Option.mem_toList] at hstep ⊢
    obtain ⟨hend, hmid, hpair⟩ := ih (M.move m s).1 fun e he => hstep e (.inr he)
    cases hm : (M.move m s).2 with
    | none =>
      have hmove : rel s.store (M.move m s).1.store := by
        rcases M.move_silent hm with h | h <;> rw [h]
        · exact hrefl _
        · exact hboot _
      refine ⟨htrans _ _ _ hmove hend, ?_, by simpa using hpair⟩
      rintro e (he | he)
      · simp at he
      · exact ⟨htrans _ _ _ hmove (hmid e he).1, (hmid e he).2⟩
    | some f =>
      obtain ⟨hpre, hpost⟩ := M.move_event hm
      have hf : rel f.pre f.post := hstep f (.inl hm)
      rw [hpre, hpost] at hf
      refine ⟨htrans _ _ _ hf hend, ?_, ?_⟩
      · rintro e (he | he)
        · obtain rfl : f = e := by simpa using he
          exact ⟨hpre ▸ hrefl _, hpost ▸ hend⟩
        · exact ⟨htrans _ _ _ hf (hmid e he).1, (hmid e he).2⟩
      · simp only [Option.toList_some, singleton_append, pairwise_cons]
        exact ⟨fun e he => hpost ▸ (hmid e he).1, hpair⟩

/-- What every step and every reboot keeps holds before and after each step of a run. -/
theorem trace_inv {J : σ → Prop} (s : System σ ι τ) (ms : List (Move κ ι)) (hs : J s.store)
    (hboot : ∀ s, J s → J (M.reboot s)) (hstep : ∀ e ∈ M.trace s ms, J e.pre → J e.post) :
    J (M.exec s ms).store ∧ ∀ e ∈ M.trace s ms, J e.pre ∧ J e.post := by
  have htrans : ∀ a b c : σ, (J a → J b) → (J b → J c) → J a → J c :=
    fun _ _ _ h h' ha => h' (h ha)
  obtain ⟨hend, hmid, -⟩ := rel_exec (fun _ h => h) htrans hboot s ms hstep
  refine ⟨hend hs, fun e he => ?_⟩
  have hpre := (hmid e he).1 hs
  exact ⟨hpre, hstep e he hpre⟩

variable {J : List (Event σ τ) → σ → Prop}

/-- What every step and every reboot keeps may speak of the steps taken so far. -/
theorem trace_past (s : System σ ι τ) (ms : List (Move κ ι))
    (hs : J [] s.store) (hboot : ∀ past s, J past s → J past (M.reboot s))
    (hstep : ∀ past e later, M.trace s ms = past ++ e :: later → J past e.pre →
      J (past ++ [e]) e.post) :
    J (M.trace s ms) (M.exec s ms).store ∧
      ∀ past e later, M.trace s ms = past ++ e :: later →
        J past e.pre ∧ J (past ++ [e]) e.post := by
  induction ms generalizing s J with
  | nil => exact ⟨hs, fun past e later h => by simp [trace] at h⟩
  | cons m ms ih =>
    cases hm : (M.move m s).2 with
    | none =>
      have htrace : M.trace s (m :: ms) = M.trace (M.move m s).1 ms := by simp [trace, hm]
      rw [htrace] at hstep ⊢
      refine ih _ ?_ hboot hstep
      rcases M.move_silent hm with h | h <;> rw [h]
      · exact hs
      · exact hboot _ _ hs
    | some f =>
      obtain ⟨hpre, hpost⟩ := M.move_event hm
      have htrace : M.trace s (m :: ms) = f :: M.trace (M.move m s).1 ms := by simp [trace, hm]
      rw [htrace] at hstep ⊢
      have hfirst : J [f] f.post := hstep [] f _ rfl (hpre ▸ hs)
      -- The rest of the run is one with the first step in its past.
      obtain ⟨hend, hmid⟩ := ih (J := fun past s => J (f :: past) s) (M.move m s).1
        (hpost ▸ hfirst) (fun past => hboot (f :: past))
        fun past e later h => hstep (f :: past) e later (congrArg (f :: ·) h)
      refine ⟨hend, ?_⟩
      intro past e later h
      cases past with
      | nil =>
        obtain ⟨rfl, -⟩ := List.cons.inj h
        exact ⟨hpre ▸ hs, hfirst⟩
      | cons g past =>
        obtain ⟨rfl, hrest⟩ := List.cons.inj h
        exact hmid past e later hrest

/-- The same from some step of the run on: what holds after it and is kept by every step may
speak of the steps taken since. -/
theorem trace_since {ms : List (Move κ ι)}
    {past rest : List (Event σ τ)} {c : Event σ τ} (h : M.trace s ms = past ++ c :: rest)
    (hc : J [] c.post) (hboot : ∀ since s, J since s → J since (M.reboot s))
    (hstep : ∀ since, ∀ g ∈ M.trace s ms, J since g.pre → J (since ++ [g]) g.post)
    {mid later : List (Event σ τ)} {e : Event σ τ} (hrest : rest = mid ++ e :: later) :
    J mid e.pre ∧ J (mid ++ [e]) e.post := by
  have hpast := M.trace_past
    (J := fun steps t => ∀ since, steps = past ++ c :: since → J since t) s ms (by simp)
    (fun steps t hJ since hs => hboot since t (hJ since hs)) ?_
  · subst hrest
    obtain ⟨hpre, hpost⟩ := hpast.2 (past ++ c :: mid) e later (by simp [h])
    exact ⟨hpre mid rfl, hpost (mid ++ [e]) (by simp)⟩
  · intro steps g rest' ht hJ since hs
    rcases eq_nil_or_concat since with rfl | ⟨since, g', rfl⟩
    · -- The step is `c` itself.
      obtain ⟨-, hg⟩ := append_inj' hs rfl
      rw [(List.cons.inj hg).1]
      exact hc
    · rw [concat_eq_append, ← cons_append, ← append_assoc] at hs
      obtain ⟨hsteps, hg⟩ := append_inj' hs rfl
      rw [concat_eq_append, ← (List.cons.inj hg).1]
      exact hstep since g (by simp [ht]) (hJ since hsteps)

private theorem length_le_one_of_pairwise_false {α : Type} {l : List α}
    (h : l.Pairwise fun _ _ => False) : l.length ≤ 1 := by
  match l, h with
  | [], _ | [_], _ => simp
  | _ :: b :: _, h => exact ((pairwise_cons.mp h).1 b mem_cons_self).elim

/-- **At most once.**  If a fact `D` about the store is kept by every step and reboot, and
each step that `p` picks makes it true where it was false, then a run takes at most one
such step. -/
theorem trace_once {D : σ → Prop} {p : Event σ τ → Bool} (s : System σ ι τ)
    (ms : List (Move κ ι)) (hboot : ∀ s, D s → D (M.reboot s))
    (hkeep : ∀ e ∈ M.trace s ms, D e.pre → D e.post)
    (hfirst : ∀ e ∈ M.trace s ms, p e = true → ¬ D e.pre ∧ D e.post) :
    ((M.trace s ms).filter p).length ≤ 1 := by
  have hpair : (M.trace s ms).Pairwise fun e f => D e.post → D f.pre := by
    have htrans : ∀ a b c : σ, (D a → D b) → (D b → D c) → D a → D c :=
      fun _ _ _ h h' hd => h' (h hd)
    exact (rel_exec (fun _ h => h) htrans hboot s ms hkeep).2.2
  have hfilter : ((M.trace s ms).filter p).Pairwise fun _ _ => False := by
    refine (hpair.filter _).imp_of_mem ?_
    intro e f he hf hef
    obtain ⟨he, hpe⟩ := mem_filter.mp he
    obtain ⟨hf, hpf⟩ := mem_filter.mp hf
    exact (hfirst f hf hpf).1 (hef (hfirst e he hpe).2)
  exact length_le_one_of_pairwise_false hfilter

end Machine

end Interleaving
