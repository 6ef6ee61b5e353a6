/-
# An input reaches the model at most once

`Fits` is what the journal entry of an input says about the deeds: nothing was done while it
is absent or `prepared`, at most one turn was started once it is `uncertain`, and the receipt
of a `done` entry is the only one.  It is the invariant of the machine in
`Runtime/InputQueue.lean`; no assertion of a task needs more than that a journal entry only
moves forward, except between `uncertain` and `sendTurn`, where no other task runs.
-/
import GrowTeam.Runtime.InputQueue

namespace GrowTeam.Runtime

open Interleaving Rules List Journal

/-! ## The invariant -/

/-- How often a turn was started for an input. -/
def turns (key : Key) (deeds : List Deed) : ℕ := (deeds.filter (Deed.sends key)).length

/-- The one receipt of an input, if it has any. -/
def Only (key : Key) (receipt : InputReceipt) (deeds : List Deed) : Prop :=
  ∀ r, Deed.receipt key r ∈ deeds → r = receipt

/-- What the journal entry of an input says about the deeds. -/
def Fits (key : Key) (deeds : List Deed) : Option LogEntry → Prop
  | none => ∀ deed ∈ deeds, deed.key ≠ key
  | some entry => match entry.state with
    | .prepared => ∀ deed ∈ deeds, deed.key ≠ key
    | .uncertain => turns key deeds ≤ 1 ∧ ∀ r, Deed.receipt key r ∉ deeds
    | .done => turns key deeds ≤ 1 ∧ ∃ response,
        entry.response = some (.response response) ∧ Only key response.receipt deeds ∧
        (response.receipt.outcome = .notApplied → turns key deeds = 0)

variable {key : Key} {deeds : List Deed} {entry : Option LogEntry} {response : InputResponse}
  {s : Store} {e : LogEntry}

/-- An input whose journal entry has come to `prepared` at most. -/
theorem fits_untouched
    (h : Fits key deeds entry) (hentry : ∀ e, entry = some e → e.state = .prepared) :
    ∀ deed ∈ deeds, deed.key ≠ key := by
  cases entry with
  | none => exact h
  | some e =>
    rw [Fits, hentry e rfl] at h
    exact h

theorem turns_eq_zero (h : ∀ deed ∈ deeds, deed.key ≠ key) : turns key deeds = 0 := by
  rw [turns, length_eq_zero_iff, filter_eq_nil_iff]
  intro deed hdeed hsends
  apply h deed hdeed
  cases deed with
  | sendTurn k text => exact of_decide_eq_true hsends
  | receipt k r => simp [Deed.sends] at hsends

theorem no_receipt (h : ∀ deed ∈ deeds, deed.key ≠ key)
    (r : InputReceipt) : Deed.receipt key r ∉ deeds := fun hmem => h _ hmem rfl

@[simp] theorem turns_append (key : Key) (deeds : List Deed) (deed : Deed) :
    turns key (deeds ++ [deed]) = turns key deeds + if deed.sends key then 1 else 0 := by
  rw [turns, filter_append, List.length_append]
  by_cases h : deed.sends key = true
  · rw [if_pos h, filter_cons_of_pos h]
    rfl
  · rw [if_neg h, filter_cons_of_neg h]
    rfl

/-- A deed about another input changes nothing. -/
theorem Fits.other {deed : Deed}
    (h : Fits key deeds entry) (hne : deed.key ≠ key) : Fits key (deeds ++ [deed]) entry := by
  have hturns : turns key (deeds ++ [deed]) = turns key deeds := by
    have hsends : deed.sends key ≠ true := by
      cases deed with
      | sendTurn k text => exact fun hk => hne (of_decide_eq_true hk)
      | receipt k r => simp [Deed.sends]
    rw [turns_append, if_neg hsends, Nat.add_zero]
  have hmem : ∀ r, Deed.receipt key r ∈ deeds ++ [deed] → Deed.receipt key r ∈ deeds := by
    intro r hr
    rcases mem_append.mp hr with hr | hr
    · exact hr
    · rw [mem_singleton] at hr
      exact absurd (hr ▸ rfl) hne
  have hkeys : (∀ d ∈ deeds, d.key ≠ key) → ∀ d ∈ deeds ++ [deed], d.key ≠ key := by
    intro hall d hd
    rcases mem_append.mp hd with hd | hd
    · exact hall d hd
    · rwa [mem_singleton.mp hd]
  cases entry with
  | none => exact hkeys h
  | some e =>
    cases hstate : e.state with
    | prepared =>
      simp only [Fits, hstate] at h ⊢
      exact hkeys h
    | uncertain =>
      simp only [Fits, hstate, hturns] at h ⊢
      exact ⟨h.1, fun r hr => h.2 r (hmem r hr)⟩
    | done =>
      simp only [Fits, hstate, hturns] at h ⊢
      obtain ⟨hle, response, hresponse, honly, hnot⟩ := h
      exact ⟨hle, response, hresponse, fun r hr => honly r (hmem r hr), hnot⟩

/-- The receipt of a done entry may be passed on again. -/
theorem Fits.again {entry : LogEntry}
    (h : Fits key deeds (some entry)) (hdone : entry.state = .done)
    (hresponse : entry.response = some (.response response)) :
    Fits key (deeds ++ [.receipt key response.receipt]) (some entry) := by
  simp only [Fits, hdone] at h ⊢
  obtain ⟨hle, response', hresponse', honly, hnot⟩ := h
  obtain rfl : response' = response := by
    rw [hresponse'] at hresponse
    exact Record.response.inj (Option.some.inj hresponse)
  have hturns : turns key (deeds ++ [.receipt key response'.receipt]) = turns key deeds := by
    rw [turns_append]
    rfl
  rw [hturns]
  refine ⟨hle, response', hresponse', ?_, hnot⟩
  intro r hr
  rcases mem_append.mp hr with hr | hr
  · exact honly r hr
  · exact (Deed.receipt.inj (mem_singleton.mp hr)).2

/-! ## The rules -/

/-- The journal entry of every input fits the deeds; a step keeps every entry, in a later
form. -/
def rules : Rules Store Unit where
  inv s := ∀ key, Fits key s.deeds (s.log.get key)
  guar s s' := Journal.Extends s.log s'.log ∧ s.deeds <+: s'.deeds
  cond _ _ := True
  post _ _ _ := True

/-- What may be assumed and what is left, for every method. -/
abbrev Spec (x : Program α) (P : Store → Prop) (Q : α → Store → Prop) : Prop :=
  rules.SoundE x P Q fun _ _ => True

/-- The journal holds this receipt for an input. -/
def Holds (key : Key) (receipt : InputReceipt) (s : Store) : Prop :=
  ∃ e response, s.log.get key = some e ∧ e.state = .done ∧
    e.response = some (.response response) ∧ response.receipt = receipt

theorem stable_holds (key : Key) (receipt : InputReceipt) :
    rules.Stable (Holds key receipt) := by
  rintro s s' - - ⟨hlog, -⟩ ⟨e, response, he, hdone, hresponse⟩
  exact ⟨e, response, hlog.done he hdone, hdone, hresponse⟩

section

variable (hs : rules.inv s)

include hs

theorem allowed_refl : rules.Allowed () s s :=
  ⟨hs, ⟨.refl _, prefix_refl _⟩, trivial⟩

/-- A step on the queues alone is allowed. -/
theorem allowed_queues (queues : List InputQueue) : rules.Allowed () s { s with queues } :=
  ⟨hs, ⟨.refl _, prefix_refl _⟩, trivial⟩

/-- Passing on the receipt that the journal holds is allowed. -/
theorem allowed_pass {receipt : InputReceipt}
    (h : Holds key receipt s) : rules.Allowed () s (s.did (.receipt key receipt)) := by
  refine ⟨?_, ⟨.refl _, prefix_append _ _⟩, trivial⟩
  obtain ⟨e, response, he, hdone, hresponse, rfl⟩ := h
  intro key'
  show Fits key' (s.deeds ++ [_]) (s.log.get key')
  by_cases hkey : key = key'
  · subst hkey
    have hfits := hs key
    rw [he] at hfits ⊢
    exact hfits.again hdone hresponse
  · exact (hs key').other hkey

/-- `prepare` is allowed: a new entry has no deeds yet. -/
theorem allowed_prepare {request : Record} {entry : LogEntry} {log : Log}
    (h : s.log.prepare "runtime-input" key "local" request "" = .ok (entry, log)) :
    rules.Allowed () s { s with log } := by
  refine ⟨?_, ⟨prepare_extends h, prefix_refl _⟩, trivial⟩
  rcases prepare_ok h with ⟨-, rfl, -⟩ | ⟨hnone, hentry, hget⟩
  · exact hs
  · intro key'
    show Fits key' s.deeds (log.get key')
    rw [hget]
    by_cases hkey : key' = key
    · subst hkey
      rw [if_pos rfl, hentry]
      exact fits_untouched (hs key') fun e he => by rw [hnone] at he; cases he
    · rw [if_neg hkey]
      exact hs key'

/-- `uncertain` on a prepared entry is allowed, and leaves an input without a turn. -/
theorem allowed_uncertain (he : s.log.get key = some e) (hstate : e.state = .prepared) :
    rules.Allowed () s { s with log := s.log.uncertain key } ∧
      (s.log.uncertain key).get key = some { e with state := .uncertain } ∧
      turns key s.deeds = 0 := by
  have hget : (s.log.uncertain key).get key = some { e with state := .uncertain } := by
    rw [get_uncertain, he, Option.map_some, if_pos ⟨rfl, hstate⟩]
  have hnone : ∀ deed ∈ s.deeds, deed.key ≠ key :=
    fits_untouched (hs key) fun e' he' => by rw [he] at he'; exact Option.some.inj he' ▸ hstate
  refine ⟨⟨?_, ⟨uncertain_extends _ _, prefix_refl _⟩, trivial⟩, hget, turns_eq_zero hnone⟩
  intro key'
  show Fits key' s.deeds ((s.log.uncertain key).get key')
  by_cases hkey : key' = key
  · subst hkey
    rw [hget]
    exact ⟨by rw [turns_eq_zero hnone]; omega, no_receipt hnone⟩
  · rw [get_uncertain]
    have hsame : (fun e : LogEntry => if key' = key ∧ e.state = .prepared then
        { e with state := .uncertain } else e) = id := by
      funext e
      rw [if_neg fun h => hkey h.1]
      rfl
    rw [hsame, Option.map_id]
    exact hs key'

/-- Starting the turn of an uncertain input that had none. -/
theorem allowed_sendTurn {text : String}
    (he : s.log.get key = some e) (hstate : e.state = .uncertain)
    (hturns : turns key s.deeds = 0) : rules.Allowed () s (s.did (.sendTurn key text)) := by
  refine ⟨?_, ⟨.refl _, prefix_append _ _⟩, trivial⟩
  intro key'
  show Fits key' (s.deeds ++ [_]) (s.log.get key')
  by_cases hkey : key = key'
  · subst hkey
    have hfits := hs key
    rw [he] at hfits ⊢
    simp only [Fits, hstate] at hfits ⊢
    refine ⟨by rw [turns_append]; split <;> omega, ?_⟩
    intro r hr
    rcases mem_append.mp hr with hr | hr
    · exact hfits.2 r hr
    · simp at hr
  · exact (hs key').other hkey

end

/-- `complete` is allowed, with `notApplied` for an input without a turn. -/
theorem allowed_complete {s s' : Store} {failure : Option String} (hs : rules.inv s)
    (h : s.complete failure key response = .ok s')
    (hoff : response.receipt.outcome = .notApplied → turns key s.deeds = 0) :
    rules.Allowed () s s' ∧ Holds key response.receipt s' := by
  unfold Store.complete at h
  split at h
  · cases h
  · cases h
  · next log hcomplete =>
    cases h
    obtain ⟨old, hold, hkeep, hget⟩ := complete_ok hcomplete
    have hkey : log.get key =
        some { old with state := .done, response := some (.response response) } := by
      rw [hget, if_pos rfl]
    refine ⟨⟨?_, ⟨complete_extends hcomplete, prefix_append _ _⟩, trivial⟩,
      ⟨_, response, hkey, rfl, rfl, rfl⟩⟩
    intro key'
    show Fits key' (s.deeds ++ [_]) (log.get key')
    by_cases hne : key = key'
    · subst hne
      have hfits := hs key
      rw [hold] at hfits
      rw [hkey]
      refine .again ?_ rfl rfl
      cases hstate : old.state with
      | prepared =>
        rw [Fits, hstate] at hfits
        have hzero : turns key s.deeds = 0 := turns_eq_zero hfits
        exact ⟨by omega, response, rfl, fun r hr => absurd hr (no_receipt hfits r),
          fun _ => hzero⟩
      | uncertain =>
        rw [Fits, hstate] at hfits
        exact ⟨hfits.1, response, rfl, fun r hr => absurd hr (hfits.2 r), hoff⟩
      | done =>
        rw [Fits, hstate] at hfits
        obtain ⟨hle, response', hresponse', honly, hnot⟩ := hfits
        obtain rfl : response' = response := by
          have hsame := hkeep hstate
          rw [hresponse'] at hsame
          exact Record.response.inj (Option.some.inj hsame)
        exact ⟨hle, response', rfl, honly, hnot⟩
    · rw [hget, if_neg (Ne.symm hne)]
      exact (hs key').other hne

/-! ## Every method keeps the rules -/

/-- A step that does not look at the deeds or at the journal. -/
theorem withQueue_spec {awaits : Bool} {i : ℕ}
    {act : Outside → Store → InputQueue → Except String (α × Store)} {P : Store → Prop}
    {Q : α → Store → Prop} (hst : awaits = true → rules.Stable P)
    (h : ∀ outside s q a s', rules.inv s → P s → act outside s q = .ok (a, s') →
      rules.Allowed () s s' ∧ Q a s') :
    Spec (withQueue awaits i act) P Q := by
  refine .attempt hst ?_ fun _ s _ hs _ _ _ => ⟨allowed_refl hs, trivial⟩
  intro outside s a s' hs hp _ hact
  split at hact
  · exact h outside s _ a s' hs hp hact
  · cases hact

theorem prepare_spec (key : Key) (request : Record) :
    Spec (prepare key request) (fun _ => True) fun e s => s.log.get key = some e := by
  refine .attempt (fun hd => by cases hd) ?_ fun _ s _ hs _ _ _ =>
    ⟨allowed_refl hs, trivial⟩
  intro outside s e s' hs _ _ hact
  split at hact
  · cases hact
  · cases hact
  · next entry log _ hprepare =>
    obtain ⟨rfl, rfl⟩ : entry = e ∧ _ = s' := by simpa using hact
    exact ⟨allowed_prepare hs hprepare, get_of_prepare hprepare⟩

theorem get_spec (key : Key) (P : Store → Prop) :
    Spec (get key) P fun e s => s.log.get key = some e ∧ P s := by
  refine .attempt (fun hd => by cases hd) ?_ fun _ s _ hs _ _ _ =>
    ⟨allowed_refl hs, trivial⟩
  intro outside s e s' hs hp _ hact
  split at hact
  · next entry hget =>
    obtain ⟨rfl, rfl⟩ : entry = e ∧ s = s' := by simpa using hact
    exact ⟨allowed_refl hs, hget, hp⟩
  · cases hact

theorem pass_spec (key : Key) (receipt : InputReceipt) :
    Spec (pass key receipt) (Holds key receipt) fun _ => Holds key receipt := by
  refine .attempt (fun hd => by cases hd) ?_ fun _ s _ hs _ _ _ =>
    ⟨allowed_refl hs, trivial⟩
  intro outside s u s' hs hp _ hact
  obtain rfl : s.did _ = s' := by simpa using hact
  exact ⟨allowed_pass hs hp, hp⟩

/-- An entry that is done holds the receipt that the code reads of it. -/
theorem holds_of_get (he : s.log.get key = some e) (hdone : e.state = .done)
    (hresponse : e.response.bind Record.asResponse = some response) :
    Holds key response.receipt s := by
  obtain ⟨record, hrecord, hread⟩ := Option.bind_eq_some_iff.mp hresponse
  refine ⟨e, response, he, hdone, ?_, rfl⟩
  cases record with
  | request lease input => cases hread
  | response r => rw [hrecord, Option.some.inj hread]

variable (i : ℕ)

theorem enter_spec (key : Key) (input : RunnerInput) (entry : LogEntry) :
    Spec (enter i key input entry) (fun s => s.log.get key = some entry) fun _ _ => True := by
  refine withQueue_spec (fun hd => by cases hd) ?_
  intro outside s q u s' hs hp hact
  refine ⟨?_, trivial⟩
  dsimp only at hact
  cases hread : entry.response.bind Record.asResponse with
  | none =>
    rw [hread] at hact
    simp only [Option.map_none, Option.getD_none, reduceCtorEq, and_false, if_false] at hact
    split at hact
    · cases hact
      exact allowed_refl hs
    · split at hact
      · cases hact
      · split at hact
        · split at hact <;> cases hact
        · cases hact
          exact allowed_queues hs _
  | some response =>
    rw [hread] at hact
    have hpass : entry.state = .done →
        rules.Allowed () s (s.did (.receipt key response.receipt)) :=
      fun hdone => allowed_pass hs (holds_of_get hp hdone hread)
    split at hact
    · cases hact
      exact allowed_refl hs
    · split at hact
      · next hnot =>
        cases hact
        exact hpass hnot.1
      · split at hact
        · cases hact
        · split at hact
          · split at hact
            · cases hact
            · next hdone =>
              cases hact
              exact hpass (not_not.mp hdone)
          · cases hact
            exact allowed_queues hs _

theorem submit_spec (input : RunnerInput) :
    Spec (submit i input) (fun _ => True) fun _ _ => True := by
  refine .bind (withQueue_spec (Q := fun _ _ => True) (fun _ => rules.stable_true) ?_)
    fun q => (prepare_spec _ _).bind fun entry => enter_spec i _ input entry
  intro outside s q a s' hs _ hact
  split at hact
  · cases hact
  · cases hact
    exact ⟨allowed_refl hs, trivial⟩

theorem dispatch_spec (key : Key) (p : RunnerInput) (sanitize : String → Except String String)
    (e : LogEntry) :
    Spec (dispatch key p sanitize e) (fun s => s.log.get key = some e)
      fun e' s => s.log.get key = some e' := by
  unfold dispatch
  by_cases hstate : e.state = .prepared
  case neg =>
    rw [if_neg hstate]
    exact .pure fun _ _ h => h
  rw [if_pos hstate]
  have hmark : Spec (uncertain key) (fun s => s.log.get key = some e) fun _ s =>
      (∃ e', s.log.get key = some e' ∧ e'.state = .uncertain) ∧ turns key s.deeds = 0 := by
    refine .attempt (fun hd => by cases hd) ?_ fun _ s _ hs _ _ _ =>
      ⟨allowed_refl hs, trivial⟩
    intro outside s u s' hs hp _ hact
    split at hact
    · cases hact
    · obtain ⟨hallowed, hget, hzero⟩ := allowed_uncertain hs hp hstate
      cases hact
      exact ⟨hallowed, ⟨_, hget, rfl⟩, hzero⟩
  refine hmark.bind fun _ => .bind (Q := fun _ _ => True) ?_ fun _ =>
    SoundE.bind (Q := fun _ _ => True) ?_ fun _ => (get_spec key fun _ => True).post ?_
  · refine .attempt (fun hd => by cases hd) ?_ fun _ s _ hs _ _ _ =>
      ⟨allowed_refl hs, trivial⟩
    intro outside s u s' hs hp _ hact
    obtain ⟨⟨e', he', hstate'⟩, hzero⟩ := hp
    cases hact
    exact ⟨allowed_sendTurn hs he' hstate' hzero, trivial⟩
  · refine .attempt (fun _ => rules.stable_true) ?_ fun _ s _ hs _ _ _ =>
      ⟨allowed_refl hs, trivial⟩
    intro outside s u s' hs _ _ hact
    cases hanswer : outside.reply.bind sanitize with
    | error failure => rw [hanswer] at hact; cases hact
    | ok answer =>
      rw [hanswer] at hact
      cases hcomplete : s.complete outside.failure key
          ⟨⟨.applied, outside.uuid⟩, answer, p.sequence⟩ with
      | error failure => simp [hcomplete, bind, Except.bind] at hact
      | ok t =>
        simp only [hcomplete, bind, Except.bind] at hact
        cases hact
        exact ⟨(allowed_complete hs hcomplete fun hout => by cases hout).1, trivial⟩
  · exact fun _ _ _ h => h.1

theorem finished_spec (key : Key) (e : LogEntry) :
    Spec (finished e) (fun s => s.log.get key = some e) fun receipt => Holds key receipt := by
  unfold finished
  split
  · exact .throw fun _ _ _ => trivial
  · next hdone =>
    cases hread : e.response.bind Record.asResponse with
    | none => exact .throw fun _ _ _ => trivial
    | some response =>
      exact .pure fun s _ he => holds_of_get he (not_not.mp hdone) hread

theorem advance_spec (p : RunnerInput) (key : Key) (receipt : InputReceipt) :
    Spec (advance i p key receipt) (Holds key receipt) fun _ _ => True := by
  refine withQueue_spec (fun _ => stable_holds key receipt) ?_
  intro outside s q u s' hs hp hact
  refine ⟨?_, trivial⟩
  cases hack : outside.acknowledged with
  | error failure => rw [hack] at hact; cases hact
  | ok done =>
    rw [hack] at hact
    split at hact
    · cases hact
    · cases hact
      exact allowed_pass (allowed_queues hs _).1 hp

theorem next_spec (sanitize : String → Except String String) :
    Spec (next i sanitize) (fun _ => True) fun _ _ => True := by
  refine .bind (withQueue_spec (Q := fun _ _ => True) (fun _ => rules.stable_true) ?_)
    fun first => ?_
  · intro outside s q a s' hs _ hact
    split at hact
    · cases hact
    · cases hact
      exact ⟨allowed_refl hs, trivial⟩
  · cases first with
    | none => exact .pure fun _ _ _ => trivial
    | some claimed =>
      refine .bind ((get_spec claimed.1 fun _ => True).post fun _ _ _ h => h.1) fun entry =>
        (dispatch_spec claimed.1 claimed.2 sanitize entry).bind fun e =>
          (finished_spec claimed.1 e).bind fun receipt =>
            (pass_spec claimed.1 receipt).bind fun _ => advance_spec i claimed.2 claimed.1 receipt

theorem withdraw_spec (key : Key) (p : RunnerInput) :
    Spec (withdraw key p) (fun _ => True) fun _ _ => True := by
  refine .bind (Q := fun receipt s => ∀ r, receipt = some r → Holds key r s) ?_
    fun receipt => ?_
  · refine .attempt (fun _ => rules.stable_true) ?_ fun _ s _ hs _ _ _ =>
      ⟨allowed_refl hs, trivial⟩
    intro outside s receipt s' hs _ _ hact
    cases he : s.log.get key with
    | none =>
      rw [he] at hact
      cases hact
      exact ⟨allowed_refl hs, fun r hr => by cases hr⟩
    | some e =>
      rw [he] at hact
      dsimp only at hact
      split at hact
      · next hstate =>
        have hzero : turns key s.deeds = 0 := (allowed_uncertain hs he hstate).2.2
        cases hcomplete : s.complete outside.failure key
            ⟨⟨.notApplied, outside.uuid⟩, "", p.sequence⟩ with
        | error failure => simp [hcomplete, bind, Except.bind] at hact
        | ok t =>
          simp only [hcomplete, bind, Except.bind] at hact
          cases hact
          obtain ⟨hallowed, hholds⟩ := allowed_complete hs hcomplete fun _ => hzero
          exact ⟨hallowed, fun r hr => by cases hr; exact hholds⟩
      · cases hact
        exact ⟨allowed_refl hs, fun r hr => by cases hr⟩
  · cases receipt with
    | none => exact .pure fun _ _ _ => trivial
    | some r =>
      refine .post (.pre (pass_spec key r) fun s _ h => h r rfl) ?_
      exact fun _ _ _ _ => trivial

theorem abort_spec : Spec (abort i) (fun _ => True) fun _ _ => True := by
  refine .bind (withQueue_spec (Q := fun _ _ => True) (fun _ => rules.stable_true) ?_)
    fun items => ?_
  · intro outside s q a s' hs _ hact
    split at hact
    · cases hact
      exact ⟨allowed_refl hs, trivial⟩
    · cases hact
      exact ⟨allowed_queues hs _, trivial⟩
  · exact .forM (I := fun _ _ => True) items fun _ item _ _ => withdraw_spec item.1 item.2

theorem machine_keeps : machine.Keeps rules where
  routine call := by
    refine SoundE.discard (Q := fun _ _ => True) (E := fun _ _ => True) ?_
    cases call with
    | create d aborted cursor =>
      show Spec (create d aborted cursor) _ _
      refine .attempt (fun _ => rules.stable_true) ?_ fun _ s _ hs _ _ _ =>
        ⟨allowed_refl hs, trivial⟩
      intro outside s u s' hs _ _ hact
      cases hact
      exact ⟨allowed_queues hs _, trivial⟩
    | submit i input => exact submit_spec i input
    | next i sanitize => exact next_spec i sanitize
    | abort i => exact abort_spec i
  reboot s hs := (allowed_queues hs []).1

/-! ## Runs -/

/-- The deeds of a run from a new state directory. -/
def deedsOf (ms : List (Move Call Outside)) : List Deed :=
  (machine.exec (.idle .fresh) ms).store.deeds

/-- What is done for one input in a run. -/
structure HandedOnce (key : Key) (deeds : List Deed) : Prop where
  /-- `sendTurn` is called at most once. -/
  once : turns key deeds ≤ 1
  /-- An input with a `not_applied` receipt is never sent, before it or after it. -/
  withdrawn : ∀ receipt, Deed.receipt key receipt ∈ deeds → receipt.outcome = .notApplied →
    turns key deeds = 0
  /-- Every receipt of the input that is stored or passed on is the same one. -/
  final : ∀ r r', Deed.receipt key r ∈ deeds → Deed.receipt key r' ∈ deeds → r = r'

theorem handedOnce_of_fits (h : Fits key deeds entry) : HandedOnce key deeds := by
  have huntouched : (∀ deed ∈ deeds, deed.key ≠ key) → HandedOnce key deeds := fun hnone =>
    ⟨by rw [turns_eq_zero hnone]; omega, fun r hr => absurd hr (no_receipt hnone r),
      fun r _ hr => absurd hr (no_receipt hnone r)⟩
  cases entry with
  | none => exact huntouched h
  | some e =>
    cases hstate : e.state with
    | prepared =>
      rw [Fits, hstate] at h
      exact huntouched h
    | uncertain =>
      rw [Fits, hstate] at h
      exact ⟨h.1, fun r hr => absurd hr (h.2 r), fun r _ hr => absurd hr (h.2 r)⟩
    | done =>
      rw [Fits, hstate] at h
      obtain ⟨hle, response, -, honly, hnot⟩ := h
      refine ⟨hle, fun r hr hout => hnot (honly r hr ▸ hout), ?_⟩
      intro r r' hr hr'
      rw [honly r hr, honly r' hr']

/-- **An input is handed to the model at most once.**  For every schedule of `submit`, `next`
and `abort` on any number of queues, with every way for a write, a turn, a sanitiser or an
acknowledgement to fail, and with crashes between any two steps. -/
theorem inputs_handed_once (ms : List (Move Call Outside)) (key : Key) :
    HandedOnce key (deedsOf ms) :=
  handedOnce_of_fits (Machine.sound_inv machine_keeps (s := Store.fresh)
    (fun _ deed hdeed => by cases hdeed) ms (fun _ _ => trivial) key)

/-- One input, one turn; its receipt is stored, acknowledged and given to the caller. -/
example :
    let step : Outside := { uuid := 5, reply := .ok "Done.", acknowledged := .ok () }
    let turn (i n : ℕ) : List (Move Call Outside) := List.replicate n (.advance i step)
    deedsOf ([.start (.create ⟨9, 1, 1⟩ false 0)] ++ turn 0 1 ++
      [.start (.submit 0 ⟨7, 1, "Apply this"⟩)] ++ turn 1 3 ++ [.start (.next 0 .ok)] ++ turn 2 8) =
    .sendTurn ⟨1, 7⟩ "Apply this" :: List.replicate 3 (.receipt ⟨1, 7⟩ ⟨.applied, 5⟩) := by
  decide +kernel

end GrowTeam.Runtime
