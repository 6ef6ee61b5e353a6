/-
# What the flag events of a queue mean

`push` merges an event that adds or removes a flag into the virtual event of its kind, which from
then on stands at the place of the later one.  A client that applies what `contents` returns ends
with the flags that the pushed events set, as long as no event is merged over one that undid it.
-/
import GrowTeam.Tornado.EventQueue

namespace GrowTeam.Tornado

open Feed
open List hiding after

/-! ## Flags -/

/-- Which messages have which flags. -/
abbrev Flags := ℕ → String → Bool

/-- What an event makes of a flag of a message. -/
def sets (m : ℕ) (flag : String) : Event → Option Bool
  | .updateMessageFlags e =>
    if flag = e.flag ∧ (e.all = true ∨ m ∈ e.messages) then some (e.operation = "add") else none
  | _ => none

def applyEvent (flags : Flags) (event : Event) : Flags := fun m flag =>
  (sets m flag event).getD (flags m flag)

def applyEvents (flags : Flags) (events : List Event) : Flags := events.foldl applyEvent flags

/-- What the last event about a flag of a message makes of it. -/
def lastSet (m : ℕ) (flag : String) : List Event → Option Bool
  | [] => none
  | e :: es => lastSet m flag es <|> sets m flag e

variable {m : ℕ} {flag : String}

theorem lastSet_append (l l' : List Event) :
    lastSet m flag (l ++ l') = (lastSet m flag l' <|> lastSet m flag l) := by
  induction l with
  | nil => simp [lastSet]
  | cons e es ih =>
    rw [cons_append, lastSet, lastSet, ih]
    cases lastSet m flag l' <;> rfl

theorem applyEvents_eq (flags : Flags) (events : List Event) :
    applyEvents flags events m flag = (lastSet m flag events).getD (flags m flag) := by
  induction events generalizing flags with
  | nil => rfl
  | cons e es ih =>
    refine (ih (applyEvent flags e)).trans ?_
    rw [lastSet]
    cases lastSet m flag es <;> rfl

/-! ## Merged events -/

/-- Flags are added or removed. -/
def AddsOrRemoves (event : Event) : Prop :=
  ∀ e, event = .updateMessageFlags e → e.operation ∈ ["add", "remove"]

variable {v e : Event}

theorem AddsOrRemoves.absorb (h : AddsOrRemoves v) : AddsOrRemoves (absorb v e) := by
  intro f hf
  cases v with
  | message | other => cases hf
  | updateMessageFlags v =>
    cases e with
    | message | other => exact h f hf
    | updateMessageFlags e =>
      cases hf
      exact h v rfl

/-- The kind of a virtual event tells its operation and its flag. -/
theorem virtual_inj {kind : String} (hv : virtualType v = some kind)
    (he : virtualType e = some kind) (hproper : AddsOrRemoves v) (hproper' : AddsOrRemoves e) :
    ∃ f g, v = .updateMessageFlags f ∧ e = .updateMessageFlags g ∧ f.operation = g.operation ∧
      f.flag = g.flag ∧ f.all = false ∧ g.all = false := by
  have hshape : ∀ {x : Event}, virtualType x = some kind → ∃ f, x = .updateMessageFlags f ∧
      f.all = false ∧ kind = "flags/" ++ f.operation ++ "/" ++ f.flag := by
    intro x hx
    cases x with
    | message | other => cases hx
    | updateMessageFlags f =>
      rw [virtualType] at hx
      split at hx
      · next hstart =>
        cases hall : f.all with
        | false =>
          rw [computeFullEventType, if_neg (by simp [hall])] at hx
          exact ⟨f, rfl, hall, (Option.some.inj hx).symm⟩
        | true =>
          -- An event about all messages is of a type of its own.
          rw [computeFullEventType, if_pos hall] at hstart
          simp [startsWith] at hstart
      · cases hx
  obtain ⟨f, rfl, hall, hkind⟩ := hshape hv
  obtain ⟨g, rfl, hall', hkind'⟩ := hshape he
  have hop := hproper f rfl
  have hop' := hproper' g rfl
  rw [hkind] at hkind'
  have hlist := congrArg String.toList hkind'
  simp only [mem_cons, not_mem_nil, or_false] at hop hop'
  rcases hop with hop | hop <;> rcases hop' with hop' | hop' <;>
    simp [hop, hop'] at hlist
  · exact ⟨f, g, rfl, rfl, hop.trans hop'.symm, String.toList_inj.mp hlist, hall, hall'⟩
  · exact ⟨f, g, rfl, rfl, hop.trans hop'.symm, String.toList_inj.mp hlist, hall, hall'⟩

/-- A virtual event sets what both of the merged ones set. -/
theorem sets_absorb {kind : String} (hv : virtualType v = some kind)
    (he : virtualType e = some kind) (hproper : AddsOrRemoves v) (hproper' : AddsOrRemoves e) :
    sets m flag (absorb v e) = (sets m flag e <|> sets m flag v) := by
  obtain ⟨f, g, rfl, rfl, hop, hflag, hall, hall'⟩ := virtual_inj hv he hproper hproper'
  simp only [absorb, sets, hop, hflag, hall, hall', Bool.false_eq_true, false_or, mem_append]
  by_cases hname : flag = g.flag <;> by_cases hm : m ∈ f.messages <;>
    by_cases hm' : m ∈ g.messages <;> simp [hname, hm, hm']

/-! ## Runs -/

/-- The push of an event merges it over an event that undid the virtual one: the virtual event of
its kind is about a message that the pushed one does not name, and the last event behind it
about this flag of the message did the opposite. -/
def Overtakes (q : EventQueue) (event : Event) : Prop :=
  ∃ v ∈ q.virtualEvents, virtualType event = some v.1 ∧ ∃ m flag b,
    sets m flag v.2.body = some b ∧ sets m flag event = none ∧
      lastSet m flag ((after v.2.id q.merged).map (·.body)) = some (!b)

/-- A queue, the events that were pushed, and the entries that its client applied. -/
structure Session where
  queue : EventQueue
  pushed : List Event
  applied : List (Item Event)

/-- An event comes, or the client polls: it acknowledges what it applied and is answered with
the contents, unless the answer is lost. -/
inductive Step where
  | push (event : Event)
  | poll (lost : Bool)

namespace Session

def start (id : String) : Session := ⟨.new id, [], []⟩

/-- What the client has not applied of the contents. -/
def unread (s : Session) : List (Item Event) := after (cursor s.applied) s.queue.merged

def step (s : Session) : Step → Session
  | .push event => { s with queue := s.queue.push event, pushed := s.pushed ++ [event] }
  | .poll lost =>
    let asked := { s with queue := s.queue.prune (cursor s.applied) }
    { asked with
      queue := asked.queue.settle
      applied := if lost then s.applied else s.applied ++ asked.unread }

def run (id : String) (steps : List Step) : Session := steps.foldl step (start id)

/-- The applied entries are a beginning of the feed, which is pruned no further, and the entries
mean what was pushed. -/
structure Means (s : Session) (feed pending : List (Item Event)) (pruned : ℕ) : Prop where
  holds : Holds s.queue s.pushed feed pending pruned
  applied : s.applied <+: feed
  le : pruned ≤ s.applied.length
  proper : ∀ e ∈ pending, AddsOrRemoves e.body
  same : ∀ m flag, lastSet m flag ((feed ++ pending).map (·.body)) = lastSet m flag s.pushed

variable {s : Session} {feed pending : List (Item Event)} {pruned : ℕ}

section

variable (h : Means s feed pending pruned)

include h

/-- What the client applied and what the contents add to it are the feed and the pending entries. -/
theorem Means.whole : s.applied ++ s.unread = feed ++ pending := by
  obtain ⟨rest, rfl⟩ := h.applied
  have hdrop := after_cursor_drop h.holds.compacts.ascending h.le
  rw [drop_append_of_le_length h.holds.le, append_assoc s.applied, take_left, drop_left] at hdrop
  rw [unread, h.holds.merged, hdrop, append_assoc]

theorem Means.poll (lost : Bool) :
    Means (s.step (.poll lost)) (feed ++ pending) [] s.applied.length := by
  have hprune := h.holds.prune h.le h.applied.length_le
  rw [← prefix_iff_eq_take.mp h.applied] at hprune
  have hasked : Means { s with queue := s.queue.prune (cursor s.applied) } feed pending
      s.applied.length := ⟨hprune, h.applied, le_rfl, h.proper, h.same⟩
  refine ⟨hprune.settle, ?_, ?_, by simp, ?_⟩
  · rw [step]
    split
    · exact h.applied.trans (prefix_append _ _)
    · exact ⟨[], (append_nil _).trans hasked.whole⟩
  · rw [step]
    split
    · exact le_rfl
    · simp
  · intro m flag
    rw [append_nil]
    exact h.same m flag

theorem Means.push {event : Event} (hproper : AddsOrRemoves event)
    (hspared : ¬ Overtakes s.queue event) :
    ∃ pending', Means (s.step (.push event)) feed pending' pruned := by
  rcases h.holds.push_cases event with hpush | ⟨v, hv, hkind, before, behind, rfl, hpush⟩
  · refine ⟨_, hpush, h.applied, h.le, ?_, ?_⟩
    · intro e he
      rcases mem_append.mp he with he | he
      · exact h.proper e he
      · rw [mem_singleton.mp he]
        exact hproper
    · intro m flag
      have hsame := h.same m flag
      show _ = lastSet m flag (s.pushed ++ [event])
      rw [← append_assoc, map_append, lastSet_append, hsame, lastSet_append]
      rfl
  · have hold : AddsOrRemoves v.2.body := h.proper v.2 (by simp)
    refine ⟨_, hpush, h.applied, h.le, ?_, ?_⟩
    · intro e he
      rcases mem_append.mp he with he | he
      · refine h.proper e ?_
        rw [mem_append, mem_cons]
        rcases mem_append.mp he with he | he
        · exact .inl he
        · exact .inr (.inr he)
      · rw [mem_singleton.mp he]
        exact hold.absorb
    · intro m flag
      have hsame := h.same m flag
      have hbehind : after v.2.id s.queue.merged = behind := by
        have hall := h.holds.compacts.ascending
        have hmerged : Ascending (feed.drop pruned ++ (before ++ [v.2]) ++ behind) := by
          refine hall.sublist ?_
          simpa using drop_sublist pruned feed
        rw [h.holds.merged]
        have hafter := after_cursor hmerged
        simpa [cursor] using hafter
      have hnot : ∀ b, sets m flag v.2.body = some b → sets m flag event = none →
          lastSet m flag (behind.map (·.body)) ≠ some (!b) := by
        intro b hb hnone hlast
        refine hspared ⟨v, hv, hkind, m, flag, b, hb, hnone, ?_⟩
        rw [hbehind]
        exact hlast
      show _ = lastSet m flag (s.pushed ++ [event])
      rw [lastSet_append, ← hsame]
      simp only [map_append, map_cons, map_nil, lastSet_append, lastSet,
        sets_absorb (h.holds.kinds v hv) hkind hold hproper]
      cases hset : sets m flag event with
      | some b => simp
      | none =>
        cases hv' : sets m flag v.2.body with
        | none => simp
        | some b =>
          -- What stands behind the virtual event says nothing about the flag, or the same.
          have hne := hnot b hv' hset
          cases hlast : lastSet m flag (behind.map (·.body)) with
          | none => simp
          | some b' =>
            rw [hlast] at hne
            cases b <;> cases b' <;> simp_all

end

theorem means_run (id : String) (steps : List Step)
    (hproper : ∀ event, .push event ∈ steps → AddsOrRemoves event)
    (hspared : ∀ past event later, steps = past ++ .push event :: later →
      ¬ Overtakes (run id past).queue event) :
    ∃ feed pending pruned, Means (run id steps) feed pending pruned := by
  induction steps using List.reverseRecOn with
  | nil => exact ⟨[], [], 0, .new id, prefix_rfl, le_rfl, by simp, fun m flag => rfl⟩
  | append_singleton past last ih =>
    obtain ⟨feed, pending, pruned, h⟩ := ih
      (fun event he => hproper event (mem_append_left _ he))
      fun before event later hsplit => hspared before event (later ++ [last]) (by simp [hsplit])
    rw [run, foldl_append]
    cases last with
    | push event =>
      obtain ⟨pending', hpush⟩ := h.push (hproper event (by simp)) (hspared past event [] rfl)
      exact ⟨feed, pending', pruned, hpush⟩
    | poll lost => exact ⟨_, _, _, h.poll lost⟩

/-- **Merging keeps the meaning** where no event is merged over one that undid it: what the
client applied, with what the contents add to it, sets the flags as the pushed events do. -/
theorem merging_preserves (id : String) (steps : List Step)
    (hproper : ∀ event, .push event ∈ steps → AddsOrRemoves event)
    (hspared : ∀ past event later, steps = past ++ .push event :: later →
      ¬ Overtakes (run id past).queue event) (flags : Flags) :
    applyEvents flags (((run id steps).applied ++ (run id steps).unread).map (·.body)) =
      applyEvents flags (run id steps).pushed := by
  obtain ⟨feed, pending, pruned, h⟩ := means_run id steps hproper hspared
  funext m flag
  rw [applyEvents_eq, applyEvents_eq, h.whole, h.same]

/-- An event that adds or removes the flag `read`. -/
def readEvent (operation : String) (messages : List ℕ) : Event :=
  .updateMessageFlags ⟨operation, "read", false, messages, none, none⟩

theorem proper_readEvent {operation : String} (h : operation ∈ ["add", "remove"])
    (messages : List ℕ) : AddsOrRemoves (readEvent operation messages) := by
  rintro e ⟨rfl⟩
  exact h

theorem merging_preserves_read :
    applyEvents (fun _ _ => false) (((run "q" [.push (readEvent "add" [1]), .poll false]).applied ++
        (run "q" [.push (readEvent "add" [1]), .poll false]).unread).map (·.body)) =
      applyEvents (fun _ _ => false) [readEvent "add" [1]] := by
  refine merging_preserves "q" [.push (readEvent "add" [1]), .poll false] ?_ ?_ _
  · intro event he
    obtain rfl : event = readEvent "add" [1] := by simpa using he
    exact proper_readEvent (by simp) _
  · rintro past event later hsplit ⟨v, hv, -⟩
    rcases past with _ | ⟨x, past⟩
    · cases hv
    · have hrest := (List.cons.inj hsplit).2
      cases past <;> simp at hrest

/-- A message is read and marked as unread; the next one that is read takes it along. -/
theorem merging_reorders : ¬ ∀ (id : String) (steps : List Step),
    (∀ event, .push event ∈ steps → AddsOrRemoves event) → ∀ flags,
      applyEvents flags (((run id steps).applied ++ (run id steps).unread).map (·.body)) =
        applyEvents flags (run id steps).pushed := by
  intro hall
  have hsame := hall "q" [.push (readEvent "add" [1]), .push (readEvent "remove" [1]),
    .push (readEvent "add" [2])] ?_ fun _ _ => false
  · have hread := congrFun (congrFun hsame 1) "read"
    revert hread
    decide
  · intro event he
    simp only [mem_cons, Step.push.injEq, not_mem_nil, or_false] at he
    rcases he with rfl | rfl | rfl <;> exact proper_readEvent (by simp) _

end Session

end GrowTeam.Tornado
