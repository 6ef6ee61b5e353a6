/-
# A turn ends, and each of its tool calls is answered once

The messages of a session are `Paired`: an answer of the model with tool calls is followed by one
result for each of them.  While the loop waits for a tool this is so of the calls before it.  An
id of a result is in the journal, and a call runs only if its id is not, so no id has two
results.  Each wait of a turn that is answered leaves less to do, in the order of `Loop.rank`.
-/
import GrowTeam.Runtime.Endpoint
import Mathlib.Data.List.Lex
import Mathlib.Data.Prod.Lex
import Mathlib.Order.WellFounded
import Mathlib.Tactic.Common

namespace GrowTeam.Runtime.Endpoint

open List Message Nat Process Journal

variable {δ : Type} {b : Budget} {t : Tools δ}

/-! ## Messages -/

/-- The results of calls, in their order. -/
def results (calls : List ToolCall) (outputs : List String) : List Message :=
  (calls.zip outputs).map fun answer => .tool answer.2 answer.1.id

/-- Each answer with tool calls is followed by a result for each of them. -/
inductive Paired : List Message → Prop where
  | nil : Paired []
  | user {messages : List Message} (text : String) :
      Paired messages → Paired (messages ++ [.user text])
  | round {messages : List Message} (text : String) {calls : List ToolCall}
      {outputs : List String} : Paired messages → outputs.length = calls.length →
      Paired (messages ++ .assistant text calls :: results calls outputs)

def Message.callId? : Message → Option String
  | .tool _ callId => some callId
  | _ => none

/-- The ids of the results. -/
def resultIds (messages : List Message) : List String := messages.filterMap Message.callId?

/-- The message is a result of the call. -/
def Message.answers (id : String) (m : Message) : Bool := m.callId? = some id

theorem resultIds_append (ms ms' : List Message) :
    resultIds (ms ++ ms') = resultIds ms ++ resultIds ms' := filterMap_append

variable (ms : List Message)

theorem resultIds_answer (text : String) (calls : List ToolCall) :
    resultIds (ms ++ [.assistant text calls]) = resultIds ms := by
  rw [resultIds_append]
  exact append_nil _

theorem resultIds_user (text : String) : resultIds (ms ++ [.user text]) = resultIds ms := by
  rw [resultIds_append]
  exact append_nil _

theorem resultIds_result (output id : String) :
    resultIds (ms ++ [.tool output id]) = resultIds ms ++ [id] := resultIds_append ms _

variable {calls : List ToolCall} {text : String}

variable {outputs : List String}

theorem resultIds_results (h : outputs.length = calls.length) : resultIds (results calls outputs) =
      calls.map ToolCall.id := by
  induction calls generalizing outputs with
  | nil => rfl
  | cons call calls ih =>
    cases outputs with
    | nil => cases h
    | cons output outputs =>
      have hrest := ih (Nat.succ.inj h)
      rw [results, resultIds] at hrest
      simp [results, resultIds, hrest, callId?]

theorem length_answers (id : String) (messages : List Message) :
    (messages.filter (answers id)).length = (resultIds messages).count id := by
  induction messages with
  | nil => rfl
  | cons m messages ih =>
    cases m <;> simp [answers, callId?, resultIds, filter_cons, count_cons] at ih ⊢
    · exact ih
    · exact ih
    · next text callId =>
      by_cases hid : callId = id
      · simp [hid, ih]
      · simp [hid, ih]

theorem answer_not_mem_results {calls calls' : List ToolCall} :
    assistant text calls ∉ results calls' outputs := by
  intro h
  obtain ⟨answer, -, hanswer⟩ := mem_map.mp h
  cases hanswer

variable {messages : List Message}

/-- An answer within paired messages has its results behind it. -/
theorem Paired.results_after (h : Paired messages)
    {before after : List Message}
    (hsplit : messages = before ++ .assistant text calls :: after) {call : ToolCall}
    (hcall : call ∈ calls) : call.id ∈ resultIds after := by
  induction h generalizing after with
  | nil => simp at hsplit
  | user text' h ih =>
    rcases append_eq_append_iff.mp hsplit with ⟨rest, hbefore, hrest⟩ | ⟨rest, hms, hrest⟩
    · cases rest with
      | nil | cons m rest => simp at hrest
    · cases rest with
      | nil => simp at hrest
      | cons m rest =>
        obtain ⟨rfl, rfl⟩ : assistant text calls = m ∧ after = rest ++ [Message.user text'] :=
          List.cons.inj hrest
        rw [resultIds_append]
        exact mem_append_left _ (ih hms)
  | @round ms text' calls' outputs h hlength ih =>
    rcases append_eq_append_iff.mp hsplit with ⟨rest, hbefore, hrest⟩ | ⟨rest, hms, hrest⟩
    · cases rest with
      | nil =>
        obtain ⟨hmessage, hafter⟩ := List.cons.inj hrest
        cases hmessage
        rw [← hafter, resultIds_results hlength]
        exact mem_map_of_mem hcall
      | cons m rest =>
        have hafter := (List.cons.inj hrest).2
        have hmem : assistant text calls ∈ results calls' outputs := by
          rw [hafter]
          exact mem_append_right _ mem_cons_self
        exact absurd hmem answer_not_mem_results
    · cases rest with
      | nil =>
        obtain ⟨hmessage, hafter⟩ := List.cons.inj hrest
        cases hmessage
        rw [hafter, resultIds_results hlength]
        exact mem_map_of_mem hcall
      | cons m rest =>
        obtain ⟨rfl, rfl⟩ : assistant text calls = m ∧
            after = rest ++ assistant text' calls' :: results calls' outputs :=
          List.cons.inj hrest
        rw [resultIds_append]
        exact mem_append_left _ (ih hms)

/-- In paired messages without a repeated id each call has one result, behind the answer. -/
theorem Paired.answered (h : Paired messages)
    (hnodup : (resultIds messages).Nodup) {before after : List Message} (hsplit : messages = before ++ .assistant text calls :: after)
    {call : ToolCall} (hcall : call ∈ calls) : (after.filter (answers call.id)).length = 1 ∧
      (messages.filter (answers call.id)).length = 1 := by
  have hafter := h.results_after hsplit hcall
  have hsub : (resultIds after).Sublist (resultIds messages) := by
    rw [hsplit, resultIds_append]
    refine List.Sublist.trans ?_ (sublist_append_right _ _)
    exact .refl _
  rw [length_answers, length_answers]
  exact ⟨count_eq_one_of_mem (hnodup.sublist hsub) hafter,
    count_eq_one_of_mem hnodup (hsub.subset hafter)⟩

/-! ## What a session asked and accepted -/

/-- A request of a turn. -/
def Deed.asks (turn : ℕ) : Deed → Bool
  | .request n _ => n = turn
  | .accepted _ _ => false

/-- The number of requests of a turn. -/
def asked (deeds : List Deed) (turn : ℕ) : ℕ := deeds.countP (Deed.asks turn)

/-- The requests of the present turn are at most `k`. -/
structure Logged (b : Budget) (turn : ℕ) (deeds : List Deed) (k : ℕ) : Prop where
  paired : ∀ n messages, .request n messages ∈ deeds → Paired messages
  nodup : ∀ n messages, .request n messages ∈ deeds → (resultIds messages).Nodup
  next : ∀ before text calls n messages after,
    deeds = before ++ .accepted text calls :: .request n messages :: after →
    .assistant text calls ∈ messages
  now : asked deeds turn ≤ k
  later : ∀ n, turn < n → asked deeds n = 0
  earlier : ∀ n, n ≠ turn → asked deeds n ≤ b.toolRounds + 1

theorem asked_append (deeds : List Deed) (deed : Deed) (n : ℕ) :
    asked (deeds ++ [deed]) n = asked deeds n + if deed.asks n then 1 else 0 := by
  simp [asked, countP_append, countP_cons]

/-- Two neighbours in a list that is extended by one element are in the list, or the second is
the new element. -/
theorem append_singleton_pair {α : Type} {l before after : List α} {x y z : α}
    (h : l ++ [x] = before ++ y :: z :: after) :
    (∃ rest, l = before ++ y :: z :: rest) ∨ (l.getLast? = some y ∧ x = z) := by
  rcases eq_nil_or_concat after with rfl | ⟨rest, last, rfl⟩
  · have hsplit : l ++ [x] = (before ++ [y]) ++ [z] := by simpa using h
    obtain ⟨rfl, hx⟩ := append_inj' hsplit rfl
    exact .inr ⟨by simp, singleton_inj.mp hx⟩
  · have hsplit : l ++ [x] = (before ++ y :: z :: rest) ++ [last] := by simpa using h
    exact .inl ⟨rest, (append_inj' hsplit rfl).1⟩

section Deeds

variable {turn k : ℕ} {deeds : List Deed}

section

variable (h : Logged b turn deeds k)

include h

theorem Logged.mono {k' : ℕ} (hk : k ≤ k') : Logged b turn deeds k' :=
  { h with now := h.now.trans hk }

/-- The model is asked. -/
theorem Logged.request (hpaired : Paired messages) (hnodup : (resultIds messages).Nodup)
    (hlast : ∀ text calls, deeds.getLast? = some (.accepted text calls) →
      .assistant text calls ∈ messages) :
    Logged b turn (deeds ++ [.request turn messages]) (k + 1) where
  paired n ms hms := by
    rcases mem_append.mp hms with hms | hms
    · exact h.paired n ms hms
    · cases mem_singleton.mp hms
      exact hpaired
  nodup n ms hms := by
    rcases mem_append.mp hms with hms | hms
    · exact h.nodup n ms hms
    · cases mem_singleton.mp hms
      exact hnodup
  next before text calls n ms after hsplit := by
    rcases append_singleton_pair hsplit with ⟨rest, hrest⟩ | ⟨hbefore, hms⟩
    · exact h.next before text calls n ms rest hrest
    · cases hms
      exact hlast text calls hbefore
  now := by
    rw [asked_append, if_pos (by simp [Deed.asks])]
    exact succ_le_succ h.now
  later n hn := by
    rw [asked_append, h.later n hn, if_neg (by simp [Deed.asks]; omega)]
  earlier n hn := by
    rw [asked_append, if_neg (by simp [Deed.asks]; omega)]
    exact h.earlier n hn

/-- The calls of an answer are accepted. -/
theorem Logged.accept (text : String) (calls : List ToolCall) :
    Logged b turn (deeds ++ [.accepted text calls]) k where
  paired n ms hms := by
    rcases mem_append.mp hms with hms | hms
    · exact h.paired n ms hms
    · cases mem_singleton.mp hms
  nodup n ms hms := by
    rcases mem_append.mp hms with hms | hms
    · exact h.nodup n ms hms
    · cases mem_singleton.mp hms
  next before text' calls' n ms after hsplit := by
    rcases append_singleton_pair hsplit with ⟨rest, hrest⟩ | ⟨-, hms⟩
    · exact h.next before text' calls' n ms rest hrest
    · cases hms
  now := by
    rw [asked_append]
    exact h.now
  later n hn := by
    rw [asked_append]
    exact h.later n hn
  earlier n hn := by
    rw [asked_append]
    exact h.earlier n hn

/-- A turn begins. -/
theorem Logged.newTurn (hk : k ≤ b.toolRounds + 1) : Logged b (turn + 1) deeds 0 := { h with
  now := (h.later (turn + 1) (lt_succ_self turn)).le
  later n hn := h.later n (lt_of_succ_lt hn)
  earlier n _ := by
    by_cases hturn : n = turn
    · rw [hturn]
      exact h.now.trans hk
    · exact h.earlier n hturn }

end

end Deeds

/-! ## What holds of a session -/

/-- The call may have run. -/
def Phase.ran : Phase δ → Bool
  | .checking _ => false
  | .executing _ => true
  | .returning output => output.isSome
  | .done output => output.isSome

/-- The requests of a turn so far, at most. -/
def Loop.asked (b : Budget) : Loop → ℕ
  | .idle => b.toolRounds + 1
  | .asserting round _ => round
  | .model round _ => round + 1
  | .tool round _ _ _ _ => round + 1

/-- The last round that the turn is sure to reach. -/
def Loop.round (b : Budget) : Loop → ℕ
  | .idle => b.toolRounds
  | .asserting round _ => round
  | .model round _ => round
  | .tool round _ _ _ _ => round + 1

/-- In the first round the message of the user is the last one. -/
def Active (round active : ℕ) (messages : List Message) : Prop :=
  round = 0 → ∃ earlier text, messages = earlier ++ [.user text] ∧ earlier.length = active

/-- What the messages are at each wait of a turn. -/
def Spoken (messages : List Message) (deeds : List Deed) : Loop → Prop
  | .idle => True
  | .asserting round active => Paired messages ∧ Active round active messages
  | .model round active => Paired messages ∧ Active round active messages ∧
      ∃ n asked, deeds.getLast? = some (.request n asked)
  | .tool _ _ call rest _ => ∃ earlier text before outputs, Paired earlier ∧
      outputs.length = before.length ∧
      messages = earlier ++ .assistant text (before ++ call :: rest) :: results before outputs

/-- The call is in the journal. -/
def Kept (log : Log δ) (scope id : String) : Prop := (log.get (callKey scope id)).isSome = true

structure Session.Sound (b : Budget) (log : Log δ) (s : Session δ) : Prop where
  logged : Logged b s.turn s.deeds (s.loop.asked b)
  round : s.loop.round b ≤ b.toolRounds
  spoken : Spoken s.messages s.deeds s.loop
  paired : s.failed = false → s.loop = .idle → Paired s.messages
  last : s.failed = false → ∀ text calls, s.deeds.getLast? = some (.accepted text calls) →
    .assistant text calls ∈ s.messages
  running : s.loop ≠ .idle → s.failed = false
  fresh : s.turn = 0 → s.loop = .idle ∧ s.deeds = []
  calls : ∀ call phase, (call, phase) ∈ s.calls → phase.ran = true → Kept log s.scope call.id
  kept : ∀ id ∈ resultIds s.messages, Kept log s.scope id
  nodup : (resultIds s.messages).Nodup
  waiting : ∀ round active call rest index, s.loop = .tool round active call rest index →
    ∃ phase, s.calls[index]? = some (call, phase) ∧
      (phase.ran = true → call.id ∉ resultIds s.messages)

/-- What holds at every place within a turn in which at most `k` requests were made. -/
structure Session.Turn (b : Budget) (log : Log δ) (s : Session δ) (k : ℕ) : Prop where
  logged : Logged b s.turn s.deeds k
  last : ∀ text calls, s.deeds.getLast? = some (.accepted text calls) →
    .assistant text calls ∈ s.messages
  accepted : s.failed = false
  begun : s.turn ≠ 0
  calls : ∀ call phase, (call, phase) ∈ s.calls → phase.ran = true → Kept log s.scope call.id
  kept : ∀ id ∈ resultIds s.messages, Kept log s.scope id
  nodup : (resultIds s.messages).Nodup

section Steps

variable {log log' : Log δ} {s : Session δ} {k round active : ℕ}

theorem Session.Sound.turn (h : s.Sound b log) (hloop : s.loop ≠ .idle) :
    s.Turn b log (s.loop.asked b) := { h with
  last := h.last (h.running hloop)
  accepted := h.running hloop
  begun h0 := hloop (h.fresh h0).1 }

theorem Session.Turn.reject (h : s.Turn b log k) (hk : k ≤ b.toolRounds + 1) :
    s.reject.Sound b log := { h with
  logged := h.logged.mono hk
  round := le_rfl
  spoken := trivial
  paired hfailed := by cases hfailed
  last hfailed := by cases hfailed
  running hloop := absurd rfl hloop
  fresh h0 := absurd h0 h.begun
  waiting round active call rest index hloop := by cases hloop }

/-- A round is over, with a result for each of its calls. -/
theorem Session.Turn.nextRound (h : s.Turn b log (round + 1)) (hround : round ≤ b.toolRounds)
    (hpaired : Paired s.messages) : (s.nextRound b round active).Sound b log := by
  unfold Session.nextRound
  split
  · next hlt =>
    exact { h with
      round := hlt
      spoken := ⟨hpaired, fun h0 => absurd h0 (succ_ne_zero round)⟩
      paired := fun _ hloop => by cases hloop
      last := fun _ => h.last
      running := fun _ => h.accepted
      fresh := fun h0 => absurd h0 h.begun
      waiting := fun _ _ _ _ _ hloop => by cases hloop }
  · exact h.reject (succ_le_succ hround)

/-- What `call` does before its first wait. -/
theorem call_eq (t : Tools δ) (s : Session δ) (c : ToolCall) : ∃ busy phase,
    s.call t c = { s with busy := busy, calls := s.calls ++ [(c, phase)] } ∧
      phase.ran = false := by
  unfold Session.call
  split
  · next hbusy => exact ⟨true, .done none, by rw [← hbusy], rfl⟩
  · split
    · exact ⟨true, .returning none, rfl, rfl⟩
    · next arguments _ => exact ⟨true, .checking arguments, rfl, rfl⟩

/-- The next call of an answer, or the end of the round. -/
theorem Session.Turn.nextCall (h : s.Turn b log (round + 1)) (hround : round < b.toolRounds)
    {rest : List ToolCall} {earlier : List Message} {text : String} {before : List ToolCall}
    (hearlier : Paired earlier) (hlength : outputs.length = before.length)
    (hmessages : s.messages =
      earlier ++ .assistant text (before ++ rest) :: results before outputs) :
    (s.nextCall b t round active rest).Sound b log := by
  cases rest with
  | nil =>
    apply h.nextRound hround.le
    rw [hmessages, append_nil]
    exact hearlier.round text hlength
  | cons c rest =>
    obtain ⟨busy, phase, hcall, hran⟩ := call_eq t s c
    rw [Session.nextCall]
    rw [hcall]
    exact { h with
      round := hround
      spoken := ⟨earlier, text, before, outputs, hearlier, hlength, hmessages⟩
      paired := fun _ hloop => by cases hloop
      last := fun _ => h.last
      running := fun _ => h.accepted
      fresh := fun h0 => absurd h0 h.begun
      calls := by
        intro call phase' hmem hran'
        rcases mem_append.mp hmem with hmem | hmem
        · exact h.calls call phase' hmem hran'
        · cases mem_singleton.mp hmem
          rw [hran] at hran'
          cases hran'
      waiting := by
        intro round' active' call rest' index hloop
        cases hloop
        refine ⟨phase, by simp, ?_⟩
        intro hran'
        rw [hran] at hran'
        cases hran' }

/-- A call that does not come from the turn. -/
theorem Session.Sound.call (h : s.Sound b log) (c : ToolCall) : (s.call t c).Sound b log := by
  obtain ⟨busy, phase, hcall, hran⟩ := call_eq t s c
  rw [hcall]
  exact { h with
    calls := by
      intro call phase' hmem hran'
      rcases mem_append.mp hmem with hmem | hmem
      · exact h.calls call phase' hmem hran'
      · cases mem_singleton.mp hmem
        rw [hran] at hran'
        cases hran'
    waiting := by
      intro round active call rest index hloop
      obtain ⟨phase', hphase, hnew⟩ := h.waiting round active call rest index hloop
      have hlt := (List.getElem?_eq_some_iff.mp hphase).1
      exact ⟨phase', (getElem?_append_left hlt).trans hphase, hnew⟩ }

/-- The answer of the model. -/
theorem Session.Sound.answered (h : s.Sound b log) (hloop : s.loop = .model round active)
    (text : String) (calls : List ToolCall) :
    (s.answered b t round active text calls).Sound b log := by
  have hturn := h.turn (by rw [hloop]; exact Loop.noConfusion)
  have hspoken := h.spoken
  have hround := h.round
  rw [hloop] at hturn hspoken hround
  obtain ⟨hpaired, -, n, messages, hrequest⟩ := hspoken
  -- The answer without its results is the last message.
  have hpushed : ({ s with messages := s.messages ++ [.assistant text calls] } : Session δ).Turn b
      log (round + 1) := { hturn with
    last := fun text' calls' hlast => mem_append_left _ (hturn.last text' calls' hlast)
    kept := by
      intro id hid
      rw [resultIds_answer] at hid
      exact hturn.kept id hid
    nodup := by
      rw [resultIds_answer]
      exact hturn.nodup }
  unfold Session.answered
  by_cases hnone : calls = []
  · subst hnone
    have hempty : Paired (s.messages ++ .assistant text [] :: results [] []) :=
      hpaired.round text rfl
    exact { hpushed with
      logged := hpushed.logged.mono (succ_le_succ hround)
      round := le_rfl
      spoken := trivial
      paired := fun _ _ => hempty
      last := fun _ => hpushed.last
      running := fun h' => absurd rfl h'
      fresh := fun h0 => absurd h0 hpushed.begun
      waiting := fun _ _ _ _ _ h' => by cases h' }
  · rw [if_neg hnone]
    by_cases hlast : round = b.toolRounds
    · rw [if_pos hlast]
      exact hpushed.reject (succ_le_succ hround)
    · rw [if_neg hlast]
      have haccepted : ({ s with messages := s.messages ++ [.assistant text calls],
                                 deeds := s.deeds ++ [.accepted text calls] } : Session δ).Turn b
          log (round + 1) := { hpushed with
        logged := hpushed.logged.accept text calls
        last := by
          intro text' calls' hlast
          simp only [getLast?_append, getLast?_singleton, Option.some_or,
            Option.some.injEq, Deed.accepted.injEq] at hlast
          obtain ⟨rfl, rfl⟩ := hlast
          exact mem_append_right _ (mem_singleton_self _) }
      have hmessages : s.messages ++ [.assistant text calls] =
          s.messages ++ .assistant text ([] ++ calls) :: results [] [] := rfl
      exact haccepted.nextCall (lt_of_le_of_ne hround hlast) hpaired rfl hmessages

theorem results_append {before : List ToolCall}
    (h : outputs.length = before.length) (call : ToolCall) (output : String) :
    results (before ++ [call]) (outputs ++ [output]) =
      results before outputs ++ [.tool output call.id] := by
  simp [results, zip_append h.symm]

/-- The answer to the wait of a turn. -/
theorem Session.Sound.advanceLoop (h : s.Sound b log) (out : Outside) :
    (s.advanceLoop b t out).Sound b log := by
  unfold Session.advanceLoop
  cases hloop : s.loop with
  | idle => exact h
  | asserting round active =>
    have hturn := h.turn (by rw [hloop]; exact Loop.noConfusion)
    have hspoken := h.spoken
    have hround := h.round
    rw [hloop] at hturn hspoken hround
    simp only
    split
    · exact hturn.reject (hround.trans (le_succ _))
    · exact { hturn with
        logged := hturn.logged.request hspoken.1 hturn.nodup hturn.last
        round := hround
        spoken := ⟨hspoken.1, hspoken.2, s.turn, s.messages, by simp⟩
        paired := fun _ h' => by cases h'
        last := by
          intro _ text calls hlast
          simp at hlast
        running := fun _ => hturn.accepted
        fresh := fun h0 => absurd h0 hturn.begun
        waiting := fun _ _ _ _ _ h' => by cases h' }
  | model round active =>
    have hturn := h.turn (by rw [hloop]; exact Loop.noConfusion)
    have hspoken := h.spoken
    have hround := h.round
    rw [hloop] at hturn hspoken hround
    simp only
    split
    · exact hturn.reject (succ_le_succ hround)
    · have hrequest := hspoken.2.2
      split
      · next hrecovers =>
        -- Only the message of the user stays.
        obtain ⟨earlier, text, hmessages, hactive⟩ := hspoken.2.1 hrecovers.2.2
        have hdrop : s.messages.drop active = [] ++ [.user text] := by
          rw [hmessages, ← hactive, drop_left]
          rfl
        obtain ⟨n, messages, hasked⟩ := hrequest
        have hshort : ({ s with recovery := s.recovery + 1,
                                messages := s.messages.drop active } : Session δ).Turn b log
            (round + 1) := { hturn with
          last := by
            intro text' calls hlast
            rw [hasked] at hlast
            cases hlast
          kept := by
            intro id hid
            rw [hdrop] at hid
            cases hid
          nodup := by
            rw [hdrop]
            exact nodup_nil }
        apply hshort.nextRound hround
        rw [hdrop]
        exact Paired.nil.user text
      · have hcounted : ({ s with recovery := s.recovery + 1 } : Session δ).Turn b log
            (round + 1) := { hturn with }
        exact hcounted.reject (succ_le_succ hround)
    · split
      · exact hturn.reject (succ_le_succ hround)
      · exact h.answered hloop _ _
  | tool round active call rest index =>
    have hturn := h.turn (by rw [hloop]; exact Loop.noConfusion)
    have hspoken := h.spoken
    have hround := h.round
    rw [hloop] at hturn hspoken hround
    obtain ⟨phase, hphase, hnew⟩ := h.waiting round active call rest index hloop
    obtain ⟨earlier, text, before, outputs, hearlier, hlength, hmessages⟩ := hspoken
    simp only
    split
    · next call' output hdone =>
      rw [hphase] at hdone
      cases hdone
      have hpushed : ({ s with messages := s.messages ++ [.tool output call.id] } :
          Session δ).Turn b log (round + 1) := { hturn with
        last := fun text' calls hlast => mem_append_left _ (hturn.last text' calls hlast)
        kept := by
          intro id hid
          rw [resultIds_result] at hid
          rcases mem_append.mp hid with hid | hid
          · exact hturn.kept id hid
          · rw [mem_singleton.mp hid]
            exact hturn.calls call _ (mem_of_getElem? hphase) rfl
        nodup := by
          rw [resultIds_result, ← concat_eq_append]
          exact hturn.nodup.concat (hnew rfl) }
      have hresults : s.messages ++ [.tool output call.id] = earlier ++
          .assistant text ((before ++ [call]) ++ rest) ::
            results (before ++ [call]) (outputs ++ [output]) := by
        rw [hmessages, results_append hlength]
        simp
      rw [← hloop]
      exact hpushed.nextCall hround hearlier (by simp [hlength]) hresults
    · exact hturn.reject (hround.trans (le_succ _))
    · split
      · exact hturn.reject (hround.trans (le_succ _))
      · exact h

theorem Kept.mono {scope id : String} (h : Kept log scope id) (hlog : log.Extends log') :
    Kept log' scope id := by
  obtain ⟨e, he⟩ := Option.isSome_iff_exists.mp h
  obtain ⟨e', he', -⟩ := hlog _ e he
  exact Option.isSome_iff_exists.mpr ⟨e', he'⟩

/-- Another session writes to the journal. -/
theorem Session.Sound.mono (h : s.Sound b log) (hlog : log.Extends log') : s.Sound b log' :=
  { h with
    calls := fun call phase hmem hran => (h.calls call phase hmem hran).mono hlog
    kept := fun id hid => (h.kept id hid).mono hlog }

/-- A call goes on to a phase in which it may have run only if it is in the journal. -/
theorem Session.Sound.setPhase (h : s.Sound b log) {i : ℕ} {call : ToolCall}
    {phase : Phase δ} (next : Phase δ) (hphase : s.calls[i]? = some (call, phase))
    (hkept : next.ran = true → Kept log s.scope call.id)
    (hnew : next.ran = true → phase.ran = true ∨ call.id ∉ resultIds s.messages) (busy : Bool) :
    ({ s.setPhase i call next with busy := busy } : Session δ).Sound b log :=
  { h with
    calls := by
      intro call' phase' hmem hran
      rcases mem_or_eq_of_mem_set hmem with hmem | heq
      · exact h.calls call' phase' hmem hran
      · cases heq
        exact hkept hran
    waiting := by
      intro round active call' rest index hloop
      obtain ⟨phase', hphase', hnew'⟩ := h.waiting round active call' rest index hloop
      by_cases hindex : i = index
      · subst hindex
        rw [hphase] at hphase'
        cases hphase'
        refine ⟨next, getElem?_set_self (List.getElem?_eq_some_iff.mp hphase).1, ?_⟩
        intro hran
        exact (hnew hran).elim hnew' id
      · exact ⟨phase', (getElem?_set_ne hindex).trans hphase', hnew'⟩ }

/-- A turn begins, unless an earlier one was rejected. -/
theorem Session.Sound.sendTurn (h : s.Sound b log) (hfailed : s.failed = false)
    (text inputId : String) : (s.sendTurn text inputId).Sound b log := by
  unfold Session.sendTurn
  split
  · exact h
  · next hopen =>
    simp only [Bool.or_eq_true, decide_eq_true_eq, not_or, not_not] at hopen
    have hidle := hopen.1.2
    have hbound : s.loop.asked b ≤ b.toolRounds + 1 := by
      rw [hidle]
      exact le_rfl
    exact {
      logged := h.logged.newTurn hbound
      round := zero_le _
      spoken := ⟨(h.paired hfailed hidle).user text, fun _ => ⟨s.messages, text, rfl, rfl⟩⟩
      paired := fun _ hloop => by cases hloop
      last := fun _ text' calls hlast => mem_append_left _ (h.last hfailed text' calls hlast)
      running := fun _ => hfailed
      fresh := fun h0 => absurd h0 (succ_ne_zero _)
      calls := h.calls
      kept := by
        intro id hid
        rw [resultIds_user] at hid
        exact h.kept id hid
      nodup := by
        rw [resultIds_user]
        exact h.nodup
      waiting := fun _ _ _ _ _ hloop => by cases hloop }

theorem Session.Sound.resume (h : s.Sound b log) (text : String) :
    (s.resume text).Sound b log := by
  unfold Session.resume
  split
  · next h0 =>
    obtain ⟨hidle, hdeeds⟩ := h.fresh h0
    exact { h with
      spoken := by
        rw [hidle]
        trivial
      paired := fun _ _ => Paired.nil.user text
      last := by
        intro _ text' calls hlast
        rw [hdeeds] at hlast
        cases hlast
      kept := fun id hid => by cases hid
      nodup := nodup_nil
      waiting := by
        intro round active call rest index hloop
        rw [hidle] at hloop
        cases hloop }
  · exact h

theorem fresh_sound (log : Log δ) (scope : String) :
    (Session.fresh scope : Session δ).Sound b log := by
  refine ⟨⟨?_, ?_, ?_, zero_le _, fun _ _ => rfl, fun _ _ => zero_le _⟩, le_rfl,
    trivial, fun _ _ => .nil, ?_, fun h => absurd rfl h, fun _ => ⟨rfl, rfl⟩, ?_, ?_,
    nodup_nil, ?_⟩
  · intro n messages h
    cases h
  · intro n messages h
    cases h
  · intro before text calls n messages after h
    simp [Session.fresh] at h
  · intro _ text calls h
    cases h
  · intro call phase h
    cases h
  · intro id h
    cases h
  · intro round active call rest index h
    cases h

end Steps

/-! ## What holds of a process -/

section Process

variable {p : Process δ} {log : Log δ}

structure Process.Sound (b : Budget) (p : Process δ) : Prop where
  sessions : ∀ s ∈ p.sessions, s.Sound b p.log
  once : p.executed.Nodup
  ran : ∀ call ∈ p.executed, Kept p.log call.1 call.2

/-- One session changes, and the journal grows. -/
theorem Process.Sound.set (h : p.Sound b) {s' : Session δ} {executed : List (String × String)}
    (i : ℕ) (hlog : p.log.Extends log) (hs' : s'.Sound b log) (honce : executed.Nodup)
    (hran : ∀ call ∈ executed, Kept log call.1 call.2) :
    (⟨log, executed, p.sessions.set i s'⟩ : Process δ).Sound b where
  sessions s₁ hs₁ := by
    rcases mem_or_eq_of_mem_set hs₁ with hs₁ | rfl
    · exact (h.sessions s₁ hs₁).mono hlog
    · exact hs'
  once := honce
  ran := hran

theorem Process.Sound.update (h : p.Sound b) (i : ℕ) {f : Session δ → Session δ}
    (hf : ∀ s : Session δ, s.Sound b p.log → (f s).Sound b p.log) : (p.update i f).Sound b := by
  refine ⟨?_, h.once, h.ran⟩
  intro s hs
  obtain ⟨j, hj⟩ := mem_iff_getElem?.mp hs
  rw [Process.update, getElem?_modify] at hj
  obtain ⟨s₀, hs₀, rfl⟩ := Option.map_eq_some_iff.mp hj
  have hsound := h.sessions s₀ (mem_of_getElem? hs₀)
  split
  · exact hf s₀ hsound
  · exact hsound

variable [DecidableEq δ]

theorem keepIntent_extends (log : Log δ) (key : String) (intent : Record δ) (writes : ℕ) :
    log.Extends (keepIntent log key intent writes).2 := by
  unfold keepIntent
  split
  · exact .refl log
  · split
    · exact .refl log
    · next log' hprepare =>
      split
      · exact prepare_extends hprepare
      · exact (prepare_extends hprepare).trans (log'.uncertain_extends key)

/-- A call that starts is in the journal. -/
theorem keepIntent_kept {key : String} {intent : Record δ} {writes : ℕ}
    (h : (keepIntent log key intent writes).1 = true) :
    ((keepIntent log key intent writes).2.get key).isSome = true := by
  unfold keepIntent at h ⊢
  by_cases hnone : writes = 0
  · rw [if_pos hnone] at h
    cases h
  rw [if_neg hnone] at h ⊢
  cases hprepare : log.prepare "model-call" key "local" intent "" with
  | error e =>
    rw [hprepare] at h
    cases h
  | ok kept =>
    rw [hprepare] at h
    by_cases hone : writes = 1
    · simp [hone] at h
    · simp only [if_neg hone]
      rw [get_uncertain, get_of_prepare hprepare]
      rfl

theorem keepReceipt_extends (log : Log δ) (key : String) (receipt : Record δ) (writes : ℕ) :
    log.Extends (keepReceipt log key receipt writes).2 := by
  unfold keepReceipt
  split
  · exact .refl log
  · split
    · exact .refl log
    · next log' hcomplete => exact complete_extends hcomplete

/-- A call whose id is free starts. -/
theorem checked_sound (h : p.Sound b) {i k : ℕ} {s : Session δ} {call : ToolCall} {arguments : δ}
    (hs : p.sessions[i]? = some s) (hphase : s.calls[k]? = some (call, .checking arguments))
    (hfree : p.log.get (callKey s.scope call.id) = none) (out : Outside)
    (kept : Bool × Log δ) (hkept : kept = keepIntent p.log (callKey s.scope call.id)
      (.intent call.id out.uuid call.name arguments) out.writes) (hstarts : kept.1 = true) :
    (⟨kept.2, p.executed ++ [(s.scope, call.id)],
      p.sessions.set i { s.setPhase k call (.executing out.uuid) with busy := true }⟩ :
      Process δ).Sound b := by
  have hsound := h.sessions s (mem_of_getElem? hs)
  have hlog : p.log.Extends kept.2 := by
    rw [hkept]
    exact keepIntent_extends p.log _ _ _
  have hin : Kept kept.2 s.scope call.id := by
    rw [hkept] at hstarts ⊢
    exact keepIntent_kept hstarts
  -- What ran before is in the journal, where this id is not.
  have hnot : ∀ id, Kept p.log s.scope id → id ≠ call.id := by
    rintro id hid rfl
    rw [Kept, hfree] at hid
    cases hid
  have hnext : ({ s.setPhase k call (.executing out.uuid) with busy := true } :
      Session δ).Sound b kept.2 := by
    apply (hsound.mono hlog).setPhase (.executing out.uuid) hphase (fun _ => hin)
    intro _
    exact .inr fun hid => hnot call.id (hsound.kept call.id hid) rfl
  apply h.set i hlog hnext
  · rw [← concat_eq_append]
    have hnew : (s.scope, call.id) ∉ p.executed := by
      intro hran
      have hold : Kept p.log s.scope call.id := h.ran (s.scope, call.id) hran
      exact hnot call.id hold rfl
    exact h.once.concat hnew
  · intro ran hran
    rcases mem_append.mp hran with hran | hran
    · exact (h.ran ran hran).mono hlog
    · rw [mem_singleton.mp hran]
      exact hin

/-- The answer to the wait of a call. -/
theorem advanceCall_sound (h : p.Sound b) {i k : ℕ} {s : Session δ} {call : ToolCall}
    {phase : Phase δ} (hs : p.sessions[i]? = some s) (hphase : s.calls[k]? = some (call, phase))
    (out : Outside) :
    ({ (advanceCall t p s k out call phase).1 with
      sessions := p.sessions.set i (advanceCall t p s k out call phase).2 } : Process δ).Sound b := by
  have hsound := h.sessions s (mem_of_getElem? hs)
  have hcalls := hsound.calls call phase (mem_of_getElem? hphase)
  have hthrown : ∀ {log : Log δ} (busy : Bool), p.log.Extends log →
      ({ s.setPhase k call (.returning none) with busy := busy } : Session δ).Sound b log :=
    fun busy hlog => (hsound.mono hlog).setPhase (.returning none) hphase (fun hran => by cases hran)
      (fun hran => by cases hran) busy
  cases phase with
  | checking arguments =>
    simp only [advanceCall]
    split
    · exact h.set i (.refl _) (hthrown s.busy (.refl _)) h.once h.ran
    · next hfree =>
      simp only [Bool.or_eq_true, not_or, Bool.not_eq_true] at hfree
      split
      · next hstarts => exact checked_sound h hs hphase (by simpa using hfree.2) out _ rfl hstarts
      · have hlog := keepIntent_extends p.log (callKey s.scope call.id)
          (.intent call.id out.uuid call.name arguments) out.writes
        exact h.set i hlog (hthrown s.busy hlog) h.once
          fun ran hran => (h.ran ran hran).mono hlog
  | executing operationId =>
    rw [advanceCall]
    split
    · exact h.set i (.refl _) (hthrown false (.refl _)) h.once h.ran
    · have hlog := keepReceipt_extends p.log (callKey s.scope call.id)
        (.receipt call.id operationId (t.redact out.output)) out.writes
      refine h.set i hlog ?_ h.once fun ran hran => (h.ran ran hran).mono hlog
      exact (hsound.mono hlog).setPhase _ hphase (fun _ => (hcalls rfl).mono hlog)
        (fun _ => .inl rfl) false
  | returning output =>
    have hnext : ({ s.setPhase k call (.done output) with busy := false } :
        Session δ).Sound b p.log := 
      hsound.setPhase (.done output) hphase hcalls .inl false
    exact h.set i (.refl _) hnext h.once h.ran
  | done output => exact h.set i (.refl _) hsound h.once h.ran

theorem step_sound (h : p.Sound b) (m : Move) : (step b t p m).Sound b := by
  cases m with
  | opened scope =>
    refine ⟨?_, h.once, h.ran⟩
    intro s hs
    rcases mem_append.mp hs with hs | hs
    · exact h.sessions s hs
    · rw [mem_singleton.mp hs]
      exact fresh_sound p.log scope
  | resume i text => exact h.update i fun s hs => hs.resume text
  | sendTurn i text inputId =>
    apply h.update i
    intro s hs
    split
    · exact hs
    · next hfailed => exact hs.sendTurn (by simpa using hfailed) text inputId
  | close i => exact h.update i fun s hs => { hs with }
  | loop i out => exact h.update i fun s hs => hs.advanceLoop out
  | call i call => exact h.update i fun s hs => hs.call call
  | advance i k out =>
    rw [step]
    split
    · exact h
    · next s hs =>
      split
      · exact h
      · next call phase hphase => exact advanceCall_sound h hs hphase out
  | crash => exact ⟨fun s hs => (by cases hs), h.once, h.ran⟩

theorem states_sound (moves : ℕ → Move) (n : ℕ) : (states b t moves n).Sound b := by
  induction n with
  | zero => exact ⟨fun s hs => (by cases hs), nodup_nil, fun call h => (by cases h)⟩
  | succ n ih => exact step_sound ih (moves n)

end Process

/-! ## A turn ends -/

/-- What a turn has left to do: the rounds, and within a round the calls. -/
def Loop.rank (b : Budget) : Loop → ℕ ×ₗ ℕ
  | .idle => toLex (0, 0)
  | .asserting round _ => toLex (3 * (b.toolRounds + 1 - round) + 2, 0)
  | .model round _ => toLex (3 * (b.toolRounds + 1 - round) + 1, 0)
  | .tool round _ _ rest _ => toLex (3 * (b.toolRounds + 1 - round), rest.length)

/-- A sequence that goes on from a value only down a well-founded order stops, or stays at one
value. -/
theorem stops_or_stays {α β : Type} [LT β] [WellFoundedLT β] (rank : α → β) (stop : α → Prop)
    (f : ℕ → α)
    (hstep : ∀ n, ¬ stop (f n) → stop (f (n + 1)) ∨ f (n + 1) = f n ∨ rank (f (n + 1)) < rank (f n))
    (n : ℕ) : ∃ m, n ≤ m ∧ (stop (f m) ∨ ∀ k, m ≤ k → f k = f m) := by
  induction hrank : rank (f n) using WellFoundedLT.induction generalizing n with
  | ind r ih =>
    by_contra hnone
    -- Without a stop the sequence stays, as going down once leads to an end.
    have hstays : ∀ m, n ≤ m → f m = f n := by
      intro m hm
      induction m, hm using le_induction with
      | base => rfl
      | succ m hm ihm =>
        have hrunning : ¬ stop (f m) := fun hstop => hnone ⟨m, hm, .inl hstop⟩
        rcases hstep m hrunning with hstop | hsame | hlt
        · exact absurd ⟨m + 1, by omega, .inl hstop⟩ hnone
        · rw [hsame, ihm]
        · rw [ihm, hrank] at hlt
          obtain ⟨k, hk, hend⟩ := ih _ hlt (m + 1) rfl
          exact absurd ⟨k, by omega, hend⟩ hnone
    exact hnone ⟨n, Nat.le_refl n, .inr fun k hk => hstays k hk⟩

/-- A wait of a turn that is answered leaves less to do. -/
def Lower (b : Budget) (old new : Loop) : Prop := new = .idle ∨ new.rank b < old.rank b

section Ends

variable {s : Session δ} {round active : ℕ}

theorem lower_nextRound {old : Loop}
    (hold : toLex (3 * (b.toolRounds + 1 - round), 0) ≤ old.rank b) :
    Lower b old (s.nextRound b round active).loop := by
  unfold Session.nextRound
  split
  · next hlt =>
    refine .inr (lt_of_lt_of_le ?_ hold)
    refine Prod.Lex.toLex_lt_toLex.mpr (.inl ?_)
    omega
  · exact .inl rfl

theorem lower_nextCall {old : Loop} (calls : List ToolCall)
    (hold : toLex (3 * (b.toolRounds + 1 - round), calls.length) ≤ old.rank b) :
    Lower b old (s.nextCall b t round active calls).loop := by
  cases calls with
  | nil => exact lower_nextRound hold
  | cons call rest =>
    refine .inr (lt_of_lt_of_le ?_ hold)
    exact Prod.Lex.toLex_lt_toLex.mpr (.inr ⟨rfl, lt_succ_self _⟩)

theorem advanceLoop_lower (s : Session δ) (out : Outside) (hloop : s.loop ≠ .idle) :
    (s.advanceLoop b t out).loop = s.loop ∨
    Lower b s.loop (s.advanceLoop b t out).loop := by
  unfold Session.advanceLoop
  cases hcase : s.loop with
  | idle => exact absurd hcase hloop
  | asserting round active =>
    simp only
    right
    split
    · exact .inl rfl
    · refine .inr (Prod.Lex.toLex_lt_toLex.mpr (.inl ?_))
      exact lt_succ_self _
  | model round active =>
    have hdown : ∀ n, toLex (3 * (b.toolRounds + 1 - round), n) ≤
        (Loop.model round active).rank b :=
      fun n => (Prod.Lex.toLex_lt_toLex.mpr (.inl (lt_succ_self _))).le
    simp only
    right
    split
    · exact .inl rfl
    · split
      · exact lower_nextRound (hdown 0)
      · exact .inl rfl
    · next text calls _ =>
      split
      · exact .inl rfl
      · unfold Session.answered
        by_cases hnone : calls = []
        · exact .inl (by simp only [if_pos hnone])
        · rw [if_neg hnone]
          by_cases hlast : round = b.toolRounds
          · exact .inl (by simp only [if_pos hlast]; rfl)
          · rw [if_neg hlast]
            exact lower_nextCall calls (hdown calls.length)
  | tool round active call rest index =>
    simp only
    split
    · right
      exact lower_nextCall rest (le_refl _)
    · exact .inr (.inl rfl)
    · split
      · exact .inr (.inl rfl)
      · exact .inl hcase

end Ends

section Run

variable (p : Process δ)

/-- Where the turn of a session waits. -/
def Process.loopAt (i : ℕ) : Option Loop := p.sessions[i]?.map Session.loop

/-- The session is gone, or is in no turn. -/
def Ended (l : Option Loop) : Prop := l = none ∨ l = some .idle

theorem loopAt_update (i j : ℕ) {f : Session δ → Session δ}
    (hf : ∀ s : Session δ, s.loop ≠ .idle → (f s).loop = s.loop) (hrunning : ¬ Ended (p.loopAt i)) :
    (p.update j f).loopAt i = p.loopAt i := by
  simp only [loopAt, Process.update, getElem?_modify]
  cases hs : p.sessions[i]? with
  | none => rfl
  | some s =>
    have hloop : s.loop ≠ .idle := by
      intro hidle
      exact hrunning (.inr (by simp [loopAt, hs, hidle]))
    split
    · exact congrArg some (hf s hloop)
    · rfl

theorem loopAt_loop (i j : ℕ) (out : Outside) (hrunning : ¬ Ended (p.loopAt i)) :
    let new := (p.update j fun s => s.advanceLoop b t out).loopAt i
    Ended new ∨ new = p.loopAt i ∨
      (new.getD .idle).rank b < ((p.loopAt i).getD .idle).rank b := by
  simp only [loopAt, Process.update, getElem?_modify]
  cases hs : p.sessions[i]? with
  | none => exact .inl (.inl rfl)
  | some s =>
    have hloop : s.loop ≠ .idle := by
      intro hidle
      exact hrunning (.inr (by simp [loopAt, hs, hidle]))
    split
    · rcases advanceLoop_lower (b := b) (t := t) s out hloop with hsame | hidle | hlower
      · exact .inr (.inl (congrArg some hsame))
      · exact .inl (.inr (congrArg some hidle))
      · exact .inr (.inr hlower)
    · exact .inr (.inl rfl)

variable [DecidableEq δ]

theorem advanceCall_loop (s : Session δ) (k : ℕ) (out : Outside) (call : ToolCall)
    (phase : Phase δ) : (advanceCall t p s k out call phase).2.loop = s.loop := by
  cases phase with
  | checking arguments =>
    simp only [advanceCall]
    split
    · rfl
    · split <;> rfl
  | executing operationId =>
    rw [advanceCall]
    split <;> rfl
  | returning output | done output => rfl

/-- Each move ends the turn, leaves it at its wait, or leaves it less to do. -/
theorem step_lower (m : Move) (i : ℕ) (hrunning : ¬ Ended (p.loopAt i)) :
    Ended ((step b t p m).loopAt i) ∨ (step b t p m).loopAt i = p.loopAt i ∨
      (((step b t p m).loopAt i).getD .idle).rank b < ((p.loopAt i).getD .idle).rank b := by
  cases m with
  | opened scope =>
    obtain ⟨l, hl⟩ : ∃ l, p.loopAt i = some l :=
      Option.ne_none_iff_exists'.mp fun hnone => hrunning (.inl hnone)
    obtain ⟨s, hs, -⟩ := Option.map_eq_some_iff.mp hl
    have hlt := (List.getElem?_eq_some_iff.mp hs).1
    have hsame : (p.sessions ++ [Session.fresh scope])[i]? = p.sessions[i]? :=
      getElem?_append_left hlt
    exact .inr (.inl (congrArg (Option.map Session.loop) hsame))
  | resume j text =>
    refine .inr (.inl (loopAt_update p i j (fun s _ => ?_) hrunning))
    unfold Session.resume
    split <;> rfl
  | sendTurn j text inputId =>
    refine .inr (.inl (loopAt_update p i j (fun s hloop => ?_) hrunning))
    split
    · rfl
    · simp [Session.sendTurn, hloop]
  | close j => exact .inr (.inl (loopAt_update p i j (fun _ _ => rfl) hrunning))
  | loop j out => exact loopAt_loop p i j out hrunning
  | call j call =>
    refine .inr (.inl (loopAt_update p i j (fun s _ => ?_) hrunning))
    obtain ⟨busy, phase, hcall, -⟩ := call_eq t s call
    rw [hcall]
  | advance j k out =>
    right
    left
    rw [step]
    split
    · rfl
    · next s hs =>
      split
      · rfl
      · next call phase hphase =>
        simp only [loopAt]
        by_cases hij : j = i
        · subst hij
          rw [getElem?_set_self (List.getElem?_eq_some_iff.mp hs).1, hs]
          exact congrArg some (advanceCall_loop p s k out call phase)
        · rw [getElem?_set_ne hij]
  | crash => exact .inl (.inl rfl)

/-- In every run, each tool call runs at most once by its scope and id; a turn asks the model at
most once for each round and once more; each call in a request has one result there, behind its
answer, and the calls that are accepted are in the next request; and a turn ends, unless one of
its waits is never answered. -/
theorem calls_answered_once (b : Budget) (t : Tools δ) (moves : ℕ → Move) :
    (∀ n, (states b t moves n).executed.Nodup) ∧
    (∀ n, ∀ s ∈ (states b t moves n).sessions, (∀ turn, asked s.deeds turn ≤ b.toolRounds + 1) ∧
      (∀ turn messages, .request turn messages ∈ s.deeds → ∀ before text calls after,
        messages = before ++ .assistant text calls :: after → ∀ call ∈ calls,
          (after.filter (Message.answers call.id)).length = 1 ∧
            (messages.filter (Message.answers call.id)).length = 1) ∧
      ∀ earlier text calls turn messages later,
        s.deeds = earlier ++ .accepted text calls :: .request turn messages :: later →
        .assistant text calls ∈ messages) ∧
    ∀ i n, ∃ m, n ≤ m ∧ (Ended ((states b t moves m).loopAt i) ∨
      ∀ k, m ≤ k → (states b t moves k).loopAt i = (states b t moves m).loopAt i) := by
  refine ⟨fun n => (states_sound moves n).once, ?_, ?_⟩
  · intro n s hs
    have hsound := (states_sound moves n).sessions s hs
    have hlogged := hsound.logged
    refine ⟨?_, ?_, hlogged.next⟩
    · intro turn
      by_cases hturn : turn = s.turn
      · rw [hturn]
        refine hlogged.now.trans ?_
        have hround := hsound.round
        cases hloop : s.loop <;> simp only [hloop, Loop.round, Loop.asked] at hround ⊢ <;> omega
      · exact hlogged.earlier turn hturn
    · intro turn messages hrequest before text calls after hsplit call hcall
      exact (hlogged.paired turn messages hrequest).answered
        (hlogged.nodup turn messages hrequest) hsplit hcall
  · intro i n
    exact stops_or_stays (fun l : Option Loop => (l.getD .idle).rank b) Ended
      (fun n => (states b t moves n).loopAt i)
      (fun n hrunning => step_lower (b := b) (t := t) (states b t moves n) (moves n) i hrunning) n

end Run

end GrowTeam.Runtime.Endpoint
