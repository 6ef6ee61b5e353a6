/-
# Every function of the runner keeps the rules

One triple for each atomic step, and from these one for each function: `Quiet` for the
functions that only have to keep the rules, a postcondition for the ones whose result the
callers rely on (`send`, `mutate`, `consume`, `stopped`).
-/
import GrowTeam.Runner.Durability

namespace GrowTeam.Runner

open Interleaving Rules List Journal Key

/-- A triple of the runner; an error owes nothing but the rules. -/
abbrev Spec (careful : Prop) (x : Program α) (P : Store → Prop) (Q : α → Store → Prop) : Prop :=
  (rules careful).SoundE x P Q fun _ _ => True

/-- A function that keeps the rules, whatever it returns. -/
abbrev Quiet (careful : Prop) (x : Program α) : Prop :=
  Spec careful x (fun _ => True) fun _ _ => True

variable {careful : Prop} {dev : Device} {α β : Type}

/-! ## Atomic steps -/

/-- An assertion about the journal and the acknowledgements only. -/
def Durable (P : Store → Prop) : Prop :=
  ∀ s s', s'.journal = s.journal → s'.acked = s.acked → P s → P s'

variable {s s' : Store}

private theorem inv_process (hs : (rules careful).inv s) (p : Process) :
    (rules careful).inv { s with process := p } :=
  inv_of_later hs (.of_eq rfl rfl) fun _ _ h => .inl h

variable {P : Store → Prop} {Q : α → Store → Prop} {id : Key} {kind route : String} {body : Data}
  {response : Data} {x : Program α} {message : String} {e : LogEntry} {s : Store}
  {cursor : Option ℕ} {d : LeaseIdentity} {found : Option LogEntry}

variable {act : Input → Process → Except Fault (α × Process)}

theorem onProcess_sync (hP : Durable P) {V : α → Prop}

    (hV : ∀ input p a p', act input p = .ok (a, p') → V a) :
    Spec careful (onProcess false act) P fun a s => V a ∧ P s := by
  refine .attempt (by simp) ?_ ?_
  · intro input s a s' hs hp _ h
    cases hact : act input s.process with
    | error e => rw [hact] at h; simp [Except.map] at h
    | ok r =>
      rw [hact] at h
      cases h
      exact ⟨⟨inv_process hs _, .of_eq rfl rfl, trivial⟩, hV _ _ _ _ hact, hP s _ rfl rfl hp⟩
  · exact fun _ s _ hs _ _ _ => ⟨⟨hs, .refl s, trivial⟩, trivial⟩

theorem onProcess_quiet {w : Bool} :
    Quiet careful (onProcess w act) := by
  refine .attempt (fun _ => stable_true _) ?_ ?_
  · intro input s a s' hs _ _ h
    cases hact : act input s.process with
    | error e => rw [hact] at h; simp [Except.map] at h
    | ok r =>
      rw [hact] at h
      cases h
      exact ⟨⟨inv_process hs _, .of_eq rfl rfl, trivial⟩, trivial⟩
  · exact fun _ s _ hs _ _ _ => ⟨⟨hs, .refl s, trivial⟩, trivial⟩

/-- A step that only reads the store and whose tag owes nothing. -/
theorem observe_spec {tag : Tag} {act : Input → Store → Except Fault (α × Store)}
    (hpost : ∀ s, (rules careful).post tag s s)
    (hread : ∀ input s a s', act input s = .ok (a, s') → s' = s)
    (hQ : ∀ input s a, (rules careful).inv s → P s → (rules careful).cond tag s →
      act input s = .ok (a, s) → Q a s) :
    Spec careful (Routine.attempt false tag act) P Q := by
  refine .attempt (by simp) ?_ ?_
  · intro input s a s' hs hp hc h
    obtain rfl := hread input s a s' h
    exact ⟨⟨hs, .refl _, hpost _⟩, hQ input s' a hs hp hc h⟩
  · exact fun _ s _ hs _ _ _ => ⟨⟨hs, .refl s, hpost s⟩, trivial⟩

theorem query_spec (f : Log → α) :
    Spec careful (query .step f) P fun a s => a = f s.journal ∧ P s := by
  refine observe_spec (fun _ => trivial) (fun _ _ _ _ h => by cases h; rfl) ?_
  rintro input s a - hp - ⟨⟩
  exact ⟨rfl, hp⟩

theorem query_quiet (f : Log → α) : Quiet careful (query .step f) :=
  (query_spec f).post fun _ _ _ _ => trivial

theorem uncertain_spec {tag : Tag} {Q : Store → Prop} (hpost : ∀ s, (rules careful).inv s → P s →
      (rules careful).post tag s { s with journal := s.journal.uncertain id })
    (hQ : ∀ s, (rules careful).inv s → P s → Q { s with journal := s.journal.uncertain id }) :
    Spec careful (uncertain tag id) P fun _ => Q := by
  refine .attempt (by simp) ?_ ?_
  · rintro input s a s' hs hp - ⟨⟩
    obtain ⟨hinv, hl⟩ := allowed_uncertain hs id
    exact ⟨⟨hinv, hl, hpost s hs hp⟩, hQ s hs hp⟩
  · rintro input s e hs hp - h
    cases h

theorem uncertain_quiet : Quiet careful (uncertain .step id) :=
  uncertain_spec (Q := fun _ => True) (fun _ _ _ => trivial) fun _ _ _ => trivial

variable {route scope : String}

/-- The answer to a request is recorded as an acknowledgement. -/
theorem request_spec {payload : Option Data} (hP : (rules careful).Stable P) :
    Spec careful (request route payload) P fun _ s => (route, payload) ∈ s.acked ∧ P s := by
  refine .attempt (fun _ => hP) ?_ ?_
  · intro input s reply s' hs hp _ h
    cases hr : input.reply with
    | error kind => simp [hr] at h
    | ok r =>
      rw [hr] at h
      cases h
      have hl : Later s { s with acked := (route, payload) :: s.acked } :=
        ⟨.refl _, fun _ hr => mem_cons_of_mem _ hr⟩
      have hinv := inv_of_later hs hl fun _ _ h => .inl h
      exact ⟨⟨hinv, hl, trivial⟩, mem_cons_self, hP _ _ hs hinv hl hp⟩
  · exact fun _ s _ hs _ _ _ => ⟨⟨hs, .refl s, trivial⟩, trivial⟩

theorem request_quiet {payload : Option Data} :
    Quiet careful (request route payload) :=
  (request_spec (stable_true _)).post fun _ _ _ _ => trivial

/-- What the caller of `prepare` knows: the id holds the returned entry, which is about the
given request and is either the one that was there or a new prepared one. -/
structure Prepared (s s' : Store) (kind : String) (id : Key) (route : String) (body : Data)
    (e : LogEntry) : Prop where
  later : Later s s'
  get : s'.journal.get id = some e
  id_eq : e.id = id
  kind_eq : e.kind = kind
  route_eq : e.route = route
  request_eq : e.request = body
  old : s.journal.get id = some e ∨ (s.journal.get id = none ∧ e.state = .prepared)

theorem prepare_spec (hnew : ∀ s, (rules careful).inv s → P s →
      Good s (newEntry kind id route body dev.scope)) :
    Spec careful (prepare dev kind id route body) P
      fun e s' => ∃ s, P s ∧ Prepared s s' kind id route body e := by
  refine .attempt (by simp) ?_ ?_
  · intro input s e s' hs hp _ h
    split at h
    · simp at h
    · cases hprep : s.journal.prepare kind id route body dev.scope with
      | error err => simp [hprep] at h
      | ok r =>
        rw [hprep] at h
        cases h
        obtain ⟨hinv, hl⟩ := allowed_prepare hs (hnew s hs hp) hprep
        obtain ⟨hid, -, hkind, hroute, hreq⟩ := prepare_identity hprep
        refine ⟨⟨hinv, hl, trivial⟩, s, hp, hl, get_of_prepare hprep, hid, hkind,
          hroute, hreq, ?_⟩
        rcases prepare_ok hprep with ⟨hget, -⟩ | ⟨hnone, he, -⟩
        · exact .inl hget
        · exact .inr ⟨hnone, by rw [he]; rfl⟩
  · exact fun _ s _ hs _ _ _ => ⟨⟨hs, .refl s, trivial⟩, trivial⟩

theorem complete_spec (hstop : ∀ s, (rules careful).inv s → P s → ∀ e, s.journal.get id = some e →
      e.kind = "stop" → (Acked s e ∧ ∃ r, response = .reply r) ∨
        ∃ a n q c, id = .stop a n ∧ response = .superseded (.stopAt a n q) c) :
    Spec careful (complete id response) P fun _ s' => ∃ s old, P s ∧ Later s s' ∧
      s.journal.get id = some old ∧ s'.acked = s.acked ∧
      s'.journal.get id = some { old with state := .done, response := some response } := by
  refine .attempt (by simp) ?_ ?_
  · intro input s a s' hs hp _ h
    split at h
    · simp at h
    · cases hcomp : s.journal.complete id response with
      | error err => simp [hcomp] at h
      | ok j =>
        rw [hcomp] at h
        cases h
        obtain ⟨hinv, hl⟩ := allowed_complete hs (hstop s hs hp) hcomp
        obtain ⟨old, hold, -, hget⟩ := complete_ok hcomp
        exact ⟨⟨hinv, hl, trivial⟩, s, old, hp, hl, hold, rfl, by rw [hget, if_pos rfl]⟩
  · exact fun _ s _ hs _ _ _ => ⟨⟨hs, .refl s, trivial⟩, trivial⟩

/-! ## Composition -/

theorem Quiet.pure (a : α) : Quiet careful (Pure.pure a) := SoundE.pure fun _ _ h => h

theorem Quiet.throw (e : Fault) : Quiet careful (MonadExcept.throw e : Program α) :=
  SoundE.throw fun _ _ h => h

theorem Quiet.bind {f : α → Program β} (hx : Quiet careful x)
    (hf : ∀ a, Quiet careful (f a)) : Quiet careful (x >>= f) := SoundE.bind hx hf

/-- What is known of the first result may be used for the rest. -/
theorem Quiet.bindWith {f : α → Program β} {V : α → Prop}
    (hx : Spec careful x (fun _ => True) fun a _ => V a)
    (hf : ∀ a, V a → Quiet careful (f a)) : Quiet careful (x >>= f) := by
  refine SoundE.bind hx fun a => ?_
  exact (SoundE.ofPure (hf a)).pre fun _ _ h => ⟨h, trivial⟩

/-- Forgets what is known of the result. -/
theorem Spec.quiet
    (h : Spec careful x P Q) : Spec careful x P fun _ _ => True := h.post fun _ _ _ _ => trivial

theorem Quiet.ite {c : Prop} [Decidable c] {x y : Program α} (hx : Quiet careful x)
    (hy : Quiet careful y) : Quiet careful (if c then x else y) := by
  split
  · exact hx
  · exact hy

theorem Quiet.tryCatch {handler : Fault → Program α} (hx : Quiet careful x)
    (hh : ∀ e, Quiet careful (handler e)) : Quiet careful (MonadExcept.tryCatch x handler) :=
  SoundE.tryCatch hx hh

theorem Quiet.forM {γ : Type} {f : γ → Program PUnit} (l : List γ)
    (h : ∀ a ∈ l, Quiet careful (f a)) : Quiet careful (l.forM f) := by
  refine SoundE.forM (I := fun _ _ => True) l ?_
  rintro front a back rfl
  exact h a (by simp)

/-- A stable assertion survives a quiet function. -/
theorem Spec.frame {P F : Store → Prop} (h : Spec careful x P Q) (hF : (rules careful).Stable F) :
    Spec careful x (fun s => P s ∧ F s) fun a s => Q a s ∧ F s :=
  (SoundE.frame h hF).onError fun _ _ _ _ => trivial

theorem Quiet.keeps {F : Store → Prop} (h : Quiet careful x)
    (hF : (rules careful).Stable F) : Spec careful x F fun _ => F :=
  ((Spec.frame h hF).pre fun _ _ hp => ⟨trivial, hp⟩).post fun _ _ _ hq => hq.2

theorem ensure_spec {c : Bool} : Spec careful (ensure c message) P fun _ s => c = true ∧ P s := by
  unfold ensure
  split
  · next h => exact .pure fun _ _ hp => ⟨h, hp⟩
  · exact .throw fun _ _ _ => trivial

theorem ensure_quiet {c : Bool} : Quiet careful (ensure c message) :=
  ensure_spec.quiet

theorem field_spec {value : Option α} :
    Spec careful (field value) P fun a s => value = some a ∧ P s := by
  cases value with
  | none => exact .throw fun _ _ _ => trivial
  | some a => exact .pure fun _ _ hp => ⟨rfl, hp⟩

theorem field_quiet {value : Option α} : Quiet careful (field value) := field_spec.quiet

theorem awaited_spec (hx : Spec careful x P Q) (hQ : ∀ a, (rules careful).Stable (Q a)) :
    Spec careful (awaited x) P Q := by
  refine .bind hx fun a => ?_
  refine .bind (onProcess_quiet.keeps (hQ a)) fun _ => ?_
  exact .pure fun _ _ h => h

theorem Quiet.awaited (hx : Quiet careful x) : Quiet careful (awaited x) :=
  awaited_spec hx fun _ => stable_true _

theorem pause_quiet : Quiet careful pause := onProcess_quiet

theorem assertScope_quiet : Quiet careful (assertScope message) :=
  onProcess_quiet

/-! ## `send` and `mutate` -/

variable (entry : LogEntry)

/-- The entry of an id is done with this receipt; it is an answer of the server unless the
entry was done when `send` was called. -/
def Sent (response : Data) (s : Store) : Prop :=
  ∃ e, s.journal.get entry.id = some e ∧ e.state = .done ∧ e.response = some response ∧
    e.request = entry.request ∧ (entry.state = .done ∨ ∃ r, response = .reply r)

theorem stable_sent (response : Data) : (rules careful).Stable (Sent entry response) := by
  refine stable_of_later ?_
  rintro s s' hl ⟨e, he, hst, hrest⟩
  exact ⟨e, hl.1.done he hst, hst, hrest⟩

/-- The acknowledgement of a sent entry completes it. -/
private theorem complete_sent (r : Reply) : Spec careful (complete entry.id (.reply r))
      (fun s => (entry.route, some entry.request) ∈ s.acked ∧ Present entry s)
      fun _ => Sent entry (.reply r) := by
  refine (complete_spec ?_).post ?_
  · rintro s - ⟨hack, e', he', hf⟩ e he -
    obtain rfl : e' = e := by rw [he'] at he; exact Option.some.inj he
    exact .inl ⟨by simpa only [Acked, hf.2.2.2.1, hf.2.2.2.2.1] using hack, r, rfl⟩
  · rintro - s' - ⟨s, old, ⟨-, e', he', hf⟩, -, hold, -, hget⟩
    obtain rfl : e' = old := by rw [he'] at hold; exact Option.some.inj hold
    exact ⟨_, hget, rfl, rfl, hf.2.2.2.2.1, .inr ⟨r, rfl⟩⟩

/-- **`send`**: when it returns, the entry is durably done with what it returned. -/
theorem send_spec : Spec careful (send entry) (Present entry) (Sent entry) := by
  have hst : (rules careful).Stable (Present entry) := stable_present entry
  refine .bind (assertScope_quiet.keeps hst) fun _ => ?_
  split
  · next hdone =>
    refine field_spec.post ?_
    rintro response s - ⟨hresp, e, he, hf⟩
    rw [hf.done hdone] at he
    exact ⟨entry, he, hdone, hresp, rfl, .inl hdone⟩
  · refine .bind (ensure_quiet.keeps hst) fun _ => ?_
    refine .bind (uncertain_quiet.keeps hst) fun _ => ?_
    refine .bind (request_spec hst) fun response => ?_
    refine .bind (complete_sent entry response) fun _ => ?_
    refine .bind (assertScope_quiet.keeps (stable_sent entry _)) fun _ => ?_
    exact .pure fun _ _ h => h

/-- The id is durably done with this request and this receipt. -/
def Answered (id : Key) (body response : Data) (s : Store) : Prop :=
  ∃ e, s.journal.get id = some e ∧ e.state = .done ∧ e.response = some response ∧
    e.request = body

theorem stable_answered (id : Key) (body response : Data) :
    (rules careful).Stable (Answered id body response) := by
  refine stable_of_later ?_
  rintro s s' hl ⟨e, he, hst, hrest⟩
  exact ⟨e, hl.1.done he hst, hst, hrest⟩

/-- The entry `prepare` returns is present. -/
theorem Prepared.present (h : Prepared s s' kind id route body e) : Present e s' :=
  ⟨e, h.id_eq ▸ h.get, .refl e⟩

/-- **`mutate`**: when it returns, the id is durably done with the request it was called
with and the receipt it returned. -/
theorem mutate_spec (hnew : ∀ s, (rules careful).inv s → P s →
      Good s (newEntry kind id route body dev.scope)) :
    Spec careful (mutate dev kind id route body) P (Answered id body) := by
  refine .bind ((prepare_spec hnew).post
    (T := fun e s => (e.id = id ∧ e.request = body) ∧ Present e s) ?_) fun e => ?_
  · rintro e s' - ⟨s, -, h⟩
    exact ⟨⟨h.id_eq, h.request_eq⟩, h.present⟩
  · refine .ofPure ?_
    rintro ⟨rfl, rfl⟩
    refine (send_spec e).post ?_
    rintro response s - ⟨e', he', hst, hresp, hreq, -⟩
    exact ⟨e', he', hst, hresp, hreq⟩

/-- The ids whose entries owe nothing but their kind: no stop evidence, authority or effect,
and no id of a foreign part under a kind of the modelled ones. -/
def Key.plain : Key → Bool
  | .stop .. | .stopAt .. | .authority _ | .effect _ => false
  | .other kind _ => kind ∉ coordinatorKinds
  | _ => true

/-- The ids whose entries may be of the kind of stop evidence. -/
def Key.stopLike : Key → Bool
  | .stop .. | .stopAt .. => true
  | .other kind _ => kind = "stop"
  | _ => false

theorem Key.stopLike_of_kind (h : id.kind = "stop") : id.stopLike = true := by
  cases id <;> simp_all [stopLike, Key.kind]

theorem Key.stopLike_of_plain (h : id.plain = true) : id.stopLike = false := by
  cases id with
  | other kind text =>
    have hne : kind ≠ "stop" := by
      rintro rfl
      simp [plain, coordinatorKinds] at h
    simpa [stopLike] using hne
  | _ => simp_all [plain, stopLike]

theorem Key.plain_kind (h : id.plain = true) : id.kind ≠ "stop" := by
  intro hk
  exact absurd (stopLike_of_kind hk) (by simp [stopLike_of_plain h])

theorem good_plain (s : Store) {kind : String}
    (hk : kind = id.kind) (hp : id.plain = true) :
    Good s (newEntry kind id route body scope) where
  kind := hk
  stop h := absurd (hk ▸ h) (plain_kind hp)
  stopDone h := absurd (hk ▸ h) (plain_kind hp)
  authority op h := by
    obtain rfl : id = .authority op := h
    simp [plain] at hp
  effect op h := by
    obtain rfl : id = .effect op := h
    simp [plain] at hp
  foreign kind' text h := by
    obtain rfl : id = .other kind' text := h
    simpa [plain] using hp

theorem mutate_quiet (hk : kind = id.kind)
    (hp : id.plain = true) : Quiet careful (mutate dev kind id route body) :=
  (mutate_spec fun s _ _ => good_plain s hk hp).quiet

theorem prepare_quiet (hk : kind = id.kind)
    (hp : id.plain = true) : Quiet careful (prepare dev kind id route body) :=
  (prepare_spec fun s _ _ => good_plain s hk hp).quiet

/-- Completing an entry that is no stop entry. -/
theorem complete_quiet (hp : id.stopLike = false) : Quiet careful (complete id response) := by
  refine (complete_spec ?_).quiet
  intro s hs _ e he hkind
  rw [(hs id e he).kind, get_id he] at hkind
  exact absurd (stopLike_of_kind hkind) (by simp [hp])

/-- A loop that resends entries of one snapshot of the journal. -/
theorem resend_quiet {f : Log → List LogEntry} {g : LogEntry → Program PUnit}
    (hf : ∀ j e, e ∈ f j → e ∈ j.entries)
    (hg : ∀ e, Spec careful (g e) (Present e) fun _ _ => True) :
    Quiet careful (do let entries ← query .step f; entries.forM g) := by
  refine SoundE.bind ((query_spec f).post
    (T := fun entries s => ∀ e ∈ entries, Present e s) ?_) fun entries => ?_
  · rintro entries s - ⟨rfl, -⟩ e he
    exact ⟨e, get_eq_some.mpr ⟨hf _ e he, rfl⟩, .refl e⟩
  · have hst : (rules careful).Stable fun s => ∀ e ∈ entries, Present e s :=
      fun s s' hs hs' hl h e he => stable_present e s s' hs hs' hl (h e he)
    refine (SoundE.forM (I := fun _ s => ∀ e ∈ entries, Present e s) entries ?_).post ?_
    · rintro front e back rfl
      refine ((Spec.frame (hg e) hst).pre fun s _ h => ⟨h e (by simp), h⟩).post ?_
      exact fun _ _ _ h => h.2
    · exact fun _ _ _ _ => trivial

theorem mem_of_list {j : Log} {kind : String} (h : e ∈ j.list kind) :
    e ∈ j.entries := mem_of_mem_filter h

theorem flush_quiet : Quiet careful flush := by
  refine resend_quiet (fun _ _ h => h) fun e => ?_
  split
  · refine .bind (awaited_spec (send_spec e) (stable_sent e)) fun _ => ?_
    exact .pure fun _ _ _ => trivial
  · exact .pure fun _ _ _ => trivial

/-! ## Sessions -/

theorem lease_spec (h : Handle) : Spec careful (lease h) (fun _ => True)
    fun l _ => l.toLeaseIdentity = h.descriptor.toLeaseIdentity := by
  refine .bind assertScope_quiet fun _ => ?_
  refine (onProcess_sync (P := fun _ => True) (fun _ _ _ _ h => h) ?_).post fun _ _ _ h => h.1
  intro input p l p' hact
  split at hact
  · simp at hact
  · simp at hact
  · split at hact
    · simp at hact
    · cases hact
      rfl

theorem lease_quiet (h : Handle) : Quiet careful (lease h) := (lease_spec h).quiet

theorem newEvent_spec {d : Descriptor} {body : EventBody} : Spec careful (newEvent dev d body) P
      fun event s => (event.toLeaseIdentity = d.toLeaseIdentity ∧ event.body = body) ∧ P s := by
  refine observe_spec (fun _ => trivial) ?_ ?_
  · intro input s a s' h
    dsimp only at h
    split at h
    · cases h; rfl
    · simp at h
  · intro input s event _ hp _ h
    dsimp only at h
    split at h
    · cases h
      exact ⟨⟨rfl, rfl⟩, hp⟩
    · simp at h

section

variable (h : Handle)

include h

theorem takeReceipts_quiet (response : Data) : Quiet careful (takeReceipts h response) :=
  field_quiet.bind fun versions => .forM versions fun _ _ => onProcess_quiet

theorem replayEvents_quiet : Quiet careful (replayEvents h) := by
  refine (lease_quiet h).bind fun _ => ?_
  refine resend_quiet (fun _ _ he => mem_of_list he) fun e => ?_
  split
  · refine .bind ((lease_quiet h).keeps (stable_present e)) fun _ => ?_
    refine .bind ((awaited_spec (send_spec e) (stable_sent e)).post
      fun _ _ _ _ => trivial) fun response => ?_
    exact (lease_quiet h).bind fun _ => takeReceipts_quiet h response
  · exact .pure fun _ _ _ => trivial

theorem refreshVersion_quiet : Quiet careful (refreshVersion h) := by
  refine request_quiet.bind fun response => field_quiet.bind fun controls => ?_
  split
  · exact .throw _
  · exact ensure_quiet.bind fun _ => (lease_quiet h).bind fun _ => onProcess_quiet

/-- `serial` hands on what is stable of the action's result. -/
theorem serial_spec {action : Program α}
    (hx : Spec careful action (fun _ => True) Q) (hQ : ∀ a, (rules careful).Stable (Q a)) :
    Spec careful (serial h action) (fun _ => True) Q := by
  refine .bind pause_quiet fun _ => .bind (lease_quiet h) fun _ => ?_
  refine .bind (replayEvents_quiet h).awaited fun _ => ?_
  refine .bind (refreshVersion_quiet h).awaited fun _ => ?_
  refine .bind (awaited_spec hx hQ) fun a => ?_
  refine .bind ((lease_quiet h).keeps (hQ a)) fun _ => ?_
  exact .pure fun _ _ hq => hq

theorem serial_quiet {action : Program α} (hx : Quiet careful action) :
    Quiet careful (serial h action) := serial_spec h hx fun _ => stable_true _

theorem enqueue_quiet (body : EventBody) : Quiet careful (enqueue dev h body) := by
  refine pause_quiet.bind fun _ => (lease_quiet h).bind fun _ => ?_
  refine (replayEvents_quiet h).awaited.bind fun _ => ?_
  refine (refreshVersion_quiet h).awaited.bind fun _ => (lease_quiet h).bind fun current => ?_
  refine newEvent_spec.quiet.bind fun event => ?_
  refine (mutate_quiet rfl rfl).awaited.bind fun response => ?_
  exact (lease_quiet h).bind fun _ => takeReceipts_quiet h response

/-! ## Operations -/

theorem assertLease_spec (given : LeaseIdentity) :
    Spec careful (assertLease h given) (fun _ => True)
      fun _ _ => h.descriptor.toLeaseIdentity = given := by
  refine .bind (lease_spec h) fun current => ?_
  refine .post ensure_spec ?_
  rintro _ s - ⟨heq, hcur⟩
  exact hcur ▸ of_decide_eq_true heq

theorem assertLease_quiet (given : LeaseIdentity) :
    Quiet careful (assertLease h given) := (assertLease_spec h given).quiet

theorem propose_quiet (given : LeaseIdentity) (id : Uuid) (args : Arguments)
    (treeHash : Option String) (diffArtifactId : Option Uuid) :
    Quiet careful (propose dev h given id args treeHash diffArtifactId) := by
  refine (assertLease_quiet h given).bind fun _ => ?_
  refine (serial_quiet h ((lease_quiet h).bind fun _ => mutate_quiet rfl rfl)).awaited.bind ?_
  exact fun _ => field_quiet.bind fun _ => (assertLease_quiet h given).bind fun _ => .pure _

theorem execute_quiet (given : LeaseIdentity) (proposal : Operation) :
    Quiet careful (execute dev h given proposal) := by
  refine (assertLease_quiet h given).bind fun _ => ?_
  refine (serial_quiet h ((lease_quiet h).bind fun _ => mutate_quiet rfl rfl)).awaited.bind ?_
  exact fun _ => (assertLease_quiet h given).bind fun _ => field_quiet

end

/-- The consume entry of a proposal is answered, under a lease with these keys. -/
def ConsumeAnswered (lease : LeaseIdentity) (proposal : Operation) (response : Data)
    (s : Store) : Prop :=
  ∃ current : Lease, current.toLeaseIdentity = lease ∧
    Answered (.consume proposal.operationId) (.consume current proposal.operationId
      proposal.version proposal.operationHash proposal.nonce) response s

theorem stable_consumeAnswered (lease : LeaseIdentity) (proposal : Operation)
    (response : Data) : (rules careful).Stable (ConsumeAnswered lease proposal response) := by
  rintro s s' hs hs' hl ⟨current, hcur, ha⟩
  exact ⟨current, hcur, stable_answered _ _ _ s s' hs hs' hl ha⟩

variable {operation : Operation}

theorem consumed_of_answered {lease : LeaseIdentity} {proposal : Operation} (h : ConsumeAnswered lease proposal response s)
    (hop : response.asReply.bind Reply.operation = some operation)
    (hok : consumed proposal operation = true) :
    Consumed s proposal.operationId lease operation := by
  obtain ⟨current, hcur, e, he, hst, hresp, hreq⟩ := h
  cases response with
  | reply r =>
    simp only [consumed, Bool.and_eq_true, decide_eq_true_eq] at hok
    exact ⟨e, current, _, _, _, r, he, hst, hreq, hcur, hresp, hop, hok.1.1.1, hok.1.1.2,
      hok.1.2, hok.2⟩
  | _ => simp [Data.asReply] at hop

theorem consume_quiet (h : Handle) (given : Lease) (proposal : Operation) :
    Quiet careful (consume dev h given proposal) := by
  refine .bindWith (assertLease_spec h given.toLeaseIdentity) fun _ hlease => ?_
  have hserial : Spec careful (serial h (do
      let current ← lease h
      mutate dev "consume" (.consume proposal.operationId) "/runner/operations/consume"
        (.consume current proposal.operationId proposal.version proposal.operationHash
          proposal.nonce))) (fun _ => True)
      (ConsumeAnswered given.toLeaseIdentity proposal) := by
    refine serial_spec h (.bind (lease_spec h) fun current => ?_)
      (stable_consumeAnswered _ _)
    refine (SoundE.ofPure fun hcur => ?_).pre fun _ _ hc => ⟨hc, trivial⟩
    refine (mutate_spec fun s _ _ => good_plain s rfl rfl).post ?_
    exact fun response s _ ha => ⟨current, hcur.trans hlease, ha⟩
  refine SoundE.bind (awaited_spec hserial (stable_consumeAnswered _ _)) fun response => ?_
  refine SoundE.bind ((assertLease_quiet h _).keeps (stable_consumeAnswered _ _ _)) fun _ => ?_
  refine .bind field_spec fun operation => ?_
  refine SoundE.bind ensure_spec fun _ => ?_
  refine SoundE.bind (Spec.quiet (prepare_spec ?_)) fun _ => Quiet.pure _
  rintro s - ⟨hok, hop, ha⟩
  have hkind : "authority" ≠ "stop" := by decide
  refine ⟨rfl, fun hk => absurd hk hkind, fun hk => absurd hk hkind, ?_, nofun, nofun⟩
  rintro op ⟨rfl⟩
  exact ⟨given, operation, rfl, consumed_of_answered ha hop hok⟩

/-- An authority entry is backed by its consume entry, and backs an effect entry. -/
theorem consumed_of_authority {op : Uuid} {entry : LogEntry}
    {given : Lease} (hs : (rules careful).inv s)
    (hget : s.journal.get (.authority op) = some entry)
    (hof : authorityOf entry = some (given, operation)) :
    Consumed s op given.toLeaseIdentity operation ∧ Authorised s op operation := by
  obtain ⟨given', operation', hreq, hc⟩ := (hs _ _ hget).authority op (get_id hget)
  simp only [authorityOf, hreq, Option.some.injEq, Prod.mk.injEq] at hof
  obtain ⟨rfl, rfl⟩ := hof
  refine ⟨hc, ?_, entry, given', hget, hreq⟩
  obtain ⟨_, _, _, _, _, _, -, -, -, -, -, -, hid, -⟩ := hc
  exact hid

theorem good_effect {op : Uuid}
    (ha : Authorised s op operation) :
    Good s (newEntry "effect" (.effect op) route (.effect operation) scope) := by
  have hkind : "effect" ≠ "stop" := by decide
  refine ⟨rfl, fun hk => absurd hk hkind, fun hk => absurd hk hkind, nofun, ?_, nofun⟩
  rintro op' ⟨rfl⟩
  exact ⟨operation, rfl, ha⟩

/-- The two durable writes of `beginEffect`, in one synchronous section. -/
private theorem beginEffect_marks (op : Uuid) (current : LeaseIdentity)
    {P : Store → Prop}
    (hP : ∀ s, P s → Consumed s op current operation ∧ Authorised s op operation) :
    Spec careful (do
      let effect ← prepare dev "effect" (.effect op) "local" (.effect operation)
      ensure (effect.state = .prepared) "Effect already started or uncertain"
      uncertain (.begun op current) effect.id
      pure operation) P fun _ _ => True := by
  refine .bind ((prepare_spec fun s _ hp => good_effect (hP s hp).2).post
    (T := fun e s => s.journal.get (.effect op) = some e ∧ Consumed s op current operation) ?_)
    fun effect => ?_
  · rintro e s' - ⟨s, hp, hprep⟩
    exact ⟨hprep.get, hprep.later.consumed (hP s hp).1⟩
  · refine .bind ensure_spec fun _ => ?_
    refine .bind (uncertain_spec (Q := fun _ => True) ?_ fun _ _ _ => trivial) fun _ =>
      Quiet.pure _
    rintro s - ⟨hprep, hget, hc⟩
    have hid : effect.id = .effect op := get_id hget
    have hst : effect.state = .prepared := of_decide_eq_true hprep
    refine ⟨⟨effect, hget, hst⟩, ⟨{ effect with state := .uncertain }, ?_, rfl⟩, operation, hc⟩
    rw [get_uncertain, hget]
    simp [hst, hid]

/-- **`beginEffect`**: its last step finds the effect prepared and the consume
acknowledgement stored. -/
theorem beginEffect_quiet (h : Handle) (op : Uuid) : Quiet careful (beginEffect dev h op) := by
  refine (lease_quiet h).bind fun current => ?_
  refine SoundE.bind (query_spec _) fun authority => ?_
  cases authority with
  | none => exact .throw fun _ _ _ => trivial
  | some entry =>
    refine .pre (P := fun s => ∀ given operation,
      authorityOf entry = some (given, operation) →
        Consumed s op given.toLeaseIdentity operation ∧ Authorised s op operation) ?_ ?_
    · refine .bind field_spec fun pair => ?_
      obtain ⟨given, operation⟩ := pair
      refine .bind ensure_spec fun _ => beginEffect_marks op _ ?_
      rintro s ⟨heq, hof, hc⟩
      exact of_decide_eq_true heq ▸ hc given operation hof
    · rintro s hs ⟨hget, -⟩ given operation hof
      exact consumed_of_authority hs hget.symm hof
theorem finishEffect_quiet (h : Handle) (op : Uuid) (receipt : String) :
    Quiet careful (finishEffect h op receipt) := by
  refine (query_quiet _).bind fun authority => ?_
  split
  · exact .throw _
  · exact ensure_quiet.bind fun _ => complete_quiet rfl

theorem remoteReceipt_quiet (h : Handle) (given : Lease) (receipt : RemoteReceipt) :
    Quiet careful (remoteReceipt dev h given receipt) := by
  refine (assertLease_quiet h _).bind fun _ => ?_
  refine (mutate_quiet rfl rfl).awaited.bind fun _ => ?_
  exact (assertLease_quiet h _).bind fun _ => .pure _

theorem operationRecovery_quiet (attemptId : Uuid) :
    Quiet careful (operationRecovery dev attemptId) := by
  refine assertScope_quiet.bind fun _ => (query_quiet _).bind fun attempt => ?_
  split
  · exact ensure_quiet.bind fun _ => .pure _
  · exact .throw _

theorem submit_quiet (identity : Lease) (receipt : OwnerReceipt) :
    Quiet careful (submit dev identity receipt) := by
  refine assertScope_quiet.bind fun _ => (query_quiet _).bind fun consume => ?_
  split
  · exact .throw _
  refine ensure_quiet.bind fun _ => ensure_quiet.bind fun _ => ?_
  refine (query_quiet _).bind fun previous => ensure_quiet.bind fun _ => ?_
  refine .bindWith (V := fun e => e.id = .operationResolution receipt.operationId)
    ((prepare_spec fun s _ _ => good_plain s rfl rfl).post ?_) fun resolution hid => ?_
  · rintro e s' - ⟨s, -, h⟩
    exact h.id_eq
  have hroute : Quiet careful (mutate dev (receiptRoute receipt).2.1 (receiptRoute receipt).1
      (receiptRoute receipt).2.2
      ((previous.map Entry.request).getD (.receipt identity receipt))) := by
    cases receipt <;> exact mutate_quiet rfl rfl
  refine hroute.awaited.bind fun response => assertScope_quiet.bind fun _ => ?_
  refine field_quiet.bind fun operation => ensure_quiet.bind fun _ => ?_
  refine (complete_quiet (by rw [hid]; rfl)).bind fun _ => (query_quiet _).bind fun effect => ?_
  split
  · exact (complete_quiet rfl).bind fun _ => .pure _
  · exact .pure _

/-! ## Stop evidence -/

/-- What `supersede` leaves: the entry of the returned id, and why that id is the one to
report.  An entry that is done already stands for a reported lease, if the caller is
`recover` in a careful run. -/
def StopTarget (careful : Prop) (d : LeaseIdentity) (cursor : Option ℕ) (id : Key)
    (found : Option LogEntry) (s : Store) : Prop :=
  (id = .stop d.attemptId d.leaseEpoch ∧
      (careful → cursor.isSome → ∀ e, found = some e → e.state = .done → Reported s d)) ∨
    ∃ q, id = .stopAt d.attemptId d.leaseEpoch q ∧ Superseded s d.attemptId d.leaseEpoch q

theorem Later.stopTarget (h : Later s s')
    (ht : StopTarget careful d cursor id found s) : StopTarget careful d cursor id found s' := by
  rcases ht with ⟨hid, hdone⟩ | ⟨q, hid, hs⟩
  · exact .inl ⟨hid, fun hc hsome e he hst => h.reported (hdone hc hsome e he hst)⟩
  · exact .inr ⟨q, hid, h.superseded hs⟩

/-- A done stop entry that is not orphaned stands for a reported lease. -/
theorem reported_of_done
    (hget : s.journal.get (.stop d.attemptId d.leaseEpoch) = some e) (hst : e.state = .done)
    (h : ¬ Orphaned s d) : Reported s d := by
  refine ⟨e, hget, hst, fun next c hresp => ?_⟩
  by_contra hnext
  exact h ⟨e, next, c, hget, hst, hresp, hnext⟩

theorem supersede_spec (d : Descriptor) (cursor : Option ℕ) :
    Spec careful (supersede d cursor) (fun _ => True) fun r s =>
      s.journal.get r.1 = r.2 ∧ StopTarget careful d.toLeaseIdentity cursor r.1 r.2 s := by
  have hcheck : Spec careful
      (query (.checkStop d.toLeaseIdentity cursor) (·.get (.stop d.attemptId d.leaseEpoch)))
      (fun _ => True) fun found s => s.journal.get (.stop d.attemptId d.leaseEpoch) = found ∧
        (careful → cursor.isSome → ¬ Orphaned s d.toLeaseIdentity) := by
    refine observe_spec (fun _ => trivial) (fun _ _ _ _ h => by cases h; rfl) ?_
    rintro input s found - - hc ⟨⟩
    cases cursor with
    | none => exact ⟨rfl, fun _ h => by simp at h⟩
    | some c => exact ⟨rfl, fun hcare _ => hc hcare⟩
  refine .bind hcheck fun found => ?_
  have hkeep : Spec careful (Pure.pure (Key.stop d.attemptId d.leaseEpoch, found))
      (fun s => s.journal.get (.stop d.attemptId d.leaseEpoch) = found ∧
        (careful → cursor.isSome → ¬ Orphaned s d.toLeaseIdentity)) fun r s =>
      s.journal.get r.1 = r.2 ∧ StopTarget careful d.toLeaseIdentity cursor r.1 r.2 s := by
    refine .pure ?_
    rintro s - ⟨hget, horph⟩
    refine ⟨hget, .inl ⟨rfl, ?_⟩⟩
    rintro hc hsome e rfl hst
    exact reported_of_done hget hst (horph hc hsome)
  split
  · next old c =>
    split
    · refine .bind (complete_spec ?_) fun _ => ?_
      · rintro s - - e - -
        exact .inr ⟨d.attemptId, d.leaseEpoch, c + 1, c, rfl, rfl⟩
      · refine .bind (query_spec _) fun next => .pure ?_
        rintro s - ⟨rfl, _, old', -, -, -, -, hget⟩
        exact ⟨rfl, .inr ⟨c + 1, rfl, _, c, hget, rfl, rfl⟩⟩
    · exact hkeep
  · exact hkeep

theorem stopEvent_spec {d : Descriptor} : Spec careful (stopEvent dev d cursor) P fun event s =>
      ((event.attemptId = d.attemptId ∧ event.leaseEpoch = d.leaseEpoch) ∧
        event.body = .attemptStopped stopPayload) ∧ P s := by
  refine .bind newEvent_spec fun event => ?_
  split
  · refine .pure ?_
    rintro s - ⟨⟨hid, hbody⟩, hp⟩
    exact ⟨⟨⟨congrArg (·.attemptId) hid, congrArg (·.leaseEpoch) hid⟩, hbody⟩, hp⟩
  · refine .pure ?_
    rintro s - ⟨⟨hid, hbody⟩, hp⟩
    exact ⟨⟨⟨congrArg (·.attemptId) hid, congrArg (·.leaseEpoch) hid⟩, hbody⟩, hp⟩

/-- A stop event may be stored under the id that `supersede` chose. -/
theorem good_stop {event : RunnerEvent}
    (ht : StopTarget careful d cursor id found s) (ha : event.attemptId = d.attemptId)
    (hn : event.leaseEpoch = d.leaseEpoch) (hbody : event.body = .attemptStopped stopPayload) :
    Good s (newEntry "stop" id "/runner/stop-evidence" (.stopEvidence event) scope) where
  kind := by
    rcases ht with ⟨rfl, -⟩ | ⟨q, rfl, -⟩ <;> rfl
  stop _ := by
    refine ⟨event, rfl, rfl, hbody, ?_⟩
    rw [ha, hn]
    rcases ht with ⟨rfl, -⟩ | ⟨q, rfl, hs⟩
    · exact .inl rfl
    · exact .inr ⟨q, rfl, hs⟩
  stopDone _ h := by simp [newEntry] at h
  authority op h := by
    rcases ht with ⟨rfl, -⟩ | ⟨q, rfl, -⟩ <;> cases h
  effect op h := by
    rcases ht with ⟨rfl, -⟩ | ⟨q, rfl, -⟩ <;> cases h
  foreign kind text h := by
    rcases ht with ⟨rfl, -⟩ | ⟨q, rfl, -⟩ <;> cases h

/-- The entry `stopped` reports is the one in the journal, or a new one. -/
theorem stopEntry_spec {d : Descriptor} : Spec careful (stopEntry dev d cursor id found)
      (fun s => s.journal.get id = found ∧
        StopTarget careful d.toLeaseIdentity cursor id found s) fun entry s =>
      s.journal.get id = some entry ∧
        StopTarget careful d.toLeaseIdentity cursor id (some entry) s := by
  cases found with
  | some entry => exact .pure fun _ _ h => h
  | none =>
    refine .bind stopEvent_spec fun event => .ofPure ?_
    rintro ⟨⟨ha, hn⟩, hbody⟩
    refine (prepare_spec fun s _ h => good_stop h.2 ha hn hbody).post ?_
    rintro entry s' - ⟨s, ⟨hnone, ht⟩, hprep⟩
    refine ⟨hprep.get, ?_⟩
    rcases hprep.later.stopTarget ht with ⟨hid, -⟩ | hs
    · refine .inl ⟨hid, ?_⟩
      rintro - - e ⟨rfl⟩ hst
      rcases hprep.old with hold | ⟨-, hprepared⟩
      · rw [hnone] at hold
        simp at hold
      · rw [hprepared] at hst
        simp at hst
    · exact .inr hs

/-- A stop entry that was sent stands for a reported lease. -/
theorem reported_of_sent {entry : LogEntry} (hs : Sent entry response s)
    (ht : StopTarget careful d cursor entry.id (some entry) s) (hc : careful)
    (hsome : cursor.isSome) : Reported s d := by
  obtain ⟨e, hget, hst, hresp, -, horigin⟩ := hs
  rcases ht with ⟨hid, hdone⟩ | ⟨q, hid, b, c, hb, hbst, hbresp⟩
  · rcases horigin with hold | ⟨r, rfl⟩
    · exact hdone hc hsome entry rfl hold
    · refine ⟨e, hid ▸ hget, hst, fun next c hnext => ?_⟩
      rw [hresp] at hnext
      simp at hnext
  · refine ⟨b, hb, hbst, fun next c' hnext => ?_⟩
    rw [hbresp] at hnext
    obtain ⟨rfl, -⟩ : stopAt d.attemptId d.leaseEpoch q = next ∧ c = c' := by
      simpa using hnext
    exact ⟨e, hid ▸ hget, hst⟩

/-- **`stopped`**: in a careful run, the lease that `recover` passes in is reported when it
returns. -/
theorem stopped_spec (d : Descriptor) (cursor : Option ℕ) :
    Spec careful (stopped dev d cursor) (fun _ => True)
      fun _ s => careful → cursor.isSome → Reported s d.toLeaseIdentity := by
  have hrep : (rules careful).Stable fun s =>
      careful → cursor.isSome → Reported s d.toLeaseIdentity :=
    stable_of_later fun _ _ hl h hc hsome => hl.reported (h hc hsome)
  refine .bind assertScope_quiet fun _ => .bind (supersede_spec d cursor) ?_
  rintro ⟨id, found⟩
  refine .bind stopEntry_spec fun entry => ?_
  refine .bind (Q := fun _ s => careful → cursor.isSome → Reported s d.toLeaseIdentity)
    (awaited_spec ?_ fun _ => hrep) fun _ => assertScope_quiet.keeps hrep
  refine .bind ((prepare_spec ?_).post (T := fun e s => e.id = id ∧ Present e s ∧
    StopTarget careful d.toLeaseIdentity cursor id (some e) s) ?_) fun e => ?_
  · -- the entry's own request is stored again
    rintro s hs ⟨hget, ht⟩
    have hg := hs id entry hget
    have hkind : entry.kind = "stop" := by
      rw [hg.kind, get_id hget]
      rcases ht with ⟨rfl, -⟩ | ⟨q, rfl, -⟩ <;> rfl
    obtain ⟨event, hreq, -, hbody, hid⟩ := hg.stop hkind
    rw [hreq]
    rw [get_id hget] at hid
    have hlease : event.attemptId = d.attemptId ∧ event.leaseEpoch = d.leaseEpoch := by
      rcases ht with ⟨rfl, -⟩ | ⟨q, rfl, -⟩ <;> rcases hid with hid | ⟨q', hid, -⟩
      · exact ⟨(Key.stop.inj hid).1.symm, (Key.stop.inj hid).2.symm⟩
      · cases hid
      · cases hid
      · exact ⟨(stopAt.inj hid).1.symm, (stopAt.inj hid).2.1.symm⟩
    exact good_stop ht hlease.1 hlease.2 hbody
  · rintro e s' - ⟨s, ⟨hget, ht⟩, hprep⟩
    refine ⟨hprep.id_eq, hprep.present, hprep.later.stopTarget ?_⟩
    rcases hprep.old with hold | ⟨hnone, -⟩
    · rw [hget] at hold
      exact Option.some.inj hold ▸ ht
    · rw [hget] at hnone
      simp at hnone
  · refine .ofPure ?_
    rintro rfl
    have ht : (rules careful).Stable
        (StopTarget careful d.toLeaseIdentity cursor e.id (some e)) :=
      stable_of_later fun _ _ hl h => hl.stopTarget h
    refine (Spec.frame (send_spec e) ht).post ?_
    exact fun response s _ h hc hsome => reported_of_sent h.1 h.2 hc hsome

theorem stopped_quiet (d : Descriptor) (cursor : Option ℕ) :
    Quiet careful (stopped dev d cursor) := (stopped_spec d cursor).quiet

/-! ## The coordinator -/

theorem contain_quiet : Quiet careful contain := by
  refine onProcess_quiet.bind fun _ => onProcess_quiet.bind fun active => ?_
  have hloop : ∀ processes : List Uuid, Quiet careful (processes.forM fun attemptId =>
      if active.any (·.descriptor.attemptId = attemptId) then Pure.pure () else confirmStop) :=
    fun processes => .forM processes fun _ _ => .ite (.pure _) onProcess_quiet
  cases active with
  | some h => exact onProcess_quiet.bind fun _ => onProcess_quiet.bind hloop
  | none => exact onProcess_quiet.bind hloop

theorem endSession_quiet (h : Handle) : Quiet careful (endSession dev h) := by
  refine (Quiet.tryCatch onProcess_quiet fun _ => onProcess_quiet.bind fun _ => .throw _).bind ?_
  intro _
  exact .tryCatch (stopped_quiet _ _).awaited fun _ => onProcess_quiet.bind fun _ => .throw _

theorem stopSession_quiet (h : Handle) : Quiet careful (stopSession dev h) := by
  refine onProcess_quiet.bind fun valid => ?_
  split
  · refine onProcess_quiet.bind fun promise => ?_
    refine (Quiet.tryCatch (endSession_quiet h) fun _ => ?_).bind fun _ => onProcess_quiet
    exact onProcess_quiet.bind fun _ => .throw _
  · exact pause_quiet

theorem stopActive_quiet : Quiet careful (stopActive dev) := by
  refine onProcess_quiet.bind fun active => ?_
  split
  · exact onProcess_quiet.bind fun h => stopSession_quiet h
  · exact pause_quiet

theorem runtimeTerminated_quiet (h : Handle) : Quiet careful (runtimeTerminated dev h) := by
  refine onProcess_quiet.bind fun live => ?_
  split
  · refine onProcess_quiet.bind fun promise => pause_quiet.bind fun _ => ?_
    exact (Quiet.tryCatch (stopped_quiet _ _) fun _ => onProcess_quiet).bind fun _ =>
      onProcess_quiet
  · exact .pure _

theorem watchdog_quiet (h : Handle) : Quiet careful (watchdog dev h) :=
  .tryCatch (stopSession_quiet h) fun _ => onProcess_quiet

theorem validated_spec (d : Descriptor) :
    Spec careful (validated dev d) (fun _ => True) fun d' _ => d' = d := by
  exact .bind ensure_quiet fun _ => .pure fun _ _ _ => rfl

theorem replayClaims_quiet : Quiet careful replayClaims := by
  refine resend_quiet (fun _ _ he => mem_of_list he) fun e => ?_
  split
  · refine .bind ((awaited_spec (send_spec e) (stable_sent e)).post
      fun _ _ _ _ => trivial) fun _ => assertScope_quiet
  · exact .pure fun _ _ _ => trivial

variable (leases : List LeaseReport)

theorem replayStops_quiet : Quiet careful (replayStops leases) := by
  refine resend_quiet (fun _ _ he => mem_of_list he) fun e => ?_
  split
  · refine .bind (awaited_spec (send_spec e) (stable_sent e)) fun _ => ?_
    exact .pure fun _ _ _ => trivial
  · exact .pure fun _ _ _ => trivial

/-- Every one of these leases is reported, if the run is careful. -/
def AllReported (careful : Prop) (leases : List LeaseReport) (s : Store) : Prop :=
  careful → ∀ item ∈ leases, Reported s item.descriptor.toLeaseIdentity

theorem stable_allReported : (rules careful).Stable (AllReported careful leases) :=
  stable_of_later fun _ _ hl h hc item hi => hl.reported (h hc item hi)

theorem reportLeases_spec :
    Spec careful (reportLeases dev leases) (fun _ => True) fun _ => AllReported careful leases := by
  refine (SoundE.forM (I := AllReported careful) leases ?_).pre ?_
  · rintro front item back -
    have hone : Spec careful (do
        let d ← validated dev item.descriptor
        awaited (stopped dev d (some item.eventCursor))) (fun _ => True)
        fun _ s => careful → Reported s item.descriptor.toLeaseIdentity := by
      refine SoundE.bind (validated_spec item.descriptor) fun d => ?_
      refine (SoundE.ofPure (P := fun _ => True) ?_).pre fun s _ h => ⟨h, trivial⟩
      rintro rfl
      refine awaited_spec ((stopped_spec item.descriptor _).post ?_) fun _ => ?_
      · exact fun _ _ _ h hc => h hc rfl
      · exact stable_of_later fun _ _ hl h hc => hl.reported (h hc)
    refine ((Spec.frame hone (stable_allReported front)).pre fun _ _ h => ⟨trivial, h⟩).post ?_
    rintro _ s - ⟨hitem, hfront⟩ hc i hi
    rcases mem_append.mp hi with hi | hi
    · exact hfront hc i hi
    · obtain rfl := mem_singleton.mp hi
      exact hitem hc
  · rintro s - - - i hi
    simp at hi

theorem setReconciled_spec :
    Spec careful (setReconciled leases) (AllReported careful leases) fun _ _ => True := by
  refine .attempt (by simp) ?_ ?_
  · rintro input s a s' hs hp - ⟨⟩
    exact ⟨⟨inv_process hs _, .of_eq rfl rfl, hp⟩, trivial⟩
  · rintro input s e - - - h
    cases h

/-- **`recover`** keeps the rules: its last step finds every reported lease reported. -/
theorem recover_quiet : Quiet careful (recover dev) := by
  refine contain_quiet.awaited.bind fun _ => assertScope_quiet.bind fun _ => ?_
  refine replayClaims_quiet.bind fun _ => request_quiet.bind fun response => ?_
  refine assertScope_quiet.bind fun _ => field_quiet.bind fun leases => ?_
  have hst : (rules careful).Stable (AllReported careful leases) := stable_allReported leases
  refine SoundE.bind (reportLeases_spec leases) fun _ => ?_
  refine SoundE.bind ((replayStops_quiet leases).keeps hst) fun _ => ?_
  exact .bind (assertScope_quiet.keeps hst) fun _ => setReconciled_spec leases

theorem claimIdentity_spec : Spec careful claimIdentity (fun _ => True)
    fun r _ => "claim" = r.1.kind ∧ r.1.plain = true := by
  refine observe_spec (fun _ => trivial) ?_ ?_
  · rintro input s a s' h
    split at h <;> cases h <;> rfl
  · rintro input s a hs - - h
    split at h
    · next pending hfind =>
      cases h
      obtain ⟨hget, hkind⟩ := mem_list.mp (mem_of_find?_eq_some hfind)
      have hid : pending.id.kind = "claim" := (hs _ _ hget).kind ▸ hkind
      refine ⟨hid.symm, ?_⟩
      cases hc : pending.id with
      | other kind text => simpa [plain] using (hs _ _ hget).foreign kind text hc
      | _ => simp_all [Key.kind, plain]
    · cases h
      exact ⟨rfl, rfl⟩

theorem startRuntime_quiet (h : Handle) : Quiet careful (startRuntime dev h) := by
  refine .tryCatch ?_ fun _ => ?_
  · exact onProcess_quiet.bind fun _ => (lease_quiet h).bind fun _ => .pure _
  · refine onProcess_quiet.bind fun valid => ?_
    split
    · exact (stopSession_quiet h).awaited.bind fun _ => .throw _
    · exact .throw _

theorem claimWork_quiet (generation : ℕ) : Quiet careful (claimWork dev generation) := by
  refine .bindWith claimIdentity_spec ?_
  rintro ⟨id, body⟩ ⟨hkind, hplain⟩
  refine (mutate_quiet hkind hplain).awaited.bind fun response => assertScope_quiet.bind ?_
  intro _
  split
  · exact .pure _
  · refine (validated_spec _).quiet.bind fun d => field_quiet.bind fun version => ?_
    refine (prepare_quiet rfl rfl).bind fun _ => onProcess_quiet.bind fun now => ?_
    split
    · exact (stopped_quiet _ _).awaited
    · exact onProcess_quiet.bind fun h => startRuntime_quiet h

theorem claim_quiet : Quiet careful (claim dev) := by
  refine onProcess_quiet.bind fun free => ?_
  split
  · refine (Quiet.tryCatch ?_ fun _ => onProcess_quiet.bind fun _ => .throw _).bind fun _ =>
      onProcess_quiet
    refine (assertScope_quiet.bind fun _ => onProcess_quiet).bind fun generation => ?_
    split
    · exact claimWork_quiet _
    · exact .pure _
  · exact pause_quiet

theorem serve_quiet (h : Handle) : Quiet careful (serve dev h) := by
  refine pause_quiet.bind fun _ => (replayEvents_quiet h).awaited.bind fun _ => ?_
  refine (serial_quiet h request_quiet).awaited.bind fun response => ?_
  refine (lease_quiet h).bind fun _ => field_quiet.bind fun controls => ?_
  split
  · exact (stopSession_quiet h).awaited
  · refine onProcess_quiet.bind fun _ => (serial_quiet h request_quiet).awaited.bind ?_
    refine fun _ => (lease_quiet h).bind fun _ => field_quiet.bind fun heartbeats => ?_
    split
    · exact (stopSession_quiet h).awaited
    · exact onProcess_quiet

theorem serveActive_quiet (i : ℕ) : Quiet careful (serveActive dev i) := by
  refine onProcess_quiet.bind fun h => onProcess_quiet.bind fun expired => ?_
  split
  · exact (stopSession_quiet h).awaited
  · refine .tryCatch (serve_quiet h) fun _ => onProcess_quiet.bind fun valid => ?_
    split
    · exact (stopSession_quiet h).awaited.bind fun _ => onProcess_quiet.bind fun _ => .throw _
    · exact .throw _

theorem reconciledTick_quiet : Quiet careful (reconciledTick dev) := by
  refine onProcess_quiet.bind fun active => ?_
  split
  · exact serveActive_quiet _
  · refine assertScope_quiet.bind fun _ => request_quiet.bind fun _ => ?_
    exact assertScope_quiet.bind fun _ => claim_quiet.awaited

theorem tick_quiet : Quiet careful (tick dev) := by
  refine onProcess_quiet.bind fun reconciled => ?_
  split
  · exact reconciledTick_quiet
  · exact recover_quiet.awaited.bind fun _ => reconciledTick_quiet

end GrowTeam.Runner
