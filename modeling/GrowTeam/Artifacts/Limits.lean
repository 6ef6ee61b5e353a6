/-
# What stored artifacts keep to

Everything a call does to the disk and to the rows bears its own identifier, so the place of a
call says what there is of it (`Call.Sound`), whatever the other calls do.  The limit of a job
is checked in the transaction that adds the row.
-/
import GrowTeam.Artifacts.Upload

namespace GrowTeam.Artifacts

open History List Storage

/-! ## What bears the identifier of a call -/

namespace Storage

def filesOf (s : Storage) (i : ℕ) : List File := s.files.filter (·.name.id = i)

def rowsOf (s : Storage) (i : ℕ) : List AgentArtifact := s.artifacts.filter (·.id = i)

theorem filesOf_unlink (s : Storage) (name : FileName) (i : ℕ) :
    (s.unlink name).filesOf i = (s.filesOf i).filter (·.name ≠ name) := by
  simp only [filesOf, unlink, filter_filter]
  apply filter_congr
  intro f _
  exact Bool.and_comm _ _

theorem filesOf_unlink_ne {s : Storage} {name : FileName} {i : ℕ} (h : name.id ≠ i) :
    (s.unlink name).filesOf i = s.filesOf i := by
  rw [filesOf_unlink, filter_eq_self]
  intro f hf
  have hid : f.name.id = i := by simpa using (mem_filter.mp hf).2
  apply decide_eq_true
  rintro rfl
  exact h hid

theorem filesOf_create (s : Storage) (file : File) (i : ℕ) :
    (s.create file).filesOf i = s.filesOf i ++ if file.name.id = i then [file] else [] := by
  simp only [filesOf, create, filter_append]
  by_cases h : file.name.id = i
  · simp [h]
  · simp [h]

end Storage

/-- The failures after which the block can still take back all the call did: neither the sync
after the rename nor the block itself. -/
def Fault.clean : Fault → Bool
  | .os .syncDirectory => false
  | .os .unlink => false
  | .os .close => false
  | _ => true

/-- What there is of a call that is over: the file and the row of a stored artifact, or nothing. -/
def Left (u : Upload) (i : ℕ) (files : List File) (rows : List AgentArtifact) :
    Except Fault AgentArtifact → Prop
  | .ok a => a = u.artifact i u.chunks.flatten ∧ files = [⟨.data i, u.chunks.flatten⟩] ∧ rows = [a]
  | .error fault => fault.clean = true → files = [] ∧ rows = []

/-- What there is of a call at each place. -/
def Phase.Sound (u : Upload) (i : ℕ) (budget : Budget) (files : List File)
    (rows : List AgentArtifact) : Phase → Prop
  | .started => files = [] ∧ rows = []
  | .leased b => b = budget ∧ files = [] ∧ rows = []
  | .rooted b => b = budget ∧ files = [] ∧ rows = []
  | .opened b => b = budget ∧ files = [] ∧ rows = []
  | .writing b data chunks =>
    b = budget ∧ data ++ chunks.flatten = u.chunks.flatten ∧ files = [⟨.staging i, []⟩] ∧ rows = []
  | .flushed b data =>
    b = budget ∧ data = u.chunks.flatten ∧ files = [⟨.staging i, []⟩] ∧ rows = []
  | .checked b data =>
    b = budget ∧ data = u.chunks.flatten ∧ files = [⟨.staging i, []⟩] ∧ rows = []
  | .replaced b data =>
    b = budget ∧ data = u.chunks.flatten ∧ files = [⟨.data i, data⟩] ∧ rows = []
  | .written b data =>
    b = budget ∧ data = u.chunks.flatten ∧ files = [⟨.data i, data⟩] ∧ rows = []
  | .cleaning fault name =>
    name.id = i ∧ rows = [] ∧ (fault.clean = true → ∀ f ∈ files, f.name = name)
  | .closing result => Left u i files rows result
  | .ended result => Left u i files rows result
  | .lost => True

def Call.Sound (c : Call) (s : Storage) (i : ℕ) : Prop :=
  c.phase.Sound c.upload i (s.budgets c.upload.job) (s.filesOf i) (s.rowsOf i)

structure Storage.Sound (s : Storage) : Prop where
  calls : ∀ i (c : Call), s.calls[i]? = some c → c.Sound s i
  unused : ∀ i, s.calls[i]? = none → s.filesOf i = [] ∧ s.rowsOf i = []
  limit : ∀ job, s.used job ≤ (s.budgets job).jobArtifactBytes

/-! ## One step -/

/-- What a step of call `i` leaves alone. -/
structure Apart (s t : Storage) (i : ℕ) : Prop where
  calls : t.calls = s.calls
  budgets : t.budgets = s.budgets
  files : ∀ j, j ≠ i → t.filesOf j = s.filesOf j
  rows : ∀ j, j ≠ i → t.rowsOf j = s.rowsOf j

theorem Apart.refl (s : Storage) (i : ℕ) : Apart s s i :=
  ⟨rfl, rfl, fun _ _ => rfl, fun _ _ => rfl⟩

theorem getElem?_setPhase (s : Storage) (i j : ℕ) (phase : Phase) :
    (s.setPhase i phase).calls[j]? =
      (s.calls[j]?).map fun c => if i = j then { c with phase := phase } else c := by
  rw [setPhase, getElem?_modify]
  by_cases h : i = j
  · simp [h]
  · simp [h]

variable {i : ℕ} {s : Storage}

/-- A step keeps the storage sound when the call is sound at its new place. -/
theorem Storage.Sound.move {s t : Storage} {c : Call} {phase : Phase} (h : s.Sound)
    (hc : s.calls[i]? = some c) (hapart : Apart s t i)
    (hown : phase.Sound c.upload i (s.budgets c.upload.job) (t.filesOf i) (t.rowsOf i))
    (hlimit : ∀ job, t.used job ≤ (s.budgets job).jobArtifactBytes) :
    (t.setPhase i phase).Sound where
  calls j d hd := by
    rw [getElem?_setPhase, hapart.calls] at hd
    obtain ⟨d', hd', rfl⟩ := Option.map_eq_some_iff.mp hd
    by_cases hij : i = j
    · subst hij
      cases hc.symm.trans hd'
      rw [if_pos rfl]
      show phase.Sound c.upload i (t.budgets c.upload.job) (t.filesOf i) (t.rowsOf i)
      rw [hapart.budgets]
      exact hown
    · rw [if_neg hij]
      have hsound := h.calls j d' hd'
      show d'.phase.Sound d'.upload j (t.budgets d'.upload.job) (t.filesOf j) (t.rowsOf j)
      rwa [hapart.budgets, hapart.files j (Ne.symm hij), hapart.rows j (Ne.symm hij)]
  unused j hj := by
    rw [getElem?_setPhase, hapart.calls, Option.map_eq_none_iff] at hj
    have hij : j ≠ i := by
      rintro rfl
      rw [hc] at hj
      cases hj
    show t.filesOf j = [] ∧ t.rowsOf j = []
    rw [hapart.files j hij, hapart.rows j hij]
    exact h.unused j hj
  limit job := by
    show t.used job ≤ (t.budgets job).jobArtifactBytes
    rw [hapart.budgets]
    exact hlimit job

/-- A step that touches neither files nor rows. -/
theorem Storage.Sound.stay {c : Call} {phase : Phase} (h : s.Sound) (hc : s.calls[i]? = some c)
    (hown : phase.Sound c.upload i (s.budgets c.upload.job) (s.filesOf i) (s.rowsOf i)) :
    (s.setPhase i phase).Sound :=
  h.move hc (Apart.refl s i) hown h.limit

theorem apart_create (s : Storage) (file : File) : Apart s (s.create file) file.name.id := by
  refine ⟨rfl, rfl, ?_, fun _ _ => rfl⟩
  intro j hj
  rw [s.filesOf_create, if_neg hj.symm, append_nil]

theorem apart_unlink (s : Storage) (name : FileName) : Apart s (s.unlink name) name.id :=
  ⟨rfl, rfl, fun _ hj => Storage.filesOf_unlink_ne hj.symm, fun _ _ => rfl⟩

theorem Apart.trans {s t u : Storage} (h : Apart s t i) (h' : Apart t u i) : Apart s u i where
  calls := h'.calls.trans h.calls
  budgets := h'.budgets.trans h.budgets
  files j hj := (h'.files j hj).trans (h.files j hj)
  rows j hj := (h'.rows j hj).trans (h.rows j hj)

theorem apart_replace (s : Storage) (i : ℕ) (data : List UInt8) :
    Apart s (s.replace (.staging i) (.data i) data) i :=
  ((apart_unlink s (.staging i)).trans (apart_unlink _ (.data i))).trans (apart_create _ _)

/-- The rename leaves the one file under its final name. -/
theorem filesOf_replace {content data : List UInt8} (h : s.filesOf i = [⟨.staging i, content⟩]) :
    (s.replace (.staging i) (.data i) data).filesOf i = [⟨.data i, data⟩] := by
  unfold Storage.replace
  rw [Storage.filesOf_create, Storage.filesOf_unlink, Storage.filesOf_unlink, h]
  simp [FileName.id]

/-- The bytes of a job after one more row. -/
theorem used_add (s : Storage) (a : AgentArtifact) (job : ℕ) :
    ({ s with artifacts := s.artifacts ++ [a] } : Storage).used job =
      s.used job + if a.job = job then a.size else 0 := by
  simp only [used, filter_append, map_append, sum_append]
  by_cases h : a.job = job
  · simp [h]
  · simp [h]

/-- The registration of a row within the limit. -/
theorem Storage.Sound.register {u : Upload} {b : Budget}
    {data : List UInt8} (h : s.Sound) (hc : s.calls[i]? = some ⟨u, .written b data⟩)
    (hroom : ¬ b.jobArtifactBytes < s.used u.job + data.length) :
    (({ s with artifacts := s.artifacts ++ [u.artifact i data] } : Storage).setPhase i
      (.closing (.ok (u.artifact i data)))).Sound := by
  obtain ⟨hbudget, hdata, hfiles, hrows⟩ := h.calls i _ hc
  have hadded : ∀ j, ({ s with artifacts := s.artifacts ++ [u.artifact i data] } : Storage).rowsOf j =
      s.rowsOf j ++ if i = j then [u.artifact i data] else [] := by
    intro j
    simp only [Storage.rowsOf, filter_append]
    by_cases hij : i = j
    · simp [hij, Upload.artifact]
    · simp [hij, Upload.artifact]
  apply h.move hc
  · refine ⟨rfl, rfl, fun _ _ => rfl, ?_⟩
    intro j hj
    rw [hadded, if_neg hj.symm, append_nil]
  · show Left u i (s.filesOf i) _ (.ok (u.artifact i data))
    rw [hadded, if_pos rfl, hrows, hfiles, hdata]
    exact ⟨rfl, rfl, rfl⟩
  · intro job
    rw [used_add]
    by_cases hjob : u.job = job
    · subst hjob
      have hb : (s.budgets u.job).jobArtifactBytes = b.jobArtifactBytes := by rw [hbudget]
      simp only [Upload.artifact, if_true]
      omega
    · simpa [Upload.artifact, hjob] using h.limit job

theorem call_sound (p : Platform) {c : Call} (h : s.Sound)
    (hc : s.calls[i]? = some c) (failure : Option String) : (s.call p i failure c).Sound := by
  have hown := h.calls i c hc
  obtain ⟨u, phase⟩ := c
  cases phase with
  | started =>
    simp only [call]
    split
    · exact h.stay hc fun _ => hown
    split
    · exact h.stay hc fun _ => hown
    split
    · exact h.stay hc fun _ => hown
    · exact h.stay hc ⟨rfl, hown⟩
  | leased | rooted =>
    simp only [call]
    split
    · exact h.stay hc fun _ => hown.2
    · exact h.stay hc hown
  | opened b =>
    obtain ⟨hb, hfiles, hrows⟩ := hown
    simp only [call]
    split
    · exact h.stay hc ⟨rfl, hrows, by simp [hfiles]⟩
    · apply h.move hc (apart_create s ⟨.staging i, []⟩)
      · refine ⟨hb, rfl, ?_, hrows⟩
        rw [s.filesOf_create, hfiles]
        simp [FileName.id]
      · exact h.limit
  | writing b data chunks =>
    obtain ⟨hb, hdata, hfiles, hrows⟩ := hown
    cases chunks with
    | nil =>
      simp only [call]
      split
      · exact h.stay hc ⟨rfl, hrows, by simp [hfiles]⟩
      · exact h.stay hc ⟨hb, by simpa using hdata, hfiles, hrows⟩
    | cons chunk rest =>
      simp only [call]
      split
      · exact h.stay hc ⟨rfl, hrows, by simp [hfiles]⟩
      split
      · exact h.stay hc ⟨rfl, hrows, by simp [hfiles]⟩
      · exact h.stay hc ⟨hb, by simpa using hdata, hfiles, hrows⟩
  | flushed b data =>
    obtain ⟨hb, hdata, hfiles, hrows⟩ := hown
    simp only [call]
    split
    · exact h.stay hc ⟨rfl, hrows, by simp [hfiles]⟩
    · exact h.stay hc ⟨hb, hdata, hfiles, hrows⟩
  | checked b data =>
    obtain ⟨hb, hdata, hfiles, hrows⟩ := hown
    simp only [call]
    split
    · exact h.stay hc ⟨rfl, hrows, by simp [hfiles]⟩
    · exact h.move hc (apart_replace s i data) ⟨hb, hdata, filesOf_replace hfiles, hrows⟩ h.limit
  | replaced b data =>
    obtain ⟨hb, hdata, hfiles, hrows⟩ := hown
    simp only [call]
    split
    · exact h.stay hc ⟨rfl, hrows, by simp [Fault.clean]⟩
    · exact h.stay hc ⟨hb, hdata, hfiles, hrows⟩
  | written b data =>
    obtain ⟨hb, hdata, hfiles, hrows⟩ := hown
    simp only [call]
    split
    · exact h.stay hc ⟨rfl, hrows, by simp [hfiles]⟩
    split
    · exact h.stay hc ⟨rfl, hrows, by simp [hfiles]⟩
    · next hroom => exact h.register hc hroom
  | cleaning fault name =>
    obtain ⟨hname, hrows, hfiles⟩ := hown
    simp only [call]
    split
    · exact h.stay hc (by simp [Phase.Sound, Left, Fault.clean])
    · apply h.move hc (hname ▸ apart_unlink s name)
      · intro hclean
        refine ⟨?_, hrows⟩
        rw [s.filesOf_unlink, filter_eq_nil_iff]
        intro f hf
        simp [hfiles hclean f hf]
      · exact h.limit
  | closing result =>
    simp only [call]
    split
    · exact h.stay hc (by simp [Phase.Sound, Left, Fault.clean])
    · exact h.stay hc hown
  | ended | lost => exact h

theorem step_sound (p : Platform) (m : Move) (h : s.Sound) : (step p m s).2.Sound := by
  cases m with
  | start upload =>
    refine ⟨?_, ?_, h.limit⟩
    · intro i c hc
      rcases Nat.lt_or_ge i s.calls.length with hlt | hge
      · exact h.calls i c (by rwa [step, getElem?_append_left hlt] at hc)
      · have hnone := h.unused i (getElem?_eq_none hge)
        have hmem : c = ⟨upload, .started⟩ := by
          rw [step, getElem?_append_right hge] at hc
          exact mem_singleton.mp (mem_of_getElem? hc)
        rw [hmem]
        exact hnone
    · intro i hi
      apply h.unused i
      rw [List.getElem?_eq_none_iff] at hi ⊢
      simp only [step, List.length_append, length_singleton] at hi
      omega
  | advance i failure =>
    rw [step]
    split
    · next c hc => exact call_sound p h hc failure
    · exact h
  | crash =>
    refine ⟨?_, ?_, h.limit⟩
    · intro i c hc
      obtain ⟨d, hd, rfl⟩ := Option.map_eq_some_iff.mp ((getElem?_map ..).symm.trans hc)
      have hsound := h.calls i d hd
      obtain ⟨u, phase⟩ := d
      cases phase with
      | ended result => exact hsound
      | _ => exact trivial
    · intro i hi
      exact h.unused i (Option.map_eq_none_iff.mp ((getElem?_map ..).symm.trans hi))

theorem fresh_sound (attempts : List Attempt) (budgets : ℕ → Budget) :
    (fresh attempts budgets).Sound where
  calls i c hc := by cases hc
  unused i _ := ⟨rfl, rfl⟩
  limit job := Nat.zero_le _

/-! ## The result of a call is final -/

theorem call_other {p : Platform} {i j : ℕ} {c d : Call} {failure : Option String}
    (hij : j ≠ i) (hd : s.calls[j]? = some d) : (s.call p i failure c).calls[j]? = some d := by
  have hset : ∀ (t : Storage) phase, t.calls = s.calls →
      (t.setPhase i phase).calls[j]? = some d := by
    intro t phase ht
    rw [getElem?_setPhase, ht, hd, Option.map_some, if_neg hij.symm]
  unfold call
  simp only
  repeat' split
  all_goals first | exact hset _ _ rfl | exact hd

theorem step_ended {p : Platform} (m : Move) {u : Upload}
    {result : Except Fault AgentArtifact} (h : s.calls[i]? = some ⟨u, .ended result⟩) :
    (step p m s).2.calls[i]? = some ⟨u, .ended result⟩ := by
  cases m with
  | start upload => exact getElem?_append_left (List.getElem?_eq_some_iff.mp h).1 ▸ h
  | advance j failure =>
    rw [step]
    split
    · next c hc =>
      by_cases hij : i = j
      · subst hij
        cases h.symm.trans hc
        exact h
      · exact call_other hij h
    · exact h
  | crash =>
    simp only [step, getElem?_map, h]
    rfl

/-! ## The law -/

/-- The job limits hold, and of each call that is over there is what its result says. -/
structure Kept (s : Storage) : Prop where
  limit : ∀ job, s.used job ≤ (s.budgets job).jobArtifactBytes
  left : ∀ i u result, s.calls[i]? = some ⟨u, .ended result⟩ →
    Left u i (s.filesOf i) (s.rowsOf i) result

/-- However calls overlap and fail, the law holds after every step, and a result is final: no
call takes the file or the row of another one. -/
theorem storage_kept (p : Platform) (attempts : List Attempt) (budgets : ℕ → Budget)
    (ms : List Move) (e : Event Storage Move Unit)
    (he : e ∈ history (step p) (Storage.fresh attempts budgets) ms) :
    Kept e.post ∧ ∀ (i : ℕ) (u : Upload) (result : Except Fault AgentArtifact), e.pre.calls[i]? = some ⟨u, .ended result⟩ →
      e.post.calls[i]? = some ⟨u, .ended result⟩ := by
  have hsound := ((history_inv (step p) (Storage.fresh attempts budgets) ms
    (fresh_sound attempts budgets) fun m _ hs => step_sound p m hs).2 e he).2
  refine ⟨⟨hsound.limit, fun i u result hi => hsound.calls i _ hi⟩, ?_⟩
  intro i u result hi
  have hstep := step_ended (p := p) e.input hi
  rwa [step_of_mem he] at hstep

def anyPlatform : Platform := ⟨fun _ => "sum", fun _ => true, fun _ => true⟩

def smallBudget : ℕ → Budget := fun _ => ⟨10, 20⟩

def sampleUpload : Upload :=
  { job := 1, attempt := 1, chunks := [[1, 2]], checksum := "sum", kind := "log",
    filename := "log.txt", mediaType := "text/plain" }

/-- A call from its start to its end, at place `i`. -/
def uploaded (i : ℕ) : List Move := .start sampleUpload :: List.replicate 11 (.advance i none)

theorem upload_kept : ∃ e ∈ history (step anyPlatform) (Storage.fresh [⟨1, 1⟩] smallBudget)
    (uploaded 0), Kept e.post ∧ e.post.artifacts = [sampleUpload.artifact 0 [1, 2]] := by
  have hmem := mem_of_getElem? (i := 11)
    (l := history (step anyPlatform) (Storage.fresh [⟨1, 1⟩] smallBudget) (uploaded 0)) rfl
  exact ⟨_, hmem, (storage_kept anyPlatform [⟨1, 1⟩] smallBudget (uploaded 0) _ hmem).1, rfl⟩

/-- The same upload a second time adds a second row and a second file, and a call whose sync of
the directory fails after the rename leaves its file behind. -/
theorem upload_repeats_and_leaves_file :
    (run (step anyPlatform) (Storage.fresh [⟨1, 1⟩] smallBudget) (uploaded 0 ++ uploaded 1)).artifacts =
        [sampleUpload.artifact 0 [1, 2], sampleUpload.artifact 1 [1, 2]] ∧
      (run (step anyPlatform) (Storage.fresh [⟨1, 1⟩] smallBudget) ((uploaded 0).take 9 ++
        [.advance 0 (some "EIO"), .advance 0 none, .advance 0 none])).files = [⟨.data 0, [1, 2]⟩] :=
  ⟨rfl, rfl⟩

end GrowTeam.Artifacts
