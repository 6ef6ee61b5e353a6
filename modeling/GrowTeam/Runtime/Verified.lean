/-
# A commit is offered for a verified tree only

While a call is inside one of the two methods that use the sandbox it is the only one, so a
verification sees one workspace from its first check to its last, and the checks that passed so
far stand behind the last tool in `deeds`.  The end of the verification and the start of a tool
are the only places that write `verifiedTree`.
-/
import GrowTeam.Runtime.ToolBroker

namespace GrowTeam.Runtime.Tools

open History List

variable {d : Descriptor}

/-! ## What the deeds show of a tree -/

/-- Since the last tool, each required check that is not left to do ran on the tree, and passed if
all of them did. -/
def Progress (d : Descriptor) (all : Bool) (deeds : List Deed) (tree : Tree)
    (todo : List Check) : Prop :=
  ∃ before after, deeds = before ++ after ∧ (∀ deed ∈ after, deed.isTool = false) ∧
    ∀ check ∈ d.requiredChecks, check ∈ todo ∨
      ∃ passed, (all = true → passed = true) ∧ .check check tree passed ∈ after

/-- Every required check passed on the tree, and no tool ran after the first of them. -/
def Proven (d : Descriptor) (deeds : List Deed) (tree : Tree) : Prop :=
  ∃ before after, deeds = before ++ after ∧ (∀ deed ∈ after, deed.isTool = false) ∧
    ∀ check ∈ d.requiredChecks, .check check tree true ∈ after

/-- Every required check ran on the tree, and no tool ran from the first of them to the last. -/
def Ran (d : Descriptor) (deeds : List Deed) (tree : Tree) : Prop :=
  ∃ before during after, deeds = before ++ during ++ after ∧
    (∀ deed ∈ during, deed.isTool = false) ∧
    ∀ check ∈ d.requiredChecks, ∃ passed, .check check tree passed ∈ during

theorem progress_start (deeds : List Deed) (tree : Tree) :
    Progress d true deeds tree d.requiredChecks :=
  ⟨deeds, [], (append_nil _).symm, by simp, fun _ hc => .inl hc⟩

variable {deeds : List Deed} {all : Bool} {p : Phase} {b : Broker}

theorem Progress.proven {tree : Tree} (h : Progress d true deeds tree []) :
    Proven d deeds tree := by
  obtain ⟨before, after, hsplit, htools, hchecks⟩ := h
  refine ⟨before, after, hsplit, htools, ?_⟩
  intro check hcheck
  obtain ⟨passed, hpassed, hmem⟩ := (hchecks check hcheck).resolve_left (not_mem_nil)
  rwa [hpassed rfl] at hmem

theorem Progress.ran {tree : Tree} (h : Progress d all deeds tree []) : Ran d deeds tree := by
  obtain ⟨before, after, hsplit, htools, hchecks⟩ := h
  refine ⟨before, after, [], by rw [hsplit, append_nil], htools, ?_⟩
  intro check hcheck
  obtain ⟨passed, -, hmem⟩ := (hchecks check hcheck).resolve_left (not_mem_nil)
  exact ⟨passed, hmem⟩

theorem Ran.append {tree : Tree} (h : Ran d deeds tree) (more : List Deed) :
    Ran d (deeds ++ more) tree := by
  obtain ⟨before, during, after, rfl, htools, hchecks⟩ := h
  exact ⟨before, during, after ++ more, append_assoc .., htools, hchecks⟩

/-- A deed that is no tool leaves what was shown. -/
theorem Progress.deed {tree : Tree} {todo : List Check} {x : Deed}
    (h : Progress d all deeds tree todo) (hx : x.isTool = false) :
    Progress d all (deeds ++ [x]) tree todo := by
  obtain ⟨before, after, rfl, htools, hchecks⟩ := h
  refine ⟨before, after ++ [x], append_assoc .., ?_, ?_⟩
  · intro deed hdeed
    rcases mem_append.mp hdeed with hdeed | hdeed
    · exact htools deed hdeed
    · rwa [mem_singleton.mp hdeed]
  · intro check hcheck
    rcases hchecks check hcheck with hleft | ⟨passed, hpassed, hmem⟩
    · exact .inl hleft
    · exact .inr ⟨passed, hpassed, mem_append_left _ hmem⟩

theorem Proven.deed {tree : Tree} {x : Deed} (h : Proven d deeds tree)
    (hx : x.isTool = false) : Proven d (deeds ++ [x]) tree := by
  obtain ⟨before, after, hsplit, htools, hchecks⟩ := h
  have hprogress : Progress d true deeds tree [] :=
    ⟨before, after, hsplit, htools, fun check hcheck =>
      .inr ⟨true, fun _ => rfl, hchecks check hcheck⟩⟩
  exact (hprogress.deed hx).proven

/-- The next check of the list ran. -/
theorem Progress.check {tree : Tree} {c : Check}
    {rest : List Check} (h : Progress d all deeds tree (c :: rest)) (passed : Bool) :
    Progress d (all && passed) (deeds ++ [.check c tree passed]) tree rest := by
  obtain ⟨before, after, rfl, htools, hchecks⟩ := h
  refine ⟨before, after ++ [.check c tree passed], append_assoc .., ?_, ?_⟩
  · intro deed hdeed
    rcases mem_append.mp hdeed with hdeed | hdeed
    · exact htools deed hdeed
    · rw [mem_singleton.mp hdeed]
      rfl
  · intro check hcheck
    rcases hchecks check hcheck with hleft | ⟨earlier, hearlier, hmem⟩
    · rcases mem_cons.mp hleft with rfl | hleft
      · refine .inr ⟨passed, ?_, mem_append_right _ (mem_singleton_self _)⟩
        intro hall
        exact (Bool.and_eq_true_iff.mp hall).2
      · exact .inl hleft
    · refine .inr ⟨earlier, ?_, mem_append_left _ hmem⟩
      intro hall
      exact hearlier (Bool.and_eq_true_iff.mp hall).1

/-- What the deeds before it show of a tree that a deed uses. -/
def Deed.Based (d : Descriptor) (before : List Deed) : Deed → Prop
  | .commit tree => Proven d before tree
  | .prepared tree => Ran d before tree
  | _ => True

/-- Each commit was made of a tree that the deeds before it prove, and each result names one on
which they ran the checks. -/
def Offered (d : Descriptor) (deeds : List Deed) : Prop :=
  ∀ before after x, deeds = before ++ x :: after → x.Based d before

/-- A list that is extended by one element splits inside, or at the new element. -/
theorem append_singleton_split {α : Type} {l before after : List α} {x y : α}
    (h : l ++ [x] = before ++ y :: after) :
    (∃ rest, l = before ++ y :: rest) ∨ (l = before ∧ x = y) := by
  rcases append_eq_append_iff.mp h with ⟨rest, hbefore, hrest⟩ | ⟨rest, hl, hrest⟩
  · cases rest with
    | nil =>
      rw [append_nil] at hbefore
      exact .inr ⟨hbefore.symm, (List.cons.inj hrest).1⟩
    | cons z rest => simp at hrest
  · cases rest with
    | nil =>
      rw [append_nil] at hl
      exact .inr ⟨hl, (List.cons.inj hrest).1.symm⟩
    | cons z rest =>
      obtain ⟨rfl, -⟩ := List.cons.inj hrest
      exact .inl ⟨rest, hl⟩

theorem Offered.deed {x : Deed} (h : Offered d deeds)
    (hx : x.Based d deeds) : Offered d (deeds ++ [x]) := by
  intro before after y hsplit
  rcases append_singleton_split hsplit with ⟨rest, hl⟩ | ⟨rfl, rfl⟩
  · exact h before rest y hl
  · exact hx

/-! ## What holds of every reachable broker -/

/-- The tree a verification started from. -/
def Phase.tree : Phase → Option Tree
  | .verifyDiff tree => some tree
  | .verifyPublish tree => some tree
  | .checkAuthority tree _ _ _ _ => some tree
  | .checkSandbox tree _ _ _ => some tree
  | .checkOutput tree _ _ => some tree
  | .checkTree tree _ _ => some tree
  | .checkEvent tree _ _ => some tree
  | .verifyLast tree _ => some tree
  | _ => none

/-- Whether all checks of a verification passed so far, its tree and the checks left to do. -/
def Phase.checking : Phase → Option (Bool × Tree × List Check)
  | .checkAuthority tree _ check rest passed => some (passed, tree, check :: rest)
  | .checkSandbox tree check rest passed => some (passed, tree, check :: rest)
  | .checkOutput tree rest passed => some (passed, tree, rest)
  | .checkTree tree rest passed => some (passed, tree, rest)
  | .checkEvent tree rest passed => some (passed, tree, rest)
  | .verifyLast tree passed => some (passed, tree, [])
  | _ => none

/-- The tree that a verification returned. -/
def Phase.returned : Phase → Option Tree
  | .result tree _ => some tree
  | _ => none

theorem outside_tree (h : p.inside = false) : p.tree = none := by
  cases p <;> first | rfl | cases h

theorem outside_checking (h : p.inside = false) : p.checking = none := by
  cases p <;> first | rfl | cases h

theorem inside_returned (h : p.inside = true) : p.returned = none := by
  cases p <;> first | rfl | cases h

/-- What holds apart from the calls. -/
structure Broker.Good (d : Descriptor) (b : Broker) : Prop where
  verified : ∀ tree, b.verifiedTree = some tree → Proven d b.deeds tree
  offered : Offered d b.deeds
  cap : b.total d.jobId ≤ d.perJob

structure Broker.Sound (d : Descriptor) (b : Broker) : Prop extends Broker.Good d b where
  busy : ∀ p ∈ b.calls, p.inside = true → b.busy = true
  alone : ∀ (i j : ℕ) (p q : Phase), b.calls[i]? = some p → b.calls[j]? = some q →
    p.inside = true → q.inside = true → i = j
  tree : ∀ p ∈ b.calls, ∀ tree, p.tree = some tree → b.workspace = tree
  checks : ∀ p ∈ b.calls, ∀ all tree todo, p.checking = some (all, tree, todo) →
    Progress d all b.deeds tree todo
  returned : ∀ p ∈ b.calls, ∀ tree, p.returned = some tree → Ran d b.deeds tree

section Step

variable {b b' : Broker} {i : ℕ} {p q : Phase}

/-- The other calls are outside while one is inside. -/
theorem Broker.Sound.others (h : b.Sound d) (hp : b.calls[i]? = some p)
    (hin : p.inside = true) {x : Phase} (hx : x ∈ b.calls.set i q) : x = q ∨ x.inside = false := by
  obtain ⟨j, hj⟩ := mem_iff_getElem?.mp hx
  refine (getElem?_set_cases hj).imp And.right ?_
  rintro ⟨hij, hj⟩
  by_contra hne
  exact hij (h.alone i j p x hp hj hin (by simpa using hne)).symm

/-- A step of the call that is inside. -/
theorem Broker.Sound.inner (h : b.Sound d) (hp : b.calls[i]? = some p) (hin : p.inside = true)
    (hcalls : b'.calls = b.calls.set i q) (hbusy : q.inside = true → b'.busy = true)
    (htree : ∀ tree, q.tree = some tree → b'.workspace = tree)
    (hchecks : ∀ all tree todo, q.checking = some (all, tree, todo) →
      Progress d all b'.deeds tree todo)
    (hreturned : ∀ tree, q.returned = some tree → Ran d b'.deeds tree)
    (hgrown : ∃ more, b'.deeds = b.deeds ++ more) (hgood : b'.Good d) : b'.Sound d where
  toGood := hgood
  busy x hx hxin := by
    rw [hcalls] at hx
    rcases h.others hp hin hx with rfl | hout
    · exact hbusy hxin
    · rw [hout] at hxin
      cases hxin
  alone j k x y hx hy hxin hyin := by
    rw [hcalls] at hx hy
    have hat : ∀ (m : ℕ) (z : Phase), (b.calls.set i q)[m]? = some z → z.inside = true → m = i := by
      intro m z hz hzin
      by_contra hmi
      rw [getElem?_set_ne (Ne.symm hmi)] at hz
      exact hmi (h.alone m i z p hz hp hzin hin)
    rw [hat j x hx hxin, hat k y hy hyin]
  tree x hx tree hxtree := by
    rw [hcalls] at hx
    rcases h.others hp hin hx with rfl | hout
    · exact htree tree hxtree
    · rw [outside_tree hout] at hxtree
      cases hxtree
  checks x hx all tree todo hxchecking := by
    rw [hcalls] at hx
    rcases h.others hp hin hx with rfl | hout
    · exact hchecks all tree todo hxchecking
    · rw [outside_checking hout] at hxchecking
      cases hxchecking
  returned x hx tree hxreturned := by
    rw [hcalls] at hx
    rcases mem_or_eq_of_mem_set hx with hx | rfl
    · obtain ⟨more, hmore⟩ := hgrown
      rw [hmore]
      exact (h.returned x hx tree hxreturned).append more
    · exact hreturned tree hxreturned

/-- A call outside ends, with at most one deed that is no tool. -/
theorem Broker.Sound.outer (h : b.Sound d) {deeds : List Deed}
    (hdeeds : deeds = b.deeds ∨
      ∃ x, x.isTool = false ∧ deeds = b.deeds ++ [x] ∧ x.Based d b.deeds) :
    ({ b with deeds := deeds }.setPhase i .ended : Broker).Sound d := by
  have hmem : ∀ {x : Phase}, x ∈ b.calls.set i .ended → x ∈ b.calls ∨ x = .ended :=
    fun hx => mem_or_eq_of_mem_set hx
  have hkeep : ∀ tree, Proven d b.deeds tree → Proven d deeds tree := by
    intro tree hproven
    rcases hdeeds with rfl | ⟨x, hx, rfl, -⟩
    · exact hproven
    · exact hproven.deed hx
  refine ⟨⟨fun tree htree => hkeep tree (h.verified tree htree), ?_, h.cap⟩, ?_, ?_, ?_, ?_, ?_⟩
  · rcases hdeeds with rfl | ⟨x, hx, rfl, hcommit⟩
    · exact h.offered
    · exact h.offered.deed hcommit
  · intro x hx hin
    rcases hmem hx with hx | rfl
    · exact h.busy x hx hin
    · cases hin
  · have hold : ∀ (m : ℕ) (z : Phase), (b.calls.set i .ended)[m]? = some z → z.inside = true →
        b.calls[m]? = some z := by
      intro m z hz hzin
      rcases getElem?_set_cases hz with ⟨-, rfl⟩ | ⟨-, hz⟩
      · cases hzin
      · exact hz
    intro j k x y hx hy hxin hyin
    exact h.alone j k x y (hold j x hx hxin) (hold k y hy hyin) hxin hyin
  · intro x hx tree htree
    rcases hmem hx with hx | rfl
    · exact h.tree x hx tree htree
    · cases htree
  · intro x hx all tree todo hchecking
    rcases hmem hx with hx | rfl
    · have hprogress := h.checks x hx all tree todo hchecking
      rcases hdeeds with rfl | ⟨y, hy, rfl, -⟩
      · exact hprogress
      · exact hprogress.deed hy
    · cases hchecking
  · intro x hx tree hreturned
    rcases hmem hx with hx | rfl
    · have hran := h.returned x hx tree hreturned
      rcases hdeeds with rfl | ⟨y, -, rfl, -⟩
      · exact hran
      · exact hran.append _
    · cases hreturned

variable {b₁ : Broker}

/-- What a state on the way from `b` shares with it. -/
structure Near (d : Descriptor) (b b₁ : Broker) : Prop where
  good : b₁.Good d
  calls : b₁.calls = b.calls
  busy : b₁.busy = b.busy
  grown : ∃ more, b₁.deeds = b.deeds ++ more

theorem Broker.Sound.near (h : b.Sound d) : Near d b b :=
  ⟨h.toGood, rfl, rfl, [], (append_nil _).symm⟩

theorem Broker.Sound.stay (h : b.Sound d) (hp : b.calls[i]? = some p) (hin : p.inside = true)
    (hnear : Near d b b₁) (hqin : q.inside = true)
    (htree : ∀ tree, q.tree = some tree → b₁.workspace = tree)
    (hchecks : ∀ all tree todo, q.checking = some (all, tree, todo) →
      Progress d all b₁.deeds tree todo) :
    (b₁.setPhase i q).Sound d := by
  apply h.inner hp hin
  · show b₁.calls.set i q = _
    rw [hnear.calls]
  · intro _
    show b₁.busy = true
    rw [hnear.busy]
    exact h.busy p (mem_of_getElem? hp) hin
  · exact htree
  · exact hchecks
  · intro tree hreturned
    rw [inside_returned hqin] at hreturned
    cases hreturned
  · exact hnear.grown
  · exact ⟨hnear.good.verified, hnear.good.offered, hnear.good.cap⟩

theorem Broker.Sound.leave (h : b.Sound d) (hp : b.calls[i]? = some p) (hin : p.inside = true)
    (hnear : Near d b b₁) (hout : q.inside = false)
    (hreturned : ∀ tree, q.returned = some tree → Ran d b₁.deeds tree) :
    (b₁.leave i q).Sound d := by
  apply h.inner hp hin
  · show b₁.calls.set i q = _
    rw [hnear.calls]
  · intro hqin
    rw [hout] at hqin
    cases hqin
  · intro tree htree
    rw [outside_tree hout] at htree
    cases htree
  · intro all tree todo hchecking
    rw [outside_checking hout] at hchecking
    cases hchecking
  · exact hreturned
  · exact hnear.grown
  · exact ⟨hnear.good.verified, hnear.good.offered, hnear.good.cap⟩

/-- A call that throws. -/
theorem Broker.Sound.stop (h : b.Sound d) (hp : b.calls[i]? = some p) (hin : p.inside = true)
    (hnear : Near d b b₁) : (b₁.leave i .ended).Sound d :=
  h.leave hp hin hnear rfl fun _ ht => by cases ht

theorem total_retain (b : Broker) (jobId size : ℕ) :
    ({ b with records := b.records ++ [(jobId, size)] } : Broker).total jobId =
      b.total jobId + size := by
  simp [Broker.total]

theorem Broker.Good.retain {size : ℕ} {b₂ : Broker} (h : b.Good d)
    (hretain : b.retain d size = some b₂) :
    ∃ records, b₂ = { b with records := records } ∧ b₂.Good d := by
  unfold Broker.retain at hretain
  split at hretain
  · cases hretain
  · next hroom =>
    cases hretain
    refine ⟨_, rfl, h.verified, h.offered, ?_⟩
    rw [total_retain]
    omega

section

variable (h : b.Sound d)

include h

section

variable (hp : b.calls[i]? = some p)

include hp

section

variable (hin : p.inside = true)

include hin

theorem Broker.Sound.retainThen (hnear : Near d b b₁) (size : ℕ) (hqin : q.inside = true)
    (htree : ∀ tree, q.tree = some tree → b₁.workspace = tree)
    (hchecks : ∀ all tree todo, q.checking = some (all, tree, todo) →
      Progress d all b₁.deeds tree todo) :
    (b₁.retainThen d i size q).Sound d := by
  unfold Broker.retainThen
  split
  · next b₂ hretain =>
    obtain ⟨records, rfl, hgood⟩ := hnear.good.retain hretain
    exact h.stay hp hin { hnear with good := hgood } hqin htree hchecks
  · exact h.stop hp hin hnear

theorem Broker.Sound.intend (hnear : Near d b b₁) (id : String) (hqin : q.inside = true)
    (htree : ∀ tree, q.tree = some tree → b₁.workspace = tree)
    (hchecks : ∀ all tree todo, q.checking = some (all, tree, todo) →
      Progress d all b₁.deeds tree todo) :
    (b₁.intend d i id q).Sound d := by
  unfold Broker.intend
  split
  · exact h.stop hp hin hnear
  · exact h.stay hp hin { hnear with
    good := ⟨hnear.good.verified, hnear.good.offered, hnear.good.cap⟩ } hqin htree hchecks

theorem Broker.Sound.nextCheck {id : String} {tree : Tree} {passed : Bool} {todo : List Check}
    (htree : b.workspace = tree) (hchecks : Progress d passed b.deeds tree todo) :
    (b.nextCheck d i id tree passed todo).Sound d := by
  cases todo with
  | nil =>
    apply h.stay hp hin h.near rfl
    · intro t ht
      cases ht
      exact htree
    · intro all t todo htodo
      cases htodo
      exact hchecks
  | cons check rest =>
    apply h.intend hp hin h.near id rfl
    · intro t ht
      cases ht
      exact htree
    · intro all t todo htodo
      cases htodo
      exact hchecks

/-- A place without a verification asks nothing of the workspace or the deeds. -/
theorem Broker.Sound.plain (hnear : Near d b b₁) (hqin : q.inside = true) (htree : q.tree = none)
    (hchecking : q.checking = none) : (b₁.setPhase i q).Sound d := by
  apply h.stay hp hin hnear hqin
  · intro tree ht
    rw [htree] at ht
    cases ht
  · intro all tree todo ht
    rw [hchecking] at ht
    cases ht

/-- A place further on in the same verification, with as much left to do. -/
theorem Broker.Sound.onward
    (hqin : q.inside = true) (htree : q.tree = p.tree) (hchecking : q.checking = p.checking) :
    (b.setPhase i q).Sound d := by
  have hmem := mem_of_getElem? hp
  apply h.stay hp hin h.near hqin
  · intro tree ht
    exact h.tree p hmem tree (htree ▸ ht)
  · intro all tree todo ht
    exact h.checks p hmem all tree todo (hchecking ▸ ht)

end

end

/-- The start of a tool: nothing is verified any more. -/
theorem near_tool (tool : Tool) : Near d b ({ b with verifiedTree := none }.deed (.tool tool)) := by
  refine ⟨⟨?_, h.offered.deed trivial, h.cap⟩, rfl, rfl, _, rfl⟩
  intro tree ht
  cases ht

/-- The end of a check on the tree of the verification. -/
theorem near_check (check : Check) (tree : Tree) (passed : Bool) :
    Near d b (b.deed (.check check tree passed)) :=
  ⟨⟨fun t ht => (h.verified t ht).deed rfl, h.offered.deed trivial, h.cap⟩, rfl, rfl, _, rfl⟩

theorem advance_sound (hp : b.calls[i]? = some p) (out : Outside) :
    (b.advance d i out p).Sound d := by
  have hmem := mem_of_getElem? hp
  cases p with
  | toolTree id tool =>
    rw [Broker.advance]
    split
    · apply h.retainThen hp rfl h.near _ rfl <;> simp [Phase.tree, Phase.checking]
    split
    · exact h.stop hp rfl h.near
    · apply h.intend hp rfl h.near id rfl <;> simp [Phase.tree, Phase.checking]
  | toolPatch id tool =>
    rw [Broker.advance]
    split
    · exact h.stop hp rfl h.near
    · apply h.intend hp rfl h.near id rfl <;> simp [Phase.tree, Phase.checking]
  | toolAuthority tool => exact h.plain hp rfl (near_tool h tool) rfl rfl rfl
  | toolSandbox tool =>
    exact h.plain hp rfl ⟨{ h with }, rfl, rfl, [], (append_nil _).symm⟩
      rfl rfl rfl
  | toolAfter tool => apply h.retainThen hp rfl h.near _ rfl <;> simp [Phase.tree, Phase.checking]
  | toolLog tool => exact h.plain hp rfl h.near rfl rfl rfl
  | toolEvent tool =>
    rw [Broker.advance]
    split
    · exact h.plain hp rfl h.near rfl rfl rfl
    · exact h.stop hp rfl h.near
  | toolPublish => exact h.stop hp rfl h.near
  | verifyTree =>
    apply h.retainThen hp rfl h.near _ rfl
    · intro tree ht
      exact Option.some.inj ht
    · intro all tree todo ht
      cases ht
  | verifyDiff | checkAuthority | checkOutput => exact h.onward hp rfl rfl rfl rfl
  | verifyPublish tree =>
    exact h.nextCheck hp rfl (h.tree _ hmem tree rfl) (progress_start _ _)
  | checkSandbox tree check rest passed =>
    have htree := h.tree _ hmem tree rfl
    apply h.retainThen hp rfl (near_check h check _ _) _ rfl
    · intro t ht
      exact htree.trans (Option.some.inj ht)
    · intro all t todo ht
      cases ht
      rw [htree]
      exact (h.checks _ hmem passed tree (check :: rest) rfl).check out.passed
  | checkTree tree rest passed =>
    rw [Broker.advance]
    split
    · exact h.stop hp rfl h.near
    · exact h.onward hp rfl rfl rfl rfl
  | checkEvent tree rest passed =>
    exact h.nextCheck hp rfl (h.tree _ hmem tree rfl) (h.checks _ hmem passed tree rest rfl)
  | verifyLast tree passed =>
    rw [Broker.advance]
    split
    · exact h.stop hp rfl h.near
    · have hprogress := h.checks _ hmem passed tree [] rfl
      refine h.leave hp rfl ⟨⟨?_, h.offered, h.cap⟩, rfl, rfl, [], (append_nil _).symm⟩ rfl ?_
      · intro t ht
        cases passed with
        | false => cases ht
        | true =>
          cases ht
          exact hprogress.proven
      · intro t ht
        cases ht
        exact hprogress.ran
  | result tree passed =>
    have hran := h.returned _ hmem tree rfl
    exact h.outer (.inr ⟨_, rfl, rfl, hran⟩)
  | commitTree =>
    rw [Broker.advance]
    split
    · next hverified =>
      exact h.outer (.inr ⟨_, rfl, rfl, h.verified _ hverified⟩)
    · exact h.outer (.inl rfl)
  | ended => exact h

theorem fail_sound (hp : b.calls[i]? = some p) (out : Outside) : (b.fail d i out p).Sound d := by
  have hnear : Near d b (b.damaged d out p) := by
    unfold Broker.damaged
    split
    · exact ⟨{ h with }, rfl, rfl, [], (append_nil _).symm⟩
    · exact h.near
  unfold Broker.fail
  by_cases hin : p.inside = true
  · rw [if_pos hin]
    exact h.stop hp hin hnear
  · cases p with
    | result tree passed | commitTree | ended => exact h.outer (.inl rfl)
    | _ => exact absurd rfl hin

end

end Step

/-! ## Runs -/

/-- A call begins that has neither verified nor returned anything. -/
theorem Broker.Sound.call {busy : Bool} (h : b.Sound d)
    (hbusy : ∀ x ∈ b.calls ++ [p], x.inside = true → busy = true)
    (halone : ∀ (i j : ℕ) (x y : Phase), (b.calls ++ [p])[i]? = some x →
      (b.calls ++ [p])[j]? = some y → x.inside = true → y.inside = true → i = j)
    (htree : p.tree = none) (hchecking : p.checking = none) (hreturned : p.returned = none) :
    ({ b with busy := busy, calls := b.calls ++ [p] } : Broker).Sound d := by
  refine ⟨{ h with }, hbusy, halone, ?_, ?_, ?_⟩
  · intro x hx tree ht
    rcases mem_append.mp hx with hx | hx
    · exact h.tree x hx tree ht
    · rw [mem_singleton.mp hx, htree] at ht
      cases ht
  · intro x hx all tree todo ht
    rcases mem_append.mp hx with hx | hx
    · exact h.checks x hx all tree todo ht
    · rw [mem_singleton.mp hx, hchecking] at ht
      cases ht
  · intro x hx tree ht
    rcases mem_append.mp hx with hx | hx
    · exact h.returned x hx tree ht
    · rw [mem_singleton.mp hx, hreturned] at ht
      cases ht

/-- A call enters one of the two methods while no other is in them. -/
theorem Broker.Sound.enter (h : b.Sound d) (hidle : b.busy = false)
    (htree : p.tree = none) (hchecking : p.checking = none) (hreturned : p.returned = none) :
    ({ b with busy := true, calls := b.calls ++ [p] } : Broker).Sound d := by
  have hout : ∀ x ∈ b.calls, x.inside = false := by
    intro x hx
    by_contra hin
    rw [h.busy x hx (by simpa using hin)] at hidle
    cases hidle
  have hat : ∀ (m : ℕ) (z : Phase), (b.calls ++ [p])[m]? = some z → z.inside = true →
      m = b.calls.length := by
    intro m z hz hzin
    rcases Nat.lt_or_ge m b.calls.length with hlt | hge
    · rw [getElem?_append_left hlt] at hz
      rw [hout z (mem_of_getElem? hz)] at hzin
      cases hzin
    · have hlt := (List.getElem?_eq_some_iff.mp hz).1
      rw [List.length_append, length_singleton] at hlt
      omega
  apply h.call (fun _ _ _ => rfl) _ htree hchecking hreturned
  intro j k x y hx hy hxin hyin
  rw [hat j x hx hxin, hat k y hy hyin]

theorem Broker.Sound.commit (h : b.Sound d) :
    ({ b with calls := b.calls ++ [.commitTree] } : Broker).Sound d := by
  have hold : ∀ (m : ℕ) (z : Phase), (b.calls ++ [.commitTree])[m]? = some z → z.inside = true →
      b.calls[m]? = some z := by
    intro m z hz hzin
    rcases Nat.lt_or_ge m b.calls.length with hlt | hge
    · rwa [getElem?_append_left hlt] at hz
    · rw [getElem?_append_right hge] at hz
      rw [mem_singleton.mp (mem_of_getElem? hz)] at hzin
      cases hzin
  apply h.call _ _ rfl rfl rfl
  · intro x hx hin
    obtain ⟨m, hm⟩ := mem_iff_getElem?.mp hx
    exact h.busy x (mem_of_getElem? (hold m x hm hin)) hin
  · intro j k x y hx hy hxin hyin
    exact h.alone j k x y (hold j x hx hxin) (hold k y hy hyin) hxin hyin

/-- A new broker over artifacts that are within the cap. -/
theorem new_sound (workspace : Tree) {records : List (ℕ × ℕ)}
    (hrecords : b.records = records) (hcap : b.total d.jobId ≤ d.perJob) :
    (⟨workspace, false, none, [], records, [], []⟩ : Broker).Sound d := by
  subst hrecords
  refine ⟨⟨?_, ?_, hcap⟩, ?_, ?_, ?_, ?_, ?_⟩
  · intro tree ht
    cases ht
  · intro before after x hsplit
    simp at hsplit
  · intro p hp
    cases hp
  · intro i j p q hp
    simp at hp
  · intro p hp
    cases hp
  · intro p hp
    cases hp
  · intro p hp
    cases hp

theorem step_sound (m : Move) (h : b.Sound d) : (step d m b).2.Sound d := by
  cases m with
  | tool | verify =>
    rw [step]
    split
    · exact h
    · next hbusy =>
      simp only [Bool.or_eq_true, not_or, Bool.not_eq_true] at hbusy
      exact h.enter hbusy.1 rfl rfl rfl
  | commit =>
    rw [step]
    split
    · exact h
    · exact h.commit
  | summary size =>
    rw [step]
    cases hretain : b.retain d size with
    | none => exact h
    | some b' =>
      obtain ⟨records, rfl, hgood⟩ := h.toGood.retain hretain
      exact ⟨hgood, h.busy, h.alone, h.tree, h.checks, h.returned⟩
  | advance i out =>
    rw [step]
    split
    · next p hp =>
      split
      · exact fail_sound h hp out
      · exact advance_sound h hp out
    · exact h
  | attempt workspace => exact new_sound workspace rfl h.cap

/-- In every run of brokers of a job, each commit is made of a tree on which every required check
passed, with no tool run after the first of them; each result names a tree on which every required
check ran, with no tool run in between; and the retained artifacts stay within the cap. -/
theorem commit_proven (d : Descriptor) (workspace : Tree) (ms : List Move)
    (e : Event Broker Move Unit) (he : e ∈ history (step d) (Broker.start workspace) ms) :
    (∀ before after tree, e.post.deeds = before ++ .commit tree :: after → Proven d before tree) ∧
      (∀ before after tree, e.post.deeds = before ++ .prepared tree :: after → Ran d before tree) ∧
      e.post.total d.jobId ≤ d.perJob := by
  have hstart : (Broker.start workspace).Sound d :=
    new_sound (b := Broker.start workspace) workspace rfl (Nat.zero_le _)
  have hsound := ((history_inv (step d) (Broker.start workspace) ms hstart
    fun m _ hb => step_sound m hb).2 e he).2
  exact ⟨fun before after tree => hsound.offered before after (.commit tree),
    fun before after tree => hsound.offered before after (.prepared tree), hsound.cap⟩

namespace Example

/-- A job with one required check. -/
def descriptor : Descriptor where
  jobId := 1
  jobKind := "change"
  actions := ["repository.edit", "checks.run"]
  requiredChecks := [⟨"unit"⟩]
  toolRounds := 4
  perFile := 100
  perJob := 100

/-- A verification whose check ends as given, and a commit or the result after it. -/
def moves (passed : Bool) : List Move :=
  [.verify, .advance 0 {}, .advance 0 {}, .advance 0 {}, .advance 0 {},
    .advance 0 { passed := passed }, .advance 0 {}, .advance 0 {}, .advance 0 {}, .advance 0 {},
    .advance 0 {}, .commit, .advance 1 { tree := "tree" }]

end Example

open Example in
/-- The check passes, and the tree is committed. -/
theorem checked_committed :
    ∃ e ∈ history (step descriptor) (Broker.start "tree") (moves true),
      e.post.deeds = [.check ⟨"unit"⟩ "tree" true, .prepared "tree", .commit "tree"] ∧
      Proven descriptor [.check ⟨"unit"⟩ "tree" true, .prepared "tree"] "tree" := by
  obtain ⟨e, he, hdeeds⟩ : ∃ e ∈ history (step descriptor) (Broker.start "tree") (moves true),
      e.post.deeds = [.check ⟨"unit"⟩ "tree" true, .prepared "tree", .commit "tree"] :=
    ⟨_, mem_of_getElem? (i := 12) rfl, by decide⟩
  exact ⟨e, he, hdeeds, (commit_proven descriptor "tree" (moves true) e he).1 _ [] "tree" hdeeds⟩

open Example in
/-- The check fails, and the result names the tree all the same. -/
theorem failed_check_prepared :
    ¬ ∀ (d : Descriptor) (workspace : Tree) (ms : List Move),
      ∀ e ∈ history (step d) (Broker.start workspace) ms,
        ∀ before after tree, e.post.deeds = before ++ .prepared tree :: after →
          Proven d before tree := by
  intro h
  have hdeeds : ∃ e ∈ history (step descriptor) (Broker.start "tree") (moves false),
      e.post.deeds = [.check ⟨"unit"⟩ "tree" false] ++ .prepared "tree" :: [] :=
    ⟨_, mem_of_getElem? (i := 12) rfl, by decide⟩
  obtain ⟨e, he, hdeeds⟩ := hdeeds
  obtain ⟨before, after, hsplit, -, hchecks⟩ := h _ _ _ e he _ _ _ hdeeds
  have hmem := mem_append_right before (hchecks ⟨"unit"⟩ (by decide))
  rw [← hsplit] at hmem
  revert hmem
  decide

end GrowTeam.Runtime.Tools
