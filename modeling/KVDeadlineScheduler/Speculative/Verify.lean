-- SUMMARY: Runs of verification, parents before children: which of them drop a committed block.
import KVDeadlineScheduler.Speculative.SpecIntent

/-!
# Runs of verification

An accepted node commits the blocks of its whole subtree, before its children are
verified. A child that is rejected later then drops blocks that are committed.
-/

namespace KVMemoryIntent

/-- The outcome of one verification. -/
structure Verdict where
  event : MemoryIntentEvent
  accepted : Bool

def Verdict.nodeId (v : Verdict) : ℤ := v.event.intent.blockId

def processVerdict (tree : DraftTree) (state : SpeculativeIntentPolicy × CurrentBlocks) (v : Verdict) :
    Except Failure (SpeculativeIntentPolicy × CurrentBlocks) :=
  processVerifyEvent state.1 v.event tree v.accepted state.2

/-- A rejection drops no block that is committed. -/
def DropsUncommitted (tree : DraftTree) (state : SpeculativeIntentPolicy × CurrentBlocks) (v : Verdict) :
    Prop :=
  v.accepted = false → ∀ next, processVerdict tree state v = .ok next →
    ∀ id block, state.2.get? id = some block → next.2.get? id = none → block.1.isCommitted = false

/-- Every node of the tree has a block, which is a draft that is not committed. -/
def AllDrafts (tree : DraftTree) (blocks : CurrentBlocks) : Prop :=
  ∀ id node, tree.nodes.get? id = some node →
    ∃ block, blocks.get? node.kvObjectId = some block ∧ block.1.isDraft = true ∧
      block.1.isCommitted = false

/-- Each node is verified at most once, and only after its parent has been accepted. -/
structure ParentsFirst (tree : DraftTree) (verdicts : List Verdict) : Prop where
  once : (verdicts.map Verdict.nodeId).Nodup
  node : ∀ v ∈ verdicts, ∃ node, tree.nodes.get? v.nodeId = some node
  parent : ∀ earlier v later, verdicts = earlier ++ v :: later → ∀ p, tree.Child p v.nodeId →
    ∃ u ∈ earlier, u.accepted = true ∧ u.nodeId = p

/-- Some block of the subtree has been committed with that of another node, and nothing has dropped
it yet. -/
def Exposed (tree : DraftTree) (earlier : List Verdict) (v : Verdict) : Prop :=
  ∃ id, tree.Holds v.nodeId id ∧ (∃ u ∈ earlier, u.accepted = true ∧ tree.Holds u.nodeId id) ∧
    ∀ w ∈ earlier, w.accepted = false → ¬tree.Holds w.nodeId id

namespace DraftTree

/-- Different nodes have different blocks. -/
def Distinct (tree : DraftTree) : Prop :=
  ∀ i j a b, tree.nodes.get? i = some a → tree.nodes.get? j = some b → a.kvObjectId = b.kvObjectId → i = j

def IsRoot (tree : DraftTree) (nodeId : ℤ) : Prop := ∀ p, ¬tree.Child p nodeId

end DraftTree

/-! ## One block along a run -/

section Runs

variable {tree : DraftTree} (hacyclic : tree.Acyclic)
  {state next : SpeculativeIntentPolicy × CurrentBlocks} {v : Verdict} {verdicts : List Verdict}
include hacyclic

/-- A verdict is processed, and decides about the blocks of its subtree only. -/
theorem processVerdict_ok (state : SpeculativeIntentPolicy × CurrentBlocks) (v : Verdict) :
    ∃ next, processVerdict tree state v = .ok next ∧
      ∀ id, (tree.Holds v.nodeId id →
          next.2.get? id = if v.accepted then (state.2.get? id).map acceptedBlock else none) ∧
        (¬tree.Holds v.nodeId id → next.2.get? id = state.2.get? id) := by
  unfold processVerdict
  cases v.accepted with
  | true =>
    obtain ⟨blocks', hrun, hget⟩ :=
      processVerifyEvent_accepted state.1 v.event hacyclic state.2
    exact ⟨_, hrun, hget⟩
  | false =>
    obtain ⟨policy', blocks', hrun, hget⟩ :=
      processVerifyEvent_rejected state.1 v.event hacyclic state.2
    exact ⟨_, hrun, hget⟩

theorem processVerdict_get? (h : processVerdict tree state v = .ok next) (id : String) :
    (tree.Holds v.nodeId id →
        next.2.get? id = if v.accepted then (state.2.get? id).map acceptedBlock else none) ∧
      (¬tree.Holds v.nodeId id → next.2.get? id = state.2.get? id) := by
  obtain ⟨next', hrun, hget⟩ := processVerdict_ok hacyclic state v
  cases h.symm.trans hrun
  exact hget id

/-- A block that is gone does not come back. -/
theorem gone_after (h : Replay.run (processVerdict tree) state verdicts = .ok next) {id : String}
    (hgone : state.2.get? id = none) : next.2.get? id = none := by
  refine Replay.run_always (P := fun s => s.2.get? id = none) (fun s v t hs hstep => ?_) hgone h
  obtain ⟨hholds, hothers⟩ := processVerdict_get? hacyclic hstep id
  by_cases hid : tree.Holds v.nodeId id
  · rw [hholds hid, hs]
    simp
  · rw [hothers hid, hs]

/-- What a run has made of a block: it has been dropped by a rejection, or it is there, and committed
if it was or some acceptance has committed it. -/
theorem block_after (h : Replay.run (processVerdict tree) state verdicts = .ok next) {id : String}
    {block : ValidIntent} (hblock : state.2.get? id = some block) :
    (next.2.get? id = none ∧ ∃ w ∈ verdicts, w.accepted = false ∧ tree.Holds w.nodeId id) ∨
      (∀ w ∈ verdicts, w.accepted = false → ¬tree.Holds w.nodeId id) ∧
        ∃ block', next.2.get? id = some block' ∧ (block'.1.isCommitted = true ↔
          block.1.isCommitted = true ∨ ∃ u ∈ verdicts, u.accepted = true ∧ tree.Holds u.nodeId id) := by
  induction verdicts generalizing state block with
  | nil =>
    cases h
    exact .inr ⟨by simp, block, hblock, by simp⟩
  | cons v verdicts ih =>
    obtain ⟨t, hstep, hrest⟩ := Replay.run_cons_ok.mp h
    obtain ⟨hholds, hothers⟩ := processVerdict_get? hacyclic hstep id
    by_cases hid : tree.Holds v.nodeId id
    · cases haccepted : v.accepted with
      | false =>
        rw [haccepted, if_neg Bool.false_ne_true] at hholds
        have hgone := gone_after hacyclic hrest (hholds hid)
        exact .inl ⟨hgone, v, List.mem_cons_self, haccepted, hid⟩
      | true =>
        rw [haccepted, if_pos rfl, hblock] at hholds
        rcases ih hrest (hholds hid) with ⟨hgone, w, hw, hrejects⟩ | ⟨hkept, block', hget, hiff⟩
        · exact .inl ⟨hgone, w, List.mem_cons_of_mem v hw, hrejects⟩
        · refine .inr ⟨?_, block', hget, ?_⟩
          · simpa [haccepted] using hkept
          · have hcommitted : (acceptedBlock block).1.isCommitted = true := rfl
            simp only [hiff, hcommitted, true_or, true_iff]
            exact .inr ⟨v, List.mem_cons_self, haccepted, hid⟩
    · rw [hblock] at hothers
      rcases ih hrest (hothers hid) with ⟨hgone, w, hw, hrejects⟩ | ⟨hkept, block', hget, hiff⟩
      · exact .inl ⟨hgone, w, List.mem_cons_of_mem v hw, hrejects⟩
      · refine .inr ⟨?_, block', hget, ?_⟩
        · simpa [hid] using hkept
        · simpa [hid] using hiff

theorem run_ok_of_acyclic (state : SpeculativeIntentPolicy × CurrentBlocks) (verdicts : List Verdict) :
    ∃ next, Replay.run (processVerdict tree) state verdicts = .ok next := by
  have hstep : ∀ s v, True → True → ∃ t, processVerdict tree s v = .ok t ∧ True := by
    intro s v _ _
    obtain ⟨t, ht, -⟩ := processVerdict_ok hacyclic s v
    exact ⟨t, ht, trivial⟩
  have hall : Replay.Meets (processVerdict tree) (fun _ _ => True) state verdicts :=
    .of_forall_mem fun _ _ => trivial
  obtain ⟨next, hrun, -⟩ := Replay.run_progress hstep trivial hall
  exact ⟨next, hrun⟩

/-! ## Safe runs -/

/-- A run drops committed blocks exactly if it rejects a node that is exposed. -/
theorem dropsUncommitted_iff_not_exposed (policy : SpeculativeIntentPolicy) {blocks : CurrentBlocks}
    (hdrafts : AllDrafts tree blocks) (verdicts : List Verdict) :
    Replay.Meets (processVerdict tree) (DropsUncommitted tree) (policy, blocks) verdicts ↔
      ∀ earlier v later, verdicts = earlier ++ v :: later → v.accepted = false → ¬Exposed tree earlier v := by
  have hstart : ∀ {nodeId id}, tree.Holds nodeId id →
      ∃ block, blocks.get? id = some block ∧ block.1.isCommitted = false := by
    rintro nodeId _ ⟨i, node, hnode, -, rfl⟩
    obtain ⟨block, hblock, -, hcommitted⟩ := hdrafts i node hnode
    exact ⟨block, hblock, hcommitted⟩
  constructor
  · rintro hmeets earlier v later rfl hrejected ⟨id, hid, haccepted, hkept⟩
    obtain ⟨t, ht⟩ := run_ok_of_acyclic hacyclic (policy, blocks) earlier
    obtain ⟨block, hblock, -⟩ := hstart hid
    rcases block_after hacyclic ht hblock with ⟨-, w, hw, hrejects, hholds⟩ | ⟨-, block', hget, hiff⟩
    · exact hkept w hw hrejects hholds
    · obtain ⟨next, hnext, hall⟩ := processVerdict_ok hacyclic t v
      have hgone := (hall id).1 hid
      rw [hrejected, if_neg Bool.false_ne_true] at hgone
      have hsafe := (hmeets.after ht).head hrejected next hnext id block' hget hgone
      rw [hiff.mpr (.inr haccepted)] at hsafe
      cases hsafe
  · intro hnone
    refine .of_forall_before fun earlier v later t hsplit ht hrejected next hnext id block hget hgone => ?_
    have hid : tree.Holds v.nodeId id := by
      by_contra hid
      rw [(processVerdict_get? hacyclic hnext id).2 hid, hget] at hgone
      cases hgone
    obtain ⟨first, hfirst, huncommitted⟩ := hstart hid
    rcases block_after hacyclic ht hfirst with ⟨hdropped, -⟩ | ⟨hkept, block', hget', hiff⟩
    · rw [hget] at hdropped
      cases hdropped
    · cases hget.symm.trans hget'
      rw [← Bool.not_eq_true, hiff, huncommitted]
      rintro (hcommitted | haccepted)
      · cases hcommitted
      · exact hnone earlier v later hsplit hrejected ⟨id, hid, haccepted, hkept⟩

omit hacyclic in
/-- All nodes above a node that is verified have been accepted. -/
theorem ParentsFirst.ancestors_accepted (hfirst : ParentsFirst tree verdicts) {w target : ℤ}
    (habove : Relation.TransGen tree.Child w target) :
    ∀ earlier v later, verdicts = earlier ++ v :: later → v.nodeId = target →
      ∃ u ∈ earlier, u.accepted = true ∧ u.nodeId = w := by
  induction habove with
  | single hchild =>
    rintro earlier v later hsplit rfl
    exact hfirst.parent earlier v later hsplit w hchild
  | tail _ hchild ih =>
    rintro earlier v later hsplit rfl
    obtain ⟨p, hp, -, rfl⟩ := hfirst.parent earlier v later hsplit _ hchild
    obtain ⟨before, after, rfl⟩ := List.append_of_mem hp
    rw [List.append_assoc, List.cons_append] at hsplit
    obtain ⟨u, hu, haccepted, hname⟩ := ih before p _ hsplit rfl
    exact ⟨u, List.mem_append_left _ hu, haccepted, hname⟩

end Runs

section Distinct

variable {tree : DraftTree} {verdicts earlier later : List Verdict} {u v : Verdict}

theorem ParentsFirst.eq_of_nodeId (hfirst : ParentsFirst tree verdicts) (hu : u ∈ verdicts)
    (hv : v ∈ verdicts) (h : u.nodeId = v.nodeId) : u = v :=
  List.inj_on_of_nodup_map hfirst.once hu hv h

/-- Where blocks are distinct, a subtree holds the block of a node if the node is in it. -/
theorem DraftTree.Distinct.holds_iff (hdistinct : tree.Distinct) {nodeId id : ℤ} {node : DraftNode}
    (hnode : tree.nodes.get? id = some node) : tree.Holds nodeId node.kvObjectId ↔ tree.Below nodeId id := by
  constructor
  · rintro ⟨i, other, hother, hbelow, heq⟩
    rw [← hdistinct i id other node hother hnode heq]
    exact hbelow
  · exact fun hbelow => ⟨id, node, hnode, hbelow, rfl⟩

/-- Nothing that is verified before a node rejects one above it. -/
theorem ParentsFirst.not_rejected_above (hfirst : ParentsFirst tree verdicts)
    (hsplit : verdicts = earlier ++ v :: later) {w : Verdict} (hw : w ∈ earlier)
    (hbelow : tree.Below w.nodeId v.nodeId) : w.accepted = true := by
  have hin : ∀ u ∈ earlier, u ∈ verdicts := fun u hu => by
    rw [hsplit]
    exact List.mem_append_left _ hu
  rcases Relation.reflTransGen_iff_eq_or_transGen.mp hbelow with heq | habove
  · -- no node is verified twice
    have hnodup := hfirst.once
    rw [hsplit, List.map_append, List.nodup_append] at hnodup
    exact absurd heq.symm (hnodup.2.2 _ (List.mem_map_of_mem hw) _ (by simp))
  · obtain ⟨u, hu, haccepted, hname⟩ := hfirst.ancestors_accepted habove earlier v later hsplit rfl
    rw [← hfirst.eq_of_nodeId (hin u hu) (hin w hw) hname]
    exact haccepted

/-- With distinct blocks, parents first, the exposed nodes are those that are not roots. -/
theorem ParentsFirst.exposed_iff (hfirst : ParentsFirst tree verdicts) (hdistinct : tree.Distinct)
    (hsplit : verdicts = earlier ++ v :: later) (hrejected : v.accepted = false) :
    Exposed tree earlier v ↔ ¬tree.IsRoot v.nodeId := by
  have hv : v ∈ verdicts := by simp [hsplit]
  constructor
  · rintro ⟨_, ⟨i, node, hnode, hbelow, rfl⟩, ⟨u, hu, haccepted, hholds⟩, -⟩ hroot
    rw [hdistinct.holds_iff hnode] at hholds
    rcases Forest.below_total tree.nodes.nodup hbelow hholds with hvu | huv
    · -- the root would have been accepted before
      obtain ⟨before, after, hearlier⟩ := List.append_of_mem hu
      have hu' : u ∈ verdicts := by simp [hsplit, hu]
      rcases Relation.reflTransGen_iff_eq_or_transGen.mp hvu with heq | habove
      · rw [hfirst.eq_of_nodeId hu' hv heq, hrejected] at haccepted
        cases haccepted
      · rw [hearlier, List.append_assoc, List.cons_append] at hsplit
        obtain ⟨w, hw, haccepted', hname⟩ := hfirst.ancestors_accepted habove before u _ hsplit rfl
        have hw' : w ∈ verdicts := by simp [hsplit, hw]
        rw [hfirst.eq_of_nodeId hw' hv hname, hrejected] at haccepted'
        cases haccepted'
    · rcases Relation.ReflTransGen.cases_tail huv with heq | ⟨p, -, hchild⟩
      · have hu' : u ∈ verdicts := by simp [hsplit, hu]
        rw [hfirst.eq_of_nodeId hu' hv heq.symm, hrejected] at haccepted
        cases haccepted
      · exact hroot p hchild
  · intro hroot
    simp only [DraftTree.IsRoot, not_forall, not_not] at hroot
    obtain ⟨p, hchild⟩ := hroot
    obtain ⟨node, hnode⟩ := hfirst.node v hv
    obtain ⟨u, hu, haccepted, rfl⟩ := hfirst.parent earlier v later hsplit p hchild
    refine ⟨node.kvObjectId, ?_, ⟨u, hu, haccepted, ?_⟩, fun w hw hfalse hholds => ?_⟩
    · exact (hdistinct.holds_iff hnode).mpr .refl
    · exact (hdistinct.holds_iff hnode).mpr (.single hchild)
    · have htrue := hfirst.not_rejected_above hsplit hw ((hdistinct.holds_iff hnode).mp hholds)
      rw [hfalse] at htrue
      cases htrue

end Distinct

/-- Committed blocks and rejection. In any run, exactly those rejections drop a committed block that
meet an exposed node. If nodes have distinct blocks and are verified parents first, a run is safe
exactly if it rejects roots only. -/
theorem dropsUncommitted_iff {tree : DraftTree} {blocks : CurrentBlocks} {verdicts : List Verdict}
    (hacyclic : tree.Acyclic) (hdrafts : AllDrafts tree blocks) (hfirst : ParentsFirst tree verdicts)
    (policy : SpeculativeIntentPolicy) :
    (Replay.Meets (processVerdict tree) (DropsUncommitted tree) (policy, blocks) verdicts ↔
      ∀ earlier v later, verdicts = earlier ++ v :: later → v.accepted = false →
        ¬Exposed tree earlier v) ∧
    (tree.Distinct →
      (Replay.Meets (processVerdict tree) (DropsUncommitted tree) (policy, blocks) verdicts ↔
        ∀ v ∈ verdicts, v.accepted = false → tree.IsRoot v.nodeId)) := by
  have hiff := dropsUncommitted_iff_not_exposed hacyclic policy hdrafts verdicts
  refine ⟨hiff, fun hdistinct => hiff.trans ⟨fun h v hv hrejected => ?_, fun h => ?_⟩⟩
  · obtain ⟨earlier, later, hsplit⟩ := List.append_of_mem hv
    by_contra hroot
    exact h earlier v later hsplit hrejected ((hfirst.exposed_iff hdistinct hsplit hrejected).mpr hroot)
  · intro earlier v later hsplit hrejected hexposed
    exact (hfirst.exposed_iff hdistinct hsplit hrejected).mp hexposed
      (h v (by simp [hsplit]) hrejected)

/-! ## A node and its child -/

def chainNode (parentId : Option ℤ) (depth : ℤ) (kvObjectId : String) : DraftNode where
  tokenId := 1000 + depth
  parentId := parentId
  depth := depth
  acceptanceProb := 1 / 2
  kvObjectId := kvObjectId

def chainTree : DraftTree where
  nodes := (OrderedDict.empty.set 1 (chainNode none 0 "draft:1")).set 2 (chainNode (some 1) 1 "draft:2")

def chainIntent (blockId : ℤ) (objectId : String) : MemoryIntent :=
  { sampleIntent objectId {.hbm, .dram} .hbm with
    blockId := blockId
    isDraft := true }

def chainBlocks : CurrentBlocks :=
  (OrderedDict.empty.set "draft:1" ⟨chainIntent 1 "draft:1", by decide +kernel⟩).set "draft:2"
    ⟨chainIntent 2 "draft:2", by decide +kernel⟩

def acceptParent : Verdict := ⟨sampleEvent 0 .accessed (chainIntent 1 "draft:1"), true⟩

def rejectChild : Verdict := ⟨sampleEvent 1 .accessed (chainIntent 2 "draft:2"), false⟩

theorem acceptParent_nodeId : acceptParent.nodeId = 1 := by decide +kernel

theorem rejectChild_nodeId : rejectChild.nodeId = 2 := by decide +kernel

theorem chainTree_get? {id : ℤ} {node : DraftNode} (h : chainTree.nodes.get? id = some node) :
    id = 1 ∧ node = chainNode none 0 "draft:1" ∨ id = 2 ∧ node = chainNode (some 1) 1 "draft:2" := by
  rw [chainTree, OrderedDict.get?_set, OrderedDict.get?_set] at h
  split at h
  · cases h
    exact .inr ⟨‹_›, rfl⟩
  · split at h
    · cases h
      exact .inl ⟨‹_›, rfl⟩
    · cases h

theorem chainTree_child {p id : ℤ} (h : chainTree.Child p id) : p = 1 ∧ id = 2 := by
  obtain ⟨node, hin, hparent⟩ := h
  rcases chainTree_get? (OrderedDict.get?_eq_some_iff.mpr hin) with ⟨rfl, rfl⟩ | ⟨rfl, rfl⟩
  · cases hparent
  · cases hparent
    exact ⟨rfl, rfl⟩

theorem chainTree_acyclic : chainTree.Acyclic :=
  Forest.acyclic_of_lt fun p id h => by
    obtain ⟨rfl, rfl⟩ := chainTree_child h
    decide

theorem chainBlocks_drafts : AllDrafts chainTree chainBlocks := by
  intro id node hnode
  rcases chainTree_get? hnode with ⟨rfl, rfl⟩ | ⟨rfl, rfl⟩
  · exact ⟨_, rfl, rfl, rfl⟩
  · exact ⟨_, rfl, rfl, rfl⟩

theorem chain_parentsFirst : ParentsFirst chainTree [acceptParent, rejectChild] where
  once := by simp [acceptParent_nodeId, rejectChild_nodeId]
  node := by
    simp only [List.forall_mem_cons, acceptParent_nodeId, rejectChild_nodeId]
    exact ⟨⟨_, rfl⟩, ⟨_, rfl⟩, by simp⟩
  parent := by
    intro earlier v later hsplit p hchild
    obtain ⟨rfl, hname⟩ := chainTree_child hchild
    refine ⟨acceptParent, ?_, rfl, acceptParent_nodeId⟩
    cases earlier with
    | nil =>
      cases hsplit
      rw [acceptParent_nodeId] at hname
      cases hname
    | cons u earlier =>
      obtain ⟨rfl, -⟩ := List.cons.inj hsplit
      exact List.mem_cons_self

theorem dropsUncommitted_iff_chain :
    (Replay.Meets (processVerdict chainTree) (DropsUncommitted chainTree) ({}, chainBlocks)
        [acceptParent, rejectChild] ↔
      ∀ earlier v later, [acceptParent, rejectChild] = earlier ++ v :: later → v.accepted = false →
        ¬Exposed chainTree earlier v) ∧
    (chainTree.Distinct →
      (Replay.Meets (processVerdict chainTree) (DropsUncommitted chainTree) ({}, chainBlocks)
          [acceptParent, rejectChild] ↔
        ∀ v ∈ [acceptParent, rejectChild], v.accepted = false → chainTree.IsRoot v.nodeId)) :=
  dropsUncommitted_iff chainTree_acyclic chainBlocks_drafts chain_parentsFirst {}

/-- Once its parent is accepted, the child is committed; its rejection drops it. -/
theorem committed_child_dropped :
    chainTree.Acyclic ∧ AllDrafts chainTree chainBlocks ∧
    ParentsFirst chainTree [acceptParent, rejectChild] ∧
    ∃ before after, Replay.run (processVerdict chainTree) ({}, chainBlocks) [acceptParent] = .ok before ∧
      processVerdict chainTree before rejectChild = .ok after ∧
      ∃ block, before.2.get? "draft:2" = some block ∧ block.1.isCommitted = true ∧
        after.2.get? "draft:2" = none := by
  refine ⟨chainTree_acyclic, chainBlocks_drafts, chain_parentsFirst, ?_⟩
  obtain ⟨before, hbefore, h⟩ := Replay.exists_of_check
    (x := Replay.run (processVerdict chainTree) ({}, chainBlocks) [acceptParent])
    (p := fun before => (before.2.get? "draft:2").any (fun block => block.1.isCommitted) &&
      match processVerdict chainTree before rejectChild with
      | .ok after => after.2.get? "draft:2" = none
      | .error _ => false) (by decide +kernel)
  obtain ⟨hcommitted, hrejected⟩ := Bool.and_eq_true_iff.mp h
  obtain ⟨after, hafter, hdropped⟩ := Replay.exists_of_check
    (x := processVerdict chainTree before rejectChild) (p := fun after => after.2.get? "draft:2" = none)
    hrejected
  obtain ⟨block, hblock, hflag⟩ := (Option.any_eq_true _ _).mp hcommitted
  exact ⟨before, after, hbefore, hafter, block, hblock, hflag, of_decide_eq_true hdropped⟩

end KVMemoryIntent
