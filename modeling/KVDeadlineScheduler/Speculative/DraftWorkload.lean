-- SUMMARY: The generator of speculative workloads: a tree level by level, with two events for each node, and when it returns.
import KVDeadlineScheduler.Library.Decimal
import KVDeadlineScheduler.Simulator.Lifetime
import KVDeadlineScheduler.Speculative.SpecIntent

/-!
# Speculative workloads

The generator takes parents off a queue and gives each the same number of children.
Its random draws are a sequence of numbers, one for each node. Scores are exact.
-/

namespace KVMemoryIntent

/-! ## The generator -/

def draftObjectId (nodeId : ℤ) : String := "draft:" ++ toString nodeId

def clampProb (draw : ℚ) : ℚ := max (5 / 100) (min (95 / 100) draw)

/-- `int` of a positive number is its floor. -/
def draftIntent (nodeId depth step : ℤ) (acceptanceProb : ℚ) : MemoryIntent where
  objectId := draftObjectId nodeId
  requestId := "spec-req-0"
  blockId := nodeId
  objectType := .kvCache
  phase := .verify
  priority := if acceptanceProb ≥ 3 / 10 then .hot else .cold
  allowedTiers := {.hbm, .dram}
  currentTier := .hbm
  sizeBytes := 256 * 1024
  requestPriority := 80
  recencyScore := 1 - depth * (1 / 10)
  deadlineUs := some (max 1 ⌊(1 - acceptanceProb) * 2000⌋)
  slackUs := some (max 1 ⌊(1 - acceptanceProb) * 1000⌋)
  recomputeCostUs := some 1500
  spillCostUs := some 100
  expectedReuseWindowTokens := some (depth + 1)
  prefetchOk := false
  isDraft := true
  isCommitted := false
  createdStep := step
  lastAccessStep := step

/-- The locals of the generator. -/
structure WorkloadState where
  tree : DraftTree := {}
  events : List MemoryIntentEvent := []
  nodeId : ℕ := 0
  step : ℤ := 0
  frontier : List (Option ℤ × ℤ)

section Generator

variable (gauss : ℕ → ℚ) (treeWidth treeDepth : ℤ)

/-- One child of `parentId`. -/
def addNode (parentId : Option ℤ) (depth : ℤ) (st : WorkloadState) : Except Failure WorkloadState := do
  let acceptanceProb := clampProb (gauss st.nodeId)
  let node : DraftNode :=
    { tokenId := 1000 + st.nodeId
      parentId := parentId
      depth := depth
      acceptanceProb := acceptanceProb
      kvObjectId := draftObjectId st.nodeId }
  let intent ← (draftIntent st.nodeId depth st.step acceptanceProb).validated
  let allocated ← MemoryIntentEvent.postInit st.step .allocated intent (some "draft alloc") none
  let verified ← { intent.val with phase := .verify, recencyScore := 1 }.validated
  let accessed ← MemoryIntentEvent.postInit (st.step + 1) .accessed verified (some "draft access") none
  .ok
    { tree := { nodes := st.tree.nodes.set st.nodeId node }
      events := st.events ++ [allocated, accessed]
      nodeId := st.nodeId + 1
      step := st.step + 2
      frontier :=
        if depth + 1 < treeDepth then st.frontier ++ [(some (st.nodeId : ℤ), depth + 1)] else st.frontier }

/-- `for width_index in range(tree_width)`. -/
def addChildren (parentId : Option ℤ) (depth : ℤ) (st : WorkloadState) : Except Failure WorkloadState :=
  (List.range treeWidth.toNat).foldlM (fun st _ => addNode gauss treeDepth parentId depth st) st

/-- `while frontier`. -/
def growTree : ℕ → WorkloadState → Except Failure WorkloadState
  | 0, _ => .error .divergence
  | fuel + 1, st =>
    match st.frontier with
    | [] => .ok st
    | (parentId, depth) :: rest =>
      if depth ≥ treeDepth then
        growTree fuel { st with frontier := rest }
      else do
        let st ← addChildren gauss treeWidth treeDepth parentId depth { st with frontier := rest }
        growTree fuel st

/-- At most this many parents are taken off the queue for a tree of `levels` levels. -/
def rounds (width : ℕ) : ℕ → ℕ
  | 0 => 1
  | levels + 1 => 1 + width * rounds width levels

end Generator

def generateSpeculativeWorkload (gauss : ℕ → ℚ) (treeWidth : ℤ := 4) (treeDepth : ℤ := 3) :
    Except Failure (DraftTree × List MemoryIntentEvent) := do
  let st ← growTree gauss treeWidth treeDepth (rounds treeWidth.toNat treeDepth.toNat + 1)
    { frontier := [(none, 0)] }
  .ok (st.tree, st.events)

/-! ## Consecutive steps -/

/-- The events have consecutive steps from `n` on. -/
def StepsFrom (n : ℤ) (events : List MemoryIntentEvent) : Prop :=
  ∀ (i : ℕ) (e : MemoryIntentEvent), events[i]? = some e → e.step = n + i

section StepsFrom

variable {n : ℤ} {e : MemoryIntentEvent} {events new : List MemoryIntentEvent}

theorem StepsFrom.nil : StepsFrom n [] := by
  intro i e h
  simp at h

theorem StepsFrom.cons (he : e.step = n) (h : StepsFrom (n + 1) events) : StepsFrom n (e :: events) := by
  intro i e' he'
  cases i with
  | zero =>
    cases Option.some.inj he'
    simpa using he
  | succ i =>
    rw [h i e' he']
    push_cast
    ring

theorem StepsFrom.append (h : StepsFrom n events) (hnew : StepsFrom (n + events.length) new) :
    StepsFrom n (events ++ new) := by
  intro i e he
  rw [List.getElem?_append] at he
  split at he
  · exact h i e he
  · rw [hnew _ e he, Nat.cast_sub (by omega)]
    ring

/-- Such events are sorted. -/
theorem StepsFrom.pairwise (h : StepsFrom n events) : events.Pairwise fun a b => a.step ≤ b.step := by
  rw [List.pairwise_iff_getElem]
  intro i j hi hj hlt
  rw [h i _ (List.getElem?_eq_getElem hi), h j _ (List.getElem?_eq_getElem hj)]
  omega

/-- The step that comes next. -/
theorem StepsFrom.next (h : StepsFrom 0 events) :
    (events.map MemoryIntentEvent.step).max?.getD (-1) + 1 = events.length := by
  rcases List.eq_nil_or_concat events with rfl | ⟨init, last, rfl⟩
  · rfl
  · rw [List.concat_eq_append] at h ⊢
    have hlast : last.step = init.length := by
      rw [h init.length last (by simp), zero_add]
    have hmax : ((init ++ [last]).map MemoryIntentEvent.step).max? = some (init.length : ℤ) := by
      rw [List.max?_eq_some_iff]
      refine ⟨by simp [← hlast], fun step hstep => ?_⟩
      obtain ⟨e, he, rfl⟩ := List.mem_map.mp hstep
      obtain ⟨i, hi, rfl⟩ := List.mem_iff_getElem.mp he
      rw [h i _ (List.getElem?_eq_getElem hi), zero_add]
      rw [List.length_append, List.length_singleton] at hi
      omega
    rw [hmax, List.length_append]
    rfl

end StepsFrom

/-! ## What it has generated -/

/-- An event about a draft. -/
structure IsDraftEvent (e : MemoryIntentEvent) : Prop where
  objectId : e.objectId = draftObjectId e.intent.blockId
  allowedTiers : e.intent.allowedTiers = {.hbm, .dram}
  standing : e.intent.standing = ⟨true, false⟩

/-- Nodes are numbered in the order of their creation, below their parents, and each
is allocated and accessed as a draft. -/
structure Drafted (tree : DraftTree) (events : List MemoryIntentEvent) (count : ℕ) : Prop where
  keys : tree.nodes.keys = (List.range count).map fun n : ℕ => (n : ℤ)
  objectId : ∀ id node, tree.nodes.get? id = some node → node.kvObjectId = draftObjectId id
  parent : ∀ id node p, tree.nodes.get? id = some node → node.parentId = some p → 0 ≤ p ∧ p < id
  steps : StepsFrom 0 events
  eventType : ∀ e ∈ events, e.eventType = .allocated ∨ e.eventType = .accessed
  drafts : ∀ e ∈ events, IsDraftEvent e ∧ e.intent.blockId ∈ tree.nodes.keys
  standing : ∀ id ∈ tree.nodes.keys,
    events.foldl (Standing.after (draftObjectId id)) none = some ⟨true, false⟩

/-- The names of nodes are the numbers below their count. -/
theorem Drafted.mem_keys {tree : DraftTree} {events : List MemoryIntentEvent} {count : ℕ}
    (h : Drafted tree events count) (id : ℤ) : id ∈ tree.nodes.keys ↔ 0 ≤ id ∧ id < count := by
  rw [h.keys, List.mem_map]
  constructor
  · rintro ⟨n, hn, rfl⟩
    exact ⟨Int.natCast_nonneg n, Int.ofNat_lt.mpr (List.mem_range.mp hn)⟩
  · rintro ⟨hnonneg, hlt⟩
    exact ⟨id.toNat, List.mem_range.mpr (by omega), Int.toNat_of_nonneg hnonneg⟩

/-- The name of the next node is new. -/
theorem Drafted.fresh {tree : DraftTree} {events : List MemoryIntentEvent} {count : ℕ}
    (h : Drafted tree events count) : (count : ℤ) ∉ tree.nodes.keys := by
  intro hin
  have := ((h.mem_keys _).mp hin).2
  omega

theorem draftObjectId_injective : Function.Injective draftObjectId := by
  intro a b h
  have hdigits : toString a = toString b := (String.append_right_inj _).mp h
  exact Decimal.toString_injective hdigits

/-- The generator between two nodes. -/
structure Growing (st : WorkloadState) : Prop extends Drafted st.tree st.events st.nodeId where
  step : st.step = st.events.length
  frontier : ∀ p depth, (some p, depth) ∈ st.frontier → 0 ≤ p ∧ p < st.nodeId

section Steps

variable {gauss : ℕ → ℚ} {treeWidth treeDepth depth : ℤ} {parentId : Option ℤ} {st st' : WorkloadState}

/-- What a new node adds. -/
theorem addNode_ok (h : addNode gauss treeDepth parentId depth st = .ok st') :
    ∃ node allocated accessed,
      (node.parentId = parentId ∧ node.kvObjectId = draftObjectId st.nodeId) ∧
      (allocated.step = st.step ∧ allocated.eventType = .allocated) ∧
      (accessed.step = st.step + 1 ∧ accessed.eventType = .accessed) ∧
      (∀ e ∈ [allocated, accessed], IsDraftEvent e ∧ e.intent.blockId = st.nodeId) ∧
      st'.tree.nodes = st.tree.nodes.set st.nodeId node ∧
      st'.events = st.events ++ [allocated, accessed] ∧ st'.nodeId = st.nodeId + 1 ∧
      st'.step = st.step + 2 ∧
      st'.frontier =
        if depth + 1 < treeDepth then st.frontier ++ [(some (st.nodeId : ℤ), depth + 1)]
        else st.frontier := by
  obtain ⟨intent, hintent, h⟩ := Replay.bind_eq_ok.mp h
  obtain ⟨allocated, hallocated, h⟩ := Replay.bind_eq_ok.mp h
  obtain ⟨verified, hverified, h⟩ := Replay.bind_eq_ok.mp h
  obtain ⟨accessed, haccessed, h⟩ := Replay.bind_eq_ok.mp h
  cases h
  have hfirst := MemoryIntent.validated_fields hintent
  have hsecond := MemoryIntent.validated_fields hverified
  obtain ⟨hstep, htype, hfields⟩ := MemoryIntentEvent.postInit_ok hallocated
  obtain ⟨hstep', htype', hfields'⟩ := MemoryIntentEvent.postInit_ok haccessed
  refine ⟨_, allocated, accessed, ⟨rfl, rfl⟩, ⟨hstep, htype⟩, ⟨hstep', htype'⟩, ?_, rfl, rfl, rfl, rfl, rfl⟩
  intro e he
  simp only [List.mem_cons, List.not_mem_nil, or_false] at he
  rcases he with rfl | rfl
  · rw [hfirst] at hfields
    exact ⟨⟨by rw [MemoryIntentEvent.objectId, hfields]; rfl, by rw [hfields]; rfl,
      by rw [hfields]; rfl⟩, by rw [hfields]; rfl⟩
  · rw [hsecond, hfirst] at hfields'
    exact ⟨⟨by rw [MemoryIntentEvent.objectId, hfields']; rfl, by rw [hfields']; rfl,
      by rw [hfields']; rfl⟩, by rw [hfields']; rfl⟩

theorem addNode_nodeId (h : addNode gauss treeDepth parentId depth st = .ok st') :
    st'.nodeId = st.nodeId + 1 := by
  obtain ⟨-, -, -, -, -, -, -, -, -, hnode, -⟩ := addNode_ok h
  exact hnode

/-- The parent of a new node stays below the nodes to come. -/
theorem addNode_parent (hparent : ∀ p, parentId = some p → 0 ≤ p ∧ p < st.nodeId)
    (h : addNode gauss treeDepth parentId depth st = .ok st') :
    ∀ p, parentId = some p → 0 ≤ p ∧ p < st'.nodeId := by
  intro p hp
  have := hparent p hp
  rw [addNode_nodeId h]
  omega

/-- Two events of one draft leave its standing, and those of others. -/
theorem foldl_pair {allocated accessed : MemoryIntentEvent} {id : ℤ} {standing : Option Standing}
    (hallocated : allocated.eventType = .allocated) (haccessed : accessed.eventType = .accessed)
    (hdrafts : ∀ e ∈ [allocated, accessed], IsDraftEvent e ∧ e.intent.blockId = id) (other : ℤ)
    (h : other ≠ id → standing = some ⟨true, false⟩) :
    [allocated, accessed].foldl (Standing.after (draftObjectId other)) standing = some ⟨true, false⟩ := by
  have hobject : ∀ e ∈ [allocated, accessed], e.objectId = draftObjectId id := fun e he => by
    rw [(hdrafts e he).1.objectId, (hdrafts e he).2]
  by_cases heq : other = id
  · subst heq
    obtain ⟨hfirst, -⟩ := hdrafts allocated (by simp)
    simp [Standing.after, hobject, hallocated, haccessed, hfirst.standing]
  · have hne : ∀ e ∈ [allocated, accessed], e.objectId ≠ draftObjectId other := by
      intro e he hsame
      rw [hobject e he] at hsame
      exact heq (draftObjectId_injective hsame).symm
    rw [Standing.foldl_unnamed hne, h heq]

/-- A new node below an old one, with its two events. -/
theorem Drafted.addNode {tree : DraftTree} {events : List MemoryIntentEvent} {count : ℕ}
    (h : Drafted tree events count) {node : DraftNode} {allocated accessed : MemoryIntentEvent}
    (hparent : ∀ p, node.parentId = some p → 0 ≤ p ∧ p < count)
    (hobject : node.kvObjectId = draftObjectId count)
    (hallocated : allocated.step = events.length ∧ allocated.eventType = .allocated)
    (haccessed : accessed.step = events.length + 1 ∧ accessed.eventType = .accessed)
    (hdrafts : ∀ e ∈ [allocated, accessed], IsDraftEvent e ∧ e.intent.blockId = count) :
    Drafted { nodes := tree.nodes.set count node } (events ++ [allocated, accessed]) (count + 1) := by
  have hkeys : (tree.nodes.set count node).keys = tree.nodes.keys ++ [(count : ℤ)] :=
    OrderedDict.keys_set_of_notMem node h.fresh
  have hget : ∀ id n, (tree.nodes.set count node).get? id = some n →
      id = count ∧ n = node ∨ tree.nodes.get? id = some n := by
    intro id n hn
    rw [OrderedDict.get?_set] at hn
    split at hn
    · exact .inl ⟨‹_›, (Option.some.inj hn).symm⟩
    · exact .inr hn
  refine
    { keys := ?_
      objectId := ?_
      parent := ?_
      steps := ?_
      eventType := ?_
      drafts := ?_
      standing := ?_ }
  · rw [hkeys, h.keys, List.range_succ, List.map_append, List.map_singleton]
  · intro id n hn
    rcases hget id n hn with ⟨rfl, rfl⟩ | hold
    · exact hobject
    · exact h.objectId id n hold
  · intro id n p hn hp
    rcases hget id n hn with ⟨rfl, rfl⟩ | hold
    · exact hparent p hp
    · exact h.parent id n p hold hp
  · refine h.steps.append (.cons ?_ (.cons ?_ .nil))
    · rw [hallocated.1, zero_add]
    · rw [haccessed.1, zero_add]
  · intro e he
    rw [List.mem_append] at he
    rcases he with he | he
    · exact h.eventType e he
    · simp only [List.mem_cons, List.not_mem_nil, or_false] at he
      rcases he with rfl | rfl
      · exact .inl hallocated.2
      · exact .inr haccessed.2
  · intro e he
    rw [List.mem_append] at he
    rw [hkeys, List.mem_append, List.mem_singleton]
    rcases he with he | he
    · exact ⟨(h.drafts e he).1, .inl (h.drafts e he).2⟩
    · exact ⟨(hdrafts e he).1, .inr (hdrafts e he).2⟩
  · intro id hid
    rw [hkeys, List.mem_append, List.mem_singleton] at hid
    rw [List.foldl_append]
    refine foldl_pair hallocated.2 haccessed.2 hdrafts id fun hne => ?_
    exact h.standing id (hid.resolve_right hne)

/-- A new node below an old one keeps the generator going. -/
theorem Growing.addNode (hst : Growing st) (hparent : ∀ p, parentId = some p → 0 ≤ p ∧ p < st.nodeId)
    (h : addNode gauss treeDepth parentId depth st = .ok st') : Growing st' := by
  obtain ⟨node, allocated, accessed, ⟨hpar, hobj⟩, ⟨hstep, htype⟩, ⟨hstep', htype'⟩, hdrafts, htree,
    hevents, hnode, hstep'', hfrontier⟩ := addNode_ok h
  have hdrafted : Drafted { nodes := st.tree.nodes.set st.nodeId node }
      (st.events ++ [allocated, accessed]) (st.nodeId + 1) :=
    hst.toDrafted.addNode (by rwa [hpar]) hobj ⟨by rw [hstep, hst.step], htype⟩
      ⟨by rw [hstep', hst.step], htype'⟩ hdrafts
  rw [← htree, ← hevents, ← hnode] at hdrafted
  refine { toDrafted := hdrafted, step := ?_, frontier := ?_ }
  · rw [hstep'', hst.step, hevents, List.length_append]
    push_cast
    rfl
  · intro p d hin
    have hold : (some p, d) ∈ st.frontier → 0 ≤ p ∧ p < st'.nodeId := by
      intro hin
      have := hst.frontier p d hin
      omega
    rw [hfrontier] at hin
    split at hin
    · rcases List.mem_append.mp hin with hin | hin
      · exact hold hin
      · cases List.mem_singleton.mp hin
        omega
    · exact hold hin

theorem Growing.addChildren (hst : Growing st) (hparent : ∀ p, parentId = some p → 0 ≤ p ∧ p < st.nodeId)
    (h : addChildren gauss treeWidth treeDepth parentId depth st = .ok st') : Growing st' := by
  refine (Replay.run_always
    (P := fun st => Growing st ∧ ∀ p, parentId = some p → 0 ≤ p ∧ p < st.nodeId) ?_ ⟨hst, hparent⟩ h).1
  rintro s _ t ⟨hs, hbound⟩ hstep
  exact ⟨hs.addNode hbound hstep, addNode_parent hbound hstep⟩

theorem Growing.rest {entry : Option ℤ × ℤ} {rest : List (Option ℤ × ℤ)} (hst : Growing st)
    (hfrontier : st.frontier = entry :: rest) : Growing { st with frontier := rest } :=
  { hst with frontier := fun p d hin => hst.frontier p d (by simp [hfrontier, hin]) }

theorem Growing.growTree {fuel : ℕ} (hst : Growing st)
    (h : growTree gauss treeWidth treeDepth fuel st = .ok st') : Growing st' := by
  induction fuel generalizing st with
  | zero => cases h
  | succ fuel ih =>
    unfold KVMemoryIntent.growTree at h
    split at h
    · cases h
      exact hst
    · rename_i parentId depth rest hfrontier
      split at h
      · exact ih (hst.rest hfrontier) h
      · obtain ⟨t, hchildren, hgrow⟩ := Replay.bind_eq_ok.mp h
        refine ih ((hst.rest hfrontier).addChildren ?_ hchildren) hgrow
        rintro p rfl
        exact hst.frontier p depth (by simp [hfrontier])

end Steps

theorem Growing.start : Growing { frontier := [(none, 0)] } where
  keys := rfl
  objectId := nofun
  parent := nofun
  steps := .nil
  eventType := by simp
  drafts := by simp
  standing := nofun
  step := rfl
  frontier := by simp

/-- What the generator returns is a drafted tree. -/
theorem generateSpeculativeWorkload_drafted {gauss : ℕ → ℚ} {treeWidth treeDepth : ℤ} {tree : DraftTree}
    {events : List MemoryIntentEvent}
    (h : generateSpeculativeWorkload gauss treeWidth treeDepth = .ok (tree, events)) :
    ∃ count, Drafted tree events count := by
  obtain ⟨st, hgrow, h⟩ := Replay.bind_eq_ok.mp h
  cases h
  exact ⟨_, (Growing.start.growTree hgrow).toDrafted⟩

/-! ## When it returns -/

/-- What is left to be done for the parents on the queue. -/
def cost (width : ℕ) (treeDepth : ℤ) (frontier : List (Option ℤ × ℤ)) : ℕ :=
  (frontier.map fun entry => rounds width (treeDepth - entry.2).toNat).sum

section Total

variable {gauss : ℕ → ℚ} {treeWidth treeDepth depth : ℤ} {parentId : Option ℤ} {st st' : WorkloadState}

theorem draftObjectId_ne (nodeId : ℤ) : draftObjectId nodeId ≠ "" := by
  intro h
  have := congrArg String.toList h
  simp [draftObjectId] at this

theorem draftIntent_valid {nodeId step : ℤ} {acceptanceProb : ℚ} (hnode : 0 ≤ nodeId)
    (hdepth : 0 ≤ depth ∧ depth ≤ 10) : (draftIntent nodeId depth step acceptanceProb).Valid where
  objectId_ne := draftObjectId_ne nodeId
  requestId_ne _ := by simp [draftIntent]
  blockId_nonneg := hnode
  sizeBytes_pos := by simp [draftIntent]
  allowedTiers_ne := by simp [draftIntent]
  requestPriority_range := by simp [draftIntent]
  recencyScore_range := by
    have hlow : (0 : ℚ) ≤ depth := Int.cast_nonneg hdepth.1
    have hhigh : (depth : ℚ) ≤ 10 := by exact_mod_cast hdepth.2
    simp only [draftIntent]
    constructor <;> linarith
  pinned hp := by
    simp only [draftIntent] at hp
    split at hp <;> cases hp
  currentTier_mem := by simp [draftIntent]

/-- A node is added unless its recency would be negative. -/
theorem addNode_total (gauss : ℕ → ℚ) (treeDepth : ℤ) (parentId : Option ℤ) (hstep : 0 ≤ st.step)
    (hdepth : 0 ≤ depth ∧ depth ≤ 10) : ∃ st', addNode gauss treeDepth parentId depth st = .ok st' := by
  have hvalid : (draftIntent st.nodeId depth st.step (clampProb (gauss st.nodeId))).Valid :=
    draftIntent_valid (Int.natCast_nonneg _) hdepth
  have hverified : MemoryIntent.Valid
      { draftIntent st.nodeId depth st.step (clampProb (gauss st.nodeId)) with
        phase := .verify
        recencyScore := 1 } :=
    { hvalid with recencyScore_range := by norm_num }
  obtain ⟨allocated, hallocated, -⟩ :=
    MemoryIntentEvent.postInit_total hstep .allocated ⟨_, hvalid⟩ (some "draft alloc")
  obtain ⟨accessed, haccessed, -⟩ :=
    MemoryIntentEvent.postInit_total (by omega : 0 ≤ st.step + 1) .accessed ⟨_, hverified⟩
      (some "draft access")
  refine ⟨_, Replay.bind_eq_ok.mpr ⟨_, hvalid.validated, Replay.bind_eq_ok.mpr ⟨allocated, hallocated,
    Replay.bind_eq_ok.mpr ⟨_, hverified.validated, Replay.bind_eq_ok.mpr ⟨accessed, haccessed, rfl⟩⟩⟩⟩⟩

/-- The children of a parent are added, and cost as much as they may. -/
theorem addChildren_total (gauss : ℕ → ℚ) (width : ℕ) (treeDepth : ℤ) (hst : Growing st)
    (hparent : ∀ p, parentId = some p → 0 ≤ p ∧ p < st.nodeId)
    (hfrontier : ∀ entry ∈ st.frontier, 0 ≤ entry.2) (hnonneg : 0 ≤ depth) {xs : List ℕ}
    (hdepth : xs ≠ [] → depth ≤ 10) :
    ∃ st', xs.foldlM (fun st _ => addNode gauss treeDepth parentId depth st) st = .ok st' ∧
      (∀ entry ∈ st'.frontier, 0 ≤ entry.2) ∧
      cost width treeDepth st'.frontier ≤
        cost width treeDepth st.frontier + xs.length * rounds width (treeDepth - (depth + 1)).toNat := by
  induction xs generalizing st with
  | nil => exact ⟨st, rfl, hfrontier, by simp⟩
  | cons x xs ih =>
    have hstep : 0 ≤ st.step := hst.step ▸ Int.natCast_nonneg _
    obtain ⟨next, hnext⟩ := addNode_total gauss treeDepth parentId hstep ⟨hnonneg, hdepth (by simp)⟩
    obtain ⟨-, -, -, -, -, -, -, -, -, -, -, hqueue⟩ := addNode_ok hnext
    have hbound := addNode_parent hparent hnext
    have hcost : (∀ entry ∈ next.frontier, 0 ≤ entry.2) ∧ cost width treeDepth next.frontier ≤
        cost width treeDepth st.frontier + rounds width (treeDepth - (depth + 1)).toNat := by
      rw [hqueue]
      split
      · refine ⟨?_, by simp [cost]⟩
        intro entry hin
        rcases List.mem_append.mp hin with hin | hin
        · exact hfrontier entry hin
        · cases List.mem_singleton.mp hin
          dsimp only
          omega
      · exact ⟨hfrontier, le_self_add⟩
    obtain ⟨st', hrest, hfrontier', hle⟩ := ih (hst.addNode hparent hnext) hbound hcost.1
      (fun _ => hdepth (by simp))
    refine ⟨st', ?_, hfrontier', ?_⟩
    · rw [List.foldlM_cons]
      exact Replay.bind_eq_ok.mpr ⟨next, hnext, hrest⟩
    · rw [List.length_cons, Nat.add_mul, one_mul]
      omega

/-- The loop is done before its fuel is. -/
theorem growTree_total (gauss : ℕ → ℚ) (hshape : treeDepth ≤ 11 ∨ treeWidth ≤ 0) {fuel : ℕ} (hst : Growing st)
    (hfrontier : ∀ entry ∈ st.frontier, 0 ≤ entry.2)
    (hfuel : cost treeWidth.toNat treeDepth st.frontier < fuel) :
    ∃ st', growTree gauss treeWidth treeDepth fuel st = .ok st' := by
  induction fuel generalizing st with
  | zero => omega
  | succ fuel ih =>
    unfold growTree
    split
    · exact ⟨_, rfl⟩
    · rename_i parentId depth rest hqueue
      have hrest : ∀ entry ∈ rest, 0 ≤ entry.2 := fun entry hin => hfrontier entry (by simp [hqueue, hin])
      have hnonneg : 0 ≤ depth := hfrontier (parentId, depth) (by simp [hqueue])
      have hcost : cost treeWidth.toNat treeDepth st.frontier =
          rounds treeWidth.toNat (treeDepth - depth).toNat + cost treeWidth.toNat treeDepth rest := by
        rw [hqueue]
        rfl
      split
      · rename_i hdone
        refine ih (hst.rest hqueue) hrest ?_
        have hlast : (treeDepth - depth).toNat = 0 := by omega
        rw [hlast] at hcost
        have hone : rounds treeWidth.toNat 0 = 1 := rfl
        dsimp only
        omega
      · rename_i hmore
        have hdepth : List.range treeWidth.toNat ≠ [] → depth ≤ 10 := by
          intro hne
          rw [ne_eq, List.range_eq_nil] at hne
          omega
        have hparent : ∀ p, parentId = some p → 0 ≤ p ∧ p < st.nodeId := by
          rintro p rfl
          exact hst.frontier p depth (by simp [hqueue])
        obtain ⟨next, hnext, hfrontier', hle⟩ := addChildren_total gauss treeWidth.toNat treeDepth
          (hst.rest hqueue) hparent hrest hnonneg hdepth
        have hlevels : (treeDepth - depth).toNat = (treeDepth - (depth + 1)).toNat + 1 := by omega
        rw [hlevels, rounds] at hcost
        rw [List.length_range] at hle
        dsimp only at hle
        obtain ⟨st', hst'⟩ := ih ((hst.rest hqueue).addChildren hparent hnext) hfrontier' (by omega)
        exact ⟨st', Replay.bind_eq_ok.mpr ⟨next, hnext, hst'⟩⟩

end Total

/-- The generator returns a tree of at most eleven levels, and an empty one. -/
theorem generateSpeculativeWorkload_total (gauss : ℕ → ℚ) {treeWidth treeDepth : ℤ}
    (hshape : treeDepth ≤ 11 ∨ treeWidth ≤ 0) :
    ∃ tree events, generateSpeculativeWorkload gauss treeWidth treeDepth = .ok (tree, events) := by
  have hcost : cost treeWidth.toNat treeDepth [(none, 0)] <
      rounds treeWidth.toNat treeDepth.toNat + 1 := by
    simp [cost]
  obtain ⟨st, hst⟩ := growTree_total gauss hshape Growing.start (by simp) hcost
  exact ⟨st.tree, st.events, Replay.bind_eq_ok.mpr ⟨st, hst, rfl⟩⟩

end KVMemoryIntent
