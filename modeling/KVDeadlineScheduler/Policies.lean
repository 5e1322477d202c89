-- SUMMARY: Placement policies: victim choice, prefetch decision and explanation of the five policies, and selection by name.
import Mathlib.Data.Prod.Lex
import Mathlib.Data.String.Basic
import KVDeadlineScheduler.Library.Lines
import KVDeadlineScheduler.Library.Selection
import KVDeadlineScheduler.Schema

/-!
# Placement policies

A policy picks the next block to displace from the blocks resident in HBM.
Ties are broken by size and then by object id, so two blocks with different ids
never tie.
-/

namespace KVMemoryIntent

/-- A policy as the simulator sees it. `protectsPinned` is the simulator's test
for an instance of `IntentAwarePolicy`. A policy only picks from the blocks it is
shown. `choiceFloats` and `explanationFloats` are the integers that a choice and its
explanation make floats of. -/
structure PlacementPolicy where
  name : String
  protectsPinned : Bool
  chooseVictim : List MemoryIntent → ℤ → ℤ → Option MemoryIntent
  shouldPrefetch : MemoryIntent → ℤ → Bool
  explainVictimChoice : MemoryIntent → List MemoryIntent → ℤ → String
  choiceFloats : List MemoryIntent → ℤ → List ℤ := fun _ _ => []
  explanationFloats : MemoryIntent → List MemoryIntent → ℤ → List ℤ := fun _ _ _ => []
  chooseVictim_mem : ∀ {blocks capacityBytes currentStep victim},
    chooseVictim blocks capacityBytes currentStep = some victim → victim ∈ blocks

/-! ## Access-based policies -/

/-- The explanation of a policy that does not override it. -/
def PlacementPolicy.explainDefault (name : String) (victim : MemoryIntent)
    (_candidates : List MemoryIntent) (_currentStep : ℤ) : String :=
  s!"Selected {victim.objectId} for eviction under {name}."

/-- A policy that displaces the block with the least key and never prefetches. -/
def PlacementPolicy.leastKey {β : Type} [LinearOrder β] (name : String) (key : MemoryIntent → β) :
    PlacementPolicy where
  name := name
  protectsPinned := false
  chooseVictim blocks _capacityBytes _currentStep := blocks.argmin key
  shouldPrefetch _block _currentStep := false
  explainVictimChoice := PlacementPolicy.explainDefault name
  chooseVictim_mem h := List.argmin_mem h

def LRUPolicy.key (block : MemoryIntent) : ℤ ×ₗ ℤ ×ₗ String :=
  toLex (block.lastAccessStep, toLex (-block.sizeBytes, block.objectId))

theorem LRUPolicy.objectId_of_key {a b : MemoryIntent} (h : LRUPolicy.key a = LRUPolicy.key b) :
    a.objectId = b.objectId := by
  simp only [LRUPolicy.key, EmbeddingLike.apply_eq_iff_eq, Prod.mk.injEq] at h
  exact h.2.2

def LRUPolicy : PlacementPolicy := PlacementPolicy.leastKey "LRU" LRUPolicy.key

def HotColdPolicy.key (block : MemoryIntent) : ℚ ×ₗ ℤ ×ₗ ℤ ×ₗ String :=
  toLex (block.recencyScore, LRUPolicy.key block)

theorem HotColdPolicy.objectId_of_key {a b : MemoryIntent}
    (h : HotColdPolicy.key a = HotColdPolicy.key b) : a.objectId = b.objectId := by
  simp only [HotColdPolicy.key, EmbeddingLike.apply_eq_iff_eq, Prod.mk.injEq] at h
  exact LRUPolicy.objectId_of_key h.2

def HotColdPolicy : PlacementPolicy := PlacementPolicy.leastKey "HotCold" HotColdPolicy.key

def PredictiveHotnessPolicy.predictedHotness (block : MemoryIntent) : ℚ :=
  block.recencyScore * 0.7
  + block.expectedReuseWindowTokens.elim 0 (fun w => max 0 (64 - (w : ℚ)) / 64) * 0.3

def PredictiveHotnessPolicy.key (block : MemoryIntent) : ℚ ×ₗ ℤ ×ₗ ℤ ×ₗ String :=
  toLex (PredictiveHotnessPolicy.predictedHotness block, LRUPolicy.key block)

theorem PredictiveHotnessPolicy.objectId_of_key {a b : MemoryIntent}
    (h : PredictiveHotnessPolicy.key a = PredictiveHotnessPolicy.key b) :
    a.objectId = b.objectId := by
  simp only [PredictiveHotnessPolicy.key, EmbeddingLike.apply_eq_iff_eq, Prod.mk.injEq] at h
  exact LRUPolicy.objectId_of_key h.2

def PredictiveHotnessPolicy : PlacementPolicy :=
  { PlacementPolicy.leastKey "PredictiveHotness" PredictiveHotnessPolicy.key with
    choiceFloats := fun blocks _ => blocks.flatMap fun block => block.expectedReuseWindowTokens.toList }

/-! ## Intent-aware policies -/

namespace IntentAwarePolicy

def priorityWeight : Priority → ℚ
  | .cold => 110
  | .warm => 55
  | .hot => 15
  | .decodeCritical => -900

/-- Higher score means the block is a better eviction candidate. -/
def evictionScore (block : MemoryIntent) (currentStep : ℤ) : ℚ :=
  priorityWeight block.priority
  - (if block.pinRequested then 900 else 0)
  + (match block.phase with
    | .done => 120
    | .idle => 50
    | _ => 0)
  + ((100 - block.requestPriority : ℤ) : ℚ)
  + block.expectedReuseWindowTokens.elim 0 (fun w => min ((w : ℚ) / 6) 120)
  + (if block.recomputeOk then 30 else 0)
  + (if block.compressionOk then 20 else 0)
  + (if block.isDraft ∧ ¬block.isCommitted then 45 else 0)
  - block.recomputeCostUs.elim 0 (fun c => min ((c : ℚ) / 40) 180)
  - block.recencyScore * 60
  + min (((max (currentStep - block.lastAccessStep) 0 : ℤ) : ℚ) / 4) 35
  - max (block.evictionRiskScore currentStep) 0 / 40

/-- The integers that the scores of this class and of `DeadlineAwarePolicy` make floats of. -/
def scoreFloats (block : MemoryIntent) (currentStep : ℤ) : List ℤ :=
  max (currentStep - block.lastAccessStep) 0 :: block.riskFloats currentStep

/-- The blocks a victim is chosen from: the unpinned ones, if there are any. -/
def admissible (blocks : List MemoryIntent) : List MemoryIntent :=
  let nonPinned := blocks.filter (fun block => !block.pinRequested)
  if nonPinned = [] then blocks else nonPinned

def greatestKey {β : Type} [LinearOrder β] (key : MemoryIntent → β) (blocks : List MemoryIntent) :
    Option MemoryIntent :=
  blocks.argmax key

def key (score : MemoryIntent → ℤ → ℚ) (currentStep : ℤ) (block : MemoryIntent) : ℚ ×ₗ ℤ ×ₗ String :=
  toLex (score block currentStep, toLex (block.sizeBytes, block.objectId))

theorem objectId_of_key {score : MemoryIntent → ℤ → ℚ} {currentStep : ℤ}
    {a b : MemoryIntent}
    (h : key score currentStep a = key score currentStep b) :
    a.objectId = b.objectId := by
  simp only [key, EmbeddingLike.apply_eq_iff_eq, Prod.mk.injEq] at h
  exact h.2.2

/-- The victim choice, with the score as the part a subclass may override. -/
def chooseVictim (score : MemoryIntent → ℤ → ℚ) (blocks : List MemoryIntent)
    (_capacityBytes currentStep : ℤ) : Option MemoryIntent :=
  greatestKey (key score currentStep) (admissible blocks)

theorem mem_of_mem_admissible {blocks : List MemoryIntent} {block : MemoryIntent}
    (h : block ∈ admissible blocks) : block ∈ blocks := by
  simp only [admissible] at h
  split at h
  · exact h
  · exact List.mem_of_mem_filter h

/-- Instances of the class and of its subclasses: the victim choice is inherited,
and the score, the prefetch decision and the explanation may be overridden. -/
def subclass (name : String) (score : MemoryIntent → ℤ → ℚ)
    (shouldPrefetch : MemoryIntent → ℤ → Bool)
    (explain : MemoryIntent → List MemoryIntent → ℤ → String) : PlacementPolicy where
  name := name
  protectsPinned := true
  chooseVictim := chooseVictim score
  shouldPrefetch := shouldPrefetch
  explainVictimChoice := explain
  choiceFloats blocks currentStep := (admissible blocks).flatMap (scoreFloats · currentStep)
  explanationFloats victim candidates currentStep :=
    (candidates.filter (·.objectId ≠ victim.objectId)).flatMap (·.riskFloats currentStep)
  chooseVictim_mem h := mem_of_mem_admissible (List.argmax_mem h)

/-- The resident blocks a displacement spares because evicting them is risky. -/
def protectedBlocks (victim : MemoryIntent) (candidates : List MemoryIntent) (currentStep : ℤ) :
    List MemoryIntent :=
  candidates.filter fun block =>
    block.objectId ≠ victim.objectId ∧ 250 < block.evictionRiskScore currentStep

def longReuseWindow (victim : MemoryIntent) : Bool :=
  victim.expectedReuseWindowTokens.elim false (fun w => 32 ≤ w)

def explainVictimChoice (victim : MemoryIntent) (candidates : List MemoryIntent)
    (currentStep : ℤ) : String :=
  let reasons :=
    (if victim.phase = .done then ["DONE phase"] else [])
    ++ (if victim.priority = .cold then ["COLD"] else [])
    ++ (if victim.requestPriority ≤ 25 then ["low priority"] else [])
    ++ (if victim.recomputeOk then ["recompute-friendly"] else [])
    ++ (if victim.compressionOk then ["compressible"] else [])
    ++ (if victim.isDraft ∧ ¬victim.isCommitted then ["uncommitted draft"] else [])
    ++ (if longReuseWindow victim then ["long reuse window"] else [])
  let summary := if reasons = [] then "lowest semantic protection score" else ", ".intercalate reasons
  match protectedBlocks victim candidates currentStep with
  | avoided :: _ =>
    s!"Selected {victim.objectId} because it is {summary}. "
      ++ s!"Avoided {avoided.objectId} because it is more urgent or more expensive to evict."
  | [] => s!"Selected {victim.objectId} because it is {summary}."

end IntentAwarePolicy

def IntentAwarePolicy : PlacementPolicy :=
  IntentAwarePolicy.subclass "IntentAware" IntentAwarePolicy.evictionScore
    (fun _block _currentStep => false) IntentAwarePolicy.explainVictimChoice

namespace DeadlineAwarePolicy

/-- Higher score means the block is a better eviction candidate. -/
def evictionScore (block : MemoryIntent) (currentStep : ℤ) : ℚ :=
  IntentAwarePolicy.evictionScore block currentStep
  - block.deadlineUs.elim 0 (fun d => if d ≤ 1000 then 320 else if d ≤ 5000 then 140 else 25)
  - block.slackUs.elim 0 (fun s => if s ≤ 500 then 260 else if s ≤ 2000 then 120 else 0)
  - (if 80 ≤ block.requestPriority then 90 else 0)
  - block.recomputeCostUs.elim 0 (fun c => if 4000 ≤ c then 80 else 0)
  - (if block.phase = .decode then 110 else 0)
  - (if block.priority = .decodeCritical then 400 else 0)
  - block.evictionRiskScore currentStep / 18
  + (if block.phase = .done then 40 else 0)
  + (if block.priority = .cold ∧ block.deadlineUs = none then 35 else 0)

/-- Only urgent blocks that are prefetchable and not labelled HBM already. -/
def shouldPrefetch (block : MemoryIntent) (_currentStep : ℤ) : Bool :=
  if ¬block.prefetchOk ∨ block.currentTier = .hbm then
    false
  else
    let urgentDeadline := block.deadlineUs.elim false (fun d => d ≤ 5000)
    let urgentSlack := block.slackUs.elim false (fun s => s ≤ 2000)
    let nearReuse := block.expectedReuseWindowTokens.elim false (fun w => w ≤ 8)
    let important : Bool :=
      block.priority = .hot ∨ block.priority = .decodeCritical ∨ block.phase = .decode
    important && (urgentDeadline || urgentSlack || nearReuse)

def explainVictimChoice (victim : MemoryIntent) (candidates : List MemoryIntent)
    (currentStep : ℤ) : String :=
  let reasons :=
    (if victim.priority = .cold then ["COLD"] else [])
    ++ (if victim.phase = .done then ["DONE phase"] else [])
    ++ (if victim.requestPriority ≤ 25 then ["low request priority"] else [])
    ++ (if victim.deadlineUs = none then ["no deadline"] else [])
    ++ (if victim.slackUs = none then ["no slack protection"] else [])
    ++ (if victim.recomputeOk then ["recompute-friendly"] else [])
    ++ (if victim.compressionOk then ["spillable/compressible"] else [])
    ++ (if IntentAwarePolicy.longReuseWindow victim then ["long reuse window"] else [])
  let reasonText := if reasons = [] then "lowest deadline protection" else ", ".intercalate reasons
  match IntentAwarePolicy.protectedBlocks victim candidates currentStep with
  | avoided :: _ =>
    s!"Selected {victim.objectId} because it is {reasonText}. "
      ++ s!"Avoided {avoided.objectId} because it is {avoided.priority.value}, "
      ++ s!"phase {avoided.phase.value}, and near a decode deadline."
  | [] => s!"Selected {victim.objectId} because it is {reasonText}."

end DeadlineAwarePolicy

def DeadlineAwarePolicy : PlacementPolicy :=
  IntentAwarePolicy.subclass "KVDeadline" DeadlineAwarePolicy.evictionScore
    DeadlineAwarePolicy.shouldPrefetch DeadlineAwarePolicy.explainVictimChoice

/-! ## Selection by name -/

/-- `name.strip().lower()`. Letters outside ASCII are left alone: none of them
has a lower case that occurs in a policy name. -/
def normalizeName (name : String) : String :=
  String.ofList ((Lines.strip name.toList).map Char.toLower)

def policyFromName (name : String) : Except Failure PlacementPolicy :=
  let normalized := normalizeName name
  if normalized = "lru" then .ok LRUPolicy
  else if normalized = "hotcold" then .ok HotColdPolicy
  else if normalized = "predictive" then .ok PredictiveHotnessPolicy
  else if normalized = "intent" then .ok IntentAwarePolicy
  else if normalized = "deadline" then .ok DeadlineAwarePolicy
  else .error (.valueError s!"Unknown policy: {name}")

/-! ## What the policies have in common -/

namespace PlacementPolicy

/-- LRU, HotCold and PredictiveHotness. -/
inductive AccessBased : PlacementPolicy → Prop where
  | lru : AccessBased LRUPolicy
  | hotCold : AccessBased HotColdPolicy
  | predictiveHotness : AccessBased PredictiveHotnessPolicy

/-- `IntentAwarePolicy`, `DeadlineAwarePolicy` and their subclasses. -/
inductive IntentAware : PlacementPolicy → Prop where
  | subclass (name : String) (score : MemoryIntent → ℤ → ℚ) (prefetch : MemoryIntent → ℤ → Bool)
      (explain : MemoryIntent → List MemoryIntent → ℤ → String) :
      IntentAware (IntentAwarePolicy.subclass name score prefetch explain)

theorem intentAware_intent : IntentAware IntentAwarePolicy := .subclass ..

theorem intentAware_deadline : IntentAware DeadlineAwarePolicy := .subclass ..

/-- The order in which the blocks are listed does not matter to the choice. -/
def OrderIndependent (p : PlacementPolicy) : Prop :=
  ∀ {blocks blocks' : List MemoryIntent} (capacityBytes currentStep : ℤ), blocks.Perm blocks' →
    (∀ a ∈ blocks, ∀ b ∈ blocks, a.objectId = b.objectId → a = b) →
    p.chooseVictim blocks capacityBytes currentStep = p.chooseVictim blocks' capacityBytes currentStep

/-- A least-key policy whose keys determine the object id does not see the
order of the blocks. -/
theorem orderIndependent_leastKey {β : Type} [LinearOrder β] (name : String)
    {key : MemoryIntent → β} (hkey : ∀ a b, key a = key b → a.objectId = b.objectId) :
    OrderIndependent (leastKey name key) := by
  intro blocks blocks' _ _ hperm hid
  exact Selection.argmin_eq_of_perm hperm fun a ha b hb hab => hid a ha b hb (hkey a b hab)

theorem AccessBased.orderIndependent {p : PlacementPolicy} (h : p.AccessBased) :
    p.OrderIndependent := by
  cases h with
  | lru => exact orderIndependent_leastKey _ fun _ _ => LRUPolicy.objectId_of_key
  | hotCold => exact orderIndependent_leastKey _ fun _ _ => HotColdPolicy.objectId_of_key
  | predictiveHotness =>
    -- the conversions play no part in the choice
    exact orderIndependent_leastKey "PredictiveHotness" fun _ _ => PredictiveHotnessPolicy.objectId_of_key

theorem AccessBased.protectsPinned {p : PlacementPolicy} (h : p.AccessBased) :
    p.protectsPinned = false := by
  cases h <;> rfl

theorem AccessBased.eq_nil_of_none {p : PlacementPolicy} (h : p.AccessBased)
    {blocks : List MemoryIntent} {capacityBytes currentStep : ℤ}
    (hnone : p.chooseVictim blocks capacityBytes currentStep = none) : blocks = [] := by
  cases h <;> exact List.argmin_eq_none.mp hnone

theorem admissible_perm {blocks blocks' : List MemoryIntent} (h : blocks.Perm blocks') :
    (IntentAwarePolicy.admissible blocks).Perm (IntentAwarePolicy.admissible blocks') := by
  have hf := h.filter (fun block => !block.pinRequested)
  simp only [IntentAwarePolicy.admissible]
  by_cases hnil : blocks.filter (fun block => !block.pinRequested) = []
  · rw [hnil, List.nil_perm] at hf
    rwa [if_pos hnil, if_pos hf]
  · have hnil' : blocks'.filter (fun block => !block.pinRequested) ≠ [] := by
      intro hc
      rw [hc, List.perm_nil] at hf
      exact hnil hf
    rwa [if_neg hnil, if_neg hnil']

theorem IntentAware.orderIndependent {p : PlacementPolicy} (h : p.IntentAware) :
    p.OrderIndependent := by
  cases h with
  | subclass name score prefetch explain =>
    intro blocks blocks' _ currentStep hperm hid
    refine Selection.argmax_eq_of_perm (admissible_perm hperm) fun a ha b hb hab => ?_
    exact hid a (IntentAwarePolicy.mem_of_mem_admissible ha) b
      (IntentAwarePolicy.mem_of_mem_admissible hb) (IntentAwarePolicy.objectId_of_key hab)

theorem IntentAware.protectsPinned {p : PlacementPolicy} (h : p.IntentAware) :
    p.protectsPinned = true := by
  cases h; rfl

theorem IntentAware.eq_nil_of_none {p : PlacementPolicy} (h : p.IntentAware)
    {blocks : List MemoryIntent} {capacityBytes currentStep : ℤ}
    (hnone : p.chooseVictim blocks capacityBytes currentStep = none) : blocks = [] := by
  cases h with
  | subclass name score prefetch explain =>
    have hnil : IntentAwarePolicy.admissible blocks = [] := List.argmax_eq_none.mp hnone
    simp only [IntentAwarePolicy.admissible] at hnil
    split at hnil
    · exact hnil
    · contradiction

/-- A pinned block is a victim only when every block is pinned. -/
theorem IntentAware.victim_unpinned {p : PlacementPolicy} (h : p.IntentAware)
    {blocks : List MemoryIntent} {capacityBytes currentStep : ℤ} {victim : MemoryIntent}
    (hv : p.chooseVictim blocks capacityBytes currentStep = some victim)
    (hsome : ∃ block ∈ blocks, block.pinRequested = false) : victim.pinRequested = false := by
  cases h with
  | subclass name score prefetch explain =>
    have hmem : victim ∈ IntentAwarePolicy.admissible blocks := List.argmax_mem hv
    obtain ⟨block, hblock, hpin⟩ := hsome
    have hfilter : block ∈ blocks.filter (fun block => !block.pinRequested) := by
      simp [hblock, hpin]
    rw [IntentAwarePolicy.admissible, if_neg (List.ne_nil_of_mem hfilter)] at hmem
    simpa using (List.mem_filter.mp hmem).2

end PlacementPolicy

theorem policyFromName_cases {name : String} {p : PlacementPolicy}
    (h : policyFromName name = .ok p) : p.AccessBased ∨ p.IntentAware := by
  simp only [policyFromName] at h
  split at h
  · cases h; exact .inl .lru
  split at h
  · cases h; exact .inl .hotCold
  split at h
  · cases h; exact .inl .predictiveHotness
  split at h
  · cases h; exact .inr PlacementPolicy.intentAware_intent
  split at h
  · cases h; exact .inr PlacementPolicy.intentAware_deadline
  · cases h

end KVMemoryIntent
