-- SUMMARY: The generator of mock vLLM traces: it drives the adapter through whole requests, and its traces leave the memory empty.
import KVDeadlineScheduler.Adapter.Ranges
import KVDeadlineScheduler.Adapter.Replayed
import KVDeadlineScheduler.Workload.Shape

/-!
# Mock traces

The generator schedules requests, lets them decode in turn, marks blocks cold,
commits drafts, reads random blocks again, and finishes every request. It asks
the adapter for the metadata of its requests. Its random numbers are those of a
source that was seeded before.
-/

namespace KVMemoryIntent

namespace VLLMIntentAdapter

open Stateful (Wp Returns)

/-- A seeded source: what its call number `k` of `randrange(n)` gives. -/
structure RandomSource where
  randrange : ℕ → ℕ → ℕ
  lt : ∀ k n, 0 < n → randrange k n < n

inductive MockFailure where
  | refused (failure : Failure)
  | zeroDivisionError
  | indexError
  | keyError (key : String)
  deriving DecidableEq

abbrev Mock (α : Type) := Stateful VLLMIntentAdapter MockFailure α

/-- A call of a hook. -/
def calling {α : Type} (hook : Hook α) : Mock α := Stateful.mapError .refused hook

/-- The locals of the generator that change in its loops. -/
structure MockLocals where
  blockCounts : OrderedDict String ℕ := .empty
  currentStep : ℤ := 0
  drawn : ℕ := 0

/-- `f"req-{index:03d}"`, as in the synthetic workload. -/
def mockRequestId (index : ℕ) : String := syntheticRequestId index

def mockRequestIds (numRequests : ℤ) : List String := (List.range numRequests.toNat).map mockRequestId

def isHighPriority (numRequests : ℤ) (index : ℕ) : Bool := (index : ℤ) < max 1 (numRequests / 4)

def isRag (index : ℕ) : Bool := index % 4 = 1

def mockRequestPriority (numRequests : ℤ) (index : ℕ) : ℤ :=
  if isHighPriority numRequests index then 90 else if isRag index then 20 else 55

def mockDeadlineUs (numRequests : ℤ) (index : ℕ) : ℤ :=
  if isHighPriority numRequests index then 900 else if isRag index then 8000 else 2500

def mockBlockCount (numRequests : ℤ) (index : ℕ) : ℕ :=
  if isHighPriority numRequests index then 18 else if isRag index then 44 else 36

/-- `request_ids[i]`. -/
def requestIdAt (numRequests : ℤ) (i : ℕ) : Mock String :=
  Stateful.lift (((mockRequestIds numRequests)[i]?).elim (.error .indexError) .ok)

/-- `request_ids[i % len(request_ids)]`. -/
def requestIdInTurn (numRequests : ℤ) (i : ℕ) : Mock String :=
  if (mockRequestIds numRequests).length = 0 then Stateful.raise .zeroDivisionError
  else requestIdAt numRequests (i % (mockRequestIds numRequests).length)

/-- `block_counts[request_id]`. -/
def blockCountOf (locals : MockLocals) (requestId : String) : Mock ℕ :=
  Stateful.lift ((locals.blockCounts.get? requestId).elim (.error (.keyError requestId)) .ok)

/-- `list(range(n))`. -/
def blockRange (n : ℕ) : List ℤ := (List.range n).map fun i : ℕ => (i : ℤ)

/-! ## The loops of the generator -/

/-- One round of the loop over requests. -/
def startRequest (numRequests : ℤ) (locals : MockLocals) (index : ℕ) : Mock MockLocals := do
  let requestId := mockRequestId index
  let speculative : Bool := index % 3 = 0
  let requestPriority := mockRequestPriority numRequests index
  let deadlineUs := mockDeadlineUs numRequests index
  let _ ← calling (onRequestScheduled locals.currentStep requestId requestPriority (some deadlineUs))
  let blockCount := mockBlockCount numRequests index
  let currentStep ← (List.range blockCount).foldlM (fun (currentStep : ℤ) (blockId : ℕ) => do
    let _ ← calling (onBlockAllocated currentStep requestId blockId .prefill (some requestPriority)
      (some deadlineUs) none (speculative && blockId < 2))
    return currentStep + 1) locals.currentStep
  let _ ← calling (onPrefillStep currentStep requestId (blockRange (min 3 blockCount)))
  return { locals with
    blockCounts := locals.blockCounts.set requestId blockCount
    currentStep := currentStep + 1 }

/-- `int(request_meta.get("deadline_us") or 2_500)`. -/
def deadlineOrDefault (requestMeta : Option RequestMetadata) : ℤ :=
  match requestMeta.bind RequestMetadata.deadlineUs with
  | none => 2500
  | some deadlineUs => if deadlineUs = 0 then 2500 else deadlineUs

/-- One round of the loop over decode steps. -/
def decodeRound (numRequests : ℤ) (rng : RandomSource) (locals : MockLocals) (decodeStep : ℕ) :
    Mock MockLocals := do
  let requestId ← requestIdInTurn numRequests decodeStep
  let blockCount ← blockCountOf locals requestId
  let before ← Stateful.get
  let requestMeta := before.requestMetadata.get? requestId
  let activeIds : List ℤ := [max ((blockCount : ℤ) - 2) 0, (blockCount : ℤ) - 1]
  let _ ← calling (onDecodeStep locals.currentStep requestId activeIds
    (some (deadlineOrDefault requestMeta)) (some (requestMeta.elim 50 RequestMetadata.priorityOrDefault)))
  let coldId := (decodeStep : ℤ) % max 1 ((blockCount : ℤ) - 2)
  -- `request_meta` is the dict of the adapter itself, unless the request was unknown.
  let after ← Stateful.get
  let priority := requestMeta.bind fun _ =>
    (after.requestMetadata.get? requestId).map RequestMetadata.requestPriority
  let _ ← calling (onBlockMarkedCold (locals.currentStep + 1) requestId coldId
    (some (if priority = some 20 then 256 else 64)))
  let locals ← commitRound { locals with currentStep := locals.currentStep + 2 }
  accessRound locals
where
  /-- A request that may have drafts commits one now and then. -/
  commitRound (locals : MockLocals) : Mock MockLocals :=
    if decodeStep % 7 = 0 then do
      let speculativeRequest ← requestIdInTurn numRequests (decodeStep + 1)
      let blockCount ← blockCountOf locals speculativeRequest
      if 1 < blockCount then
        let _ ← calling (onBlockCommitted locals.currentStep speculativeRequest 1)
        return { locals with currentStep := locals.currentStep + 1 }
      else
        return locals
    else
      return locals
  accessRound (locals : MockLocals) : Mock MockLocals :=
    if decodeStep % 11 = 0 then do
      let extraReq ← requestIdAt numRequests
        (rng.randrange locals.drawn (mockRequestIds numRequests).length)
      let blockCount ← blockCountOf locals extraReq
      let extraBlock := rng.randrange (locals.drawn + 1) blockCount
      let _ ← calling (onBlockAccessed locals.currentStep extraReq extraBlock .prefill false)
      return { locals with
        currentStep := locals.currentStep + 1
        drawn := locals.drawn + 2 }
    else
      return locals

/-- One round of the last loop. -/
def finishRequest (locals : MockLocals) (requestId : String) : Mock MockLocals := do
  let blockCount ← blockCountOf locals requestId
  let _ ← calling (onRequestFinished locals.currentStep requestId (blockRange blockCount))
  return { locals with currentStep := locals.currentStep + 2 }

def mockCalls (numRequests decodeSteps : ℤ) (rng : RandomSource) : Mock MockLocals := do
  let locals ← (List.range numRequests.toNat).foldlM (startRequest numRequests) {}
  let locals ← (List.range decodeSteps.toNat).foldlM (decodeRound numRequests rng) locals
  (mockRequestIds numRequests).foldlM finishRequest locals

def generateMockVllmTrace (numRequests decodeSteps : ℤ) (recorder : Option IntentTraceRecorder)
    (rng : RandomSource) : Except MockFailure IntentTraceRecorder :=
  match (mockCalls numRequests decodeSteps rng).run (init recorder (256 * 1024) none) with
  | (.ok _, adapter) => .ok adapter.recorder
  | (.error failure, _) => .error failure

/-! ## The blocks of the generator -/

/-- The tiers of the adapter that the generator makes. -/
def mockTiers : Finset Tier := {.hbm, .dram}

/-- The blocks that the generator works with. -/
def mockBlocks (numRequests : ℤ) : Set (String × ℤ) :=
  {key | ∃ i < numRequests.toNat, key.1 = mockRequestId i ∧ 0 ≤ key.2 ∧ key.2 < mockBlockCount numRequests i}

theorem mockRequestId_injective : Function.Injective mockRequestId := syntheticRequestId_injective

theorem mockRequestId_ne (index : ℕ) : mockRequestId index ≠ "" := by
  intro h
  have hlength := congrArg String.length h
  simp only [mockRequestId, syntheticRequestId, String.length_append, String.length_empty,
    Nat.add_eq_zero_iff] at hlength
  exact absurd hlength.1 (by decide)

theorem mockRequestPriority_inRange (numRequests : ℤ) (index : ℕ) :
    PriorityInRange (mockRequestPriority numRequests index) := by
  unfold mockRequestPriority
  split
  next => exact ⟨by norm_num, by norm_num⟩
  next =>
    split
    next => exact ⟨by norm_num, by norm_num⟩
    next => exact ⟨by norm_num, by norm_num⟩

/-- There are always blocks to decode and a draft to commit. -/
theorem two_le_mockBlockCount (numRequests : ℤ) (index : ℕ) : 2 ≤ mockBlockCount numRequests index := by
  unfold mockBlockCount
  split
  next => norm_num
  next =>
    split
    next => norm_num
    next => norm_num

theorem mem_blockRange {n : ℕ} {b : ℤ} : b ∈ blockRange n ↔ 0 ≤ b ∧ b < n := by
  simp only [blockRange, List.mem_map, List.mem_range]
  constructor
  · rintro ⟨i, hi, rfl⟩
    omega
  · intro h
    exact ⟨b.toNat, by omega, by omega⟩

section Rounds

variable {numRequests : ℤ} {s : VLLMIntentAdapter} {locals : MockLocals} {i : ℕ} {K : Set (String × ℤ)}

theorem names_mock (hi : i < numRequests.toNat) {step b : ℤ} (hstep : 0 ≤ step) (hb : 0 ≤ b)
    (hlt : b < mockBlockCount numRequests i) :
    Names (mockBlocks numRequests) step (mockRequestId i) b :=
  ⟨hstep, mockRequestId_ne i, hb, i, hi, rfl, hb, hlt⟩

theorem requestIdAt_eq (hi : i < numRequests.toNat) :
    requestIdAt numRequests i = pure (mockRequestId i) := by
  have hget : (mockRequestIds numRequests)[i]? = some (mockRequestId i) := by
    simp [mockRequestIds, hi]
  rw [requestIdAt, hget]
  rfl

theorem requestIdInTurn_eq (hpos : 0 < numRequests.toNat) (i : ℕ) :
    requestIdInTurn numRequests i = pure (mockRequestId (i % numRequests.toNat)) := by
  have hlength : (mockRequestIds numRequests).length = numRequests.toNat := by simp [mockRequestIds]
  rw [requestIdInTurn, hlength, if_neg hpos.ne', requestIdAt_eq (Nat.mod_lt _ hpos)]

/-! ## What the rounds keep -/

/-- An adapter that is ready for more calls and has all in its cache that its log leaves live. -/
structure Driven (K : Set (String × ℤ)) (adapter : VLLMIntentAdapter) : Prop where
  ready : adapter.Ready mockTiers K
  tracks : adapter.Tracks mockTiers

/-- A call that returns leaves the log to be tracked. -/
theorem Driven.calling {α : Type} {x : Hook α} (hready : Returns x (fun _ u => u.Ready mockTiers K) s)
    (htracks : Wp x (fun _ u => u.Tracks mockTiers) (fun _ u => u.Tracks mockTiers) s) :
    Returns (calling x) (fun _ u => u.Driven K) s := by
  rw [Returns, VLLMIntentAdapter.calling, Stateful.wp_mapError]
  exact (hready.and htracks).mono (fun _ _ hu => ⟨hu.1, hu.2⟩) fun _ _ he => he.1

section Calls

variable {step b : ℤ} {requestId : String}

theorem Driven.onRequestScheduled (h : s.Driven K) {requestPriority : ℤ}
    (hpriority : PriorityInRange requestPriority) (deadlineUs : Option ℤ) :
    Returns (VLLMIntentAdapter.calling
      (VLLMIntentAdapter.onRequestScheduled step requestId requestPriority deadlineUs))
      (fun _ u => u.Driven K) s :=
  Driven.calling (h.ready.onRequestScheduled hpriority deadlineUs)
    ((tracks_actions mockTiers).onRequestScheduled h.tracks (.inl trivial) _ _)

theorem Driven.onBlockAllocated (h : s.Driven K) (hat : Names K step requestId b)
    {requestPriority : Option ℤ} (hpriority : ∀ p ∈ requestPriority, PriorityInRange p) (phase : Phase)
    (deadlineUs : Option ℤ) (isDraft : Bool) :
    Returns (VLLMIntentAdapter.calling
      (VLLMIntentAdapter.onBlockAllocated step requestId b phase requestPriority deadlineUs none isDraft))
      (fun _ u => u.Driven K) s :=
  Driven.calling (h.ready.onBlockAllocated hat phase hpriority (by simp) deadlineUs isDraft)
    ((tracks_actions mockTiers).onBlockAllocated h.tracks trivial _ _ _ _)

theorem Driven.onBlockAccessed (h : s.Driven K) (hat : Names K step requestId b) (phase : Phase)
    (decodeCritical : Bool) :
    Returns (VLLMIntentAdapter.calling
      (VLLMIntentAdapter.onBlockAccessed step requestId b phase decodeCritical))
      (fun _ u => u.Driven K) s :=
  Driven.calling (h.ready.onBlockAccessed hat phase decodeCritical)
    ((tracks_actions mockTiers).onBlockAccessed h.tracks _ _)

theorem Driven.onBlockCommitted (h : s.Driven K) (hat : Names K step requestId b) :
    Returns (VLLMIntentAdapter.calling (VLLMIntentAdapter.onBlockCommitted step requestId b))
      (fun _ u => u.Driven K) s :=
  Driven.calling (h.ready.onBlockCommitted hat) ((tracks_actions mockTiers).onBlockCommitted h.tracks)

theorem Driven.onBlockMarkedCold (h : s.Driven K) (hat : Names K step requestId b)
    (expectedReuseWindowTokens : Option ℤ) :
    Returns (VLLMIntentAdapter.calling
      (VLLMIntentAdapter.onBlockMarkedCold step requestId b expectedReuseWindowTokens))
      (fun _ u => u.Driven K) s :=
  Driven.calling (h.ready.onBlockMarkedCold hat _)
    ((tracks_actions mockTiers).onBlockMarkedCold h.tracks _)

theorem Driven.onPrefillStep (h : s.Driven K) {blockIds : List ℤ}
    (hat : ∀ b ∈ blockIds, Names K step requestId b) :
    Returns (VLLMIntentAdapter.calling (VLLMIntentAdapter.onPrefillStep step requestId blockIds))
      (fun _ u => u.Driven K) s :=
  Driven.calling (h.ready.onPrefillStep hat) ((tracks_actions mockTiers).onPrefillStep h.tracks _)

theorem Driven.onDecodeStep (h : s.Driven K) {activeBlockIds : List ℤ}
    (hat : ∀ b ∈ activeBlockIds, Names K step requestId b) (deadlineUs : Option ℤ)
    {requestPriority : Option ℤ} (hpriority : ∀ p ∈ requestPriority, PriorityInRange p) :
    Returns (VLLMIntentAdapter.calling
      (VLLMIntentAdapter.onDecodeStep step requestId activeBlockIds deadlineUs requestPriority))
      (fun _ u => u.Driven K) s :=
  Driven.calling (h.ready.onDecodeStep hat deadlineUs hpriority)
    ((tracks_actions mockTiers).onDecodeStep h.tracks _ _ trivial)

end Calls

/-- The locals once the first requests have been started. -/
structure Started (numRequests : ℤ) (count : ℕ) (locals : MockLocals) : Prop where
  step : 0 ≤ locals.currentStep
  counts : ∀ i < count, locals.blockCounts.get? (mockRequestId i) = some (mockBlockCount numRequests i)

theorem Started.blockCountOf {count : ℕ} (h : Started numRequests count locals) (hi : i < count) :
    blockCountOf locals (mockRequestId i) = pure (mockBlockCount numRequests i) := by
  rw [VLLMIntentAdapter.blockCountOf, h.counts i hi]
  rfl

theorem Started.add {count : ℕ} (h : Started numRequests count locals) (steps : ℤ) (hsteps : 0 ≤ steps) :
    Started numRequests count { locals with currentStep := locals.currentStep + steps } :=
  ⟨Int.add_nonneg h.step hsteps, h.counts⟩

theorem Driven.startRequest (h : s.Driven (mockBlocks numRequests)) (hi : i < numRequests.toNat)
    (hlocals : Started numRequests i locals) :
    Returns (startRequest numRequests locals i)
      (fun locals' u => u.Driven (mockBlocks numRequests) ∧ Started numRequests (i + 1) locals') s := by
  have hpriority := mockRequestPriority_inRange numRequests i
  have hsome : ∀ p ∈ some (mockRequestPriority numRequests i), PriorityInRange p := by
    simpa using hpriority
  refine Wp.bind (h.onRequestScheduled hpriority _) fun _ t ht => ?_
  have hallocated : Returns ((List.range (mockBlockCount numRequests i)).foldlM
      (fun (currentStep : ℤ) (blockId : ℕ) => do
        let _ ← VLLMIntentAdapter.calling (VLLMIntentAdapter.onBlockAllocated currentStep (mockRequestId i)
          blockId .prefill (some (mockRequestPriority numRequests i)) (some (mockDeadlineUs numRequests i)) none
          (decide (i % 3 = 0) && blockId < 2))
        return currentStep + 1) locals.currentStep)
      (fun currentStep u => u.Driven (mockBlocks numRequests) ∧ 0 ≤ currentStep) t := by
    refine Stateful.wp_foldlM_range (I := fun _ (currentStep : ℤ) (u : VLLMIntentAdapter) =>
      u.Driven (mockBlocks numRequests) ∧ 0 ≤ currentStep) ⟨ht, hlocals.step⟩ fun b hb currentStep u hu => ?_
    have hat : Names (mockBlocks numRequests) currentStep (mockRequestId i) b :=
      names_mock hi hu.2 (by omega) (by omega)
    exact Wp.bind (hu.1.onBlockAllocated hat hsome _ _ _) fun _ v hv => ⟨hv, by omega⟩
  refine Wp.bind hallocated fun currentStep u hu => ?_
  refine Wp.bind (hu.1.onPrefillStep fun b hb => ?_) fun _ v hv =>
    ⟨hv, Int.add_nonneg hu.2 zero_le_one, fun j hj => ?_⟩
  · have hrange := mem_blockRange.mp hb
    exact names_mock hi hu.2 hrange.1 (by omega)
  · simp only [OrderedDict.get?_set, mockRequestId_injective.eq_iff]
    split
    next heq => rw [heq]
    next hne => exact hlocals.counts j (by omega)

theorem Driven.requestMeta_inRange (h : s.Driven K) (requestId : String) :
    ∀ p ∈ some ((s.requestMetadata.get? requestId).elim 50 RequestMetadata.priorityOrDefault),
      PriorityInRange p := by
  intro p hp
  rw [Option.mem_some] at hp
  rw [← hp]
  cases hget : s.requestMetadata.get? requestId with
  | none => exact ⟨by norm_num, by norm_num⟩
  | some requestMeta => exact priorityOrDefault_inRange (h.ready.stored _ _ hget)

theorem Driven.commitRound (h : s.Driven (mockBlocks numRequests)) (hpos : 0 < numRequests.toNat)
    (hlocals : Started numRequests numRequests.toNat locals) (decodeStep : ℕ) :
    Returns (decodeRound.commitRound numRequests decodeStep locals)
      (fun locals' u => u.Driven (mockBlocks numRequests) ∧
        Started numRequests numRequests.toNat locals') s := by
  have hi := Nat.mod_lt (decodeStep + 1) hpos
  have hcount := two_le_mockBlockCount numRequests ((decodeStep + 1) % numRequests.toNat)
  rw [Returns, decodeRound.commitRound]
  refine Stateful.wp_ite (fun _ => ?_) fun _ => ⟨h, hlocals⟩
  rw [requestIdInTurn_eq hpos, Stateful.wp_bind, Stateful.wp_pure, hlocals.blockCountOf hi,
    Stateful.wp_bind, Stateful.wp_pure]
  refine Stateful.wp_ite (fun _ => ?_) fun _ => ⟨h, hlocals⟩
  have hat := names_mock hi hlocals.step zero_le_one (by omega)
  exact Wp.bind (h.onBlockCommitted hat) fun _ u hu => ⟨hu, hlocals.add 1 zero_le_one⟩

theorem Driven.accessRound (h : s.Driven (mockBlocks numRequests)) (hpos : 0 < numRequests.toNat)
    (hlocals : Started numRequests numRequests.toNat locals) (rng : RandomSource) (decodeStep : ℕ) :
    Returns (decodeRound.accessRound numRequests rng decodeStep locals)
      (fun locals' u => u.Driven (mockBlocks numRequests) ∧
        Started numRequests numRequests.toNat locals') s := by
  have hlength : (mockRequestIds numRequests).length = numRequests.toNat := by simp [mockRequestIds]
  have hi := rng.lt locals.drawn numRequests.toNat hpos
  have hcount := two_le_mockBlockCount numRequests (rng.randrange locals.drawn numRequests.toNat)
  have hblock := rng.lt (locals.drawn + 1)
    (mockBlockCount numRequests (rng.randrange locals.drawn numRequests.toNat)) (by omega)
  rw [Returns, decodeRound.accessRound]
  refine Stateful.wp_ite (fun _ => ?_) fun _ => ⟨h, hlocals⟩
  rw [hlength, requestIdAt_eq hi, Stateful.wp_bind, Stateful.wp_pure, hlocals.blockCountOf hi,
    Stateful.wp_bind, Stateful.wp_pure]
  have hat := names_mock hi hlocals.step (Int.natCast_nonneg _) (Int.ofNat_lt.mpr hblock)
  exact Wp.bind (h.onBlockAccessed hat _ _) fun _ u hu =>
    ⟨hu, Int.add_nonneg hlocals.step zero_le_one, hlocals.counts⟩

theorem Driven.decodeRound (h : s.Driven (mockBlocks numRequests)) (hpos : 0 < numRequests.toNat)
    (hlocals : Started numRequests numRequests.toNat locals) (rng : RandomSource) (decodeStep : ℕ) :
    Returns (decodeRound numRequests rng locals decodeStep)
      (fun locals' u => u.Driven (mockBlocks numRequests) ∧
        Started numRequests numRequests.toNat locals') s := by
  have hi := Nat.mod_lt decodeStep hpos
  have hcount := two_le_mockBlockCount numRequests (decodeStep % numRequests.toNat)
  rw [Returns, VLLMIntentAdapter.decodeRound, requestIdInTurn_eq hpos, Stateful.wp_bind, Stateful.wp_pure,
    hlocals.blockCountOf hi, Stateful.wp_bind, Stateful.wp_pure, Stateful.wp_bind, Stateful.wp_get]
  refine Wp.bind (h.onDecodeStep (fun b hb => ?_) _ (h.requestMeta_inRange _)) fun _ t ht => ?_
  · simp only [List.mem_cons, List.not_mem_nil, or_false] at hb
    exact names_mock hi hlocals.step (by omega) (by omega)
  · rw [Stateful.wp_bind, Stateful.wp_get]
    have hpositive : 0 < max 1 ((mockBlockCount numRequests (decodeStep % numRequests.toNat) : ℤ) - 2) := by
      omega
    have hmod := Int.emod_nonneg (decodeStep : ℤ) hpositive.ne'
    have hlt := Int.emod_lt_of_pos (decodeStep : ℤ) hpositive
    have hat := names_mock hi (Int.add_nonneg hlocals.step zero_le_one) hmod (by omega)
    refine Wp.bind (ht.onBlockMarkedCold hat _) fun _ u hu => ?_
    have hcommitted := hu.commitRound hpos (hlocals.add 2 (by norm_num)) decodeStep
    exact Wp.bind hcommitted fun locals' v hv => hv.1.accessRound hpos hv.2 rng decodeStep

/-- The blocks of the request leave the cache. -/
theorem Driven.finishRequest {done : List String} (hi : i < numRequests.toNat)
    (h : s.Driven {key ∈ mockBlocks numRequests | key.1 ∉ done})
    (hlocals : Started numRequests numRequests.toNat locals) :
    Returns (finishRequest locals (mockRequestId i))
      (fun locals' u => u.Driven {key ∈ mockBlocks numRequests | key.1 ∉ done ++ [mockRequestId i]} ∧
        Started numRequests numRequests.toNat locals') s := by
  rw [Returns, VLLMIntentAdapter.finishRequest, hlocals.blockCountOf hi, Stateful.wp_bind, Stateful.wp_pure]
  have hleft : Returns (VLLMIntentAdapter.onRequestFinished locals.currentStep (mockRequestId i)
      (blockRange (mockBlockCount numRequests i)))
      (fun _ u => u.Ready mockTiers {key ∈ mockBlocks numRequests | key.1 ∉ done ++ [mockRequestId i]}) s := by
    refine Wp.mono (h.ready.onRequestFinished hlocals.step (mockRequestId_ne i) fun b hb =>
      (mem_blockRange.mp hb).1) (fun _ u hu => hu.mono fun key hkey => ⟨hkey.1.1, fun hmem => ?_⟩)
      fun _ _ he => he
    rcases List.mem_append.mp hmem with hmem | hmem
    · exact hkey.1.2 hmem
    · obtain ⟨j, -, hj, hblock⟩ := hkey.1.1
      have hname := List.mem_singleton.mp hmem
      have heq : j = i := mockRequestId_injective (hj.symm.trans hname)
      rw [heq] at hblock
      exact hkey.2 ⟨hname, mem_blockRange.mpr hblock⟩
  have hfinished := Driven.calling hleft ((tracks_actions mockTiers).onRequestFinished h.tracks trivial _)
  exact Wp.bind hfinished fun _ u hu =>
    ⟨hu, hlocals.add 2 (by norm_num)⟩

end Rounds

/-! ## Whole traces -/

theorem driven_init (K : Set (String × ℤ)) : (init none (256 * 1024) none).Driven K := by
  have htiers : (init none (256 * 1024) none).defaultAllowedTiers = mockTiers := by decide
  refine ⟨?_, ?_⟩
  · rw [← htiers]
    exact ready_init none none (by norm_num) (by decide) K
  · rw [← htiers]
    exact tracks_init _ _

/-- The generator returns unless it is to decode without requests. No block is cached afterwards. -/
theorem mockCalls_returns {numRequests decodeSteps : ℤ} (rng : RandomSource)
    (h : 1 ≤ numRequests ∨ decodeSteps ≤ 0) :
    Returns (mockCalls numRequests decodeSteps rng) (fun _ u => u.Driven ∅)
      (init none (256 * 1024) none) := by
  have hstarted : Returns ((List.range numRequests.toNat).foldlM (startRequest numRequests) {})
      (fun locals u => u.Driven (mockBlocks numRequests) ∧ Started numRequests numRequests.toNat locals)
      (init none (256 * 1024) none) := by
    refine Stateful.wp_foldlM_range (I := fun i locals (u : VLLMIntentAdapter) =>
      u.Driven (mockBlocks numRequests) ∧ Started numRequests i locals)
      ⟨driven_init _, le_refl 0, fun _ hi => absurd hi (Nat.not_lt_zero _)⟩ fun i hi locals t ht => ?_
    exact ht.1.startRequest hi ht.2
  refine Wp.bind hstarted fun locals t ht => ?_
  have hdecoded : Returns ((List.range decodeSteps.toNat).foldlM (decodeRound numRequests rng) locals)
      (fun locals' u => u.Driven (mockBlocks numRequests) ∧ Started numRequests numRequests.toNat locals')
      t := by
    refine Stateful.wp_foldlM_range (I := fun _ locals (u : VLLMIntentAdapter) =>
      u.Driven (mockBlocks numRequests) ∧ Started numRequests numRequests.toNat locals) ht
      fun decodeStep hstep locals u hu => ?_
    exact hu.1.decodeRound (by omega) hu.2 rng decodeStep
  refine Wp.bind hdecoded fun locals u hu => ?_
  have hall : u.Driven {key ∈ mockBlocks numRequests | key.1 ∉ []} :=
    ⟨hu.1.ready.mono fun key hkey => ⟨hkey, List.not_mem_nil⟩, hu.1.tracks⟩
  have hfinished : Returns ((mockRequestIds numRequests).foldlM VLLMIntentAdapter.finishRequest locals)
      (fun locals' v => v.Driven {key ∈ mockBlocks numRequests | key.1 ∉ mockRequestIds numRequests} ∧
        Started numRequests numRequests.toNat locals') u := by
    refine Stateful.wp_foldlM (I := fun done locals (v : VLLMIntentAdapter) =>
      v.Driven {key ∈ mockBlocks numRequests | key.1 ∉ done} ∧ Started numRequests numRequests.toNat locals)
      ⟨hall, hu.2⟩ fun done requestId rest locals v hsplit hv => ?_
    have hmem : requestId ∈ mockRequestIds numRequests := by simp [hsplit]
    obtain ⟨i, hi, rfl⟩ := List.mem_map.mp hmem
    exact hv.1.finishRequest (List.mem_range.mp hi) hv.2
  refine hfinished.mono (fun locals v hv => ⟨hv.1.ready.mono ?_, hv.1.tracks⟩) fun _ _ he => he
  rintro key ⟨⟨i, hi, hkey, -⟩, hnone⟩
  exact hnone (hkey ▸ List.mem_map_of_mem (List.mem_range.mpr hi))

/-- Without requests the first decode step divides by their number. -/
theorem mockCalls_raises {numRequests decodeSteps : ℤ} (rng : RandomSource) (hnone : numRequests ≤ 0)
    (hsteps : 0 < decodeSteps) (s : VLLMIntentAdapter) :
    (mockCalls numRequests decodeSteps rng).run s = (.error .zeroDivisionError, s) := by
  have hzero : numRequests.toNat = 0 := Int.toNat_of_nonpos hnone
  obtain ⟨n, hn⟩ : ∃ n, decodeSteps.toNat = n + 1 := ⟨decodeSteps.toNat - 1, by omega⟩
  have hturn : ∀ i, requestIdInTurn numRequests i = Stateful.raise .zeroDivisionError := by
    intro i
    rw [requestIdInTurn, if_pos (by simp [mockRequestIds, hzero])]
  have hround : ∀ locals, decodeRound numRequests rng locals 0 = Stateful.raise .zeroDivisionError := by
    intro locals
    rw [decodeRound, hturn]
    rfl
  rw [mockCalls, hzero, hn, List.range_succ_eq_map]
  simp only [List.range_zero, List.foldlM_nil, List.foldlM_cons, hround]
  rfl

/-- Without requests and with decode steps the generator raises. Else its trace replays to the end, with
any policy, any capacities and any order of the sets, and leaves no block behind. -/
theorem mock_trace_drains (numRequests decodeSteps : ℤ) (rng : RandomSource) :
    (numRequests ≤ 0 ∧ 0 < decodeSteps →
      generateMockVllmTrace numRequests decodeSteps none rng = .error .zeroDivisionError) ∧
    (1 ≤ numRequests ∨ decodeSteps ≤ 0 →
      ∃ trace, generateMockVllmTrace numRequests decodeSteps none rng = .ok trace ∧
        ∀ (sim : KVMemorySimulator) (order : SetOrder), ∃ s result,
          sim.run order SimulatorState.initial trace.events = .ok (s, result) ∧
          s.liveBlocks.keys = [] ∧ s.hbmBlocks = ∅ ∧ s.dramBlocks = ∅) := by
  refine ⟨fun h => ?_, fun h => ?_⟩
  · rw [generateMockVllmTrace, mockCalls_raises rng h.1 h.2]
  · obtain ⟨locals, adapter, hrun, hdriven⟩ := (mockCalls_returns rng h).exists
    refine ⟨adapter.recorder, by rw [generateMockVllmTrace, hrun], fun sim order => ?_⟩
    obtain ⟨s, result, hsim, -, hempty⟩ := hdriven.tracks.replays (by decide) ⟨.dram, by decide⟩ sim order
    have hnone : adapter.blocks.keys = [] := List.eq_nil_iff_forall_not_mem.mpr fun key hkey => by
      obtain ⟨block, hblock⟩ := OrderedDict.mem_keys_iff.mp hkey
      exact (hdriven.ready.cached key block hblock).2
    exact ⟨s, result, hsim, hempty hnone⟩

/-- Five requests, the second of which retrieves documents, decode sixteen times. -/
theorem mock_trace_drains_five :
    ∃ trace, generateMockVllmTrace 5 16 none ⟨fun k n => k % n, fun _ _ h => Nat.mod_lt _ h⟩ = .ok trace ∧
      ∃ s result, KVMemorySimulator.oneBlockHbm.run SetOrder.fastestFirst SimulatorState.initial
          trace.events = .ok (s, result) ∧
        s.liveBlocks.keys = [] ∧ s.hbmBlocks = ∅ ∧ s.dramBlocks = ∅ := by
  obtain ⟨trace, htrace, hruns⟩ :=
    (mock_trace_drains 5 16 ⟨fun k n => k % n, fun _ _ h => Nat.mod_lt _ h⟩).2 (.inl (by norm_num))
  exact ⟨trace, htrace, hruns _ _⟩

end VLLMIntentAdapter

end KVMemoryIntent
