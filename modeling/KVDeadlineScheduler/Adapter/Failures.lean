-- SUMMARY: What a hook that raises leaves behind: nothing is taken back, and only what the call names is touched.
import KVDeadlineScheduler.Adapter.Hooks

/-!
# Hooks that raise

No hook undoes what it has done when it raises. What it has done until then is
confined to the request and the blocks of the call, so the rest of the adapter is
as it was. A hook on one block records last, and so records nothing if it raises.
-/

namespace KVMemoryIntent

namespace VLLMIntentAdapter

open Stateful (Wp)

/-- A block with the ids of the key it is cached under and the tiers that the adapter gives. -/
structure FiledUnder (tiers : Finset Tier) (key : String × ℤ) (block : MemoryIntent) : Prop where
  requestId : block.requestId = key.1
  blockId : block.blockId = key.2
  allowedTiers : block.allowedTiers = tiers

/-- A block with the same ids and tiers is filed there as well. -/
theorem FiledUnder.of_eq {tiers : Finset Tier} {key : String × ℤ} {m m' : MemoryIntent}
    (h : FiledUnder tiers key m) (hrequest : m'.requestId = m.requestId) (hblock : m'.blockId = m.blockId)
    (htiers : m'.allowedTiers = m.allowedTiers) : FiledUnder tiers key m' :=
  ⟨hrequest.trans h.requestId, hblock.trans h.blockId, htiers.trans h.allowedTiers⟩

/-- Every cached block is filed under its own ids. -/
def Coherent (adapter : VLLMIntentAdapter) : Prop :=
  ∀ key block, adapter.blocks.get? key = some block →
    FiledUnder adapter.defaultAllowedTiers key block.1

/-- From `s` to `t` only the given blocks of one request have changed, events of these blocks have been
recorded, and the request has been given default metadata at most. -/
structure Within (requestId : String) (blockIds : List ℤ) (s t : VLLMIntentAdapter) : Prop where
  tiers : t.defaultAllowedTiers = s.defaultAllowedTiers
  events : ∃ new, t.recorder.events = s.recorder.events ++ new ∧
    ∀ event ∈ new, event.intent.requestId = requestId ∧ event.intent.blockId ∈ blockIds
  blocks : ∀ key : String × ℤ, ¬(key.1 = requestId ∧ key.2 ∈ blockIds) →
    t.blocks.get? key = s.blocks.get? key
  metadata : ∀ id, t.requestMetadata.get? id = s.requestMetadata.get? id ∨
    id = requestId ∧ s.requestMetadata.get? id = none ∧ t.requestMetadata.get? id = some {}
  coherent : t.Coherent

section Steps

variable {requestId : String} {blockIds : List ℤ} {blockId step : ℤ} {s t : VLLMIntentAdapter}

theorem Within.refl (h : s.Coherent) : Within requestId blockIds s s :=
  ⟨rfl, ⟨[], by simp, by simp⟩, fun _ _ => rfl, fun _ => .inl rfl, h⟩

theorem Within.knowing (h : Within requestId blockIds s t) :
    Within requestId blockIds s (t.knowing requestId) := by
  refine ⟨by simpa using h.tiers, by simpa using h.events, by simpa using h.blocks, fun id => ?_, ?_⟩
  · rw [knowing_get?]
    split
    next heq =>
      subst heq
      unfold metadataOf
      cases hget : t.requestMetadata.get? id with
      | some requestMeta => simpa [hget] using h.metadata id
      | none =>
        rcases h.metadata id with hsame | ⟨-, -, hdefault⟩
        · exact .inr ⟨rfl, hsame.symm.trans hget, rfl⟩
        · rw [hget] at hdefault
          cases hdefault
    next => exact h.metadata id
  · intro key block hblock
    rw [knowing_blocks] at hblock
    rw [knowing_defaultAllowedTiers]
    exact h.coherent key block hblock

theorem Coherent.caching {key : String × ℤ} {block : ValidIntent} (h : s.Coherent)
    (hfiled : FiledUnder s.defaultAllowedTiers key block.1) : (s.caching key block).Coherent := by
  intro key' block' hblock
  unfold VLLMIntentAdapter.caching at hblock ⊢
  rw [OrderedDict.get?_set] at hblock
  split at hblock
  next heq =>
    cases hblock
    rw [heq]
    exact hfiled
  next => exact h key' block' hblock

theorem Within.caching (h : Within requestId blockIds s t) (block : ValidIntent)
    (hin : blockId ∈ blockIds)
    (hfiled : FiledUnder t.defaultAllowedTiers (requestId, blockId) block.1) :
    Within requestId blockIds s (t.caching (requestId, blockId) block) := by
  refine ⟨h.tiers, h.events, fun key hkey => ?_, h.metadata, h.coherent.caching hfiled⟩
  have hne : key ≠ (requestId, blockId) := by
    intro heq
    exact hkey (by rw [heq]; exact ⟨rfl, hin⟩)
  simp only [VLLMIntentAdapter.caching, OrderedDict.get?_set, if_neg hne]
  exact h.blocks key hkey

theorem Within.recorded {event : MemoryIntentEvent} (h : Within requestId blockIds s t)
    (hin : blockId ∈ blockIds)
    (hfiled : FiledUnder t.defaultAllowedTiers (requestId, blockId) event.intent) :
    Within requestId blockIds s (t.recorded event) := by
  have hkey : (event.intent.requestId, event.intent.blockId) = (requestId, blockId) := by
    rw [hfiled.requestId, hfiled.blockId]
  have hcached := h.caching ⟨event.intent, event.intent_valid⟩ hin hfiled
  obtain ⟨new, hnew, hnamed⟩ := h.events
  refine ⟨h.tiers, ⟨new ++ [event], ?_, fun e he => ?_⟩, fun key hne => ?_, h.metadata, ?_⟩
  · simp [VLLMIntentAdapter.recorded, IntentTraceRecorder.record, hnew]
  · rcases List.mem_append.mp he with he | he
    · exact hnamed e he
    · rw [List.mem_singleton.mp he, hfiled.requestId, hfiled.blockId]
      exact ⟨rfl, hin⟩
  · have := hcached.blocks key hne
    simpa only [VLLMIntentAdapter.recorded, VLLMIntentAdapter.caching, hkey] using this
  · have := hcached.coherent
    simpa only [Coherent, VLLMIntentAdapter.recorded, VLLMIntentAdapter.caching, hkey] using this

theorem Within.erase (h : Within requestId blockIds s t) (hin : blockId ∈ blockIds) :
    Within requestId blockIds s { t with blocks := t.blocks.erase (requestId, blockId) } := by
  refine ⟨h.tiers, h.events, fun key hkey => ?_, h.metadata, fun key block hblock => ?_⟩
  · have hne : key ≠ (requestId, blockId) := by
      intro heq
      exact hkey (by rw [heq]; exact ⟨rfl, hin⟩)
    rw [OrderedDict.get?_erase_of_ne _ hne]
    exact h.blocks key hkey
  · rw [OrderedDict.get?_erase] at hblock
    split at hblock
    next => cases hblock
    next => exact h.coherent key block hblock

/-! ## What hooks are made of -/

theorem Within.getOrCreateBlock (h : Within requestId blockIds s t) (hin : blockId ∈ blockIds)
    (options : BlockOptions) :
    Wp (getOrCreateBlock step requestId blockId options)
      (fun made u => Within requestId blockIds s u ∧
        FiledUnder u.defaultAllowedTiers (requestId, blockId) made.1.1)
      (fun _ u => Within requestId blockIds s u) t := by
  refine wp_getOrCreateBlock (fun cached hget block hblock => ?_)
    (fun _ block warning hrequest hid htiers => ?_) (fun _ _ => h) fun _ _ => h.knowing
  · have hcached := h.coherent _ cached hget
    have hfields := (MemoryIntent.postInit_ok hblock).1
    have hfiled : FiledUnder t.defaultAllowedTiers (requestId, blockId) block.1 := by
      rw [hfields]
      exact hcached.of_eq rfl rfl rfl
    exact ⟨h.caching block hin hfiled, hfiled⟩
  · have hfiled : FiledUnder t.defaultAllowedTiers (requestId, blockId) block.1 :=
      ⟨hrequest, hid, htiers⟩
    exact ⟨h.knowing.caching block hin (by simpa using hfiled),
      by simpa [VLLMIntentAdapter.caching] using hfiled⟩

theorem Within.validated (h : Within requestId blockIds s t) {m : MemoryIntent}
    {k : String × ℤ} (hfiled : FiledUnder t.defaultAllowedTiers k m) :
    Wp (Stateful.lift m.validated)
      (fun v u => Within requestId blockIds s u ∧ FiledUnder u.defaultAllowedTiers k v.1)
      (fun _ u => Within requestId blockIds s u) t := by
  refine wp_validated (fun v hv => ⟨h, ?_⟩) fun _ => h
  rw [hv]
  exact hfiled.of_eq rfl rfl rfl

theorem Within.emit (h : Within requestId blockIds s t) (hin : blockId ∈ blockIds)
    {intent : ValidIntent} (hfiled : FiledUnder t.defaultAllowedTiers (requestId, blockId) intent.1)
    (eventType : EventType) (reason : String) :
    Wp (emit step eventType intent reason) (fun _ u => Within requestId blockIds s u)
      (fun _ u => Within requestId blockIds s u) t := by
  refine wp_emit (fun _ event _ _ hintent => h.recorded hin ?_) fun _ _ => h
  rw [hintent]
  exact hfiled

end Steps

/-! ## Hooks on one block -/

/-- What the hooks on one block have in common: fetch the block, change some fields and emit an event. -/
def touch (step : ℤ) (requestId : String) (blockId : ℤ) (options : BlockOptions)
    (change : MemoryIntent → MemoryIntent) (eventType : EventType) (reason : String) :
    Hook MemoryIntentEvent := do
  let (block, warning) ← getOrCreateBlock step requestId blockId options
  let intent ← Stateful.lift (change block.1).validated
  emit step eventType intent (warning.getD reason)

theorem onBlockAccessed_eq (step : ℤ) (requestId : String) (blockId : ℤ) (phase : Phase)
    (decodeCritical : Bool) :
    onBlockAccessed step requestId blockId phase decodeCritical =
      touch step requestId blockId
        { phase := phase
          priority :=
            if decodeCritical then .decodeCritical else if phase = .decode then .hot else .warm
          decodeCritical := decodeCritical }
        (fun block =>
          { block with
            recencyScore := 1
            lastAccessStep := step
            prefetchOk := decodeCritical
            pinRequested := decodeCritical || block.pinRequested })
        .accessed "vLLM-style block access" := rfl

theorem onBlockCommitted_eq (step : ℤ) (requestId : String) (blockId : ℤ) :
    onBlockCommitted step requestId blockId =
      touch step requestId blockId { phase := .verify, priority := .warm }
        (fun block =>
          { block with
            isCommitted := true
            isDraft := false
            priority := if block.phase ≠ Phase.decode then .warm else .hot
            lastAccessStep := step })
        .committed "vLLM-style draft commit" := rfl

theorem onBlockMarkedCold_eq (step : ℤ) (requestId : String) (blockId : ℤ)
    (expectedReuseWindowTokens : Option ℤ) :
    onBlockMarkedCold step requestId blockId expectedReuseWindowTokens =
      touch step requestId blockId { phase := .idle, priority := .cold }
        (fun block =>
          { block with
            phase := .idle
            priority := .cold
            compressionOk := true
            recomputeOk := !block.isCommitted
            prefetchOk := expectedReuseWindowTokens.elim true (fun w => w < 1000)
            expectedReuseWindowTokens := expectedReuseWindowTokens
            pinRequested := false
            recencyScore := 0 })
        .markedCold "vLLM-style cold marking" := rfl

theorem onBlockFreed_eq (step : ℤ) (requestId : String) (blockId : ℤ) :
    onBlockFreed step requestId blockId =
      touch step requestId blockId { phase := .done, priority := .cold }
        (fun block =>
          { block with
            phase := .done
            priority := .cold
            pinRequested := false
            prefetchOk := false
            currentTier := if Tier.dram ∈ block.allowedTiers then .dram else block.currentTier
            recencyScore := 0 })
        .freed "vLLM-style block free" := rfl

/-- A change of fields that leaves a block where it is filed. -/
def KeepsFiling (change : MemoryIntent → MemoryIntent) : Prop :=
  ∀ m, (change m).requestId = m.requestId ∧ (change m).blockId = m.blockId ∧
    (change m).allowedTiers = m.allowedTiers

theorem KeepsFiling.filedUnder {change : MemoryIntent → MemoryIntent} {tiers : Finset Tier}
    {key : String × ℤ} {m : MemoryIntent} (hchange : KeepsFiling change) (h : FiledUnder tiers key m) :
    FiledUnder tiers key (change m) := by
  obtain ⟨hrequest, hblock, htiers⟩ := hchange m
  exact h.of_eq hrequest hblock htiers

section Touch

variable {requestId : String} {blockIds : List ℤ} {blockId step : ℤ} {s t : VLLMIntentAdapter}
  {options : BlockOptions} {change : MemoryIntent → MemoryIntent} {eventType : EventType}
  {reason : String}

theorem Within.touch (h : Within requestId blockIds s t) (hin : blockId ∈ blockIds)
    (hchange : KeepsFiling change) :
    Wp (touch step requestId blockId options change eventType reason)
      (fun _ u => Within requestId blockIds s u) (fun _ u => Within requestId blockIds s u) t := by
  refine (h.getOrCreateBlock hin options).bind fun made u hmade => ?_
  obtain ⟨hu, hfiled⟩ := hmade
  refine (hu.validated (hchange.filedUnder hfiled)).bind fun intent v hv => ?_
  exact hv.1.emit hin hv.2 eventType _

/-- The event is recorded last. -/
theorem touch_records_last :
    Wp (VLLMIntentAdapter.touch step requestId blockId options change eventType reason)
      (fun _ _ => True) (fun _ u => u.recorder = s.recorder) s := by
  have hfetch : Wp (getOrCreateBlock step requestId blockId options)
      (fun _ u => u.recorder = s.recorder) (fun _ u => u.recorder = s.recorder) s :=
    wp_getOrCreateBlock (fun _ _ _ _ => rfl) (fun _ _ _ _ _ _ => knowing_recorder s requestId)
      (fun _ _ => rfl) fun _ _ => knowing_recorder s requestId
  refine hfetch.bind fun made u hu => ?_
  rw [Stateful.wp_bind]
  exact Stateful.wp_lift (fun _ _ => wp_emit (fun _ _ _ _ _ => trivial) fun _ _ => hu) fun _ _ => hu

/-- For a known request and a proper step only the creation of a block can fail. -/
theorem touch_of_known (hknown : (s.requestMetadata.get? requestId).isSome) (hstep : 0 ≤ step)
    (hchange : ∀ v : ValidIntent, ∃ w, (change v.1).validated = .ok w) :
    Wp (VLLMIntentAdapter.touch step requestId blockId options change eventType reason)
      (fun _ _ => True) (fun _ u => u = s) s := by
  have hfetch : Wp (getOrCreateBlock step requestId blockId options)
      (fun _ _ => True) (fun _ u => u = s) s :=
    wp_getOrCreateBlock (fun _ _ _ _ => trivial) (fun _ _ _ _ _ _ => trivial)
      (fun _ _ => rfl) fun _ _ => knowing_of_known hknown
  refine hfetch.bind fun made u _ => ?_
  obtain ⟨w, hw⟩ := hchange made.1
  rw [Stateful.wp_bind]
  refine Stateful.wp_lift (fun _ _ => ?_) fun e he => ?_
  · exact wp_emit (fun _ _ _ _ _ => trivial) fun hneg => absurd hstep (not_le.mpr hneg)
  · rw [hw] at he
    cases he

end Touch

/-- A valid block stays valid when its ids, its size and its priority are kept. -/
theorem exists_validated {m m' : MemoryIntent} (h : m.Valid) (hobject : m'.objectId = m.objectId)
    (hrequest : m'.requestId = m.requestId) (hid : m'.blockId = m.blockId)
    (hsize : m'.sizeBytes = m.sizeBytes) (htiers : m'.allowedTiers = m.allowedTiers)
    (hpriority : m'.requestPriority = m.requestPriority) (htype : m'.objectType = m.objectType)
    (htier : m'.currentTier ∈ m'.allowedTiers)
    (hrecency : 0 ≤ m'.recencyScore ∧ m'.recencyScore ≤ 1) : ∃ w, m'.validated = .ok w := by
  refine ⟨_, MemoryIntent.validated_of_valid ⟨⟨?_, ?_, ?_, ?_, ?_, ?_, hrecency, ?_⟩, htier⟩⟩
  · rw [hobject]
    exact h.objectId_ne
  · rw [htype, hrequest]
    exact h.requestId_ne
  · rw [hid]
    exact h.blockId_nonneg
  · rw [hsize]
    exact h.sizeBytes_pos
  · rw [htiers]
    exact h.allowedTiers_ne
  · rw [hpriority]
    exact h.requestPriority_range
  · intro hcritical
    simp only at hcritical
    simp [hcritical]

/-! ## Calls -/

/-- The request a call is about. A sequence without an identifier has none. -/
def HookCall.requestId : HookCall → Option String
  | .requestScheduled _ requestId _ _ => some requestId
  | .blockAllocated _ requestId _ _ _ _ _ _ => some requestId
  | .blockAccessed _ requestId _ _ _ => some requestId
  | .decodeStep _ requestId _ _ _ => some requestId
  | .prefillStep _ requestId _ => some requestId
  | .blockCommitted _ requestId _ => some requestId
  | .blockMarkedCold _ requestId _ _ => some requestId
  | .blockFreed _ requestId _ => some requestId
  | .requestFinished _ requestId _ => some requestId
  | .sequenceAccesses sequence => (sequenceRequestId sequence).toOption
  | .sequenceSpill sequence => (sequenceRequestId sequence).toOption
  | .sequenceFree sequence => (sequenceRequestId sequence).toOption

/-- The blocks a call is about. -/
def HookCall.blockIds : HookCall → List ℤ
  | .requestScheduled _ _ _ _ => []
  | .blockAllocated _ _ blockId _ _ _ _ _ => [blockId]
  | .blockAccessed _ _ blockId _ _ => [blockId]
  | .decodeStep _ _ activeBlockIds _ _ => activeBlockIds
  | .prefillStep _ _ blockIds => blockIds
  | .blockCommitted _ _ blockId => [blockId]
  | .blockMarkedCold _ _ blockId _ => [blockId]
  | .blockFreed _ _ blockId => [blockId]
  | .requestFinished _ _ blockIds => blockIds
  | .sequenceAccesses sequence => sequenceBlockIds sequence
  | .sequenceSpill sequence => sequenceBlockIds sequence
  | .sequenceFree sequence => sequenceBlockIds sequence

/-- The calls of hooks on one block. -/
def HookCall.onOneBlock : HookCall → Bool
  | .blockAllocated _ _ _ _ _ _ _ _ | .blockAccessed _ _ _ _ _ | .blockCommitted _ _ _
  | .blockMarkedCold _ _ _ _ | .blockFreed _ _ _ => true
  | _ => false

/-- The calls that write the metadata of their request. -/
def HookCall.writesMetadata : HookCall → Bool
  | .requestScheduled _ _ _ _ | .decodeStep _ _ _ _ _ | .sequenceAccesses _ => true
  | _ => false

/-- The calls that leave the adapter as it was if they raise: a scheduled request and a spill, an
allocation for a known request, a hook on one block of a known request at a proper step, and a sequence
without an identifier. -/
def HookCall.Harmless (adapter : VLLMIntentAdapter) (call : HookCall) : Prop :=
  match call with
  | .requestScheduled _ _ _ _ | .sequenceSpill _ => True
  | .blockAllocated _ requestId _ _ _ _ _ _ => (adapter.requestMetadata.get? requestId).isSome
  | .blockAccessed step requestId _ _ _ | .blockCommitted step requestId _
  | .blockMarkedCold step requestId _ _ | .blockFreed step requestId _ =>
    (adapter.requestMetadata.get? requestId).isSome ∧ 0 ≤ step
  | .sequenceAccesses _ | .sequenceFree _ => call.requestId = none
  | _ => False

/-- From `s` to `t` nothing is taken back, and only blocks and metadata of one request are touched. -/
structure Confined (request : Option String) (blockIds : List ℤ) (s t : VLLMIntentAdapter) : Prop where
  events : ∃ new, t.recorder.events = s.recorder.events ++ new ∧
    ∀ event ∈ new, some event.intent.requestId = request ∧ event.intent.blockId ∈ blockIds
  blocks : ∀ key : String × ℤ, ¬(some key.1 = request ∧ key.2 ∈ blockIds) →
    t.blocks.get? key = s.blocks.get? key
  metadata : ∀ id, some id ≠ request → t.requestMetadata.get? id = s.requestMetadata.get? id
  known : ∀ id, (s.requestMetadata.get? id).isSome → (t.requestMetadata.get? id).isSome

/-- What a call that raises leaves of the adapter `s`. -/
structure HookCall.Leaves (call : HookCall) (s t : VLLMIntentAdapter) : Prop
    extends Confined call.requestId call.blockIds s t where
  defaulted : call.writesMetadata = false → ∀ id,
    t.requestMetadata.get? id = s.requestMetadata.get? id ∨
      s.requestMetadata.get? id = none ∧ t.requestMetadata.get? id = some {}
  recordsLast : call.onOneBlock = true → t.recorder = s.recorder
  harmless : call.Harmless s → t = s

section Confinement

variable {request : Option String} {requestId : String} {blockIds : List ℤ}
  {s t u : VLLMIntentAdapter}

theorem Confined.refl (s : VLLMIntentAdapter) : Confined request blockIds s s :=
  ⟨⟨[], by simp, by simp⟩, fun _ _ => rfl, fun _ _ => rfl, fun _ h => h⟩

theorem Confined.trans (h : Confined request blockIds s t) (h' : Confined request blockIds t u) :
    Confined request blockIds s u := by
  obtain ⟨new, hnew, hnamed⟩ := h.events
  obtain ⟨new', hnew', hnamed'⟩ := h'.events
  refine ⟨⟨new ++ new', by rw [hnew', hnew, List.append_assoc], fun event hevent => ?_⟩,
    fun key hkey => (h'.blocks key hkey).trans (h.blocks key hkey),
    fun id hid => (h'.metadata id hid).trans (h.metadata id hid), fun id hid => h'.known id (h.known id hid)⟩
  rcases List.mem_append.mp hevent with hevent | hevent
  · exact hnamed event hevent
  · exact hnamed' event hevent

theorem Within.confined (h : Within requestId blockIds s t) :
    Confined (some requestId) blockIds s t := by
  refine ⟨?_, fun key hkey => h.blocks key (by simpa using hkey), fun id hid => ?_, fun id hid => ?_⟩
  · obtain ⟨new, hnew, hnamed⟩ := h.events
    exact ⟨new, hnew, fun event hevent => ⟨by rw [(hnamed event hevent).1], (hnamed event hevent).2⟩⟩
  · rcases h.metadata id with hsame | ⟨heq, -, -⟩
    · exact hsame
    · exact absurd (congrArg some heq) hid
  · rcases h.metadata id with hsame | ⟨-, hnone, -⟩
    · rwa [hsame]
    · rw [hnone] at hid
      cases hid

/-- Writing metadata of a request touches nothing else. -/
theorem Confined.setMetadata (s : VLLMIntentAdapter) (requestId : String) (blockIds : List ℤ)
    (requestMeta : RequestMetadata) :
    Confined (some requestId) blockIds s
      { s with requestMetadata := s.requestMetadata.set requestId requestMeta } := by
  refine ⟨⟨[], by simp, by simp⟩, fun _ _ => rfl, fun id hid => ?_, fun id hid => ?_⟩
  · exact OrderedDict.get?_set_of_ne _ _ fun heq => hid (congrArg some heq)
  · rw [OrderedDict.get?_set]
    split
    next => rfl
    next => exact hid

end Confinement

/-! ## The hooks, one by one -/

theorem HookCall.Leaves.refl (call : HookCall) (s : VLLMIntentAdapter) : call.Leaves s s where
  toConfined := .refl s
  defaulted := fun _ _ => .inl rfl
  recordsLast := fun _ => rfl
  harmless := fun _ => rfl

theorem Within.leaves {call : HookCall} {requestId : String} {s t : VLLMIntentAdapter}
    (h : Within requestId call.blockIds s t) (hrequest : call.requestId = some requestId)
    (hlast : call.onOneBlock = true → t.recorder = s.recorder) (hharmless : call.Harmless s → t = s) :
    call.Leaves s t := by
  refine { toConfined := ?_, defaulted := fun _ id => ?_, recordsLast := hlast, harmless := hharmless }
  · rw [hrequest]
    exact h.confined
  · rcases h.metadata id with hsame | ⟨-, hdefault⟩
    · exact .inl hsame
    · exact .inr hdefault

/-- A call that may write metadata and events promises no more than to stay confined. -/
theorem Confined.leaves (call : HookCall) {s t : VLLMIntentAdapter}
    (h : Confined call.requestId call.blockIds s t) (hwrites : call.writesMetadata = true)
    (hmany : call.onOneBlock = false) (hharmless : ¬call.Harmless s) : call.Leaves s t :=
  { h with
    defaulted := fun hc => absurd (hwrites.symm.trans hc) (by simp)
    recordsLast := fun hc => absurd (hmany.symm.trans hc) (by simp)
    harmless := fun hc => absurd hc hharmless }

section Hooks

variable {requestId : String} {blockIds : List ℤ} {blockId step : ℤ} {s t : VLLMIntentAdapter}

theorem touch_leaves (call : HookCall) {hook : Hook MemoryIntentEvent} {options : BlockOptions}
    {change : MemoryIntent → MemoryIntent} {eventType : EventType} {reason : String}
    (hhook : hook = touch step requestId blockId options change eventType reason)
    (hrun : call.run = do return [← hook]) (h : s.Coherent)
    (hrequest : call.requestId = some requestId) (hblocks : call.blockIds = [blockId])
    (hharmless : call.Harmless s → (s.requestMetadata.get? requestId).isSome ∧ 0 ≤ step)
    (hkeeps : KeepsFiling change)
    (hchange : ∀ v : ValidIntent, ∃ w, (change v.1).validated = .ok w) :
    Wp call.run (fun _ t => t.Coherent) (fun _ t => t.Coherent ∧ call.Leaves s t) s := by
  have hin : blockId ∈ call.blockIds := by simp [hblocks]
  have hwithin : Wp (touch step requestId blockId options change eventType reason)
      (fun _ u => Within requestId call.blockIds s u) (fun _ u => Within requestId call.blockIds s u) s :=
    (Within.refl h).touch hin hkeeps
  have hleaves : Wp hook (fun _ t => t.Coherent) (fun _ t => t.Coherent ∧ call.Leaves s t) s := by
    rw [hhook]
    by_cases hproper : (s.requestMetadata.get? requestId).isSome ∧ 0 ≤ step
    · have hsame : Wp (touch step requestId blockId options change eventType reason)
          (fun _ _ => True) (fun _ u => u = s) s := touch_of_known hproper.1 hproper.2 hchange
      refine (hwithin.and hsame).mono (fun _ t ht => ht.1.coherent) fun _ t ht => ⟨ht.1.coherent, ?_⟩
      exact ht.1.leaves hrequest (fun _ => by rw [ht.2]) fun _ => ht.2
    · refine (hwithin.and touch_records_last).mono (fun _ t ht => ht.1.coherent)
        fun _ t ht => ⟨ht.1.coherent, ?_⟩
      exact ht.1.leaves hrequest (fun _ => ht.2) fun hc => absurd (hharmless hc) hproper
  rw [hrun]
  exact hleaves.bind fun _ _ ht => ht

theorem Within.decodeBlock (h : Within requestId blockIds s t) {entry : ℤ × ℕ}
    (hin : entry.1 ∈ blockIds) (deadlineUs requestPriority : Option ℤ) :
    Wp (decodeBlock step requestId deadlineUs requestPriority entry)
      (fun _ u => Within requestId blockIds s u) (fun _ u => Within requestId blockIds s u) t := by
  refine (h.getOrCreateBlock hin _).bind fun made u hu => ?_
  rw [Stateful.wp_bind, wp_requestDefaults]
  have hfiled : FiledUnder (u.knowing requestId).defaultAllowedTiers (requestId, entry.1) made.1.1 := by
    simpa using hu.2
  refine (hu.1.knowing.validated (k := (requestId, entry.1)) ?_).bind fun intent v hv => ?_
  · exact hfiled.of_eq rfl rfl rfl
  refine (hv.1.emit hin hv.2 _ _).bind fun marked w hw => ?_
  rw [onBlockAccessed_eq]
  refine (hw.touch hin ?_).bind fun accessed x hx => ?_
  · exact fun _ => ⟨rfl, rfl, rfl⟩
  · exact hx

theorem Within.prefillBlock (h : Within requestId blockIds s t) (hin : blockId ∈ blockIds) :
    Wp (prefillBlock step requestId blockId)
      (fun _ u => Within requestId blockIds s u) (fun _ u => Within requestId blockIds s u) t := by
  refine (h.getOrCreateBlock hin _).bind fun made u hu => ?_
  refine (hu.1.validated (k := (requestId, blockId)) ?_).bind fun intent v hv => ?_
  · exact hu.2.of_eq rfl rfl rfl
  exact (hv.1.emit hin hv.2 _ _).bind fun event w hw => hw

theorem Within.finishBlock (h : Within requestId blockIds s t) (hin : blockId ∈ blockIds) :
    Wp (finishBlock step requestId blockId)
      (fun _ u => Within requestId blockIds s u) (fun _ u => Within requestId blockIds s u) t := by
  refine (h.getOrCreateBlock hin _).bind fun made u hu => ?_
  refine (hu.1.validated (k := (requestId, blockId)) ?_).bind fun intent v hv => ?_
  · exact hu.2.of_eq rfl rfl rfl
  refine (hv.1.emit hin hv.2 _ _).bind fun cold w hw => ?_
  rw [onBlockFreed_eq]
  refine (hw.touch hin ?_).bind fun freed x hx => ?_
  · exact fun _ => ⟨rfl, rfl, rfl⟩
  · rw [Stateful.wp_bind, Stateful.wp_modify]
    exact hx.erase hin

theorem Within.onPrefillStep (h : Within requestId blockIds s t) :
    Wp (onPrefillStep step requestId blockIds)
      (fun _ u => Within requestId blockIds s u) (fun _ u => Within requestId blockIds s u) t :=
  Wp.forEach h fun _ hin _ hu => hu.prefillBlock hin

theorem Confined.decodeBlocks (h : Within requestId blockIds s t) (requestMeta : RequestMetadata)
    (deadlineUs requestPriority : Option ℤ) :
    Wp (Stateful.forEach (decodeBlock step requestId deadlineUs requestPriority) blockIds.zipIdx)
      (fun _ u => u.Coherent) (fun _ u => u.Coherent ∧ Confined (some requestId) blockIds s u)
      { t with requestMetadata := t.requestMetadata.set requestId requestMeta } := by
  have hset := h.confined.trans (.setMetadata t requestId blockIds requestMeta)
  generalize hs' : { t with requestMetadata := t.requestMetadata.set requestId requestMeta } = s'
    at hset ⊢
  have hcoherent : s'.Coherent := by
    rw [← hs']
    exact h.coherent
  have hloop : Wp (Stateful.forEach (decodeBlock step requestId deadlineUs requestPriority)
      blockIds.zipIdx) (fun _ u => Within requestId blockIds s' u)
      (fun _ u => Within requestId blockIds s' u) s' :=
    Wp.forEach (.refl hcoherent) fun entry hentry u hu =>
      hu.decodeBlock (List.fst_mem_of_mem_zipIdx hentry) deadlineUs requestPriority
  exact hloop.mono (fun _ _ hu => hu.coherent) fun _ _ hu => ⟨hu.coherent, hset.trans hu.confined⟩

/-- A decode step has written the metadata of its request by the time it can raise. -/
theorem Confined.onDecodeStep (h : s.Coherent) (deadlineUs requestPriority : Option ℤ) :
    Wp (onDecodeStep step requestId blockIds deadlineUs requestPriority) (fun _ t => t.Coherent)
      (fun _ t => t.Coherent ∧ Confined (some requestId) blockIds s t) s := by
  rw [VLLMIntentAdapter.onDecodeStep, Stateful.wp_bind, wp_requestDefaults, Stateful.wp_bind,
    Stateful.wp_modify]
  exact Confined.decodeBlocks (Within.refl h).knowing _ deadlineUs requestPriority

theorem Within.onRequestFinished (h : s.Coherent) :
    Wp (onRequestFinished step requestId blockIds) (fun _ t => t.Coherent)
      (fun _ t => Within requestId blockIds s t) s := by
  refine (Wp.forEach (I := fun u => Within requestId blockIds s u) (.refl h)
    fun blockId hin u hu => hu.finishBlock hin).bind fun events u hu => ?_
  rw [Stateful.wp_bind, Stateful.wp_modify]
  exact hu.coherent

theorem Within.onBlockAllocated (h : s.Coherent) (phase : Phase)
    (requestPriority deadlineUs sizeBytes : Option ℤ) (isDraft : Bool) :
    Wp (onBlockAllocated step requestId blockId phase requestPriority deadlineUs sizeBytes isDraft)
      (fun _ t => t.Coherent) (fun _ t => t = s.knowing requestId) s := by
  have hin : blockId ∈ [blockId] := by simp
  have hknowing : Within requestId [blockId] s (s.knowing requestId) := (Within.refl h).knowing
  rw [VLLMIntentAdapter.onBlockAllocated, Stateful.wp_bind]
  refine wp_makeIntent (fun v hv => ?_) fun _ => rfl
  have hfields := (MemoryIntent.postInit_ok hv).1
  refine wp_emit (fun _ event _ _ hintent => ?_) fun _ _ => rfl
  refine (hknowing.recorded hin ?_).coherent
  rw [hintent, hfields, knowing_defaultAllowedTiers]
  exact ⟨rfl, rfl, rfl⟩

/-- The first block that a spill finds shows whether any can be spilled: all may go to the same tiers. -/
theorem Within.spillBlock (h : Within requestId blockIds s t) (hin : blockId ∈ blockIds)
    (hprogress : t = s ∨ 0 ≤ step ∧ Tier.dram ∈ s.defaultAllowedTiers) :
    Wp (spillBlock step requestId blockId)
      (fun _ u => Within requestId blockIds s u ∧
        (u = s ∨ 0 ≤ step ∧ Tier.dram ∈ s.defaultAllowedTiers))
      (fun _ u => u = s) t := by
  rw [VLLMIntentAdapter.spillBlock, Stateful.wp_bind, Stateful.wp_get]
  cases hget : t.blocks.get? (requestId, blockId) with
  | none =>
    exact ⟨h, hprogress⟩
  | some block =>
    have hfiled := h.coherent _ block hget
    have htiers : block.1.allowedTiers = s.defaultAllowedTiers := hfiled.allowedTiers.trans h.tiers
    simp only
    rw [Stateful.wp_bind]
    refine Stateful.wp_lift (fun v hv => ?_) fun e he => ?_
    · have hfields := MemoryIntent.validated_fields hv
      have hdram : Tier.dram ∈ s.defaultAllowedTiers := by
        have := v.2.currentTier_mem
        rw [hfields] at this
        rwa [← htiers]
      rw [Stateful.wp_bind]
      refine wp_emit (fun hstep event _ _ hintent => ⟨h.recorded hin ?_, .inr ⟨hstep, hdram⟩⟩)
        fun hstep _ => ?_
      · rw [hintent, hfields]
        exact hfiled.of_eq rfl rfl rfl
      · exact hprogress.resolve_right fun hright => absurd hright.1 (not_le.mpr hstep)
    · refine hprogress.resolve_right fun hright => ?_
      obtain ⟨w, hw⟩ : ∃ w, MemoryIntent.validated { block.1 with currentTier := .dram } = .ok w := by
        refine exists_validated block.2 rfl rfl rfl rfl rfl rfl rfl ?_ block.2.recencyScore_range
        show Tier.dram ∈ block.1.allowedTiers
        rw [htiers]
        exact hright.2
      rw [hw] at he
      cases he

theorem emitSequenceSpill_harmless (h : s.Coherent) (sequence : Sequence) :
    Wp (emitSequenceSpill sequence) (fun _ t => t.Coherent) (fun _ t => t = s) s := by
  rw [emitSequenceSpill, Stateful.wp_bind]
  refine Stateful.wp_lift (fun requestId _ => ?_) fun _ _ => rfl
  exact (Wp.forEach (I := fun u => Within requestId (sequenceBlockIds sequence) s u ∧
      (u = s ∨ 0 ≤ sequence.step.getD 0 ∧ Tier.dram ∈ s.defaultAllowedTiers))
    ⟨.refl h, .inl rfl⟩ fun blockId hin u hu => hu.1.spillBlock hin hu.2).mono
      (fun _ _ hu => hu.1.coherent) fun _ _ hu => hu

/-- A sequence's accesses, once its request has metadata. -/
theorem Confined.emitAccesses (hs : Confined (some requestId) blockIds s t) (h : t.Coherent)
    (decodeDepth : ℤ) (deadlineUs requestPriority : Option ℤ) :
    Wp (if 0 < decodeDepth then
        VLLMIntentAdapter.onDecodeStep step requestId blockIds deadlineUs requestPriority
      else VLLMIntentAdapter.onPrefillStep step requestId blockIds) (fun _ u => u.Coherent)
      (fun _ u => u.Coherent ∧ Confined (some requestId) blockIds s u) t := by
  refine Stateful.wp_ite (fun _ => ?_) fun _ => ?_
  · exact (Confined.onDecodeStep h deadlineUs requestPriority).mono (fun _ _ hu => hu)
      fun _ _ hu => ⟨hu.1, hs.trans hu.2⟩
  · exact (Within.onPrefillStep (.refl h)).mono (fun _ _ hu => hu.coherent)
      fun _ _ hu => ⟨hu.coherent, hs.trans hu.confined⟩

theorem Confined.emitSequenceAccesses (h : s.Coherent) (sequence : Sequence) (requestId : String)
    (hrequest : sequenceRequestId sequence = .ok requestId) :
    Wp (emitSequenceAccesses sequence) (fun _ u => u.Coherent)
      (fun _ u => u.Coherent ∧ Confined (some requestId) (sequenceBlockIds sequence) s u) s := by
  rw [VLLMIntentAdapter.emitSequenceAccesses, hrequest, Stateful.wp_bind]
  refine Stateful.wp_lift (fun r hr => ?_) fun e he => by cases he
  cases hr
  rw [Stateful.wp_bind, Stateful.wp_get]
  dsimp only
  refine Stateful.wp_ite (fun _ => ?_) fun _ => ?_
  · rw [Stateful.wp_bind, VLLMIntentAdapter.onRequestScheduled, Stateful.wp_bind, Stateful.wp_modify]
    exact (Confined.setMetadata s requestId _ _).emitAccesses h _ _ _
  · exact (Confined.refl s).emitAccesses h _ _ _

theorem sequenceAccesses_leaves (h : s.Coherent) (sequence : Sequence) :
    Wp (HookCall.sequenceAccesses sequence).run (fun _ t => t.Coherent)
      (fun _ t => t.Coherent ∧ (HookCall.sequenceAccesses sequence).Leaves s t) s := by
  cases hid : sequenceRequestId sequence with
  | ok requestId =>
    have hrequest : (HookCall.sequenceAccesses sequence).requestId = some requestId := by
      simp [HookCall.requestId, hid, Except.toOption]
    refine (Confined.emitSequenceAccesses h sequence requestId hid).mono (fun _ _ ht => ht)
      fun _ t ht => ⟨ht.1, ?_⟩
    have hconfined : Confined (HookCall.sequenceAccesses sequence).requestId
        (sequenceBlockIds sequence) s t := by
      rw [hrequest]
      exact ht.2
    apply hconfined.leaves (.sequenceAccesses sequence) rfl rfl
    simp [HookCall.Harmless, hrequest]
  | error failure =>
    rw [HookCall.run, emitSequenceAccesses, hid]
    exact ⟨h, .refl _ s⟩

theorem sequenceFree_leaves (h : s.Coherent) (sequence : Sequence) :
    Wp (HookCall.sequenceFree sequence).run (fun _ t => t.Coherent)
      (fun _ t => t.Coherent ∧ (HookCall.sequenceFree sequence).Leaves s t) s := by
  cases hid : sequenceRequestId sequence with
  | ok requestId =>
    have hrequest : (HookCall.sequenceFree sequence).requestId = some requestId := by
      simp [HookCall.requestId, hid, Except.toOption]
    rw [HookCall.run, emitSequenceFree, hid]
    refine (Within.onRequestFinished h).mono (fun _ _ ht => ht) fun _ t ht => ⟨ht.coherent, ?_⟩
    apply ht.leaves hrequest (fun hc => by cases hc)
    simp [HookCall.Harmless, hrequest]
  | error failure =>
    rw [HookCall.run, emitSequenceFree, hid]
    exact ⟨h, .refl _ s⟩

end Hooks

/-! ## Any call -/

/-- Whatever the adapter holds, a call keeps its cache coherent and leaves little behind if it raises. -/
theorem HookCall.run_leaves {s : VLLMIntentAdapter} (h : s.Coherent) (call : HookCall) :
    Wp call.run (fun _ t => t.Coherent) (fun _ t => t.Coherent ∧ call.Leaves s t) s := by
  cases call with
  | requestScheduled step requestId requestPriority deadlineUs =>
    rw [HookCall.run, onRequestScheduled, Stateful.wp_bind, Stateful.wp_modify]
    exact h
  | blockAllocated step requestId blockId phase requestPriority deadlineUs sizeBytes isDraft =>
    rw [HookCall.run]
    refine ((Within.onBlockAllocated h phase requestPriority deadlineUs sizeBytes isDraft).mono
      (fun _ _ ht => ht) fun _ t ht => ?_).bind fun _ _ ht => ht
    have hwithin : Within requestId [blockId] s (s.knowing requestId) := (Within.refl h).knowing
    rw [ht]
    exact ⟨hwithin.coherent, hwithin.leaves rfl (fun _ => knowing_recorder s requestId) knowing_of_known⟩
  | blockAccessed step requestId blockId phase decodeCritical =>
    refine touch_leaves (.blockAccessed step requestId blockId phase decodeCritical)
      (onBlockAccessed_eq step requestId blockId phase decodeCritical) rfl h rfl rfl (fun hc => hc)
      (fun _ => ⟨rfl, rfl, rfl⟩) fun v => ?_
    exact exists_validated v.2 rfl rfl rfl rfl rfl rfl rfl v.2.currentTier_mem (by norm_num)
  | blockCommitted step requestId blockId =>
    refine touch_leaves (.blockCommitted step requestId blockId)
      (onBlockCommitted_eq step requestId blockId) rfl h rfl rfl (fun hc => hc)
      (fun _ => ⟨rfl, rfl, rfl⟩) fun v => ?_
    exact exists_validated v.2 rfl rfl rfl rfl rfl rfl rfl v.2.currentTier_mem v.2.recencyScore_range
  | blockMarkedCold step requestId blockId expectedReuseWindowTokens =>
    refine touch_leaves (.blockMarkedCold step requestId blockId expectedReuseWindowTokens)
      (onBlockMarkedCold_eq step requestId blockId expectedReuseWindowTokens) rfl h rfl rfl
      (fun hc => hc) (fun _ => ⟨rfl, rfl, rfl⟩) fun v => ?_
    exact exists_validated v.2 rfl rfl rfl rfl rfl rfl rfl v.2.currentTier_mem (by norm_num)
  | blockFreed step requestId blockId =>
    refine touch_leaves (.blockFreed step requestId blockId)
      (onBlockFreed_eq step requestId blockId) rfl h rfl rfl (fun hc => hc)
      (fun _ => ⟨rfl, rfl, rfl⟩) fun v => ?_
    refine exists_validated v.2 rfl rfl rfl rfl rfl rfl rfl ?_ (by norm_num)
    show (if Tier.dram ∈ v.1.allowedTiers then Tier.dram else v.1.currentTier) ∈ v.1.allowedTiers
    split
    next hdram => exact hdram
    next => exact v.2.currentTier_mem
  | decodeStep step requestId activeBlockIds deadlineUs requestPriority =>
    refine (Confined.onDecodeStep h deadlineUs requestPriority).mono (fun _ _ ht => ht)
      fun _ t ht => ⟨ht.1, ?_⟩
    exact ht.2.leaves (.decodeStep step requestId activeBlockIds deadlineUs requestPriority) rfl rfl
      fun hc => hc
  | prefillStep step requestId blockIds =>
    refine (Within.onPrefillStep (.refl h)).mono (fun _ _ ht => ht.coherent)
      fun _ t ht => ⟨ht.coherent, ht.leaves rfl (fun hc => by cases hc) fun hc => hc.elim⟩
  | requestFinished step requestId blockIds =>
    refine (Within.onRequestFinished h).mono (fun _ _ ht => ht)
      fun _ t ht => ⟨ht.coherent, ht.leaves rfl (fun hc => by cases hc) fun hc => hc.elim⟩
  | sequenceAccesses sequence => exact sequenceAccesses_leaves h sequence
  | sequenceSpill sequence =>
    refine (emitSequenceSpill_harmless h sequence).mono (fun _ _ ht => ht) fun _ t ht => ?_
    rw [ht]
    exact ⟨h, .refl _ s⟩
  | sequenceFree sequence => exact sequenceFree_leaves h sequence

/-- The adapter after some calls. A call that raises changes the adapter too. -/
def afterCalls (adapter : VLLMIntentAdapter) (calls : List HookCall) : VLLMIntentAdapter :=
  calls.foldl (fun adapter call => (call.run.run adapter).2) adapter

/-- What every call keeps, whether it returns or raises, holds after any calls. -/
theorem afterCalls_invariant {adapter : VLLMIntentAdapter} {I : VLLMIntentAdapter → Prop}
    {calls : List HookCall} (h : I adapter)
    (hstep : ∀ call ∈ calls, ∀ s, I s → Wp call.run (fun _ t => I t) (fun _ t => I t) s) :
    I (adapter.afterCalls calls) := by
  induction calls generalizing adapter with
  | nil => exact h
  | cons call calls ih =>
    exact ih (hstep call List.mem_cons_self adapter h).after
      fun c hc => hstep c (List.mem_cons_of_mem _ hc)

theorem coherent_afterCalls {adapter : VLLMIntentAdapter} (h : adapter.Coherent)
    (calls : List HookCall) : (adapter.afterCalls calls).Coherent :=
  afterCalls_invariant (I := Coherent) h fun call _ _ hs =>
    (HookCall.run_leaves hs call).mono (fun _ _ ht => ht) fun _ _ ht => ht.1

/-- A new adapter has no block cached. -/
theorem coherent_init (recorder : Option IntentTraceRecorder) (defaultBlockSizeBytes : ℤ)
    (defaultAllowedTiers : Option (Finset Tier)) :
    (init recorder defaultBlockSizeBytes defaultAllowedTiers).Coherent := by
  intro key block hblock
  cases hblock

/-- After any calls, a call that raises takes nothing back and touches nothing that it does not name. -/
theorem raising_call_leaves (recorder : Option IntentTraceRecorder) (defaultBlockSizeBytes : ℤ)
    (defaultAllowedTiers : Option (Finset Tier)) (calls : List HookCall) (call : HookCall)
    {failure : Failure} {after : VLLMIntentAdapter}
    (h : call.run.run ((init recorder defaultBlockSizeBytes defaultAllowedTiers).afterCalls calls) =
      (.error failure, after)) :
    call.Leaves ((init recorder defaultBlockSizeBytes defaultAllowedTiers).afterCalls calls) after := by
  have hcoherent := coherent_afterCalls
    (coherent_init recorder defaultBlockSizeBytes defaultAllowedTiers) calls
  exact ((HookCall.run_leaves hcoherent call).of_error h).2

/-- A new adapter is told of two blocks of an unknown request. The second has no proper id. -/
theorem raising_call_leaves_prefill :
    ∃ failure after,
      (HookCall.prefillStep 0 "req" [0, -1]).run.run ((init none 16384 none).afterCalls []) =
        (.error failure, after) ∧
      (HookCall.prefillStep 0 "req" [0, -1]).Leaves ((init none 16384 none).afterCalls []) after := by
  obtain ⟨failure, after, hrun, -⟩ := Stateful.error_of_check
    (x := (HookCall.prefillStep 0 "req" [0, -1]).run) (s := init none 16384 none)
    (p := fun _ => true) (by decide +kernel)
  exact ⟨failure, after, hrun,
    raising_call_leaves none 16384 none [] (.prefillStep 0 "req" [0, -1]) hrun⟩

/-- That call leaves its first block, the metadata of its request and an event behind. -/
theorem prefill_not_rolled_back :
    ∃ failure after,
      (HookCall.prefillStep 0 "req" [0, -1]).run.run ((init none 16384 none).afterCalls []) =
        (.error failure, after) ∧
      after.blocks ≠ (init none 16384 none).blocks ∧
      after.requestMetadata ≠ (init none 16384 none).requestMetadata ∧
      after.recorder.events ≠ (init none 16384 none).recorder.events := by
  obtain ⟨failure, after, hrun, hafter⟩ := Stateful.error_of_check
    (x := (HookCall.prefillStep 0 "req" [0, -1]).run) (s := init none 16384 none)
    (p := fun t => (t.blocks.get? ("req", 0)).isSome && (t.requestMetadata.get? "req").isSome &&
      !t.recorder.events.isEmpty) (by decide +kernel)
  simp only [Bool.and_eq_true, Bool.not_eq_true'] at hafter
  obtain ⟨⟨hblock, hmeta⟩, hevents⟩ := hafter
  refine ⟨failure, after, hrun, fun heq => ?_, fun heq => ?_, fun heq => ?_⟩
  · rw [heq] at hblock
    cases hblock
  · rw [heq] at hmeta
    cases hmeta
  · rw [heq] at hevents
    cases hevents

end VLLMIntentAdapter

end KVMemoryIntent
