-- SUMMARY: What the import of a proxy log returns: one segment of events for each entry, and when its blocks cover the request.
import KVDeadlineScheduler.Importer.ProxyLog
import KVDeadlineScheduler.Importer.Segments

/-!
# Segments of an imported proxy log

The import fails only where a quotient overflows. The segment of an entry allocates
blocks for its prompt, marks the last of them, and frees them all. The completion has no
blocks of its own.
-/

namespace KVMemoryIntent

/-! ## Requests -/

/-- What the loops over the blocks of a request rely on. -/
structure ProxyRequest.Sound (request : ProxyRequest) : Prop where
  step_nonneg : 0 ≤ request.step
  requestId_ne : request.requestId ≠ ""
  bytesPerBlock_pos : 0 < request.bytesPerBlock
  numBlocks_pos : 0 < request.numBlocks
  completionSteps_pos : 0 < request.completionSteps

theorem textOrElse_ne {x : Option String} {y : String} (h : y ≠ "") : textOrElse x y ≠ "" := by
  unfold textOrElse
  split
  · exact h
  · split
    · exact h
    · assumption

/-- `ceil(prompt_tokens / logical_block_tokens)`, with the rounded quotient. -/
def ProxyLogEntry.promptBlocks (entry : ProxyLogEntry) (logicalBlockTokens : ℤ) : ℤ :=
  ⌈Double.nearest (entry.promptTokens / logicalBlockTokens)⌉

/-- How many steps an entry is taken to last. -/
def ProxyLogEntry.duration (entry : ProxyLogEntry) : ℤ :=
  ⌈Double.nearest ((max entry.completionTokens 1 : ℤ) / 64)⌉

/-- Neither quotient of the entry overflows. -/
structure ProxyLogEntry.FitsDoubles (logicalBlockTokens : ℤ) (entry : ProxyLogEntry) : Prop where
  prompt : Double.Fits (entry.promptTokens / logicalBlockTokens)
  completion : Double.Fits ((max entry.completionTokens 1 : ℤ) / 64)

namespace ProxyRequest

/-- The request of an entry whose quotients do not overflow. -/
def rounded (config : ModelKVConfig) (logicalBlockTokens : ℤ) (entry : ProxyLogEntry) (step : ℕ) :
    ProxyRequest where
  step := step
  requestId := textOrElse entry.id ("request-" ++ toString step)
  bytesPerBlock := kvBytesPerToken config * logicalBlockTokens
  numBlocks := max 1 (entry.promptBlocks logicalBlockTokens)
  completionSteps := entry.duration
  totalTokens := entry.totalTokens

theorem ceilDiv_of_fits {a b : ℤ} (h : Double.Fits (a / b)) : ceilDiv a b = .ok ⌈Double.nearest (a / b)⌉ := by
  rw [ceilDiv, Double.divide, if_pos h]
  rfl

theorem fits_of_ceilDiv {a b q : ℤ} (h : ceilDiv a b = .ok q) : Double.Fits (a / b) := by
  by_contra hfits
  rw [ceilDiv, Double.divide, if_neg hfits] at h
  cases h

theorem ofEntry_eq {config : ModelKVConfig} {logicalBlockTokens : ℤ} {entry : ProxyLogEntry}
    (h : entry.FitsDoubles logicalBlockTokens) (step : ℕ) :
    ofEntry config logicalBlockTokens entry step = .ok (rounded config logicalBlockTokens entry step) := by
  have hcompletion : ceilDiv (max entry.completionTokens 1) 64 = .ok entry.duration :=
    ceilDiv_of_fits (by exact_mod_cast h.completion)
  exact Replay.bind_eq_ok.mpr ⟨_, ceilDiv_of_fits h.prompt, Replay.bind_eq_ok.mpr ⟨_, hcompletion, rfl⟩⟩

theorem fitsDoubles_of_ofEntry {config : ModelKVConfig} {logicalBlockTokens : ℤ} {entry : ProxyLogEntry}
    {step : ℕ} {request : ProxyRequest} (h : ofEntry config logicalBlockTokens entry step = .ok request) :
    entry.FitsDoubles logicalBlockTokens := by
  obtain ⟨blocks, hprompt, h⟩ := Replay.bind_eq_ok.mp h
  obtain ⟨steps, hcompletion, -⟩ := Replay.bind_eq_ok.mp h
  exact ⟨fits_of_ceilDiv hprompt, by exact_mod_cast fits_of_ceilDiv hcompletion⟩

end ProxyRequest

/-- Rounding leaves the 64th part of a positive number positive. -/
theorem ProxyLogEntry.duration_pos (entry : ProxyLogEntry) : 0 < entry.duration := by
  have hone : (1 : ℚ) ≤ (max entry.completionTokens 1 : ℤ) := by
    exact_mod_cast le_max_right entry.completionTokens 1
  have hpart : (2 : ℚ) ^ (-6 : ℤ) ≤ ((max entry.completionTokens 1 : ℤ) : ℚ) / 64 := by
    rw [le_div_iff₀ (by norm_num)]
    exact le_trans (by norm_num) hone
  have hsmall : (2 : ℚ) ^ (-1022 : ℤ) ≤ 2 ^ (-6 : ℤ) := zpow_le_zpow_right₀ one_le_two (by decide)
  exact Double.one_le_ceil_nearest (hsmall.trans hpart)

theorem ProxyRequest.rounded_sound (config : ModelKVConfig) {logicalBlockTokens : ℤ}
    (htokens : 0 < logicalBlockTokens) (entry : ProxyLogEntry) (step : ℕ) :
    (ProxyRequest.rounded config logicalBlockTokens entry step).Sound where
  step_nonneg := Int.natCast_nonneg step
  requestId_ne := by
    refine textOrElse_ne fun h => ?_
    have := congrArg String.toList h
    simp at this
  bytesPerBlock_pos := mul_pos (kvBytesPerToken_pos config) htokens
  numBlocks_pos := lt_max_of_lt_left one_pos
  completionSteps_pos := entry.duration_pos

theorem resolveModelConfig_ok (modelName : String) :
    resolveModelConfig modelName = .ok ((modelPresets.lookup modelName).getD llama3_8b) :=
  ModelKVConfig.postInit_eq _

/-! ## Events of a request -/

/-- When an event happens, and what it does to which block. -/
def MemoryIntentEvent.stamp (e : MemoryIntentEvent) : ℤ × EventType × ℤ :=
  (e.step, e.eventType, e.intent.blockId)

namespace ProxyRequest

variable {request : ProxyRequest} {events : List MemoryIntentEvent} {blockId : ℤ}

/-- What all intents of a block have in common. -/
structure OfBlock (request : ProxyRequest) (blockId : ℤ) (m : MemoryIntent) : Prop where
  objectId : m.objectId = request.blockObjectId blockId
  requestId : m.requestId = request.requestId
  blockId : m.blockId = blockId
  sizeBytes : m.sizeBytes = request.bytesPerBlock
  allowedTiers : m.allowedTiers = {.hbm, .dram}
  currentTier : m.currentTier = .hbm ∨ m.currentTier = .dram
  requestPriority : m.requestPriority = 50
  recencyScore : 0 ≤ m.recencyScore ∧ m.recencyScore ≤ 1
  pinned : m.priority = .decodeCritical → m.pinRequested = true

theorem blockObjectId_ne (request : ProxyRequest) (blockId : ℤ) : request.blockObjectId blockId ≠ "" := by
  intro h
  have := congrArg String.toList h
  simp [blockObjectId] at this

/-- Such an intent passes the checks of its constructor. -/
theorem OfBlock.valid {m : MemoryIntent} (h : OfBlock request blockId m) (hsound : request.Sound)
    (hblock : 0 ≤ blockId) : m.Valid where
  objectId_ne := h.objectId ▸ request.blockObjectId_ne blockId
  requestId_ne _ := h.requestId ▸ hsound.requestId_ne
  blockId_nonneg := h.blockId ▸ hblock
  sizeBytes_pos := h.sizeBytes ▸ hsound.bytesPerBlock_pos
  allowedTiers_ne := by
    rw [h.allowedTiers]
    simp
  requestPriority_range := by
    rw [h.requestPriority]
    decide
  recencyScore_range := h.recencyScore
  pinned := h.pinned
  currentTier_mem := by
    rw [h.allowedTiers]
    rcases h.currentTier with htier | htier <;> simp [htier]

theorem allocIntent_ofBlock : OfBlock request blockId (request.allocIntent blockId) :=
  ⟨rfl, rfl, rfl, rfl, rfl, .inl rfl, rfl, by norm_num [allocIntent], nofun⟩

theorem hotIntent_ofBlock : OfBlock request blockId (request.hotIntent blockId) :=
  ⟨rfl, rfl, rfl, rfl, rfl, .inl rfl, rfl, by norm_num [hotIntent], fun _ => rfl⟩

theorem freedIntent_ofBlock : OfBlock request blockId (request.freedIntent blockId) :=
  ⟨rfl, rfl, rfl, rfl, rfl, .inr rfl, rfl, by norm_num [freedIntent], nofun⟩

/-- The events are about blocks of the request, with the given stamps. -/
structure Stamped (request : ProxyRequest) (stamps : List (ℤ × EventType × ℤ))
    (events : List MemoryIntentEvent) : Prop where
  stamps : events.map MemoryIntentEvent.stamp = stamps
  ofBlock : ∀ e ∈ events, OfBlock request e.intent.blockId e.intent

theorem Stamped.composes : Journal.Composes (Stamped request) where
  nil := ⟨rfl, fun _ he => absurd he List.not_mem_nil⟩
  append h h' := by
    refine ⟨?_, fun e he => ?_⟩
    · rw [List.map_append, h.stamps, h'.stamps]
    · rcases List.mem_append.mp he with he | he
      · exact h.ofBlock e he
      · exact h'.ofBlock e he

/-- The computation appends events with the given stamps. -/
def Emits (request : ProxyRequest) (stamps : List (ℤ × EventType × ℤ)) (events : List MemoryIntentEvent)
    (x : Except Failure (List MemoryIntentEvent)) : Prop :=
  Journal.Appends id (fun _ => True) (Stamped request stamps) events x

/-- An event is appended for an intent of a block. -/
theorem OfBlock.emits {m : MemoryIntent} (h : OfBlock request blockId m) (hsound : request.Sound)
    (hblock : 0 ≤ blockId) {step : ℤ} (hstep : 0 ≤ step) (eventType : EventType) (reason : String) :
    Emits request [(step, eventType, blockId)] events (emit events step eventType m reason) := by
  have hvalid := h.valid hsound hblock
  obtain ⟨event, hevent, hstep', htype, hintent⟩ :=
    MemoryIntentEvent.postInit_total hstep eventType ⟨m, hvalid⟩ (some reason)
  refine .let hvalid.validated (.let hevent ⟨events ++ [event], [event], rfl, trivial, rfl, ?_, ?_⟩)
  · rw [List.map_singleton, MemoryIntentEvent.stamp, hstep', htype, hintent, h.blockId]
  · intro e he
    rw [List.mem_singleton.mp he, hintent, h.blockId]
    exact h

/-- A loop over blocks appends the event of each. -/
theorem Emits.loop {body : List MemoryIntentEvent → ℕ → Except Failure (List MemoryIntentEvent)}
    {stamp : ℕ → ℤ × EventType × ℤ} {blocks : List ℕ}
    (hbody : ∀ b events, Emits request [stamp b] events (body events b)) :
    Emits request (blocks.map stamp) events (blocks.foldlM body events) := by
  rw [List.map_eq_flatMap]
  exact Stamped.composes.loop (fun b _ events _ => hbody b events) trivial

/-- What the import says about a request. -/
def stamps (request : ProxyRequest) : List (ℤ × EventType × ℤ) :=
  request.blocks.map (fun b : ℕ => (request.step, .allocated, (b : ℤ))) ++
    (request.hotBlocks.map (fun b : ℕ => (request.markStep, .markedDecodeCritical, (b : ℤ))) ++
      request.blocks.map (fun b : ℕ => (request.freeStep, .freed, (b : ℤ))))

theorem step_le_markStep (request : ProxyRequest) : request.step ≤ request.markStep := by
  unfold markStep
  omega

/-- A request is freed after it was allocated. -/
theorem Sound.step_lt_freeStep (hsound : request.Sound) : request.step < request.freeStep := by
  have := hsound.completionSteps_pos
  unfold freeStep
  omega

theorem importBlocks_emits (hsound : request.Sound) :
    Emits request request.stamps events (request.importBlocks events) := by
  have hstep := hsound.step_nonneg
  have hmark : 0 ≤ request.markStep := hstep.trans request.step_le_markStep
  have hfree : 0 ≤ request.freeStep := hstep.trans hsound.step_lt_freeStep.le
  refine Stamped.composes.bind (Emits.loop fun b events => ?_) fun events _ =>
    Stamped.composes.bind (Emits.loop fun b events => ?_) fun events _ => Emits.loop fun b events => ?_
  · exact allocIntent_ofBlock.emits hsound (Int.natCast_nonneg b) hstep _ _
  · exact hotIntent_ofBlock.emits hsound (Int.natCast_nonneg b) hmark _ _
  · exact freedIntent_ofBlock.emits hsound (Int.natCast_nonneg b) hfree _ _

end ProxyRequest

/-! ## The import -/

/-- The configuration that an entry is resolved to. -/
def proxyConfig (modelNameOverride : Option String) (entry : ProxyLogEntry) : ModelKVConfig :=
  (modelPresets.lookup (textOrElse modelNameOverride (textOrElse entry.model ""))).getD llama3_8b

/-- The events of an entry of the sorted log. -/
def IsProxySegment (logicalBlockTokens : ℤ) (modelNameOverride : Option String)
    (entry : ProxyLogEntry × ℕ) (events : List MemoryIntentEvent) : Prop :=
  let request :=
    ProxyRequest.rounded (proxyConfig modelNameOverride entry.1) logicalBlockTokens entry.1 entry.2
  ProxyRequest.Stamped request request.stamps events

section Import

variable {logicalBlockTokens : ℤ} {modelNameOverride : Option String} {entry : ProxyLogEntry × ℕ}
  {segment : List MemoryIntentEvent}

/-- The import appends the segment of one entry after the other. -/
theorem openaiProxyLogsToIntentEvents_segments {entries : List ProxyLogEntry}
    (modelNameOverride : Option String) (htokens : 0 < logicalBlockTokens)
    (hfits : ∀ entry ∈ entries, entry.FitsDoubles logicalBlockTokens) :
    ∃ segments,
      openaiProxyLogsToIntentEvents entries logicalBlockTokens modelNameOverride = .ok segments.flatten ∧
      List.Forall₂ (IsProxySegment logicalBlockTokens modelNameOverride)
        (ProxyLogEntry.sortedByKey entries).zipIdx segments := by
  have hbody : ∀ entry ∈ (ProxyLogEntry.sortedByKey entries).zipIdx, ∀ events, True →
      Journal.Appends id (fun _ => True) (IsProxySegment logicalBlockTokens modelNameOverride entry) events
        (importProxyEntry logicalBlockTokens modelNameOverride events entry) := by
    intro entry hentry events _
    have hin : entry.1 ∈ entries := List.mem_mergeSort.mp (List.fst_mem_of_mem_zipIdx hentry)
    refine .let (resolveModelConfig_ok _) (.let (ProxyRequest.ofEntry_eq (hfits entry.1 hin) entry.2) ?_)
    exact ProxyRequest.importBlocks_emits (ProxyRequest.rounded_sound _ htokens entry.1 entry.2)
  obtain ⟨events, _, hloop, -, rfl, segments, rfl, hsegments⟩ := Journal.Appends.loop hbody (s := []) trivial
  refine ⟨segments, ?_, hsegments⟩
  rw [openaiProxyLogsToIntentEvents, if_neg (not_le.mpr htokens)]
  exact hloop

theorem fitsDoubles_of_loop {entries : List (ProxyLogEntry × ℕ)} {events events' : List MemoryIntentEvent}
    (h : entries.foldlM (importProxyEntry logicalBlockTokens modelNameOverride) events = .ok events') :
    ∀ entry ∈ entries, entry.1.FitsDoubles logicalBlockTokens := by
  induction entries generalizing events with
  | nil => simp
  | cons entry entries ih =>
    rw [List.foldlM_cons] at h
    obtain ⟨events₁, hentry, hrest⟩ := Replay.bind_eq_ok.mp h
    obtain ⟨config, -, hentry⟩ := Replay.bind_eq_ok.mp hentry
    obtain ⟨request, hrequest, -⟩ := Replay.bind_eq_ok.mp hentry
    rintro other hother
    rcases List.mem_cons.mp hother with rfl | hother
    · exact ProxyRequest.fitsDoubles_of_ofEntry hrequest
    · exact ih hrest other hother

/-- What the import returns, it has divided without an overflow. -/
theorem fitsDoubles_of_import {entries : List ProxyLogEntry} {events : List MemoryIntentEvent}
    (htokens : 0 < logicalBlockTokens)
    (h : openaiProxyLogsToIntentEvents entries logicalBlockTokens modelNameOverride = .ok events) :
    ∀ entry ∈ entries, entry.FitsDoubles logicalBlockTokens := by
  rw [openaiProxyLogsToIntentEvents, if_neg (not_le.mpr htokens)] at h
  intro entry hentry
  have hsorted : entry ∈ ProxyLogEntry.sortedByKey entries := List.mem_mergeSort.mpr hentry
  obtain ⟨i, hi, rfl⟩ := List.mem_iff_getElem.mp hsorted
  have hin : ((ProxyLogEntry.sortedByKey entries)[i], i) ∈ (ProxyLogEntry.sortedByKey entries).zipIdx := by
    rw [List.mem_zipIdx_iff_getElem?]
    simp [hi]
  exact fitsDoubles_of_loop h _ hin

/-! ## Footprints -/

/-- The bytes of the blocks that the events allocate. -/
def allocatedBytes (events : List MemoryIntentEvent) : ℤ :=
  ((events.filter (·.eventType = .allocated)).map (·.intent.sizeBytes)).sum

/-- The events allocate at least what is estimated for the tokens. -/
def CoversRequest (config : ModelKVConfig) (promptTokens generatedTokens : ℤ)
    (events : List MemoryIntentEvent) : Prop :=
  ∃ bytes, estimateRequestKvBytes config promptTokens generatedTokens = .ok bytes ∧
    bytes ≤ allocatedBytes events

theorem coversRequest_iff {config : ModelKVConfig} {promptTokens generatedTokens : ℤ}
    {events : List MemoryIntentEvent} (hprompt : 0 ≤ promptTokens) (hgenerated : 0 ≤ generatedTokens) :
    CoversRequest config promptTokens generatedTokens events ↔
      kvBytesPerToken config * (promptTokens + generatedTokens) ≤ allocatedBytes events := by
  simp [CoversRequest, estimateRequestKvBytes_ok config hprompt hgenerated]

theorem allocatedBytes_eq {events : List MemoryIntentEvent} {size : ℤ}
    (h : ∀ e ∈ events, e.intent.sizeBytes = size) :
    allocatedBytes events = events.countP (·.eventType = .allocated) * size := by
  have hsizes : (events.filter (·.eventType = .allocated)).map (·.intent.sizeBytes) =
      (events.filter (·.eventType = .allocated)).map fun _ => size :=
    List.map_congr_left fun e he => h e (List.mem_filter.mp he).1
  rw [allocatedBytes, hsizes, List.map_const', List.sum_replicate, List.countP_eq_length_filter,
    nsmul_eq_mul]

theorem ProxyRequest.countP_allocated (request : ProxyRequest) :
    request.stamps.countP (fun stamp => stamp.2.1 = .allocated) = request.numBlocks.toNat := by
  simp [ProxyRequest.stamps, ProxyRequest.blocks, List.countP_append, List.countP_map, Function.comp_def]

theorem countP_allocated_segmentLabels (k h : ℕ) (completed : Bool) :
    (segmentLabels k h completed).countP (fun label => label.1 = .allocated) = k := by
  cases completed <;> simp [segmentLabels, List.countP_append, List.countP_flatMap, Function.comp_def]

/-- An entry allocates the blocks of its prompt. -/
theorem IsProxySegment.allocatedBytes (h : IsProxySegment logicalBlockTokens modelNameOverride entry segment) :
    allocatedBytes segment = max 1 (entry.1.promptBlocks logicalBlockTokens) *
      (kvBytesPerToken (proxyConfig modelNameOverride entry.1) * logicalBlockTokens) := by
  have hblocks : 0 ≤ max 1 (entry.1.promptBlocks logicalBlockTokens) := by omega
  have hcount : segment.countP (·.eventType = .allocated) =
      (max 1 (entry.1.promptBlocks logicalBlockTokens)).toNat := by
    have hstamps := congrArg (List.countP fun stamp => stamp.2.1 = .allocated) h.stamps
    rw [List.countP_map, ProxyRequest.countP_allocated] at hstamps
    exact hstamps
  rw [allocatedBytes_eq fun e he => (h.ofBlock e he).sizeBytes, hcount, Int.toNat_of_nonneg hblocks]
  rfl

/-- An imported request allocates blocks that cover it. -/
theorem IsSegment.covers {config : ModelKVConfig} {blockSizeBytes : ℤ} {maxBlocksPerRequest : Option ℤ}
    {record : RequestTraceRecord} (h : IsSegment config blockSizeBytes maxBlocksPerRequest record segment) :
    CoversRequest config record.promptTokens record.generatedTokens segment := by
  obtain ⟨k, hot, size, h⟩ := h
  have hcount : segment.countP (·.eventType = .allocated) = k := by
    have hlabels := congrArg (List.countP fun label => label.1 = .allocated) h.labels
    rw [List.countP_map, countP_allocated_segmentLabels] at hlabels
    exact hlabels
  rw [coversRequest_iff record.promptTokens_nonneg record.generatedTokens_nonneg,
    allocatedBytes_eq h.sizeBytes, hcount]
  exact h.covers.covered

/-- The blocks of an entry cover its request exactly if its completion fits beside its prompt. -/
theorem IsProxySegment.covers_iff (h : IsProxySegment logicalBlockTokens modelNameOverride entry segment)
    (hprompt : 0 ≤ entry.1.promptTokens) (hcompletion : 0 ≤ entry.1.completionTokens) :
    CoversRequest (proxyConfig modelNameOverride entry.1) entry.1.promptTokens entry.1.completionTokens
        segment ↔
      entry.1.promptTokens + entry.1.completionTokens ≤
        logicalBlockTokens * max 1 (entry.1.promptBlocks logicalBlockTokens) := by
  have hfactor : max 1 (entry.1.promptBlocks logicalBlockTokens) *
      (kvBytesPerToken (proxyConfig modelNameOverride entry.1) * logicalBlockTokens) =
      kvBytesPerToken (proxyConfig modelNameOverride entry.1) *
        (logicalBlockTokens * max 1 (entry.1.promptBlocks logicalBlockTokens)) := by
    ring
  rw [coversRequest_iff hprompt hcompletion, h.allocatedBytes, hfactor]
  exact mul_le_mul_iff_right₀ (kvBytesPerToken_pos _)

/-- The import of a proxy log returns if no quotient overflows. An entry then allocates blocks that cover
its request exactly if its completion fits into the blocks of its prompt. The import of a request trace
covers every request, while the bytes of each stay below `2 ^ 53`. -/
theorem openaiProxyLogsToIntentEvents_covers_iff (entries : List ProxyLogEntry)
    (modelNameOverride : Option String) (htokens : 0 < logicalBlockTokens)
    (hcounts : ∀ entry ∈ entries, 0 ≤ entry.promptTokens ∧ 0 ≤ entry.completionTokens) :
    ((∃ events, openaiProxyLogsToIntentEvents entries logicalBlockTokens modelNameOverride = .ok events) ↔
      ∀ entry ∈ entries, entry.FitsDoubles logicalBlockTokens) ∧
    (∀ events, openaiProxyLogsToIntentEvents entries logicalBlockTokens modelNameOverride = .ok events →
      ∃ segments, events = segments.flatten ∧
        List.Forall₂ (fun entry segment =>
            IsProxySegment logicalBlockTokens modelNameOverride entry segment ∧
            ∃ config,
              resolveModelConfig (textOrElse modelNameOverride (textOrElse entry.1.model "")) = .ok config ∧
              (CoversRequest config entry.1.promptTokens entry.1.completionTokens segment ↔
                entry.1.promptTokens + entry.1.completionTokens ≤
                  logicalBlockTokens * max 1 (entry.1.promptBlocks logicalBlockTokens)))
          (ProxyLogEntry.sortedByKey entries).zipIdx segments) ∧
    ∀ (records : List RequestTraceRecord) (config : ModelKVConfig) (blockSizeBytes decodeBlockTokens : ℤ)
      (maxBlocksPerRequest : Option ℤ), 0 < blockSizeBytes → 0 < decodeBlockTokens →
      (∀ m ∈ maxBlocksPerRequest, 0 < m) → (∀ record ∈ records, WithinDoubles config record) →
      ∃ segments,
        requestTraceToIntentEvents records config blockSizeBytes decodeBlockTokens maxBlocksPerRequest =
          .ok segments.flatten ∧
        List.Forall₂ (fun record segment =>
            CoversRequest config record.promptTokens record.generatedTokens segment)
          (RequestTraceRecord.sortedByKey records) segments := by
  refine ⟨⟨fun ⟨events, h⟩ => fitsDoubles_of_import htokens h, fun hfits => ?_⟩, fun events h => ?_, ?_⟩
  · obtain ⟨segments, himport, -⟩ := openaiProxyLogsToIntentEvents_segments modelNameOverride htokens hfits
    exact ⟨_, himport⟩
  · obtain ⟨segments, himport, hsegments⟩ :=
      openaiProxyLogsToIntentEvents_segments modelNameOverride htokens (fitsDoubles_of_import htokens h)
    rw [h] at himport
    cases himport
    have hsorted : ∀ entry ∈ (ProxyLogEntry.sortedByKey entries).zipIdx,
        0 ≤ entry.1.promptTokens ∧ 0 ≤ entry.1.completionTokens := by
      intro entry hentry
      exact hcounts entry.1 (List.mem_mergeSort.mp (List.fst_mem_of_mem_zipIdx hentry))
    refine ⟨segments, rfl, ((List.forall₂_and_left _ _).mpr ⟨hsorted, hsegments⟩).imp ?_⟩
    rintro entry segment ⟨⟨hprompt, hcompletion⟩, hsegment⟩
    exact ⟨hsegment, _, resolveModelConfig_ok _, hsegment.covers_iff hprompt hcompletion⟩
  · intro records config blockSizeBytes decodeBlockTokens maxBlocksPerRequest hb hd hmax hbytes
    obtain ⟨st, segments, himport, -, hevents, hsegments⟩ :=
      requestTraceToIntentEvents_appends records config hb hd hmax hbytes
    rw [hevents] at himport
    exact ⟨segments, himport, hsegments.imp fun _ _ hsegment => hsegment.covers⟩

/-- A prompt of sixteen blocks, and a completion of two more. -/
def chatEntry : ProxyLogEntry where
  id := some "chatcmpl-1"
  model := some "gpt-4"
  created := some 2
  usage :=
    { promptTokens := some 4096
      completionTokens := some 512
      totalTokens := some 4608 }

theorem ProxyLogEntry.fitsDoubles_of_lt {entry : ProxyLogEntry} (hprompt : 0 ≤ entry.promptTokens)
    (hprompt' : entry.promptTokens < 2 ^ 53) (hcompletion : entry.completionTokens < 2 ^ 53)
    (htokens : 0 < logicalBlockTokens) : entry.FitsDoubles logicalBlockTokens where
  prompt := Double.fits_div hprompt hprompt' htokens
  completion := by
    have hpart := Double.fits_div (le_max_of_le_right zero_le_one : 0 ≤ max entry.completionTokens 1)
      (max_lt hcompletion (by decide)) (by decide : (0 : ℤ) < 64)
    exact_mod_cast hpart

theorem openaiProxyLogsToIntentEvents_covers_chat :
    ∃ segments, openaiProxyLogsToIntentEvents [chatEntry] 256 none = .ok segments.flatten ∧
      List.Forall₂ (fun entry segment =>
          IsProxySegment 256 none entry segment ∧
          ∃ config, resolveModelConfig (textOrElse none (textOrElse entry.1.model "")) = .ok config ∧
            (CoversRequest config entry.1.promptTokens entry.1.completionTokens segment ↔
              entry.1.promptTokens + entry.1.completionTokens ≤
                256 * max 1 (entry.1.promptBlocks 256)))
        (ProxyLogEntry.sortedByKey [chatEntry]).zipIdx segments := by
  obtain ⟨hreturns, hcovers, -⟩ :=
    openaiProxyLogsToIntentEvents_covers_iff [chatEntry] none (by decide : (0 : ℤ) < 256) (by simp +decide)
  obtain ⟨events, h⟩ := hreturns.mpr fun entry hentry => by
    rw [List.mem_singleton.mp hentry]
    exact ProxyLogEntry.fitsDoubles_of_lt (by decide) (by decide) (by decide) (by decide)
  obtain ⟨segments, rfl, hsegments⟩ := hcovers events h
  exact ⟨segments, h, hsegments⟩

/-- Its events allocate no block for the completion. -/
theorem openaiProxyLogsToIntentEvents_uncovered :
    resolveModelConfig "gpt-4" = .ok llama3_8b ∧
    ∃ events, openaiProxyLogsToIntentEvents [chatEntry] 256 none = .ok events ∧
      ¬CoversRequest llama3_8b chatEntry.promptTokens chatEntry.completionTokens events := by
  refine ⟨resolveModelConfig_ok _, ?_⟩
  have hsorted : ProxyLogEntry.sortedByKey [chatEntry] = [chatEntry] := List.mergeSort_singleton _
  obtain ⟨events, himport, hcheck⟩ := Replay.exists_of_check
    (x := [chatEntry].zipIdx.foldlM (importProxyEntry 256 none) [])
    (p := fun events => decide (allocatedBytes events < kvBytesPerToken llama3_8b * (4096 + 512)))
    (by decide +kernel)
  refine ⟨events, ?_, ?_⟩
  · rw [openaiProxyLogsToIntentEvents, if_neg (by decide), hsorted]
    exact himport
  · rw [coversRequest_iff (by decide) (by decide), not_le]
    exact of_decide_eq_true hcheck

end Import

end KVMemoryIntent
