-- SUMMARY: What the import of a request trace returns: one segment of events for each request, over blocks that cover its bytes.
import Mathlib.Tactic.FieldSimp
import KVDeadlineScheduler.Importer.Import
import KVDeadlineScheduler.Library.Journal
import KVDeadlineScheduler.Library.Replay

/-!
# Segments of an imported trace

Every intent the import builds passes its checks, so no loop fails, and each loop
appends its events at consecutive steps. The block plan of a request covers the
bytes of its tokens with little to spare, and leaves at least one block hot. While the
bytes stay below `2 ^ 53`, its rounded quotients have the ceilings of the exact ones.
-/

namespace KVMemoryIntent

/-! ## The block plan -/

/-- The ceiling of the exact quotient. -/
def exactCeil (a b : ℤ) : ℤ := ⌈(a : ℚ) / b⌉

section ExactCeil

variable {a b : ℤ}

theorem le_mul_exactCeil (hb : 0 < b) : a ≤ exactCeil a b * b := by
  have h : (a : ℚ) / b ≤ (exactCeil a b : ℤ) := Int.le_ceil _
  rw [div_le_iff₀ (Int.cast_pos.mpr hb), ← Int.cast_mul] at h
  exact Int.cast_le.mp h

theorem exactCeil_mul_lt (hb : 0 < b) : exactCeil a b * b < a + b := by
  have h : (exactCeil a b : ℚ) - 1 < (a : ℚ) / b := sub_lt_iff_lt_add.mpr (Int.ceil_lt_add_one _)
  rw [lt_div_iff₀ (Int.cast_pos.mpr hb), sub_mul, one_mul, sub_lt_iff_lt_add, ← Int.cast_mul,
    ← Int.cast_add] at h
  exact Int.cast_lt.mp h

theorem exactCeil_pos_iff (hb : 0 < b) : 0 < exactCeil a b ↔ 0 < a := by
  rw [exactCeil, Int.ceil_pos, div_pos_iff_of_pos_right (Int.cast_pos.mpr hb), Int.cast_pos]

end ExactCeil

/-- The blocks of a request, if no cap applies to them. -/
def uncappedBlocks (totalKvBytes blockSizeBytes : ℤ) : ℤ := max 1 (exactCeil totalKvBytes blockSizeBytes)

/-- `k` blocks of size `s` cover the bytes of a request, within the cap. They exceed
them by less than a block, or by less than a byte for each block if the cap has
set the size. -/
structure Covers (totalKvBytes blockSizeBytes : ℤ) (maxBlocksPerRequest : Option ℤ) (k s : ℤ) : Prop where
  size_pos : 0 < s
  le_max : ∀ m ∈ maxBlocksPerRequest, k ≤ m
  covered : totalKvBytes ≤ k * s
  uncapped : (∀ m ∈ maxBlocksPerRequest, uncappedBlocks totalKvBytes blockSizeBytes ≤ m) →
    s = blockSizeBytes ∧ (0 < totalKvBytes → k * s < totalKvBytes + s)
  capped : (∃ m ∈ maxBlocksPerRequest, m < uncappedBlocks totalKvBytes blockSizeBytes) →
    0 < totalKvBytes → k * s < totalKvBytes + k

/-- The number of blocks and their size, with exact quotients. -/
def exactBlocks (totalKvBytes blockSizeBytes : ℤ) (maxBlocksPerRequest : Option ℤ) : ℤ × ℤ :=
  match maxBlocksPerRequest with
  | none => (uncappedBlocks totalKvBytes blockSizeBytes, blockSizeBytes)
  | some m =>
    if uncappedBlocks totalKvBytes blockSizeBytes > m then
      (m, exactCeil totalKvBytes m)
    else
      (uncappedBlocks totalKvBytes blockSizeBytes, blockSizeBytes)

/-- The block plan with exact quotients. -/
def exactPlan (totalKvBytes generatedTokens blockSizeBytes decodeBlockTokens : ℤ)
    (maxBlocksPerRequest : Option ℤ) : BlockPlan :=
  let blocks := exactBlocks totalKvBytes blockSizeBytes maxBlocksPerRequest
  { numBlocks := blocks.1
    logicalBlockSize := blocks.2
    decodeHotBlocks := min (max 1 (exactCeil (max generatedTokens 1) decodeBlockTokens)) blocks.1 }

section Plan

variable {totalKvBytes blockSizeBytes : ℤ}

theorem le_uncappedBlocks_mul (hb : 0 < blockSizeBytes) :
    totalKvBytes ≤ uncappedBlocks totalKvBytes blockSizeBytes * blockSizeBytes :=
  (le_mul_exactCeil hb).trans (Int.mul_le_mul_of_nonneg_right (le_max_right _ _) hb.le)

theorem uncappedBlocks_mul_lt (hb : 0 < blockSizeBytes) (htotal : 0 < totalKvBytes) :
    uncappedBlocks totalKvBytes blockSizeBytes * blockSizeBytes < totalKvBytes + blockSizeBytes := by
  have hpos := (exactCeil_pos_iff hb).mpr htotal
  rw [uncappedBlocks, max_eq_right (by omega)]
  exact exactCeil_mul_lt hb

theorem exactBlocks_covers (totalKvBytes : ℤ) (hb : 0 < blockSizeBytes) {maxBlocksPerRequest : Option ℤ}
    (hmax : ∀ m ∈ maxBlocksPerRequest, 0 < m) :
    0 < (exactBlocks totalKvBytes blockSizeBytes maxBlocksPerRequest).1 ∧
      Covers totalKvBytes blockSizeBytes maxBlocksPerRequest
        (exactBlocks totalKvBytes blockSizeBytes maxBlocksPerRequest).1
        (exactBlocks totalKvBytes blockSizeBytes maxBlocksPerRequest).2 := by
  have hone : 0 < uncappedBlocks totalKvBytes blockSizeBytes := lt_max_of_lt_left one_pos
  cases maxBlocksPerRequest with
  | none =>
    exact ⟨hone, hb, nofun, le_uncappedBlocks_mul hb, fun _ => ⟨rfl, uncappedBlocks_mul_lt hb⟩,
      nofun⟩
  | some m =>
    have hm : 0 < m := hmax m rfl
    unfold exactBlocks
    dsimp only
    split
    · rename_i hcap
      have hbytes : 0 < totalKvBytes :=
        (exactCeil_pos_iff hb).mp (by unfold uncappedBlocks at hcap; omega)
      refine ⟨hm, (exactCeil_pos_iff hm).mpr hbytes, ?_, ?_, ?_, fun _ _ => ?_⟩
      · rintro _ ⟨⟩
        exact le_rfl
      · rw [mul_comm]
        exact le_mul_exactCeil hm
      · intro hall
        exact absurd (hall m rfl) (not_le.mpr hcap)
      · rw [mul_comm]
        exact exactCeil_mul_lt hm
    · rename_i hfits
      refine ⟨hone, hb, ?_, le_uncappedBlocks_mul hb, fun _ => ⟨rfl, uncappedBlocks_mul_lt hb⟩, ?_⟩
      · rintro _ ⟨⟩
        exact not_lt.mp hfits
      · rintro ⟨_, ⟨⟩, hlt⟩
        exact absurd hlt hfits

/-- At least one block of a plan is hot, and at most all are. -/
theorem exactPlan_hot (generatedTokens decodeBlockTokens : ℤ) {maxBlocksPerRequest : Option ℤ}
    (hblocks : 0 < (exactBlocks totalKvBytes blockSizeBytes maxBlocksPerRequest).1) :
    let plan := exactPlan totalKvBytes generatedTokens blockSizeBytes decodeBlockTokens maxBlocksPerRequest
    1 ≤ plan.decodeHotBlocks ∧ plan.decodeHotBlocks ≤ plan.numBlocks := by
  refine ⟨le_min (le_max_left _ _) hblocks, min_le_right _ _⟩

/-! ### Rounded quotients -/

theorem ceilDiv_eq {a b : ℤ} (ha : 0 ≤ a) (hlt : a < 2 ^ 53) (hb : 0 < b) :
    ceilDiv a b = .ok ⌈Double.nearest (a / b)⌉ := by
  rw [ceilDiv, Double.divide_eq ha hlt hb]
  rfl

/-- A cap that applies is below the number of bytes. -/
theorem lt_of_capped {m : ℤ} (hb : 0 < blockSizeBytes) (hm : 0 < m)
    (hcap : m < uncappedBlocks totalKvBytes blockSizeBytes) : m < totalKvBytes := by
  have hbytes : 0 < totalKvBytes := (exactCeil_pos_iff hb).mp (by unfold uncappedBlocks at hcap; omega)
  have hblocks := uncappedBlocks_mul_lt hb hbytes
  nlinarith

theorem cappedBlocks_eq (htotal : 0 ≤ totalKvBytes) (hlt : totalKvBytes < 2 ^ 53) (hb : 0 < blockSizeBytes)
    {maxBlocksPerRequest : Option ℤ} (hmax : ∀ m ∈ maxBlocksPerRequest, 0 < m) :
    cappedBlocks totalKvBytes blockSizeBytes maxBlocksPerRequest =
      .ok (exactBlocks totalKvBytes blockSizeBytes maxBlocksPerRequest) := by
  have hblocks : max 1 ⌈Double.nearest (totalKvBytes / blockSizeBytes)⌉ =
      uncappedBlocks totalKvBytes blockSizeBytes := Double.max_one_ceil_nearest_div htotal hlt hb
  unfold cappedBlocks
  refine Replay.bind_eq_ok.mpr ⟨_, ceilDiv_eq htotal hlt hb, ?_⟩
  simp only [hblocks]
  cases maxBlocksPerRequest with
  | none => rfl
  | some m =>
    have hm : 0 < m := hmax m rfl
    simp only [exactBlocks]
    split
    · rename_i hcap
      refine Replay.bind_eq_ok.mpr ⟨_, ceilDiv_eq htotal hlt hm, ?_⟩
      rw [Double.ceil_nearest_div hm (lt_of_capped hb hm hcap).le hlt]
      rfl
    · rfl

/-- The plan of a request of fewer than `2 ^ 53` bytes is the exact one. -/
theorem blockPlan_eq {generatedTokens decodeBlockTokens : ℤ} (htotal : 0 ≤ totalKvBytes)
    (hlt : totalKvBytes < 2 ^ 53) (hgenerated : generatedTokens < 2 ^ 53) (hb : 0 < blockSizeBytes)
    (hd : 0 < decodeBlockTokens) {maxBlocksPerRequest : Option ℤ} (hmax : ∀ m ∈ maxBlocksPerRequest, 0 < m) :
    blockPlan totalKvBytes generatedTokens blockSizeBytes decodeBlockTokens maxBlocksPerRequest =
      .ok (exactPlan totalKvBytes generatedTokens blockSizeBytes decodeBlockTokens maxBlocksPerRequest) := by
  have hpos : 0 ≤ max generatedTokens 1 := le_max_of_le_right zero_le_one
  have hbelow : max generatedTokens 1 < 2 ^ 53 := max_lt hgenerated (by decide)
  have hhot : max 1 ⌈Double.nearest ((max generatedTokens 1 : ℤ) / decodeBlockTokens)⌉ =
      max 1 (exactCeil (max generatedTokens 1) decodeBlockTokens) :=
    Double.max_one_ceil_nearest_div hpos hbelow hd
  refine Replay.bind_eq_ok.mpr ⟨_, cappedBlocks_eq htotal hlt hb hmax, ?_⟩
  refine Replay.bind_eq_ok.mpr ⟨_, ceilDiv_eq hpos hbelow hd, ?_⟩
  rw [hhot]
  rfl

end Plan

/-! ## Intents of blocks -/

/-- What all intents of a block have in common. -/
structure Imported (record : RequestTraceRecord) (plan : BlockPlan) (blockId : ℤ) (m : MemoryIntent) :
    Prop where
  objectId : m.objectId = blockObjectId record blockId
  requestId : m.requestId = record.requestId
  blockId : m.blockId = blockId
  sizeBytes : m.sizeBytes = plan.logicalBlockSize
  allowedTiers : m.allowedTiers = {.hbm, .dram}
  currentTier : m.currentTier = .hbm ∨ m.currentTier = .dram
  requestPriority : 0 ≤ m.requestPriority ∧ m.requestPriority ≤ 100
  recencyScore : 0 ≤ m.recencyScore ∧ m.recencyScore ≤ 1

section Intents

variable {record : RequestTraceRecord} {plan : BlockPlan} {blockId : ℤ} {m : MemoryIntent}

theorem blockObjectId_ne (record : RequestTraceRecord) (blockId : ℤ) : blockObjectId record blockId ≠ "" := by
  intro h
  have := congrArg String.toList h
  simp [blockObjectId] at this

/-- Such an intent passes the checks of its constructor. -/
theorem Imported.valid (h : Imported record plan blockId m) (hsize : 0 < plan.logicalBlockSize)
    (hblock : 0 ≤ blockId) :
    MemoryIntent.Valid { m with pinRequested := m.pinRequested || m.priority = .decodeCritical } where
  objectId_ne := h.objectId ▸ blockObjectId_ne record blockId
  requestId_ne _ := h.requestId ▸ record.requestId_ne
  blockId_nonneg := h.blockId ▸ hblock
  sizeBytes_pos := h.sizeBytes ▸ hsize
  allowedTiers_ne := by
    rw [h.allowedTiers]
    simp
  requestPriority_range := h.requestPriority
  recencyScore_range := h.recencyScore
  pinned hp := by simp [show m.priority = .decodeCritical from hp]
  currentTier_mem := by
    rw [h.allowedTiers]
    rcases h.currentTier with htier | htier <;> simp [htier]

theorem Imported.self (h : Imported record plan blockId m) : Imported record plan m.blockId m := by
  have hblock := h.blockId
  subst hblock
  exact h

theorem Imported.congr (h : Imported record plan blockId m) {pin : Bool} {step : ℤ} :
    Imported record plan blockId { m with pinRequested := pin, lastAccessStep := step } :=
  ⟨h.objectId, h.requestId, h.blockId, h.sizeBytes, h.allowedTiers, h.currentTier, h.requestPriority,
    h.recencyScore⟩

variable {currentStep : ℤ}

theorem allocIntent_imported (hblock : 0 ≤ blockId) :
    Imported record plan blockId (allocIntent record plan currentStep blockId) where
  objectId := rfl
  requestId := rfl
  blockId := rfl
  sizeBytes := rfl
  allowedTiers := rfl
  currentTier := .inl rfl
  requestPriority := by
    have hrange := record.requestPriority_range
    simp only [allocIntent]
    split <;> omega
  recencyScore := by
    have hage : 0 ≤ ageFraction plan blockId :=
      div_nonneg (Int.cast_nonneg hblock) (Int.cast_nonneg (le_max_of_le_right zero_le_one))
    simp only [allocIntent]
    split
    · norm_num
    · exact ⟨le_max_left _ _, max_le (by norm_num) (by linarith)⟩

theorem hotIntent_imported {offset : ℕ} :
    Imported record plan blockId (hotIntent record plan currentStep blockId offset) where
  objectId := rfl
  requestId := rfl
  blockId := rfl
  sizeBytes := rfl
  allowedTiers := rfl
  currentTier := .inl rfl
  requestPriority := record.requestPriority_range
  recencyScore := by
    have hoffset : (0 : ℚ) ≤ offset := Nat.cast_nonneg offset
    exact ⟨le_max_of_le_left (by norm_num), max_le (by norm_num) (by linarith)⟩

theorem coldIntent_imported : Imported record plan blockId (coldIntent record plan currentStep blockId) where
  objectId := rfl
  requestId := rfl
  blockId := rfl
  sizeBytes := rfl
  allowedTiers := rfl
  currentTier := .inl rfl
  requestPriority := by
    have hrange := record.requestPriority_range
    simp only [coldIntent]
    omega
  recencyScore := by simp [coldIntent]

theorem freedIntent_imported : Imported record plan blockId (freedIntent record plan currentStep blockId) where
  objectId := rfl
  requestId := rfl
  blockId := rfl
  sizeBytes := rfl
  allowedTiers := rfl
  currentTier := .inr rfl
  requestPriority := record.requestPriority_range
  recencyScore := by simp [freedIntent]

end Intents

/-! ## Loops -/

/-- The next step is the length of the trace, and every event has its position as
its step. -/
structure Numbered (st : ImportState) : Prop where
  currentStep : st.currentStep = st.events.length
  step_eq : ∀ (i : ℕ) (e : MemoryIntentEvent), st.events[i]? = some e → e.step = i

/-- What an event does to which block. -/
def MemoryIntentEvent.label (e : MemoryIntentEvent) : EventType × ℤ := (e.eventType, e.intent.blockId)

/-- The events do what the labels say, to blocks of the plan. -/
def Labelled (record : RequestTraceRecord) (plan : BlockPlan) (labels : List (EventType × ℤ))
    (events : List MemoryIntentEvent) : Prop :=
  events.map MemoryIntentEvent.label = labels ∧
    ∀ e ∈ events, Imported record plan e.intent.blockId e.intent

/-- The computation appends events with the given labels. -/
def Emits (record : RequestTraceRecord) (plan : BlockPlan) (labels : List (EventType × ℤ))
    (st : ImportState) (x : Except Failure ImportState) : Prop :=
  Journal.Appends ImportState.events Numbered (Labelled record plan labels) st x

section Loops

variable {record : RequestTraceRecord} {plan : BlockPlan} {st : ImportState}

theorem Numbered.append (h : Numbered st) (eventType : EventType) (intent : { m : MemoryIntent // m.Valid })
    (reason : String) :
    Journal.Appends ImportState.events Numbered
      (fun new => ∃ e, new = [e] ∧ e.eventType = eventType ∧ e.intent = intent) st
      (st.append eventType intent reason) := by
  obtain ⟨event, hevent, hstep, htype, hintent⟩ :=
    MemoryIntentEvent.postInit_total (h.currentStep ▸ Int.natCast_nonneg _) eventType intent (some reason)
  refine ⟨{ events := st.events ++ [event], currentStep := st.currentStep + 1 }, [event], ?_, ⟨?_, ?_⟩,
    rfl, event, rfl, htype, hintent⟩
  · rw [ImportState.append]
    exact Replay.bind_eq_ok.mpr ⟨event, hevent, rfl⟩
  · rw [h.currentStep, List.length_append, List.length_singleton, Nat.cast_succ]
  · intro i e he
    rw [List.getElem?_append] at he
    split at he
    · exact h.step_eq i e he
    · rename_i hi
      obtain ⟨hlt, heq⟩ := List.getElem?_eq_some_iff.mp he
      rw [List.length_singleton] at hlt
      have hlast : i = st.events.length := by omega
      rw [List.getElem_singleton] at heq
      rw [← heq, hlast, hstep, h.currentStep]

variable {blockId : ℤ}

/-- An event is appended for an intent of a block. -/
theorem Imported.emits_append {intent : { m : MemoryIntent // m.Valid }}
    (h : Imported record plan blockId intent) (hst : Numbered st) (eventType : EventType) (reason : String) :
    Emits record plan [(eventType, blockId)] st (st.append eventType intent reason) := by
  refine (hst.append eventType intent reason).mono ?_
  rintro _ ⟨e, rfl, htype, hintent⟩
  refine ⟨?_, fun e' he' => ?_⟩
  · rw [List.map_singleton, MemoryIntentEvent.label, htype, hintent, h.blockId]
  · rw [List.mem_singleton.mp he', hintent]
    exact h.self

/-- So it is when the intent is built first. -/
theorem Imported.emits {m : MemoryIntent} (h : Imported record plan blockId m)
    (hsize : 0 < plan.logicalBlockSize) (hblock : 0 ≤ blockId) (hst : Numbered st) (eventType : EventType)
    (reason : String) :
    Emits record plan [(eventType, blockId)] st
      (m.validated >>= fun intent => st.append eventType intent reason) :=
  .let (MemoryIntent.validated_of_valid (h.valid hsize hblock)) (h.congr.emits_append hst eventType reason)

/-! ## Loops -/

theorem allocateBlock_emits (hsize : 0 < plan.logicalBlockSize) (hst : Numbered st) (b : ℕ) :
    Emits record plan [(.allocated, (b : ℤ))] st (allocateBlock record plan st b) :=
  (allocIntent_imported (Int.natCast_nonneg b)).emits hsize (Int.natCast_nonneg b) hst _ _

theorem markColdBlock_emits (hsize : 0 < plan.logicalBlockSize) (hst : Numbered st) (b : ℕ) :
    Emits record plan [(.markedCold, (b : ℤ))] st (markColdBlock record plan st b) :=
  coldIntent_imported.emits hsize (Int.natCast_nonneg b) hst _ _

theorem freeBlock_emits (hsize : 0 < plan.logicalBlockSize) (hst : Numbered st) (b : ℕ) :
    Emits record plan [(.freed, (b : ℤ))] st (freeBlock record plan st b) :=
  freedIntent_imported.emits hsize (Int.natCast_nonneg b) hst _ _

theorem Labelled.composes : Journal.Composes (Labelled record plan) where
  nil := ⟨rfl, fun _ he => absurd he List.not_mem_nil⟩
  append h h' := by
    refine ⟨?_, fun e he => ?_⟩
    · rw [List.map_append, h.1, h'.1]
    · rcases List.mem_append.mp he with he | he
      · exact h.2 e he
      · exact h'.2 e he

theorem Emits.bind {labels labels' : List (EventType × ℤ)} {x : Except Failure ImportState}
    {f : ImportState → Except Failure ImportState} (h : Emits record plan labels st x)
    (hf : ∀ t, Numbered t → Emits record plan labels' t (f t)) :
    Emits record plan (labels ++ labels') st (x >>= f) :=
  Labelled.composes.bind h hf

theorem Emits.nothing (hst : Numbered st) : Emits record plan [] st (.ok st) :=
  Journal.Appends.nothing hst Labelled.composes.nil

/-- A loop over blocks appends the events of each. -/
theorem Emits.loop {body : ImportState → ℕ → Except Failure ImportState}
    {labels : ℕ → List (EventType × ℤ)} {n : ℕ}
    (hbody : ∀ b < n, ∀ t, Numbered t → Emits record plan (labels b) t (body t b)) (hst : Numbered st) :
    Emits record plan ((List.range n).flatMap labels) st ((List.range n).foldlM body st) :=
  Labelled.composes.loop (fun b hb t ht => hbody b (List.mem_range.mp hb) t ht) hst

/-- A hot block is marked first and accessed next. -/
theorem accessHotBlock_emits (hsize : 0 < plan.logicalBlockSize) (hst : Numbered st) {b : ℤ}
    {offset : ℕ} (hb : plan.numBlocks - plan.decodeHotBlocks + offset = b) (hblock : 0 ≤ b) :
    Emits record plan [(.markedDecodeCritical, b), (.accessed, b)] st (accessHotBlock record plan st offset) := by
  subst hb
  have himported : Imported record plan (plan.numBlocks - plan.decodeHotBlocks + offset)
    (hotIntent record plan st.currentStep (plan.numBlocks - plan.decodeHotBlocks + offset) offset) :=
    hotIntent_imported
  refine .let (MemoryIntent.validated_of_valid (himported.valid hsize hblock)) ?_
  apply Emits.bind (himported.congr.emits_append hst _ _)
  intro t ht
  exact himported.congr.congr.emits hsize hblock ht _ _

end Loops

/-! ## Segments -/

/-- What the import says about `k` blocks of which the last `h` are hot: all are
allocated, the hot ones are marked and accessed, the others are marked cold, and
all are freed if the request has completed. -/
def segmentLabels (k h : ℕ) (completed : Bool) : List (EventType × ℤ) :=
  let blocks := List.range k
  blocks.flatMap (fun b : ℕ => [(.allocated, (b : ℤ))]) ++
    (blocks.drop (k - h)).flatMap (fun b : ℕ => [(.markedDecodeCritical, (b : ℤ)), (.accessed, (b : ℤ))]) ++
    (blocks.take (k - h)).flatMap (fun b : ℕ => [(.markedCold, (b : ℤ))]) ++
    if completed then blocks.flatMap (fun b : ℕ => [(.freed, (b : ℤ))]) else []

/-- The last `h` of `k` blocks. -/
theorem drop_range {k h : ℕ} (hle : h ≤ k) :
    (List.range k).drop (k - h) = (List.range h).map (k - h + ·) := by
  apply List.ext_getElem
  · simp only [List.length_drop, List.length_range, List.length_map]
    omega
  · intro i _ _
    simp

theorem take_range {k h : ℕ} : (List.range k).take (k - h) = List.range (k - h) := by
  rw [List.take_range, min_eq_left (Nat.sub_le k h)]

theorem importBlocks_emits {record : RequestTraceRecord} {plan : BlockPlan} {st : ImportState} {k h : ℕ}
    (hsize : 0 < plan.logicalBlockSize) (hk : plan.numBlocks = k) (hh : plan.decodeHotBlocks = h)
    (hle : h ≤ k) (hst : Numbered st) :
    Emits record plan (segmentLabels k h (record.status = "completed")) st (importBlocks record plan st) := by
  have hcold : (max 0 ((k : ℤ) - h)).toNat = k - h := by omega
  rw [segmentLabels, drop_range hle, take_range, List.flatMap_map, List.append_assoc, List.append_assoc,
    importBlocks, hk, hh, Int.toNat_natCast, Int.toNat_natCast, hcold]
  apply Emits.bind (.loop (fun b _ t ht => allocateBlock_emits hsize ht b) hst)
  intro allocated hallocated
  apply Emits.bind (.loop (fun b _ t ht => ?_) hallocated)
  · intro accessed haccessed
    apply Emits.bind (.loop (fun b _ t ht => markColdBlock_emits hsize ht b) haccessed)
    intro cooled hcooled
    by_cases hdone : record.status = "completed"
    · simp only [hdone, decide_true, if_true]
      exact .loop (fun b _ t ht => freeBlock_emits hsize ht b) hcooled
    · simp only [hdone, decide_false, if_false]
      exact .nothing hcooled
  · refine accessHotBlock_emits hsize ht ?_ (Int.natCast_nonneg _)
    rw [hk, hh]
    omega

/-- The events of a request, over `k` blocks of size `s` of which the last `h` are
hot. -/
structure SegmentOf (config : ModelKVConfig) (blockSizeBytes : ℤ) (maxBlocksPerRequest : Option ℤ)
    (record : RequestTraceRecord) (k h : ℕ) (s : ℤ) (events : List MemoryIntentEvent) : Prop where
  labels : events.map MemoryIntentEvent.label = segmentLabels k h (record.status = "completed")
  objectId : ∀ e ∈ events, e.intent.objectId = blockObjectId record e.intent.blockId
  requestId : ∀ e ∈ events, e.intent.requestId = record.requestId
  sizeBytes : ∀ e ∈ events, e.intent.sizeBytes = s
  hot : 1 ≤ h ∧ h ≤ k
  covers : Covers (kvBytesPerToken config * (record.promptTokens + record.generatedTokens)) blockSizeBytes
    maxBlocksPerRequest k s

/-- The events are those of a request over some blocks. -/
def IsSegment (config : ModelKVConfig) (blockSizeBytes : ℤ) (maxBlocksPerRequest : Option ℤ)
    (record : RequestTraceRecord) (events : List MemoryIntentEvent) : Prop :=
  ∃ k h s, SegmentOf config blockSizeBytes maxBlocksPerRequest record k h s events

section Import

variable {config : ModelKVConfig} {blockSizeBytes decodeBlockTokens : ℤ} {maxBlocksPerRequest : Option ℤ}

/-- The block plan of a request. -/
def recordPlan (config : ModelKVConfig) (blockSizeBytes decodeBlockTokens : ℤ)
    (maxBlocksPerRequest : Option ℤ) (record : RequestTraceRecord) : BlockPlan :=
  exactPlan (kvBytesPerToken config * (record.promptTokens + record.generatedTokens))
    record.generatedTokens blockSizeBytes decodeBlockTokens maxBlocksPerRequest

/-- The plan has `k` blocks, the last `h` of which are hot. -/
theorem recordPlan_covers (decodeBlockTokens : ℤ) (hb : 0 < blockSizeBytes)
    (hmax : ∀ m ∈ maxBlocksPerRequest, 0 < m) (record : RequestTraceRecord) :
    let plan := recordPlan config blockSizeBytes decodeBlockTokens maxBlocksPerRequest record
    ∃ k h : ℕ, plan.numBlocks = k ∧ plan.decodeHotBlocks = h ∧ (1 ≤ h ∧ h ≤ k) ∧
      Covers (kvBytesPerToken config * (record.promptTokens + record.generatedTokens)) blockSizeBytes
        maxBlocksPerRequest k plan.logicalBlockSize := by
  intro plan
  obtain ⟨hblocks, hcovers⟩ := exactBlocks_covers
    (kvBytesPerToken config * (record.promptTokens + record.generatedTokens)) hb hmax
  obtain ⟨hpos, hle⟩ := exactPlan_hot record.generatedTokens decodeBlockTokens hblocks
  obtain ⟨k, hk⟩ := Int.eq_ofNat_of_zero_le hblocks.le
  obtain ⟨h, hh⟩ := Int.eq_ofNat_of_zero_le (zero_le_one.trans hpos)
  have hnum : plan.numBlocks = k := hk
  have hhot : plan.decodeHotBlocks = h := hh
  refine ⟨k, h, hnum, hhot, ⟨?_, ?_⟩, ?_⟩
  · rw [hh] at hpos
    exact Int.ofNat_le.mp hpos
  · have hle' : plan.decodeHotBlocks ≤ plan.numBlocks := hle
    rw [hhot, hnum] at hle'
    exact Int.ofNat_le.mp hle'
  · rw [← hk]
    exact hcovers

/-- The bytes of a request, below which no quotient of its plan is rounded past an integer. -/
def WithinDoubles (config : ModelKVConfig) (record : RequestTraceRecord) : Prop :=
  kvBytesPerToken config * (record.promptTokens + record.generatedTokens) < 2 ^ 53

instance (config : ModelKVConfig) (record : RequestTraceRecord) : Decidable (WithinDoubles config record) :=
  inferInstanceAs (Decidable (_ < _))

theorem blockPlan_record (hb : 0 < blockSizeBytes) (hd : 0 < decodeBlockTokens)
    (hmax : ∀ m ∈ maxBlocksPerRequest, 0 < m) {record : RequestTraceRecord}
    (hbytes : WithinDoubles config record) :
    blockPlan (kvBytesPerToken config * (record.promptTokens + record.generatedTokens))
        record.generatedTokens blockSizeBytes decodeBlockTokens maxBlocksPerRequest =
      .ok (recordPlan config blockSizeBytes decodeBlockTokens maxBlocksPerRequest record) := by
  have hprompt := record.promptTokens_nonneg
  have hgenerated := record.generatedTokens_nonneg
  have hone : 1 ≤ kvBytesPerToken config := kvBytesPerToken_pos config
  have htokens : record.promptTokens + record.generatedTokens ≤
      kvBytesPerToken config * (record.promptTokens + record.generatedTokens) :=
    le_mul_of_one_le_left (by omega) hone
  have hlt : kvBytesPerToken config * (record.promptTokens + record.generatedTokens) < 2 ^ 53 := hbytes
  exact blockPlan_eq (by omega) hlt (by omega) hb hd hmax

theorem importRecord_eq (hb : 0 < blockSizeBytes) (hd : 0 < decodeBlockTokens)
    (hmax : ∀ m ∈ maxBlocksPerRequest, 0 < m) {record : RequestTraceRecord}
    (hbytes : WithinDoubles config record) (st : ImportState) :
    importRecord config blockSizeBytes decodeBlockTokens maxBlocksPerRequest st record =
      importBlocks record (recordPlan config blockSizeBytes decodeBlockTokens maxBlocksPerRequest record)
        st := by
  rw [importRecord, estimateRequestKvBytes_ok config record.promptTokens_nonneg record.generatedTokens_nonneg]
  simp only [bind, Except.bind, blockPlan_record hb hd hmax hbytes]

/-- A request appends its segment. -/
theorem importRecord_appends (hb : 0 < blockSizeBytes) (hd : 0 < decodeBlockTokens)
    (hmax : ∀ m ∈ maxBlocksPerRequest, 0 < m) {record : RequestTraceRecord}
    (hbytes : WithinDoubles config record) {st : ImportState} (hst : Numbered st) :
    Journal.Appends ImportState.events Numbered
      (IsSegment config blockSizeBytes maxBlocksPerRequest record) st
      (importRecord config blockSizeBytes decodeBlockTokens maxBlocksPerRequest st record) := by
  obtain ⟨k, h, hk, hh, hle, hcovers⟩ :=
    recordPlan_covers decodeBlockTokens hb hmax record
  rw [importRecord_eq hb hd hmax hbytes]
  refine (importBlocks_emits hcovers.size_pos hk hh hle.2 hst).mono fun events hevents => ?_
  refine ⟨k, h, _, hevents.1, fun e he => ?_, fun e he => ?_, fun e he => ?_, hle, hcovers⟩
  · exact (hevents.2 e he).objectId
  · exact (hevents.2 e he).requestId
  · exact (hevents.2 e he).sizeBytes

/-- The import appends the segment of one request after the other. -/
theorem requestTraceToIntentEvents_appends (records : List RequestTraceRecord) (config : ModelKVConfig)
    (hb : 0 < blockSizeBytes) (hd : 0 < decodeBlockTokens) (hmax : ∀ m ∈ maxBlocksPerRequest, 0 < m)
    (hbytes : ∀ record ∈ records, WithinDoubles config record) :
    ∃ st segments, requestTraceToIntentEvents records config blockSizeBytes decodeBlockTokens
        maxBlocksPerRequest = .ok st.events ∧ Numbered st ∧ st.events = segments.flatten ∧
      List.Forall₂ (IsSegment config blockSizeBytes maxBlocksPerRequest)
        (RequestTraceRecord.sortedByKey records) segments := by
  have hmax' : ¬maxBlocksPerRequest.any (· ≤ 0) = true := by
    cases maxBlocksPerRequest with
    | none => simp
    | some m => simpa using hmax m rfl
  have hstart : Numbered {} := ⟨rfl, by simp⟩
  have hloop : Journal.Appends ImportState.events Numbered
      (fun new => ∃ segments, new = segments.flatten ∧
        List.Forall₂ (IsSegment config blockSizeBytes maxBlocksPerRequest)
          (RequestTraceRecord.sortedByKey records) segments) {}
      ((RequestTraceRecord.sortedByKey records).foldlM
        (importRecord config blockSizeBytes decodeBlockTokens maxBlocksPerRequest) {}) :=
    .loop (fun record hin _ hst => importRecord_appends hb hd hmax
      (hbytes record ((RequestTraceRecord.sortedByKey_perm records).mem_iff.mp hin)) hst) hstart
  obtain ⟨st, events, hst, hnumbered, hevents, segments, rfl, hsegments⟩ := hloop
  refine ⟨st, segments, ?_, hnumbered, hevents, hsegments⟩
  rw [requestTraceToIntentEvents, if_neg (not_le.mpr hb), if_neg (not_le.mpr hd), if_neg hmax']
  exact Replay.bind_eq_ok.mpr ⟨st, hst, rfl⟩

/-- The import does not fail while the bytes of each request stay below `2 ^ 53`. Its
events are numbered by their positions, and they are the segments of the requests, in
the order of their keys. -/
theorem requestTraceToIntentEvents_segments (records : List RequestTraceRecord) (config : ModelKVConfig)
    (hb : 0 < blockSizeBytes) (hd : 0 < decodeBlockTokens) (hmax : ∀ m ∈ maxBlocksPerRequest, 0 < m)
    (hbytes : ∀ record ∈ records, WithinDoubles config record) :
    ∃ events, requestTraceToIntentEvents records config blockSizeBytes decodeBlockTokens
        maxBlocksPerRequest = .ok events ∧
      (∀ (i : ℕ) (e : MemoryIntentEvent), events[i]? = some e → e.step = i) ∧
      ∃ (sorted : List RequestTraceRecord) (segments : List (List MemoryIntentEvent)),
        sorted.Perm records ∧ sorted.Pairwise (fun a b => a.key ≤ b.key) ∧
        events = segments.flatten ∧
        List.Forall₂ (IsSegment config blockSizeBytes maxBlocksPerRequest) sorted segments := by
  obtain ⟨st, segments, himport, hnumbered, hevents, hsegments⟩ :=
    requestTraceToIntentEvents_appends records config hb hd hmax hbytes
  exact ⟨st.events, himport, hnumbered.step_eq, RequestTraceRecord.sortedByKey records, segments,
    RequestTraceRecord.sortedByKey_perm records, RequestTraceRecord.sortedByKey_pairwise records, hevents,
    hsegments⟩

end Import

/-- A request with a long context, so that a cap applies to it. -/
def longRequest : RequestTraceRecord where
  requestId := "long"
  arrivalMs := 10
  startMs := some 20
  endMs := some 1000
  promptTokens := 128000
  generatedTokens := 1024
  requestPriority := 40
  deadlineMs := some 10000
  status := "completed"
  requestId_ne := by decide
  arrivalMs_nonneg := by decide
  promptTokens_nonneg := by decide
  generatedTokens_nonneg := by decide
  requestPriority_range := by decide
  deadlineMs_pos := by simp

theorem requestTraceToIntentEvents_segments_capped :
    ∃ events, requestTraceToIntentEvents [longRequest] llama3_8b (1024 * 1024) 16 (some 256) = .ok events ∧
      (∀ (i : ℕ) (e : MemoryIntentEvent), events[i]? = some e → e.step = i) ∧
      ∃ (sorted : List RequestTraceRecord) (segments : List (List MemoryIntentEvent)),
        sorted.Perm [longRequest] ∧ sorted.Pairwise (fun a b => a.key ≤ b.key) ∧
        events = segments.flatten ∧
        List.Forall₂ (IsSegment llama3_8b (1024 * 1024) (some 256)) sorted segments :=
  requestTraceToIntentEvents_segments _ _ (by decide) (by decide) (by simp) (by decide)

example :
    (requestTraceToIntentEvents [longRequest] llama3_8b (4 * 1024 * 1024 * 1024) 512 (some 3)).toOption.map
        (List.map MemoryIntentEvent.label) =
      some (segmentLabels 3 2 true) := by
  decide +kernel

end KVMemoryIntent
