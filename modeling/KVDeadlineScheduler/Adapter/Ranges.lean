-- SUMMARY: Hook calls whose arguments are in the ranges of the schema: none of them raises, after any history of such calls.
import KVDeadlineScheduler.Adapter.StepOrder

/-!
# Arguments in range

A hook builds intents from its arguments, from cached blocks and from stored
metadata, and the constructor may refuse each of them. Metadata is stored without
a check, so a call may fail for what an earlier call has stored. If all arguments
are in range, all that is stored is in range as well, and no call fails.
-/

namespace KVMemoryIntent

namespace VLLMIntentAdapter

open Stateful (Wp Returns)

/-- The range of `request_priority`. -/
def PriorityInRange (requestPriority : ℤ) : Prop := 0 ≤ requestPriority ∧ requestPriority ≤ 100

theorem priorityOrDefault_inRange {requestMeta : RequestMetadata}
    (h : PriorityInRange requestMeta.requestPriority) : PriorityInRange requestMeta.priorityOrDefault := by
  unfold RequestMetadata.priorityOrDefault
  split
  next => exact ⟨by norm_num, by norm_num⟩
  next => exact h

theorem getD_inRange {requestPriority : Option ℤ} {default : ℤ}
    (h : ∀ p ∈ requestPriority, PriorityInRange p) (hdefault : PriorityInRange default) :
    PriorityInRange (requestPriority.getD default) := by
  cases requestPriority with
  | none => exact hdefault
  | some p => exact h p rfl

/-- A step and a block that an event may name, among the blocks of `K`. -/
structure Names (K : Set (String × ℤ)) (step : ℤ) (requestId : String) (blockId : ℤ) : Prop where
  step : 0 ≤ step
  request : requestId ≠ ""
  block : 0 ≤ blockId
  key : (requestId, blockId) ∈ K

/-- An adapter that gives blocks these tiers, has only blocks of `K` cached, and has stored nothing that
the schema refuses. -/
structure Ready (tiers : Finset Tier) (K : Set (String × ℤ)) (adapter : VLLMIntentAdapter) : Prop where
  hbm : .hbm ∈ tiers
  defaults : adapter.defaultAllowedTiers = tiers
  size : 0 < adapter.defaultBlockSizeBytes
  cached : ∀ key block, adapter.blocks.get? key = some block → FiledUnder tiers key block.1 ∧ key ∈ K
  stored : ∀ requestId requestMeta, adapter.requestMetadata.get? requestId = some requestMeta →
    PriorityInRange requestMeta.requestPriority

theorem objectId_ne (requestId : String) (blockId : ℤ) : objectId requestId blockId ≠ "" := by
  intro h
  have hlength := congrArg String.length h
  simp only [objectId, String.length_append, String.length_empty, Nat.add_eq_zero_iff] at hlength
  exact absurd hlength.1.2 (by decide)

section Steps

variable {tiers : Finset Tier} {K : Set (String × ℤ)} {s : VLLMIntentAdapter} {key : String × ℤ}
  {requestId : String} {blockId step : ℤ}

theorem Ready.metadataOf (h : s.Ready tiers K) (requestId : String) :
    PriorityInRange (s.metadataOf requestId).requestPriority := by
  unfold VLLMIntentAdapter.metadataOf
  cases hget : s.requestMetadata.get? requestId with
  | none => exact ⟨by norm_num, by norm_num⟩
  | some requestMeta => exact h.stored _ _ hget

theorem Ready.setMetadata (h : s.Ready tiers K) {requestMeta : RequestMetadata}
    (hpriority : PriorityInRange requestMeta.requestPriority) (requestId : String) :
    Ready tiers K { s with requestMetadata := s.requestMetadata.set requestId requestMeta } where
  hbm := h.hbm
  defaults := h.defaults
  size := h.size
  cached := h.cached
  stored id m hm := by
    rw [OrderedDict.get?_set] at hm
    split at hm
    next =>
      cases hm
      exact hpriority
    next => exact h.stored id m hm

theorem Ready.knowing (h : s.Ready tiers K) (requestId : String) : (s.knowing requestId).Ready tiers K := by
  unfold VLLMIntentAdapter.knowing
  split
  next => exact h
  next =>
    refine h.setMetadata ?_ requestId
    exact ⟨by norm_num, by norm_num⟩

theorem Ready.caching (h : s.Ready tiers K) {block : ValidIntent} (hfiled : FiledUnder tiers key block.1)
    (hkey : key ∈ K) : (s.caching key block).Ready tiers K where
  hbm := h.hbm
  defaults := h.defaults
  size := h.size
  cached k b hb := by
    unfold VLLMIntentAdapter.caching at hb
    rw [OrderedDict.get?_set] at hb
    split at hb
    next heq =>
      cases hb
      exact heq ▸ ⟨hfiled, hkey⟩
    next => exact h.cached k b hb
  stored := h.stored

theorem Ready.recorded (h : s.Ready tiers K) {event : MemoryIntentEvent}
    (hfiled : FiledUnder tiers key event.intent) (hkey : key ∈ K) : (s.recorded event).Ready tiers K := by
  have hevent : (event.intent.requestId, event.intent.blockId) = key :=
    Prod.ext hfiled.requestId hfiled.blockId
  have hcached : (s.caching key ⟨event.intent, event.intent_valid⟩).Ready tiers K :=
    h.caching hfiled hkey
  rw [← hevent] at hcached
  exact ⟨h.hbm, h.defaults, h.size, hcached.cached, h.stored⟩

theorem Ready.erase (h : s.Ready tiers K) (key : String × ℤ) :
    Ready tiers (K \ {key}) { s with blocks := s.blocks.erase key } where
  hbm := h.hbm
  defaults := h.defaults
  size := h.size
  cached k b hb := by
    rw [OrderedDict.get?_erase] at hb
    split at hb
    next => cases hb
    next hne => exact ⟨(h.cached k b hb).1, (h.cached k b hb).2, hne⟩
  stored := h.stored

theorem Ready.mono {L : Set (String × ℤ)} (h : s.Ready tiers K) (hsub : K ⊆ L) : s.Ready tiers L :=
  ⟨h.hbm, h.defaults, h.size, fun k b hb => ⟨(h.cached k b hb).1, hsub (h.cached k b hb).2⟩, h.stored⟩

/-! ## What hooks are made of -/

/-- A valid block stays valid under changes that leave the name and the size alone. -/
theorem exists_changed {m m' : MemoryIntent} (h : m.Valid) (hobject : m'.objectId = m.objectId)
    (hrequest : m'.requestId = m.requestId) (hid : m'.blockId = m.blockId)
    (hsize : m'.sizeBytes = m.sizeBytes) (htiers : m'.allowedTiers = m.allowedTiers)
    (hpriority : PriorityInRange m'.requestPriority) (htype : m'.objectType = m.objectType)
    (htier : m'.currentTier ∈ m'.allowedTiers)
    (hrecency : 0 ≤ m'.recencyScore ∧ m'.recencyScore ≤ 1) : ∃ w, m'.validated = .ok w := by
  have hprior : MemoryIntent.Valid { m with requestPriority := m'.requestPriority } :=
    ⟨⟨h.objectId_ne, h.requestId_ne, h.blockId_nonneg, h.sizeBytes_pos, h.allowedTiers_ne, hpriority,
      h.recencyScore_range, h.pinned⟩, h.currentTier_mem⟩
  exact exists_validated hprior hobject hrequest hid hsize htiers rfl htype htier hrecency

theorem Ready.sizeOrDefault_pos (h : s.Ready tiers K) {sizeBytes : Option ℤ}
    (hsize : ∀ n ∈ sizeBytes, 0 ≤ n) : 0 < s.sizeOrDefault sizeBytes := by
  cases sizeBytes with
  | none => exact h.size
  | some n =>
    rw [VLLMIntentAdapter.sizeOrDefault]
    split
    next => exact h.size
    next hne => exact lt_of_le_of_ne (hsize n rfl) (Ne.symm hne)

theorem Ready.makeIntent (h : s.Ready tiers K) (hat : Names K step requestId blockId)
    {options : IntentOptions} (hpriority : ∀ p ∈ options.requestPriority, PriorityInRange p)
    (hsize : ∀ n ∈ options.sizeBytes, 0 ≤ n)
    (hrecency : 0 ≤ options.recencyScore ∧ options.recencyScore ≤ 1) :
    Returns (makeIntent requestId blockId options)
      (fun v u => u.Ready tiers K ∧ FiledUnder tiers (requestId, blockId) v.1) s := by
  have hknown := h.knowing requestId
  rw [Returns, VLLMIntentAdapter.makeIntent, Stateful.wp_bind, wp_requestDefaults, Stateful.wp_bind,
    Stateful.wp_get]
  have htier : Tier.hbm ∈ (s.knowing requestId).defaultAllowedTiers := hknown.defaults ▸ h.hbm
  refine Stateful.returns_lift (MemoryIntent.validated_of_valid ?_) ?_
  · refine ⟨⟨objectId_ne requestId blockId, fun _ => hat.request, hat.block,
      hknown.sizeOrDefault_pos hsize, Finset.ne_empty_of_mem htier,
      getD_inRange hpriority (priorityOrDefault_inRange (h.metadataOf requestId)), hrecency, ?_⟩, htier⟩
    intro hcritical
    simp only at hcritical
    simp [hcritical]
  · exact ⟨hknown, rfl, rfl, hknown.defaults⟩

theorem Ready.validated (h : s.Ready tiers K) (key : String × ℤ) {m : MemoryIntent}
    (hfiled : FiledUnder tiers key m) (hvalid : ∃ w, m.validated = .ok w) :
    Returns (Stateful.lift m.validated) (fun v u => u.Ready tiers K ∧ FiledUnder tiers key v.1) s := by
  obtain ⟨w, hw⟩ := hvalid
  refine Stateful.returns_lift hw ⟨h, ?_⟩
  rw [MemoryIntent.validated_fields hw]
  exact hfiled.of_eq rfl rfl rfl

theorem Ready.getOrCreateBlock (h : s.Ready tiers K) (hat : Names K step requestId blockId)
    {options : BlockOptions} (hpriority : ∀ p ∈ options.requestPriority, PriorityInRange p) :
    Returns (getOrCreateBlock step requestId blockId options)
      (fun made u => u.Ready tiers K ∧ FiledUnder tiers (requestId, blockId) made.1.1) s := by
  rw [Returns, VLLMIntentAdapter.getOrCreateBlock, Stateful.wp_bind, Stateful.wp_get]
  cases hget : s.blocks.get? (requestId, blockId) with
  | some cached =>
    simp only [hget]
    have hfiled : FiledUnder tiers (requestId, blockId) (refreshedFields cached.1 step options) :=
      (h.cached _ _ hget).1.of_eq rfl rfl rfl
    have hvalid : ∃ w, (refreshedFields cached.1 step options).validated = .ok w :=
      exists_changed cached.2 rfl rfl rfl rfl rfl
        (getD_inRange hpriority cached.2.requestPriority_range) rfl cached.2.currentTier_mem
        cached.2.recencyScore_range
    refine (h.validated _ hfiled hvalid).bind fun block u hu => ?_
    exact ⟨hu.1.caching hu.2 hat.key, hu.2⟩
  | none =>
    simp only [hget]
    refine (h.makeIntent hat hpriority ?_ ⟨le_refl 0, zero_le_one⟩).bind fun block u hu => ?_
    · simp
    have hmade := hu.1.caching hu.2 hat.key
    rw [Stateful.wp_bind, Stateful.wp_modify]
    exact Stateful.wp_ite (fun _ => ⟨hmade, hu.2⟩) fun _ => ⟨hmade, hu.2⟩

theorem Ready.emit (h : s.Ready tiers K) (hstep : 0 ≤ step) {intent : ValidIntent}
    (hfiled : FiledUnder tiers key intent.1) (hkey : key ∈ K) (eventType : EventType) (reason : String) :
    Returns (emit step eventType intent reason) (fun _ u => u.Ready tiers K) s := by
  refine wp_emit (fun _ event _ _ hintent => ?_) fun hneg => absurd hstep (not_le.mpr hneg)
  exact h.recorded (hintent ▸ hfiled) hkey

/-- A change of fields that the schema accepts of every valid block. -/
structure Proper (change : MemoryIntent → MemoryIntent) : Prop where
  keeps : ∀ m, (change m).objectId = m.objectId ∧ (change m).requestId = m.requestId ∧
    (change m).blockId = m.blockId ∧ (change m).sizeBytes = m.sizeBytes ∧
    (change m).allowedTiers = m.allowedTiers ∧ (change m).requestPriority = m.requestPriority ∧
    (change m).objectType = m.objectType
  tier : ∀ m, m.currentTier ∈ m.allowedTiers → (change m).currentTier ∈ m.allowedTiers
  recency : ∀ m, 0 ≤ m.recencyScore ∧ m.recencyScore ≤ 1 →
    0 ≤ (change m).recencyScore ∧ (change m).recencyScore ≤ 1

/-- A cached block is changed, validated and recorded. -/
theorem Ready.change (h : s.Ready tiers K) {block : ValidIntent} (hfiled : FiledUnder tiers key block.1)
    {change : MemoryIntent → MemoryIntent} (hchange : Proper change) :
    Returns (Stateful.lift (change block.1).validated)
      (fun v u => u.Ready tiers K ∧ FiledUnder tiers key v.1) s := by
  obtain ⟨hobject, hrequest, hid, hsize, htiers, hpriority, htype⟩ := hchange.keeps block.1
  refine h.validated _ (hfiled.of_eq hrequest hid htiers) (exists_changed block.2 hobject hrequest hid hsize
    htiers ?_ htype ?_ (hchange.recency block.1 block.2.recencyScore_range))
  · rw [hpriority]
    exact block.2.requestPriority_range
  · rw [htiers]
    exact hchange.tier block.1 block.2.currentTier_mem

theorem Ready.touch (h : s.Ready tiers K) (hat : Names K step requestId blockId) {options : BlockOptions}
    (hpriority : ∀ p ∈ options.requestPriority, PriorityInRange p)
    {change : MemoryIntent → MemoryIntent} (hchange : Proper change) (eventType : EventType)
    (reason : String) :
    Returns (touch step requestId blockId options change eventType reason) (fun _ u => u.Ready tiers K) s := by
  refine (h.getOrCreateBlock hat hpriority).bind fun made u hmade => ?_
  refine (hmade.1.change hmade.2 hchange).bind fun intent v hv => ?_
  exact hv.1.emit hat.step hv.2 hat.key eventType _

/-! ## The hooks, one by one -/

theorem Ready.onRequestScheduled (h : s.Ready tiers K) {requestPriority : ℤ}
    (hpriority : PriorityInRange requestPriority) (deadlineUs : Option ℤ) :
    Returns (onRequestScheduled step requestId requestPriority deadlineUs)
      (fun _ u => u.Ready tiers K) s :=
  h.setMetadata hpriority requestId

theorem Ready.onBlockAllocated (h : s.Ready tiers K) (hat : Names K step requestId blockId) (phase : Phase)
    {requestPriority sizeBytes : Option ℤ} (hpriority : ∀ p ∈ requestPriority, PriorityInRange p)
    (hsize : ∀ n ∈ sizeBytes, 0 ≤ n) (deadlineUs : Option ℤ) (isDraft : Bool) :
    Returns (onBlockAllocated step requestId blockId phase requestPriority deadlineUs sizeBytes isDraft)
      (fun _ u => u.Ready tiers K) s := by
  refine (h.makeIntent hat hpriority hsize ⟨?_, ?_⟩).bind fun intent u hu => ?_
  · simp only [allocationOptions]
    norm_num
  · simp only [allocationOptions]
    norm_num
  · exact hu.1.emit hat.step hu.2 hat.key _ _

theorem Ready.onBlockAccessed (h : s.Ready tiers K) (hat : Names K step requestId blockId) (phase : Phase)
    (decodeCritical : Bool) :
    Returns (onBlockAccessed step requestId blockId phase decodeCritical)
      (fun _ u => u.Ready tiers K) s := by
  rw [onBlockAccessed_eq]
  refine h.touch hat ?_ ?_ _ _
  · simp
  · exact ⟨fun _ => ⟨rfl, rfl, rfl, rfl, rfl, rfl, rfl⟩, fun _ hm => hm, fun _ _ => ⟨zero_le_one, le_refl 1⟩⟩

theorem Ready.onBlockCommitted (h : s.Ready tiers K) (hat : Names K step requestId blockId) :
    Returns (onBlockCommitted step requestId blockId) (fun _ u => u.Ready tiers K) s := by
  rw [onBlockCommitted_eq]
  refine h.touch hat ?_ ?_ _ _
  · simp
  · exact ⟨fun _ => ⟨rfl, rfl, rfl, rfl, rfl, rfl, rfl⟩, fun _ hm => hm, fun _ hm => hm⟩

theorem Ready.onBlockMarkedCold (h : s.Ready tiers K) (hat : Names K step requestId blockId)
    (expectedReuseWindowTokens : Option ℤ) :
    Returns (onBlockMarkedCold step requestId blockId expectedReuseWindowTokens)
      (fun _ u => u.Ready tiers K) s := by
  rw [onBlockMarkedCold_eq]
  refine h.touch hat ?_ ?_ _ _
  · simp
  · exact ⟨fun _ => ⟨rfl, rfl, rfl, rfl, rfl, rfl, rfl⟩, fun _ hm => hm, fun _ _ => ⟨le_refl 0, zero_le_one⟩⟩

theorem Ready.onBlockFreed (h : s.Ready tiers K) (hat : Names K step requestId blockId) :
    Returns (onBlockFreed step requestId blockId) (fun _ u => u.Ready tiers K) s := by
  rw [onBlockFreed_eq]
  refine h.touch hat ?_ ?_ _ _
  · simp
  · refine ⟨fun _ => ⟨rfl, rfl, rfl, rfl, rfl, rfl, rfl⟩, fun m hm => ?_, fun _ _ => ⟨le_refl 0, zero_le_one⟩⟩
    show (if Tier.dram ∈ m.allowedTiers then Tier.dram else m.currentTier) ∈ m.allowedTiers
    split
    next hdram => exact hdram
    next => exact hm

/-- The recency of a block that is decoded soon. -/
theorem decode_recency (offset : ℕ) :
    (0 : ℚ) ≤ max (4 / 5) (1 - ((offset : ℤ) : ℚ) / 10) ∧
      max (4 / 5) (1 - ((offset : ℤ) : ℚ) / 10) ≤ 1 := by
  refine ⟨le_max_of_le_left (by norm_num), max_le (by norm_num) ?_⟩
  have hoffset : (0 : ℚ) ≤ ((offset : ℤ) : ℚ) / 10 := by positivity
  linarith

theorem Ready.decodeBlock (h : s.Ready tiers K) {entry : ℤ × ℕ} (hat : Names K step requestId entry.1)
    (deadlineUs : Option ℤ) {requestPriority : Option ℤ}
    (hpriority : ∀ p ∈ requestPriority, PriorityInRange p) :
    Returns (decodeBlock step requestId deadlineUs requestPriority entry) (fun _ u => u.Ready tiers K) s := by
  refine (h.getOrCreateBlock hat hpriority).bind fun made u hmade => ?_
  rw [Stateful.wp_bind, wp_requestDefaults]
  refine ((hmade.1.knowing requestId).validated (requestId, entry.1) ?_ ?_).bind fun intent v hv => ?_
  · exact hmade.2.of_eq rfl rfl rfl
  · exact exists_changed made.1.2 rfl rfl rfl rfl rfl made.1.2.requestPriority_range rfl
      made.1.2.currentTier_mem (decode_recency entry.2)
  refine (hv.1.emit hat.step hv.2 hat.key _ _).bind fun marked w hw => ?_
  exact (hw.onBlockAccessed hat .decode true).bind fun accessed x hx => hx

theorem Ready.prefillBlock (h : s.Ready tiers K) (hat : Names K step requestId blockId) :
    Returns (prefillBlock step requestId blockId) (fun _ u => u.Ready tiers K) s := by
  refine (h.getOrCreateBlock hat ?_).bind fun made u hmade => ?_
  · simp
  refine (hmade.1.validated (requestId, blockId) ?_ ?_).bind fun intent v hv => ?_
  · exact hmade.2.of_eq rfl rfl rfl
  · refine exists_changed made.1.2 rfl rfl rfl rfl rfl made.1.2.requestPriority_range rfl
      made.1.2.currentTier_mem ⟨?_, ?_⟩
    · norm_num
    · norm_num
  exact (hv.1.emit hat.step hv.2 hat.key _ _).bind fun event w hw => hw

/-- The block is gone from the cache afterwards. -/
theorem Ready.finishBlock (h : s.Ready tiers K) (hstep : 0 ≤ step) (hrequest : requestId ≠ "")
    (hblock : 0 ≤ blockId) :
    Returns (finishBlock step requestId blockId)
      (fun _ u => u.Ready tiers (K \ {(requestId, blockId)})) s := by
  -- The hook caches the block again before it drops it.
  have hat : Names (insert (requestId, blockId) K) step requestId blockId :=
    ⟨hstep, hrequest, hblock, Set.mem_insert _ _⟩
  have hlater : Names (insert (requestId, blockId) K) (step + 1) requestId blockId :=
    ⟨Int.add_nonneg hstep zero_le_one, hrequest, hblock, Set.mem_insert _ _⟩
  refine ((h.mono (Set.subset_insert _ _)).getOrCreateBlock hat ?_).bind fun made u hmade => ?_
  · simp
  refine (hmade.1.validated (requestId, blockId) ?_ ?_).bind fun intent v hv => ?_
  · exact hmade.2.of_eq rfl rfl rfl
  · exact exists_changed made.1.2 rfl rfl rfl rfl rfl made.1.2.requestPriority_range rfl
      made.1.2.currentTier_mem ⟨le_refl 0, zero_le_one⟩
  refine (hv.1.emit hat.step hv.2 hat.key _ _).bind fun cold w hw => ?_
  refine (hw.onBlockFreed hlater).bind fun freed x hx => ?_
  rw [Stateful.wp_bind, Stateful.wp_modify]
  exact (hx.erase (requestId, blockId)).mono fun k hk => ⟨hk.1.resolve_left hk.2, hk.2⟩

theorem Ready.spillBlock (h : s.Ready tiers K) (hdram : .dram ∈ tiers)
    (hat : Names K step requestId blockId) :
    Returns (spillBlock step requestId blockId) (fun _ u => u.Ready tiers K) s := by
  rw [Returns, VLLMIntentAdapter.spillBlock, Stateful.wp_bind, Stateful.wp_get]
  cases hget : s.blocks.get? (requestId, blockId) with
  | none => exact h
  | some block =>
    have hfiled := (h.cached _ _ hget).1
    refine (h.validated (requestId, blockId) ?_ ?_).bind fun intent v hv => ?_
    · exact hfiled.of_eq rfl rfl rfl
    · refine exists_changed block.2 rfl rfl rfl rfl rfl block.2.requestPriority_range rfl ?_
        block.2.recencyScore_range
      rw [hfiled.allowedTiers]
      exact hdram
    exact (hv.1.emit hat.step hv.2 hat.key _ _).bind fun event w hw => hw

theorem Ready.onPrefillStep (h : s.Ready tiers K) {blockIds : List ℤ}
    (hat : ∀ b ∈ blockIds, Names K step requestId b) :
    Returns (onPrefillStep step requestId blockIds) (fun _ u => u.Ready tiers K) s :=
  Wp.forEach h fun b hb _ hu => hu.prefillBlock (hat b hb)

theorem Ready.onDecodeStep (h : s.Ready tiers K) {activeBlockIds : List ℤ}
    (hat : ∀ b ∈ activeBlockIds, Names K step requestId b) (deadlineUs : Option ℤ)
    {requestPriority : Option ℤ} (hpriority : ∀ p ∈ requestPriority, PriorityInRange p) :
    Returns (onDecodeStep step requestId activeBlockIds deadlineUs requestPriority)
      (fun _ u => u.Ready tiers K) s := by
  rw [Returns, VLLMIntentAdapter.onDecodeStep, Stateful.wp_bind, wp_requestDefaults, Stateful.wp_bind,
    Stateful.wp_modify]
  refine Wp.forEach ((h.knowing requestId).setMetadata ?_ requestId) fun entry hentry u hu => ?_
  · exact getD_inRange hpriority (h.metadataOf requestId)
  · have hmem : entry.1 ∈ activeBlockIds := List.fst_mem_of_mem_zipIdx hentry
    exact hu.decodeBlock (hat entry.1 hmem) deadlineUs hpriority

/-- The blocks of the request are gone from the cache afterwards. -/
theorem Ready.onRequestFinished (h : s.Ready tiers K) {blockIds : List ℤ} (hstep : 0 ≤ step)
    (hrequest : requestId ≠ "") (hblocks : ∀ b ∈ blockIds, 0 ≤ b) :
    Returns (onRequestFinished step requestId blockIds)
      (fun _ u => u.Ready tiers (K \ {k | k.1 = requestId ∧ k.2 ∈ blockIds})) s := by
  have hloop : Returns (Stateful.forEach (VLLMIntentAdapter.finishBlock step requestId) blockIds)
      (fun _ u => u.Ready tiers (K \ {k | k.1 = requestId ∧ k.2 ∈ blockIds})) s := by
    refine Stateful.wp_forEach (I := fun done _ (t : VLLMIntentAdapter) =>
      t.Ready tiers (K \ {k | k.1 = requestId ∧ k.2 ∈ done})) (h.mono ?_) fun done b rest _ u hsplit hu => ?_
    · intro k hk
      exact ⟨hk, fun hnone => absurd hnone.2 (by simp)⟩
    · refine (hu.finishBlock hstep hrequest (hblocks b (by simp [hsplit]))).mono (fun _ v hv => ?_)
        fun _ _ he => he
      refine hv.mono fun k hk => ⟨hk.1.1, fun hdone => ?_⟩
      rcases List.mem_append.mp hdone.2 with hmem | hmem
      · exact hk.1.2 ⟨hdone.1, hmem⟩
      · exact hk.2 (Prod.ext hdone.1 (List.mem_singleton.mp hmem))
  refine hloop.bind fun events u hu => ?_
  rw [Stateful.wp_bind, Stateful.wp_modify]
  refine ⟨hu.hbm, hu.defaults, hu.size, hu.cached, fun id requestMeta hid => ?_⟩
  rw [OrderedDict.get?_erase] at hid
  split at hid
  next => cases hid
  next => exact hu.stored id requestMeta hid

theorem Ready.emitSequenceAccesses (h : s.Ready tiers K) {sequence : Sequence}
    (hid : sequenceRequestId sequence = .ok requestId)
    (hat : ∀ b ∈ sequenceBlockIds sequence, Names K (sequence.step.getD 0) requestId b)
    (hpriority : ∀ p ∈ sequence.requestPriority, PriorityInRange p) :
    Returns (emitSequenceAccesses sequence) (fun _ u => u.Ready tiers K) s := by
  have hsteps : ∀ t : VLLMIntentAdapter, t.Ready tiers K →
      Returns (if 0 < sequence.decodeDepth.getD 0 then
          VLLMIntentAdapter.onDecodeStep (sequence.step.getD 0) requestId (sequenceBlockIds sequence)
            sequence.deadlineUs sequence.requestPriority
        else VLLMIntentAdapter.onPrefillStep (sequence.step.getD 0) requestId
          (sequenceBlockIds sequence)) (fun _ u => u.Ready tiers K) t := by
    intro t ht
    exact Stateful.wp_ite (fun _ => ht.onDecodeStep hat _ hpriority) fun _ => ht.onPrefillStep hat
  rw [Returns, VLLMIntentAdapter.emitSequenceAccesses, Stateful.wp_bind]
  refine Stateful.returns_lift hid ?_
  rw [Stateful.wp_bind, Stateful.wp_get]
  dsimp only
  refine Stateful.wp_ite (fun _ => ?_) fun _ => hsteps s h
  refine Wp.bind (h.onRequestScheduled ?_ _) fun _ t ht => hsteps t ht
  exact getD_inRange hpriority ⟨by norm_num, by norm_num⟩

theorem Ready.emitSequenceSpill (h : s.Ready tiers K) (hdram : .dram ∈ tiers) {sequence : Sequence}
    (hid : sequenceRequestId sequence = .ok requestId)
    (hat : ∀ b ∈ sequenceBlockIds sequence, Names K (sequence.step.getD 0) requestId b) :
    Returns (emitSequenceSpill sequence) (fun _ u => u.Ready tiers K) s := by
  rw [Returns, VLLMIntentAdapter.emitSequenceSpill, Stateful.wp_bind]
  refine Stateful.returns_lift hid ?_
  exact Wp.forEach h fun b hb _ hu => hu.spillBlock hdram (hat b hb)

theorem Ready.emitSequenceFree (h : s.Ready tiers K) {sequence : Sequence}
    (hid : sequenceRequestId sequence = .ok requestId) (hrequest : requestId ≠ "")
    (hstep : 0 ≤ sequence.step.getD 0) (hblocks : ∀ b ∈ sequenceBlockIds sequence, 0 ≤ b) :
    Returns (emitSequenceFree sequence)
      (fun _ u => u.Ready tiers (K \ {k | k.1 = requestId ∧ k.2 ∈ sequenceBlockIds sequence})) s := by
  rw [Returns, VLLMIntentAdapter.emitSequenceFree, Stateful.wp_bind]
  refine Stateful.returns_lift hid ?_
  exact h.onRequestFinished hstep hrequest hblocks

end Steps

/-! ## Calls -/

def HookCall.requestPriority : HookCall → Option ℤ
  | .requestScheduled _ _ requestPriority _ => some requestPriority
  | .blockAllocated _ _ _ _ requestPriority _ _ _ => requestPriority
  | .decodeStep _ _ _ _ requestPriority => requestPriority
  | .sequenceAccesses sequence => sequence.requestPriority
  | _ => none

def HookCall.sizeBytes : HookCall → Option ℤ
  | .blockAllocated _ _ _ _ _ _ sizeBytes _ => sizeBytes
  | _ => none

/-- The arguments of a call are such that the schema can accept them: a step and block ids that are not
negative, an identifier that is not empty, a priority up to 100 and no negative size. Spills go to DRAM,
which must be allowed. -/
structure HookCall.InRange (tiers : Finset Tier) (call : HookCall) : Prop where
  request : ∃ requestId, call.requestId = some requestId ∧ requestId ≠ ""
  step : 0 ≤ call.step
  blocks : ∀ blockId ∈ call.blockIds, 0 ≤ blockId
  priority : ∀ p ∈ call.requestPriority, PriorityInRange p
  size : ∀ n ∈ call.sizeBytes, 0 ≤ n
  spill : (∃ sequence, call = .sequenceSpill sequence) → .dram ∈ tiers

theorem sequenceRequestId_of_toOption {sequence : Sequence} {requestId : String}
    (h : (sequenceRequestId sequence).toOption = some requestId) :
    sequenceRequestId sequence = .ok requestId := by
  cases hid : sequenceRequestId sequence with
  | ok id =>
    rw [hid] at h
    exact congrArg Except.ok (Option.some.inj h)
  | error e =>
    rw [hid] at h
    cases h

/-- A call in range returns and leaves the adapter ready for more. -/
theorem HookCall.run_ready {tiers : Finset Tier} {s : VLLMIntentAdapter} (h : s.Ready tiers Set.univ)
    (call : HookCall) (hcall : call.InRange tiers) :
    Returns call.run (fun _ u => u.Ready tiers Set.univ) s := by
  obtain ⟨requestId, hid, hrequest⟩ := hcall.request
  have hat : ∀ b ∈ call.blockIds, Names Set.univ call.step requestId b := fun b hb =>
    ⟨hcall.step, hrequest, hcall.blocks b hb, trivial⟩
  cases call with
  | requestScheduled step _ requestPriority deadlineUs =>
    exact h.onRequestScheduled (hcall.priority _ rfl) _
  | blockAllocated =>
    cases hid
    refine Wp.bind (h.onBlockAllocated (hat _ (by simp [HookCall.blockIds])) _ hcall.priority hcall.size
      _ _) fun _ _ hu => hu
  | blockAccessed =>
    cases hid
    exact Wp.bind (h.onBlockAccessed (hat _ (by simp [HookCall.blockIds])) _ _) fun _ _ hu => hu
  | decodeStep =>
    cases hid
    exact h.onDecodeStep hat _ hcall.priority
  | prefillStep =>
    cases hid
    exact h.onPrefillStep hat
  | blockCommitted =>
    cases hid
    exact Wp.bind (h.onBlockCommitted (hat _ (by simp [HookCall.blockIds]))) fun _ _ hu => hu
  | blockMarkedCold =>
    cases hid
    exact Wp.bind (h.onBlockMarkedCold (hat _ (by simp [HookCall.blockIds])) _) fun _ _ hu => hu
  | blockFreed =>
    cases hid
    exact Wp.bind (h.onBlockFreed (hat _ (by simp [HookCall.blockIds]))) fun _ _ hu => hu
  | requestFinished =>
    cases hid
    refine (h.onRequestFinished hcall.step hrequest hcall.blocks).mono (fun _ u hu => ?_) fun _ _ he => he
    exact hu.mono (Set.subset_univ _)
  | sequenceAccesses sequence =>
    exact h.emitSequenceAccesses (sequenceRequestId_of_toOption hid) hat hcall.priority
  | sequenceSpill sequence =>
    exact h.emitSequenceSpill (hcall.spill ⟨sequence, rfl⟩) (sequenceRequestId_of_toOption hid) hat
  | sequenceFree sequence =>
    refine (h.emitSequenceFree (sequenceRequestId_of_toOption hid) hrequest hcall.step
      hcall.blocks).mono (fun _ u hu => ?_) fun _ _ he => he
    exact hu.mono (Set.subset_univ _)

theorem ready_init (recorder : Option IntentTraceRecorder) {defaultBlockSizeBytes : ℤ}
    (defaultAllowedTiers : Option (Finset Tier)) (hsize : 0 < defaultBlockSizeBytes)
    (hhbm : .hbm ∈ (init recorder defaultBlockSizeBytes defaultAllowedTiers).defaultAllowedTiers)
    (K : Set (String × ℤ)) :
    (init recorder defaultBlockSizeBytes defaultAllowedTiers).Ready
      (init recorder defaultBlockSizeBytes defaultAllowedTiers).defaultAllowedTiers K where
  hbm := hhbm
  defaults := rfl
  size := hsize
  cached key block hblock := by cases hblock
  stored requestId requestMeta hmeta := by cases hmeta

/-- A new adapter that gives blocks a positive size and lets them into HBM returns from every call of a
history of calls in range, and every priority it has stored by then is in range. -/
theorem calls_in_range_return (recorder : Option IntentTraceRecorder) {defaultBlockSizeBytes : ℤ}
    (defaultAllowedTiers : Option (Finset Tier)) (hsize : 0 < defaultBlockSizeBytes)
    (hhbm : .hbm ∈ (init recorder defaultBlockSizeBytes defaultAllowedTiers).defaultAllowedTiers)
    (calls : List HookCall)
    (hcalls : ∀ call ∈ calls,
      call.InRange (init recorder defaultBlockSizeBytes defaultAllowedTiers).defaultAllowedTiers) :
    ∃ events after,
      (Stateful.forEach HookCall.run calls).run (init recorder defaultBlockSizeBytes defaultAllowedTiers) =
        (.ok events, after) ∧
      ∀ requestId requestMeta, after.requestMetadata.get? requestId = some requestMeta →
        0 ≤ requestMeta.requestPriority ∧ requestMeta.requestPriority ≤ 100 := by
  have hinit := ready_init recorder defaultAllowedTiers hsize hhbm Set.univ
  have hrun : Returns (Stateful.forEach HookCall.run calls) (fun _ u => u.Ready _ Set.univ)
      (init recorder defaultBlockSizeBytes defaultAllowedTiers) :=
    Wp.forEach hinit fun call hmem _ hu => HookCall.run_ready hu call (hcalls call hmem)
  obtain ⟨events, after, hok, hready⟩ := hrun.exists
  exact ⟨events, after, hok, hready.stored⟩

/-- A scheduled request is decoded, spilled and freed, and decoded again once it is forgotten. -/
theorem calls_in_range_return_decode :
    ∃ events after,
      (Stateful.forEach HookCall.run
        [.requestScheduled 0 "req" 100 none, .decodeStep 1 "req" [0, 7, 7] (some (-5)) (some 0),
          .sequenceSpill { seqId := some (.str "req"), blockIds := some [7, 8] },
          .requestFinished 2 "req" [7, 7], .decodeStep 3 "req" [7] none none]).run (init none 4096 none) =
        (.ok events, after) ∧
      ∀ requestId requestMeta, after.requestMetadata.get? requestId = some requestMeta →
        0 ≤ requestMeta.requestPriority ∧ requestMeta.requestPriority ≤ 100 := by
  refine calls_in_range_return none none (by norm_num) (by decide +kernel) _ fun call hcall => ?_
  have hdram : Tier.dram ∈ (init none 4096 none).defaultAllowedTiers := by decide +kernel
  simp only [List.mem_cons, List.not_mem_nil, or_false] at hcall
  rcases hcall with rfl | rfl | rfl | rfl | rfl
  all_goals
    refine ⟨⟨"req", rfl, by decide⟩, by decide, by decide, ?_, ?_, fun _ => hdram⟩ <;>
      simp [HookCall.requestPriority, HookCall.sizeBytes, PriorityInRange]

end VLLMIntentAdapter

end KVMemoryIntent
