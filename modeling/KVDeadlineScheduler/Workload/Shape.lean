-- SUMMARY: The shape of synthetic traces: allocated once and first, hot or cold but not both, and replayed without raising.
import KVDeadlineScheduler.Speculative.DraftWorkload
import KVDeadlineScheduler.Workload.Synthetic

/-!
# The shape of synthetic workloads

Allocations come first, one for each block of each request. A decode round names
blocks of one request: the last ones as decode-critical, the others as cold. The
two never meet, because names of blocks tell the request and the number.
-/

namespace KVMemoryIntent

/-! ## Names -/

theorem toList_syntheticObjectId (requestId : String) (blockId : ℕ) :
    (syntheticObjectId requestId blockId).toList =
      requestId.toList ++ (":block:".toList ++ Nat.toDigits 10 blockId) := by
  have happend : syntheticObjectId requestId blockId = requestId ++ ":block:" ++ toString blockId := rfl
  rw [happend, String.toList_append, String.toList_append, Nat.toString_eq_repr, Nat.toList_repr,
    List.append_assoc]

/-- The number of a block is read off its name. -/
theorem blockIdOf_syntheticObjectId (requestId : String) (blockId : ℕ) :
    blockIdOf (syntheticObjectId requestId blockId) = .ok blockId := by
  have hdigits : ∀ c ∈ Nat.toDigits 10 blockId, c.isDigit = true := fun c hc =>
    Nat.isDigit_of_mem_toDigits (by decide) (by decide) hc
  have hcolon : ∀ c ∈ (Nat.toDigits 10 blockId).reverse, decide (c ≠ ':') = true := by
    intro c hc
    have hdigit := hdigits c (List.mem_reverse.mp hc)
    rw [decide_eq_true_eq]
    rintro rfl
    exact absurd hdigit (by decide)
  have hlast : (syntheticObjectId requestId blockId).toList.rtakeWhile (· ≠ ':') =
      Nat.toDigits 10 blockId := by
    rw [List.rtakeWhile, toList_syntheticObjectId, List.reverse_append, List.reverse_append,
      List.append_assoc, List.takeWhile_append_of_pos hcolon]
    simp
  unfold blockIdOf
  rw [hlast, if_pos ⟨Nat.toDigits_ne_nil, List.all_eq_true.mpr hdigits⟩, Nat.ofDigitChars_ten_toDigits]

/-- The name of a block tells its request and its number. -/
theorem syntheticObjectId_inj {requestId requestId' : String} {blockId blockId' : ℕ}
    (h : syntheticObjectId requestId blockId = syntheticObjectId requestId' blockId') :
    requestId = requestId' ∧ blockId = blockId' := by
  have hnumber : blockId = blockId' := by
    have hparsed := congrArg blockIdOf h
    rw [blockIdOf_syntheticObjectId, blockIdOf_syntheticObjectId, Except.ok.injEq] at hparsed
    exact Int.ofNat_inj.mp hparsed
  subst hnumber
  have hlist := congrArg String.toList h
  rw [toList_syntheticObjectId, toList_syntheticObjectId] at hlist
  exact ⟨String.toList_inj.mp (List.append_cancel_right hlist), rfl⟩

theorem syntheticRequestId_injective : Function.Injective syntheticRequestId := by
  intro i j h
  have hlist := congrArg String.toList h
  simp only [syntheticRequestId, String.toList_append, String.toList_ofList] at hlist
  have hpadded := List.append_cancel_left hlist
  have hvalue : ∀ n : ℕ, Nat.ofDigitChars 10 ((toString n).toList.leftpad 3 '0') 0 = n := by
    intro n
    rw [List.leftpad, Nat.ofDigitChars_append, Nat.ofDigitChars_replicate_zero, Nat.toString_eq_repr,
      Nat.toList_repr, mul_zero, Nat.ofDigitChars_ten_toDigits]
  rw [← hvalue i, hpadded, hvalue j]

/-! ## Events -/

/-- What every event of the generator keeps. -/
structure Stepped (st : SyntheticState) : Prop where
  step : st.step = st.events.length
  steps : StepsFrom 0 st.events
  tiers : ∀ e ∈ st.events, e.intent.allowedTiers = {.hbm, .dram}

section Emit

variable {st st' : SyntheticState} {eventType : EventType} {intent : ValidIntent} {reason : String}

theorem newIntent_ok {fields : MemoryIntent} (h : newIntent fields = .ok intent) :
    intent.1 = { fields with
      pinRequested := fields.pinRequested || fields.priority = .decodeCritical } :=
  MemoryIntent.validated_fields (Replay.mapError_eq_ok.mp h)

theorem SyntheticState.emit_ok (h : st.emit eventType intent reason = .ok st') :
    ∃ e : MemoryIntentEvent, (e.step = st.step ∧ e.eventType = eventType ∧ e.intent = intent.1) ∧
      st' = { st with
        events := st.events ++ [e]
        step := st.step + 1 } := by
  obtain ⟨e, he, hst'⟩ := Replay.bind_eq_ok.mp h
  cases hst'
  exact ⟨e, MemoryIntentEvent.postInit_ok (Replay.mapError_eq_ok.mp he), rfl⟩

theorem Stepped.emit (hst : Stepped st) (htiers : intent.1.allowedTiers = {.hbm, .dram})
    (h : st.emit eventType intent reason = .ok st') : Stepped st' := by
  obtain ⟨e, ⟨hstep, -, hintent⟩, rfl⟩ := SyntheticState.emit_ok h
  refine ⟨?_, hst.steps.append (.cons ?_ .nil), fun e' he' => ?_⟩
  · rw [hst.step, List.length_append]
    push_cast
    rfl
  · rw [hstep, hst.step, zero_add]
  · rcases List.mem_append.mp he' with he' | he'
    · exact hst.tiers e' he'
    · rw [List.mem_singleton.mp he', hintent, htiers]

end Emit

/-! ## Allocations -/

/-- The generator while it allocates: `named` are the objects of its events. -/
structure Allocating (st : SyntheticState) (named : List String) : Prop extends Stepped st where
  eventType : ∀ e ∈ st.events, e.eventType = .allocated
  named : st.events.map MemoryIntentEvent.objectId = named

/-- Requests are numbered, and so are the blocks of each. -/
def NumberedRequests (requests : List SyntheticRequestState) : Prop :=
  ∀ i request, requests[i]? = some request →
    ∃ count, request.blockIds = (List.range count).map (syntheticObjectId (syntheticRequestId i))

theorem NumberedRequests.nodup {requests : List SyntheticRequestState} (h : NumberedRequests requests) :
    (requests.flatMap SyntheticRequestState.blockIds).Nodup := by
  rw [List.nodup_flatMap]
  constructor
  · intro request hrequest
    obtain ⟨i, hi⟩ := List.getElem?_of_mem hrequest
    obtain ⟨count, hcount⟩ := h i request hi
    rw [hcount]
    exact List.nodup_range.map fun _ _ heq => (syntheticObjectId_inj heq).2
  · rw [List.pairwise_iff_getElem]
    intro i j hi hj hlt id hid hid'
    obtain ⟨count, hcount⟩ := h i _ (List.getElem?_eq_getElem hi)
    obtain ⟨count', hcount'⟩ := h j _ (List.getElem?_eq_getElem hj)
    rw [hcount] at hid
    rw [hcount'] at hid'
    obtain ⟨b, -, rfl⟩ := List.mem_map.mp hid
    obtain ⟨b', -, heq⟩ := List.mem_map.mp hid'
    exact absurd (syntheticRequestId_injective (syntheticObjectId_inj heq).1) (by omega)

section Allocation

variable {profile : WorkloadProfile} {blockSizeBytes numRequests blocksPerRequest : ℤ}
  {draws : ℕ → { draw : ℤ // 10 ≤ draw ∧ draw ≤ 60 }} {plan : RequestPlan} {st st' : SyntheticState}
  {named : List String}

theorem Allocating.allocateSyntheticBlock {blockIds blockIds' : List String} {blockId : ℕ}
    (hst : Allocating st (named ++ blockIds))
    (h : allocateSyntheticBlock profile blockSizeBytes plan (blockIds, st) blockId = .ok (blockIds', st')) :
    blockIds' = blockIds ++ [syntheticObjectId plan.requestId blockId] ∧
      Allocating st' (named ++ blockIds') ∧ st'.requests = st.requests := by
  obtain ⟨intent, hintent, h⟩ := Replay.bind_eq_ok.mp h
  obtain ⟨next, hemit, h⟩ := Replay.bind_eq_ok.mp h
  cases h
  have hfields := newIntent_ok hintent
  have hobject : intent.1.objectId = syntheticObjectId plan.requestId blockId := by
    rw [hfields]
    rfl
  have hstepped := hst.toStepped.emit (by rw [hfields]; rfl) hemit
  obtain ⟨e, ⟨-, htype, he⟩, rfl⟩ := SyntheticState.emit_ok hemit
  refine ⟨by rw [hobject], ⟨hstepped, fun e' he' => ?_, ?_⟩, rfl⟩
  · rcases List.mem_append.mp he' with he' | he'
    · exact hst.eventType e' he'
    · rw [List.mem_singleton.mp he', htype]
  · rw [List.map_append, hst.named, List.map_singleton, MemoryIntentEvent.objectId, he,
      List.append_assoc]

theorem Allocating.addRequest {i : ℕ}
    (hst : Allocating st (st.requests.flatMap SyntheticRequestState.blockIds))
    (hnumbered : NumberedRequests st.requests) (hi : st.requests.length = i)
    (h : addRequest profile blockSizeBytes draws numRequests blocksPerRequest st i = .ok st') :
    Allocating st' (st'.requests.flatMap SyntheticRequestState.blockIds) ∧ NumberedRequests st'.requests ∧
      st'.requests.length = i + 1 := by
  obtain ⟨⟨blockIds, allocated⟩, hloop, h⟩ := Replay.bind_eq_ok.mp h
  cases h
  have hblocks := Replay.run_range
    (P := fun k (locals : List String × SyntheticState) =>
      locals.1 = (List.range k).map (syntheticObjectId (syntheticRequestId i)) ∧
        Allocating locals.2 (st.requests.flatMap SyntheticRequestState.blockIds ++ locals.1) ∧
        locals.2.requests = st.requests)
    (fun k locals locals' hlocals hround => ?_) ⟨rfl, ?_, rfl⟩ hloop
  · obtain ⟨hids, hallocated, hrequests⟩ := hblocks
    dsimp only at hids hallocated hrequests ⊢
    refine ⟨⟨⟨hallocated.step, hallocated.steps, hallocated.tiers⟩, hallocated.eventType, ?_⟩, ?_, ?_⟩
    · rw [hallocated.named, hrequests, List.flatMap_append, List.flatMap_singleton]
    · intro j request hrequest
      rw [hrequests, List.getElem?_append] at hrequest
      split at hrequest
      · exact hnumbered j request hrequest
      · rename_i hge
        rw [List.getElem?_singleton] at hrequest
        split at hrequest
        · rename_i hlast
          cases hrequest
          have hj : j = i := by omega
          rw [hj]
          exact ⟨_, hids⟩
        · cases hrequest
    · rw [hrequests, List.length_append, hi, List.length_singleton]
  · obtain ⟨hids, hallocated, hrequests⟩ := hlocals
    obtain ⟨hids', hallocated', hrequests'⟩ := hallocated.allocateSyntheticBlock hround
    refine ⟨?_, hallocated', hrequests'.trans hrequests⟩
    rw [hids', hids, List.range_succ, List.map_append]
    rfl
  · simpa using ⟨⟨hst.step, hst.steps, hst.tiers⟩, hst.eventType, hst.named⟩

end Allocation

/-! ## Decode rounds -/

def MarkedCold (events : List MemoryIntentEvent) (objectId : String) : Prop :=
  ∃ marked ∈ events, marked.eventType = .markedCold ∧ marked.objectId = objectId

/-- What a round may record about an object after the events before. -/
def Decodes (requests : List SyntheticRequestState) (before : List MemoryIntentEvent)
    (eventType : EventType) (objectId : String) : Prop :=
  match eventType with
  | .markedDecodeCritical | .accessed => ∃ active ∈ requests, objectId ∈ active.currentHot
  | .markedCold => ∃ active ∈ requests, objectId ∈ active.coldCandidates
  | .committed | .prefetched =>
    (∃ active ∈ requests, objectId ∈ active.coldCandidates) ∧ MarkedCold before objectId
  | _ => False

/-- The generator while requests decode, once all has been allocated. -/
structure Decoding (allocated st : SyntheticState) : Prop extends Stepped st where
  requests : st.requests = allocated.requests
  kept : allocated.events <+: st.events
  decodes : ∀ i e, st.events[i]? = some e → allocated.events.length ≤ i →
    Decodes allocated.requests (st.events.take i) e.eventType e.objectId

section Decode

variable {profile : WorkloadProfile} {blockSizeBytes : ℤ} {allocated st st' : SyntheticState}
  {active : SyntheticRequestState} {eventType : EventType} {intent : ValidIntent} {reason : String}
  {decodeStep : ℕ}

theorem Decoding.start (h : Stepped st) : Decoding st st := by
  refine ⟨h, rfl, List.prefix_refl _, fun i e he hge => ?_⟩
  have hlt := (List.getElem?_eq_some_iff.mp he).1
  omega

theorem Decoding.emit (hst : Decoding allocated st) (h : st.emit eventType intent reason = .ok st')
    (htiers : intent.1.allowedTiers = {.hbm, .dram})
    (hdecodes : Decodes allocated.requests st.events eventType intent.1.objectId) :
    Decoding allocated st' := by
  have hstepped := hst.toStepped.emit htiers h
  obtain ⟨e, ⟨-, htype, hintent⟩, rfl⟩ := SyntheticState.emit_ok h
  refine ⟨hstepped, hst.requests, hst.kept.trans (List.prefix_append _ _), fun i e' he' hge => ?_⟩
  dsimp only at he' ⊢
  rw [List.getElem?_append] at he'
  split at he'
  · rename_i hlt
    rw [List.take_append_of_le_length hlt.le]
    exact hst.decodes i e' he' hge
  · rename_i hlast
    rw [List.getElem?_singleton] at he'
    split at he'
    · cases he'
      have hi : i = st.events.length := by omega
      rw [hi, List.take_left, htype, MemoryIntentEvent.objectId, hintent]
      exact hdecodes
    · cases he'

theorem Decoding.decodeHotBlock {entry : String × ℕ} (hst : Decoding allocated st)
    (hactive : active ∈ allocated.requests) (hhot : entry.1 ∈ active.currentHot)
    (h : decodeHotBlock profile blockSizeBytes active st entry = .ok st') : Decoding allocated st' := by
  obtain ⟨blockId, -, h⟩ := Replay.bind_eq_ok.mp h
  obtain ⟨intent, hintent, h⟩ := Replay.bind_eq_ok.mp h
  obtain ⟨marked, hmark, haccess⟩ := Replay.bind_eq_ok.mp h
  have hfields := newIntent_ok hintent
  have htiers : intent.1.allowedTiers = {.hbm, .dram} := by rw [hfields]; rfl
  have hobject : intent.1.objectId = entry.1 := by rw [hfields]; rfl
  have hdecodes : ∃ active ∈ allocated.requests, intent.1.objectId ∈ active.currentHot :=
    ⟨active, hactive, by rwa [hobject]⟩
  exact (hst.emit hmark htiers hdecodes).emit haccess htiers hdecodes

/-- A copy of a stale block is only recorded about a block that was marked cold before. -/
theorem Decoding.emitStale {stale copy : MemoryIntent} (hst : Decoding allocated st)
    (hcold : ∃ active ∈ allocated.requests, stale.objectId ∈ active.coldCandidates)
    (hmarked : MarkedCold st.events stale.objectId) (htiers : stale.allowedTiers = {.hbm, .dram})
    (hintent : newIntent copy = .ok intent) (hobject : copy.objectId = stale.objectId)
    (hallowed : copy.allowedTiers = stale.allowedTiers)
    (htype : eventType = .committed ∨ eventType = .prefetched)
    (h : st.emit eventType intent reason = .ok st') :
    Decoding allocated st' ∧ MarkedCold st'.events stale.objectId := by
  have hfields := newIntent_ok hintent
  have htiers' : intent.1.allowedTiers = {.hbm, .dram} := by
    rw [hfields]
    exact hallowed.trans htiers
  have hobject' : intent.1.objectId = stale.objectId := by
    rw [hfields]
    exact hobject
  constructor
  · refine hst.emit h htiers' ?_
    rw [hobject']
    rcases htype with rfl | rfl
    · exact ⟨hcold, hmarked⟩
    · exact ⟨hcold, hmarked⟩
  · obtain ⟨marked, hmem, hmark⟩ := hmarked
    obtain ⟨e, -, rfl⟩ := SyntheticState.emit_ok h
    exact ⟨marked, List.mem_append_left _ hmem, hmark⟩

theorem Decoding.ageColdBlock (hst : Decoding allocated st) (hactive : active ∈ allocated.requests)
    (h : ageColdBlock profile blockSizeBytes active decodeStep st = .ok st') :
    Decoding allocated st' := by
  unfold KVMemoryIntent.ageColdBlock at h
  split at h
  · cases h
    exact hst
  · rename_i staleId hstale
    obtain ⟨blockId, -, h⟩ := Replay.bind_eq_ok.mp h
    obtain ⟨stale, hintent, h⟩ := Replay.bind_eq_ok.mp h
    obtain ⟨aged, hmark, h⟩ := Replay.bind_eq_ok.mp h
    obtain ⟨settled, hcommit, hprefetch⟩ := Replay.bind_eq_ok.mp h
    have hfields := newIntent_ok hintent
    have htiers : stale.1.allowedTiers = {.hbm, .dram} := by rw [hfields]; rfl
    have hobject : stale.1.objectId = staleId := by rw [hfields]; rfl
    have hcold : ∃ active ∈ allocated.requests, stale.1.objectId ∈ active.coldCandidates :=
      ⟨active, hactive, by rw [hobject]; exact List.mem_of_getElem? hstale⟩
    have haged : Decoding allocated aged ∧ MarkedCold aged.events stale.1.objectId := by
      refine ⟨hst.emit hmark htiers hcold, ?_⟩
      obtain ⟨e, ⟨-, htype, he⟩, rfl⟩ := SyntheticState.emit_ok hmark
      exact ⟨e, by simp, htype, by rw [MemoryIntentEvent.objectId, he]⟩
    have hsettled : Decoding allocated settled ∧ MarkedCold settled.events stale.1.objectId := by
      unfold commitStale at hcommit
      split at hcommit
      · obtain ⟨intent, hcopy, hemit⟩ := Replay.bind_eq_ok.mp hcommit
        exact haged.1.emitStale hcold haged.2 htiers hcopy rfl rfl (.inl rfl) hemit
      · cases hcommit
        exact haged
    unfold prefetchStale at hprefetch
    split at hprefetch
    · obtain ⟨intent, hcopy, hemit⟩ := Replay.bind_eq_ok.mp hprefetch
      exact (hsettled.1.emitStale hcold hsettled.2 htiers hcopy rfl rfl (.inr rfl) hemit).1
    · cases hprefetch
      exact hsettled.1

theorem Decoding.decodeRound (hst : Decoding allocated st)
    (h : decodeRound profile blockSizeBytes st decodeStep = .ok st') : Decoding allocated st' := by
  unfold KVMemoryIntent.decodeRound at h
  split at h
  · cases h
  · rename_i active hactive
    have hmem : active ∈ allocated.requests := by
      rw [← hst.requests]
      exact List.mem_of_getElem? hactive
    obtain ⟨accessed, haccess, hage⟩ := Replay.bind_eq_ok.mp h
    have haccessed : Decoding allocated accessed := Replay.run_invariant
      (C := fun _ entry => entry.1 ∈ active.currentHot)
      (fun s entry t hs hhot hround => hs.decodeHotBlock hmem hhot hround) hst
      (.of_forall_mem fun entry hentry => List.fst_mem_of_mem_zipIdx hentry) haccess
    exact haccessed.ageColdBlock hmem hage

end Decode

/-! ## Generated traces -/

section Trace

variable {allocated st : SyntheticState} {e e' : MemoryIntentEvent} {i : ℕ}

/-- Blocks of one name are the same block of the same request. -/
theorem NumberedRequests.hot_not_cold {requests : List SyntheticRequestState} (h : NumberedRequests requests)
    {active active' : SyntheticRequestState} (hactive : active ∈ requests) (hactive' : active' ∈ requests)
    {objectId : String} (hhot : objectId ∈ active.currentHot) :
    objectId ∉ active'.coldCandidates := by
  intro hcold
  obtain ⟨i, hi⟩ := List.getElem?_of_mem hactive
  obtain ⟨j, hj⟩ := List.getElem?_of_mem hactive'
  obtain ⟨count, hcount⟩ := h i active hi
  obtain ⟨count', hcount'⟩ := h j active' hj
  have hmem : objectId ∈ active.blockIds := List.mem_of_mem_drop hhot
  have hmem' : objectId ∈ active'.blockIds := List.mem_of_mem_take hcold
  rw [hcount] at hmem
  rw [hcount'] at hmem'
  obtain ⟨b, -, rfl⟩ := List.mem_map.mp hmem
  obtain ⟨b', -, heq⟩ := List.mem_map.mp hmem'
  have hij : j = i := syntheticRequestId_injective (syntheticObjectId_inj heq).1
  rw [hij, hi] at hj
  cases hj
  have hnodup : active.blockIds.Nodup := by
    rw [hcount]
    exact List.nodup_range.map fun _ _ heq => (syntheticObjectId_inj heq).2
  exact List.disjoint_take_drop hnodup le_rfl hcold hhot

theorem Decodes.mem_blockIds {requests : List SyntheticRequestState}
    {before : List MemoryIntentEvent} {eventType : EventType} {objectId : String}
    (h : Decodes requests before eventType objectId) :
    objectId ∈ requests.flatMap SyntheticRequestState.blockIds := by
  have hhot : (∃ active ∈ requests, objectId ∈ active.currentHot) →
      objectId ∈ requests.flatMap SyntheticRequestState.blockIds := by
    rintro ⟨active, hactive, hmem⟩
    exact List.mem_flatMap.mpr ⟨active, hactive, List.mem_of_mem_drop hmem⟩
  have hcold : (∃ active ∈ requests, objectId ∈ active.coldCandidates) →
      objectId ∈ requests.flatMap SyntheticRequestState.blockIds := by
    rintro ⟨active, hactive, hmem⟩
    exact List.mem_flatMap.mpr ⟨active, hactive, List.mem_of_mem_take hmem⟩
  cases eventType with
  | markedDecodeCritical => exact hhot h
  | accessed => exact hhot h
  | markedCold => exact hcold h
  | committed => exact hcold h.1
  | prefetched => exact hcold h.1
  | allocated => exact h.elim
  | spilled => exact h.elim
  | miss => exact h.elim
  | evicted => exact h.elim
  | freed => exact h.elim

/-- A trace as the generator returns it. -/
structure Generated (allocated st : SyntheticState) : Prop extends Decoding allocated st where
  allocations : Allocating allocated (allocated.requests.flatMap SyntheticRequestState.blockIds)
  numbered : NumberedRequests allocated.requests

theorem generateSyntheticKvWorkload_ok {numRequests blocksPerRequest blockSizeBytes decodeSteps : ℤ}
    {longContextFraction draftFraction highPriorityFraction : ℚ}
    {draws : ℕ → { draw : ℤ // 10 ≤ draw ∧ draw ≤ 60 }} {profile : WorkloadProfile}
    {events : List MemoryIntentEvent}
    (h : generateSyntheticKvWorkload numRequests blocksPerRequest blockSizeBytes decodeSteps
      longContextFraction draftFraction highPriorityFraction draws profile = .ok events) :
    ∃ allocated st, Generated allocated st ∧ st.events = events := by
  obtain ⟨allocated, hallocate, h⟩ := Replay.bind_eq_ok.mp h
  obtain ⟨st, hdecode, h⟩ := Replay.bind_eq_ok.mp h
  cases h
  have hallocated := Replay.run_range
    (P := fun i (st : SyntheticState) =>
      Allocating st (st.requests.flatMap SyntheticRequestState.blockIds) ∧ NumberedRequests st.requests ∧
        st.requests.length = i)
    (fun i s t hs hround => hs.1.addRequest hs.2.1 hs.2.2 hround) ⟨?_, ?_, rfl⟩ hallocate
  · have hdecoding : Decoding allocated st := Replay.run_always
      (fun s _ t hs hround => hs.decodeRound hround) (.start hallocated.1.toStepped) hdecode
    exact ⟨allocated, st, ⟨hdecoding, hallocated.1, hallocated.2.1⟩, rfl⟩
  · exact ⟨⟨rfl, .nil, by simp⟩, by simp, rfl⟩
  · intro i request hrequest
    simp at hrequest

/-- An allocation is one of the first events. -/
theorem Generated.allocated_iff (h : Generated allocated st) (hi : st.events[i]? = some e) :
    e.eventType = .allocated ↔ allocated.events[i]? = some e := by
  obtain ⟨new, hnew⟩ := h.kept
  rw [← hnew, List.getElem?_append] at hi
  constructor
  · intro htype
    split at hi
    · exact hi
    · rename_i hge
      have hdecodes := h.decodes i e (by rw [← hnew, List.getElem?_append, if_neg hge]; exact hi) (by omega)
      rw [htype] at hdecodes
      exact hdecodes.elim
  · intro hold
    exact h.allocations.eventType e (List.mem_of_getElem? hold)

/-- Any other event follows the allocations. -/
theorem Generated.decodes_of_ne (h : Generated allocated st) (hi : st.events[i]? = some e)
    (hne : e.eventType ≠ .allocated) :
    allocated.events.length ≤ i ∧ Decodes allocated.requests (st.events.take i) e.eventType e.objectId := by
  have hge : allocated.events.length ≤ i := by
    by_contra hlt
    obtain ⟨new, hnew⟩ := h.kept
    have hold : allocated.events[i]? = some e := by
      rw [← hnew, List.getElem?_append, if_pos (by omega)] at hi
      exact hi
    exact hne ((h.allocated_iff (by assumption)).mpr hold)
  exact ⟨hge, h.decodes i e hi hge⟩

/-- No two allocations are of the same object. -/
theorem Generated.allocation_unique (h : Generated allocated st) {j k : ℕ} {a b : MemoryIntentEvent}
    (hj : st.events[j]? = some a) (ha : a.eventType = .allocated) (hk : st.events[k]? = some b)
    (hb : b.eventType = .allocated) (heq : b.objectId = a.objectId) : k = j := by
  have hnodup : (allocated.events.map MemoryIntentEvent.objectId).Nodup := by
    rw [h.allocations.named]
    exact h.numbered.nodup
  have hj' : (allocated.events.map MemoryIntentEvent.objectId)[j]? = some a.objectId := by
    simp [(h.allocated_iff hj).mp ha]
  have hk' : (allocated.events.map MemoryIntentEvent.objectId)[k]? = some a.objectId := by
    simp [(h.allocated_iff hk).mp hb, heq]
  have hlt := (List.getElem?_eq_some_iff.mp hk').1
  exact (List.getElem?_inj hlt hnodup).mp (hk'.trans hj'.symm)

/-- The objects of rounds have been allocated. -/
theorem Generated.exists_allocation (h : Generated allocated st) {objectId : String}
    (hmem : objectId ∈ allocated.requests.flatMap SyntheticRequestState.blockIds) :
    ∃ j < allocated.events.length, ∃ a, st.events[j]? = some a ∧ a.eventType = .allocated ∧
      a.objectId = objectId := by
  rw [← h.allocations.named, List.mem_map] at hmem
  obtain ⟨a, ha, hobject⟩ := hmem
  obtain ⟨j, hj⟩ := List.getElem?_of_mem ha
  have hlt := (List.getElem?_eq_some_iff.mp hj).1
  obtain ⟨new, hnew⟩ := h.kept
  refine ⟨j, hlt, a, ?_, h.allocations.eventType a ha, hobject⟩
  rw [← hnew, List.getElem?_append_left hlt, hj]

/-- The object of any event is allocated once, and before. -/
theorem Generated.allocated_once (h : Generated allocated st) (hi : st.events[i]? = some e) :
    ∃ j ≤ i, ∃ a, st.events[j]? = some a ∧ a.eventType = .allocated ∧ a.objectId = e.objectId ∧
      ∀ k b, st.events[k]? = some b → b.eventType = .allocated → b.objectId = e.objectId → k = j := by
  by_cases htype : e.eventType = .allocated
  · exact ⟨i, le_rfl, e, hi, htype, rfl, fun k b hk hb heq => h.allocation_unique hi htype hk hb heq⟩
  · obtain ⟨hge, hdecodes⟩ := h.decodes_of_ne hi htype
    obtain ⟨j, hlt, a, hj, ha, hobject⟩ := h.exists_allocation hdecodes.mem_blockIds
    refine ⟨j, by omega, a, hj, ha, hobject, fun k b hk hb heq => ?_⟩
    exact h.allocation_unique hj ha hk hb (heq.trans hobject.symm)

theorem Generated.hot_or_cold (h : Generated allocated st) (he : e ∈ st.events) (he' : e' ∈ st.events)
    (hcritical : e.eventType = .markedDecodeCritical) (hcold : e'.eventType = .markedCold) :
    e.objectId ≠ e'.objectId := by
  obtain ⟨i, hi⟩ := List.getElem?_of_mem he
  obtain ⟨j, hj⟩ := List.getElem?_of_mem he'
  obtain ⟨-, hdecodes⟩ := h.decodes_of_ne hi (by rw [hcritical]; decide)
  obtain ⟨-, hdecodes'⟩ := h.decodes_of_ne hj (by rw [hcold]; decide)
  rw [hcritical] at hdecodes
  rw [hcold] at hdecodes'
  obtain ⟨active, hactive, hhot⟩ := hdecodes
  obtain ⟨active', hactive', hmem⟩ := hdecodes'
  intro heq
  rw [heq] at hhot
  exact h.numbered.hot_not_cold hactive hactive' hhot hmem

theorem Generated.cold_before (h : Generated allocated st) (hi : st.events[i]? = some e)
    (htype : e.eventType = .committed ∨ e.eventType = .prefetched) :
    ∃ j < i, ∃ c, st.events[j]? = some c ∧ c.eventType = .markedCold ∧ c.objectId = e.objectId := by
  have hmarked : MarkedCold (st.events.take i) e.objectId := by
    obtain ⟨-, hdecodes⟩ := h.decodes_of_ne hi (by rcases htype with htype | htype <;> simp [htype])
    rcases htype with htype | htype
    · rw [htype] at hdecodes
      exact hdecodes.2
    · rw [htype] at hdecodes
      exact hdecodes.2
  obtain ⟨c, hmem, hcold, hobject⟩ := hmarked
  obtain ⟨j, hj⟩ := List.getElem?_of_mem hmem
  rw [List.getElem?_take] at hj
  split at hj
  · exact ⟨j, ‹_›, c, hj, hcold, hobject⟩
  · cases hj

end Trace

/-- Whatever its parameters, a synthetic trace numbers its events, allocates each object once and first,
marks none both decode-critical and cold, commits and prefetches cold ones only, and replays. -/
theorem synthetic_trace_shape {numRequests blocksPerRequest blockSizeBytes decodeSteps : ℤ}
    {longContextFraction draftFraction highPriorityFraction : ℚ}
    {draws : ℕ → { draw : ℤ // 10 ≤ draw ∧ draw ≤ 60 }} {profile : WorkloadProfile}
    {events : List MemoryIntentEvent}
    (h : generateSyntheticKvWorkload numRequests blocksPerRequest blockSizeBytes decodeSteps
      longContextFraction draftFraction highPriorityFraction draws profile = .ok events) :
    (∀ (i : ℕ) (e : MemoryIntentEvent), events[i]? = some e → e.step = i) ∧
    (∀ (i : ℕ) (e : MemoryIntentEvent), events[i]? = some e → ∃ j ≤ i, ∃ a,
      events[j]? = some a ∧ a.eventType = .allocated ∧ a.objectId = e.objectId ∧
        ∀ (k : ℕ) (b : MemoryIntentEvent), events[k]? = some b → b.eventType = .allocated →
          b.objectId = e.objectId → k = j) ∧
    (∀ e ∈ events, ∀ e' ∈ events, e.eventType = .markedDecodeCritical → e'.eventType = .markedCold →
      e.objectId ≠ e'.objectId) ∧
    (∀ (i : ℕ) (e : MemoryIntentEvent), events[i]? = some e →
      e.eventType = .committed ∨ e.eventType = .prefetched →
      ∃ j < i, ∃ c, events[j]? = some c ∧ c.eventType = .markedCold ∧ c.objectId = e.objectId) ∧
    ∀ (sim : KVMemorySimulator) (order : SetOrder),
      ∃ s result, sim.run order SimulatorState.initial events = .ok (s, result) := by
  obtain ⟨allocated, st, hst, rfl⟩ := generateSyntheticKvWorkload_ok h
  refine ⟨fun i e hi => ?_, fun i e hi => hst.allocated_once hi, fun e he e' he' => hst.hot_or_cold he he',
    fun i e hi htype => hst.cold_before hi htype, fun sim order => ?_⟩
  · rw [hst.steps i e hi, zero_add]
  · exact KVMemorySimulator.run_total_of_everywhere sim order (by simp) ⟨.dram, by simp, by simp⟩ hst.tiers

/-- Two requests of eight and four blocks, six decode steps: drafts are aged, committed and prefetched. -/
theorem synthetic_trace_shape_speculative :
    ∃ events,
      generateSyntheticKvWorkload 2 4 1024 6 0 0 0 (fun _ => ⟨30, by decide⟩) .speculativeDecode =
        .ok events ∧
      ((∃ e ∈ events, e.eventType = .markedDecodeCritical) ∧ (∃ e ∈ events, e.eventType = .committed) ∧
        ∃ e ∈ events, e.eventType = .prefetched) ∧
      ∀ (sim : KVMemorySimulator) (order : SetOrder),
        ∃ s result, sim.run order SimulatorState.initial events = .ok (s, result) := by
  obtain ⟨events, hevents, hcheck⟩ := Replay.exists_of_check
    (x := generateSyntheticKvWorkload 2 4 1024 6 0 0 0 (fun _ => ⟨30, by decide⟩) .speculativeDecode)
    (p := fun events => (∃ e ∈ events, e.eventType = .markedDecodeCritical) ∧
      (∃ e ∈ events, e.eventType = .committed) ∧ ∃ e ∈ events, e.eventType = .prefetched)
    (by decide +kernel)
  rw [decide_eq_true_eq] at hcheck
  exact ⟨events, hevents, hcheck, (synthetic_trace_shape hevents).2.2.2.2⟩

end KVMemoryIntent
