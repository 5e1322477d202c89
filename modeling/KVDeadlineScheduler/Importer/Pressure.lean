-- SUMMARY: The peak demand of an imported trace: that of its largest request, since requests are replayed one after another.
import KVDeadlineScheduler.Importer.Replay
import KVDeadlineScheduler.Simulator.Demand

/-!
# HBM demand of imported traces

The import frees the blocks of a completed request before it allocates those of the
next. The start and the end of a request play no part in this, so the demand of a
trace is that of its largest request.
-/

namespace KVMemoryIntent

/-! ## The demand of an episode -/

/-- The bytes of all blocks of a plan. -/
def BlockPlan.totalBytes (plan : BlockPlan) : ℤ := plan.numBlocks * plan.logicalBlockSize

section Episodes

variable {record : RequestTraceRecord} {plan : BlockPlan} {k h : ℕ} {events : List MemoryIntentEvent}

theorem blockObjectId_injective (record : RequestTraceRecord) :
    Function.Injective (blockObjectId record) := by
  intro a b h
  have hdigits : toString a = toString b := (String.append_right_inj _).mp h
  exact Decimal.toString_injective hdigits

/-- An episode allocates its blocks first, and nothing later. -/
theorem Episode.allocations (hepisode : Episode record plan k h events) :
    ∃ allocations rest, events = allocations ++ rest ∧
      allocations.map MemoryIntentEvent.label = (List.range k).map (fun b : ℕ => (.allocated, (b : ℤ))) ∧
      ∀ e ∈ rest, e.eventType ≠ .allocated := by
  have hlabels := hepisode.labelled.1
  rw [segmentLabels, List.append_assoc, List.append_assoc, List.map_eq_append_iff] at hlabels
  obtain ⟨allocations, rest, hevents, hallocations, hrest⟩ := hlabels
  refine ⟨allocations, rest, hevents, ?_, fun e he htype => ?_⟩
  · rw [hallocations, List.map_eq_flatMap]
  · have hlabel := List.mem_map_of_mem (f := MemoryIntentEvent.label) he
    rw [hrest] at hlabel
    simp [MemoryIntentEvent.label, htype] at hlabel

section Allocations

variable {allocations : List MemoryIntentEvent}
  (hlabels : allocations.map MemoryIntentEvent.label =
    (List.range k).map fun b : ℕ => (.allocated, (b : ℤ)))
include hlabels

theorem eventType_of_labels : ∀ e ∈ allocations, e.eventType = .allocated := by
  intro e he
  have hlabel := List.mem_map_of_mem (f := MemoryIntentEvent.label) he
  rw [hlabels] at hlabel
  obtain ⟨b, -, hb⟩ := List.mem_map.mp hlabel
  exact (congrArg Prod.fst hb).symm

theorem Episode.allocations_distinct (hepisode : Episode record plan k h events)
    (hsub : ∀ e ∈ allocations, e ∈ events) :
    allocations.Pairwise fun a b => a.objectId ≠ b.objectId := by
  have hobject : ∀ e ∈ allocations, e.objectId = blockObjectId record e.intent.blockId :=
    fun e he => (hepisode.labelled.2 e (hsub e he)).objectId
  have hnodup : (allocations.map MemoryIntentEvent.label).Nodup := by
    rw [hlabels]
    refine List.nodup_range.map fun a b hab => ?_
    exact Int.ofNat_inj.mp (congrArg Prod.snd hab)
  refine (List.pairwise_map.mp hnodup).imp_of_mem fun {a b} ha hb hne heq => hne ?_
  rw [hobject a ha, hobject b hb] at heq
  have htype := eventType_of_labels hlabels
  exact Prod.ext ((htype a ha).trans (htype b hb).symm) (blockObjectId_injective record heq)

theorem Episode.allocations_sum (hepisode : Episode record plan k h events)
    (hsub : ∀ e ∈ allocations, e ∈ events) :
    (allocations.map fun e => e.intent.sizeBytes).sum = plan.totalBytes := by
  have hlength : allocations.length = k := by
    simpa using congrArg List.length hlabels
  have hsize : ∀ size ∈ allocations.map fun e => e.intent.sizeBytes, size = plan.logicalBlockSize := by
    intro size hin
    obtain ⟨e, he, rfl⟩ := List.mem_map.mp hin
    exact (hepisode.labelled.2 e (hsub e he)).sizeBytes
  rw [List.sum_eq_card_nsmul _ _ hsize, List.length_map, hlength, nsmul_eq_mul, BlockPlan.totalBytes,
    hepisode.numBlocks]

end Allocations

open KVMemorySimulator

variable {sim : KVMemorySimulator} {order : SetOrder} {s s' : SimulatorState}

/-- The demand of an episode that is replayed with nothing resident. -/
theorem Episode.peakHbmDemand (hepisode : Episode record plan k h events) (hs : s.Consistent)
    (hempty : s.hbmBlocks = ∅) (hpeak : 0 ≤ s.peakHbmDemandBytes)
    (hallocated : ∀ e ∈ events, e.eventType = .allocated → e.intent.currentTier = .hbm)
    (hfits : plan.totalBytes ≤ sim.hbmCapacityBytes) (hrun : sim.replay order s events = .ok s') :
    s'.peakHbmDemandBytes = max s.peakHbmDemandBytes plan.totalBytes := by
  obtain ⟨allocations, rest, rfl, hlabels, hrest⟩ := hepisode.allocations
  have hsub : ∀ e ∈ allocations, e ∈ allocations ++ rest := fun e => List.mem_append_left rest
  have htype := eventType_of_labels hlabels
  have hsum := hepisode.allocations_sum hlabels hsub
  have hused : s.hbmUsed = 0 := by
    rw [SimulatorState.hbmUsed, hempty]
    rfl
  obtain ⟨t, hfirst, hsecond⟩ := Replay.run_append_ok.mp hrun
  rw [replay_peakHbmDemand (replay_consistent hs hfirst) hrest hsecond]
  have hdemand := replay_allocated_fits hs
    (fun e he => ⟨htype e he, hallocated e (hsub e he) (htype e he)⟩)
    (by simp [hempty]) (hepisode.allocations_distinct hlabels hsub) (by rw [hused, hsum]; simpa using hfits)
    (by rw [hused]; exact hpeak) hfirst
  rw [hdemand, hused, hsum, zero_add]

theorem isGreatest_insert_of_max {a b c : ℤ} {S : Set ℤ} (h : IsGreatest (insert (max a b) S) c) :
    IsGreatest (insert a (insert b S)) c := by
  obtain ⟨hmem, hbound⟩ := h
  have hmax : max a b ≤ c := hbound (Set.mem_insert _ _)
  constructor
  · rcases hmem with rfl | hmem
    · rcases max_choice a b with heq | heq
      · exact .inl heq
      · exact .inr (.inl heq)
    · exact .inr (.inr hmem)
  · rintro x (rfl | rfl | hx)
    · exact (le_max_left _ _).trans hmax
    · exact (le_max_right _ _).trans hmax
    · exact hbound (Set.mem_insert_of_mem _ hx)

/-- The demand of episodes that are replayed one after another is the largest of theirs. -/
theorem episodes_peakHbmDemand {plan : RequestTraceRecord → BlockPlan} {records : List RequestTraceRecord}
    {episodes : List (List MemoryIntentEvent)}
    (hepisodes : List.Forall₂ (fun record events => ∃ k h, Episode record (plan record) k h events) records
      episodes)
    (hs : s.Consistent) (hempty : ∀ id, s.standing id = none) (hpeak : 0 ≤ s.peakHbmDemandBytes)
    (hallocated : ∀ e ∈ episodes.flatten, e.eventType = .allocated → e.intent.currentTier = .hbm)
    (hfits : ∀ record ∈ records, (plan record).totalBytes ≤ sim.hbmCapacityBytes)
    (hrun : sim.replay order s episodes.flatten = .ok s') :
    IsGreatest (insert s.peakHbmDemandBytes ((fun record => (plan record).totalBytes) '' {r | r ∈ records}))
      s'.peakHbmDemandBytes := by
  induction hepisodes generalizing s with
  | nil =>
    cases hrun
    simp
  | @cons record part records parts hpart _ ih =>
    obtain ⟨k, h, hepisode⟩ := hpart
    rw [List.flatten_cons] at hrun hallocated
    obtain ⟨t, hfirst, hrest⟩ := Replay.run_append_ok.mp hrun
    have ht : t.peakHbmDemandBytes = max s.peakHbmDemandBytes (plan record).totalBytes :=
      hepisode.peakHbmDemand hs (resident_empty hs hempty).2.1 hpeak
        (fun e he => hallocated e (List.mem_append_left _ he)) (hfits record List.mem_cons_self) hfirst
    have hstanding : ∀ id, t.standing id = none := by
      intro id
      rw [replay_standing hs hepisode.not_prefetched hfirst id, hempty id]
      exact hepisode.standing id
    have hgreatest := ih (replay_consistent hs hfirst) hstanding (by rw [ht]; exact le_max_of_le_left hpeak)
      (fun e he => hallocated e (List.mem_append_right _ he))
      (fun r hr => hfits r (List.mem_cons_of_mem record hr)) hrest
    have himage : (fun record => (plan record).totalBytes) '' {r | r ∈ record :: records} =
        insert (plan record).totalBytes ((fun record => (plan record).totalBytes) '' {r | r ∈ records}) := by
      ext n
      simp [eq_comm]
    rw [himage]
    exact isGreatest_insert_of_max (ht ▸ hgreatest)

end Episodes

/-! ## The demand of an imported trace -/

section Import

open KVMemorySimulator

variable {blockSizeBytes decodeBlockTokens : ℤ} {maxBlocksPerRequest : Option ℤ}

/-- The peak demand of the trace of completed requests is that of the largest. -/
theorem imported_isGreatest (records : List RequestTraceRecord) (config : ModelKVConfig)
    (hb : 0 < blockSizeBytes) (hd : 0 < decodeBlockTokens) (hmax : ∀ m ∈ maxBlocksPerRequest, 0 < m)
    (hbytes : ∀ record ∈ records, WithinDoubles config record)
    (hcompleted : ∀ record ∈ records, record.status = "completed") (sim : KVMemorySimulator)
    (order : SetOrder)
    (hfits : ∀ record ∈ records,
      (recordPlan config blockSizeBytes decodeBlockTokens maxBlocksPerRequest record).totalBytes ≤
        sim.hbmCapacityBytes) :
    ∃ events s result,
      requestTraceToIntentEvents records config blockSizeBytes decodeBlockTokens maxBlocksPerRequest =
        .ok events ∧
      sim.run order SimulatorState.initial events = .ok (s, result) ∧
      IsGreatest
        (insert 0 ((fun record => (recordPlan config blockSizeBytes decodeBlockTokens maxBlocksPerRequest
          record).totalBytes) '' {record | record ∈ records}))
        result.peakHbmDemandBytes := by
  obtain ⟨episodes, himport, hepisodes⟩ :=
    requestTraceToIntentEvents_episodes config hb hd hmax hbytes hcompleted
  obtain ⟨s, result, hrun⟩ := episodes_run (forall_episodes hepisodes) sim order
  obtain ⟨hreplay, rfl⟩ := run_ok hrun
  have hperm := RequestTraceRecord.sortedByKey_perm records
  have hgreatest := episodes_peakHbmDemand hepisodes SimulatorState.consistent_initial (fun _ => rfl)
    le_rfl (requestTraceToIntentEvents_allocated himport)
    (fun record hin => hfits record (hperm.mem_iff.mp hin)) hreplay
  have hrecords : {record | record ∈ RequestTraceRecord.sortedByKey records} = {record | record ∈ records} :=
    Set.ext fun record => hperm.mem_iff
  rw [hrecords] at hgreatest
  exact ⟨_, s, _, himport, hrun, hgreatest⟩

/-- Each request waits until the blocks of those before it are freed. In an HBM that holds the blocks
of any one request, the peak demand of the trace of completed requests is that of the largest: it
covers the estimate of each request, but not of requests that run at the same time. The bytes of each
request are below `2 ^ 53` and its times fit floats. -/
theorem imported_peakHbmDemand (records : List RequestTraceRecord) (config : ModelKVConfig)
    (hb : 0 < blockSizeBytes) (hd : 0 < decodeBlockTokens) (hmax : ∀ m ∈ maxBlocksPerRequest, 0 < m)
    (hbytes : ∀ record ∈ records, WithinDoubles config record)
    (hrange : ∀ record ∈ records, record.InFloatRange) (hcount : records.length ≤ 2 ^ 63)
    (hcompleted : ∀ record ∈ records, record.status = "completed") (sim : KVMemorySimulator)
    (hp : sim.policy.AccessBased ∨ sim.policy.IntentAware) (order : SetOrder)
    (hfits : ∀ record ∈ records,
      (recordPlan config blockSizeBytes decodeBlockTokens maxBlocksPerRequest record).totalBytes ≤
        sim.hbmCapacityBytes) :
    ∃ events s result,
      requestTraceToIntentEvents records config blockSizeBytes decodeBlockTokens maxBlocksPerRequest =
        .ok events ∧
      sim.runInFloats order SimulatorState.initial events = .ok (s, result) ∧
      IsGreatest
        (insert 0 ((fun record => (recordPlan config blockSizeBytes decodeBlockTokens maxBlocksPerRequest
          record).totalBytes) '' {record | record ∈ records}))
        result.peakHbmDemandBytes ∧
      ∀ record ∈ records, ∃ estimate,
        estimateRequestKvBytes config record.promptTokens record.generatedTokens = .ok estimate ∧
          estimate ≤ result.peakHbmDemandBytes := by
  obtain ⟨events, s, result, himport, hrun, hgreatest⟩ :=
    imported_isGreatest records config hb hd hmax hbytes hcompleted sim order hfits
  have hfloats := imported_runInFloats hb hd hmax hbytes hrange hcount hcompleted himport hp hrun
  refine ⟨events, s, result, himport, hfloats, hgreatest, fun record hin => ?_⟩
  refine ⟨_, estimateRequestKvBytes_ok config record.promptTokens_nonneg record.generatedTokens_nonneg, ?_⟩
  obtain ⟨k, h, hk, -, -, hcovers⟩ :=
    recordPlan_covers decodeBlockTokens hb hmax record
  have hbytes := hgreatest.2 (Set.mem_insert_of_mem _ (Set.mem_image_of_mem _ hin))
  refine hcovers.covered.trans (le_trans (le_of_eq ?_) hbytes)
  rw [BlockPlan.totalBytes, hk]

end Import

/-- A request of eight tokens, which take one block. -/
def shortRequest : RequestTraceRecord where
  requestId := "first"
  arrivalMs := 0
  startMs := some 0
  endMs := some 100
  promptTokens := 7
  generatedTokens := 1
  requestPriority := 50
  deadlineMs := none
  status := "completed"
  requestId_ne := by decide
  arrivalMs_nonneg := by decide
  promptTokens_nonneg := by decide
  generatedTokens_nonneg := by decide
  requestPriority_range := by decide
  deadlineMs_pos := by simp

/-- Another one, at the same time. -/
def concurrentRequest : RequestTraceRecord :=
  { shortRequest with
    requestId := "second"
    requestId_ne := by decide }

/-- An HBM that holds the blocks of both. -/
def twoBlocks : KVMemorySimulator where
  policy := LRUPolicy
  hbmCapacityBytes := 2 * (1024 * 1024)
  dramCapacityBytes := 0

theorem imported_peakHbmDemand_concurrent :
    ∃ events s result,
      requestTraceToIntentEvents [shortRequest, concurrentRequest] llama3_8b (1024 * 1024) 16 none =
        .ok events ∧
      twoBlocks.runInFloats SetOrder.fastestFirst SimulatorState.initial events = .ok (s, result) ∧
      IsGreatest
        (insert 0 ((fun record => (recordPlan llama3_8b (1024 * 1024) 16 none record).totalBytes) ''
          {record | record ∈ [shortRequest, concurrentRequest]}))
        result.peakHbmDemandBytes ∧
      ∀ record ∈ [shortRequest, concurrentRequest], ∃ estimate,
        estimateRequestKvBytes llama3_8b record.promptTokens record.generatedTokens = .ok estimate ∧
          estimate ≤ result.peakHbmDemandBytes :=
  imported_peakHbmDemand [shortRequest, concurrentRequest] llama3_8b (by decide) (by decide) (by simp)
    (by decide) (by decide +kernel) (by decide) (by simp [shortRequest, concurrentRequest]) twoBlocks (.inl .lru)
    SetOrder.fastestFirst (by decide +kernel)

/-- Both requests run at 50 ms, and HBM holds the blocks of both. Together they are estimated at twice
the peak demand of their trace. -/
theorem concurrent_requests_exceed_peak :
    (∀ record ∈ [shortRequest, concurrentRequest], record.status = "completed" ∧
      (∃ start ∈ record.startMs, start ≤ 50) ∧ (∃ stop ∈ record.endMs, 50 ≤ stop) ∧
      estimateRequestKvBytes llama3_8b record.promptTokens record.generatedTokens = .ok (1024 * 1024)) ∧
    ∃ events s result,
      requestTraceToIntentEvents [shortRequest, concurrentRequest] llama3_8b (1024 * 1024) 16 none =
        .ok events ∧
      twoBlocks.runInFloats SetOrder.fastestFirst SimulatorState.initial events = .ok (s, result) ∧
      result.peakHbmDemandBytes < 1024 * 1024 + 1024 * 1024 := by
  refine ⟨by decide, ?_⟩
  have hone : ∀ record ∈ [shortRequest, concurrentRequest],
      (recordPlan llama3_8b (1024 * 1024) 16 none record).totalBytes = 1024 * 1024 := by
    decide +kernel
  have hfits : ∀ record ∈ [shortRequest, concurrentRequest],
      (recordPlan llama3_8b (1024 * 1024) 16 none record).totalBytes ≤ twoBlocks.hbmCapacityBytes := by
    intro record hin
    rw [hone record hin]
    decide
  obtain ⟨events, s, result, himport, hrun, hgreatest⟩ := imported_isGreatest
    [shortRequest, concurrentRequest] llama3_8b (by decide) (by decide) (by simp)
    (by decide) (by simp [shortRequest, concurrentRequest]) twoBlocks SetOrder.fastestFirst hfits
  have hfloats := imported_runInFloats (by decide) (by decide) (by simp) (by decide) (by decide +kernel)
    (by decide) (by simp [shortRequest, concurrentRequest]) himport (.inl .lru) hrun
  refine ⟨events, s, result, himport, hfloats, ?_⟩
  rcases hgreatest.1 with hzero | ⟨record, hin, hbytes⟩
  · rw [hzero]
    decide
  · have hpeak : result.peakHbmDemandBytes = 1024 * 1024 := hbytes.symm.trans (hone record hin)
    rw [hpeak]
    decide

end KVMemoryIntent
