-- SUMMARY: Imported traces of completed requests in the simulator: the runs do not fail, and leave nothing behind.
import KVDeadlineScheduler.Importer.Emitted
import KVDeadlineScheduler.Simulator.Lifetime

/-!
# Replaying imported traces

The events of a completed request are an episode: they name its blocks and end with
a free of every one of them. A simulator that has nothing live before an episode has
nothing live after it, whatever it has displaced in between.
-/

namespace KVMemoryIntent

/-! ## Episodes -/

/-- The events of a completed request with `k` blocks, the last `h` of which are hot. -/
structure Episode (record : RequestTraceRecord) (plan : BlockPlan) (k h : ℕ)
    (events : List MemoryIntentEvent) : Prop where
  numBlocks : plan.numBlocks = k
  labelled : Labelled record plan (segmentLabels k h true) events

section Import

variable {config : ModelKVConfig} {blockSizeBytes decodeBlockTokens : ℤ} {maxBlocksPerRequest : Option ℤ}

theorem importRecord_episode (hb : 0 < blockSizeBytes) (hd : 0 < decodeBlockTokens)
    (hmax : ∀ m ∈ maxBlocksPerRequest, 0 < m) {record : RequestTraceRecord}
    (hbytes : WithinDoubles config record) (hcompleted : record.status = "completed") {st : ImportState}
    (hst : Numbered st) :
    Journal.Appends ImportState.events Numbered
      (fun events => ∃ k h, Episode record
        (recordPlan config blockSizeBytes decodeBlockTokens maxBlocksPerRequest record) k h events) st
      (importRecord config blockSizeBytes decodeBlockTokens maxBlocksPerRequest st record) := by
  obtain ⟨k, h, hk, hh, hle, hcovers⟩ := recordPlan_covers decodeBlockTokens hb hmax record
  rw [importRecord_eq hb hd hmax hbytes]
  refine (importBlocks_emits hcovers.size_pos hk hh hle.2 hst).mono fun events hevents => ?_
  simp only [hcompleted, decide_true] at hevents
  exact ⟨k, h, hk, hevents⟩

/-- The import of completed requests is their episodes, one after another. -/
theorem requestTraceToIntentEvents_episodes {records : List RequestTraceRecord} (config : ModelKVConfig)
    (hb : 0 < blockSizeBytes) (hd : 0 < decodeBlockTokens) (hmax : ∀ m ∈ maxBlocksPerRequest, 0 < m)
    (hbytes : ∀ record ∈ records, WithinDoubles config record)
    (hcompleted : ∀ record ∈ records, record.status = "completed") :
    ∃ episodes : List (List MemoryIntentEvent),
      requestTraceToIntentEvents records config blockSizeBytes decodeBlockTokens maxBlocksPerRequest =
        .ok episodes.flatten ∧
      List.Forall₂ (fun record events => ∃ k h, Episode record
          (recordPlan config blockSizeBytes decodeBlockTokens maxBlocksPerRequest record) k h events)
        (RequestTraceRecord.sortedByKey records) episodes := by
  have hmax' : ¬maxBlocksPerRequest.any (· ≤ 0) = true := by
    cases maxBlocksPerRequest with
    | none => simp
    | some m => simpa using hmax m rfl
  have hstart : Numbered {} := ⟨rfl, by simp⟩
  have hloop : Journal.Appends ImportState.events Numbered
      (fun new => ∃ episodes, new = episodes.flatten ∧
        List.Forall₂ (fun record events => ∃ k h, Episode record
            (recordPlan config blockSizeBytes decodeBlockTokens maxBlocksPerRequest record) k h events)
          (RequestTraceRecord.sortedByKey records) episodes) {}
      ((RequestTraceRecord.sortedByKey records).foldlM
        (importRecord config blockSizeBytes decodeBlockTokens maxBlocksPerRequest) {}) := by
    refine .loop (fun record hsorted st hst => ?_) hstart
    have hin : record ∈ records := (RequestTraceRecord.sortedByKey_perm records).mem_iff.mp hsorted
    exact importRecord_episode hb hd hmax (hbytes record hin) (hcompleted record hin) hst
  obtain ⟨st, events, hst, -, hevents, episodes, rfl, hepisodes⟩ := hloop
  refine ⟨episodes, ?_, hepisodes⟩
  rw [requestTraceToIntentEvents, if_neg (not_le.mpr hb), if_neg (not_le.mpr hd), if_neg hmax']
  refine Replay.bind_eq_ok.mpr ⟨st, hst, ?_⟩
  rw [hevents]
  rfl

end Import

/-! ## What an episode leaves -/

section Episodes

variable {record : RequestTraceRecord} {plan : BlockPlan} {k h : ℕ} {events : List MemoryIntentEvent}

/-- The labels of an episode but for the frees. -/
def workLabels (k h : ℕ) : List (EventType × ℤ) :=
  let blocks := List.range k
  blocks.flatMap (fun b : ℕ => [(.allocated, (b : ℤ))]) ++
    (blocks.drop (k - h)).flatMap (fun b : ℕ => [(.markedDecodeCritical, (b : ℤ)), (.accessed, (b : ℤ))]) ++
    (blocks.take (k - h)).flatMap (fun b : ℕ => [(.markedCold, (b : ℤ))])

def freeLabels (k : ℕ) : List (EventType × ℤ) := (List.range k).flatMap fun b : ℕ => [(.freed, (b : ℤ))]

theorem segmentLabels_completed (k h : ℕ) : segmentLabels k h true = workLabels k h ++ freeLabels k := rfl

theorem mem_workLabels {label : EventType × ℤ} (hin : label ∈ workLabels k h) :
    ∃ b < k, label.2 = (b : ℕ) ∧ label.1 ≠ .prefetched := by
  simp only [workLabels, List.mem_append, List.mem_flatMap, List.mem_cons, List.not_mem_nil,
    or_false] at hin
  rcases hin with (⟨b, hb, rfl⟩ | ⟨b, hb, rfl | rfl⟩) | ⟨b, hb, rfl⟩
  · exact ⟨b, List.mem_range.mp hb, rfl, nofun⟩
  · exact ⟨b, List.mem_range.mp (List.mem_of_mem_drop hb), rfl, nofun⟩
  · exact ⟨b, List.mem_range.mp (List.mem_of_mem_drop hb), rfl, nofun⟩
  · exact ⟨b, List.mem_range.mp (List.mem_of_mem_take hb), rfl, nofun⟩

theorem mem_freeLabels {label : EventType × ℤ} :
    label ∈ freeLabels k ↔ ∃ b < k, label = (.freed, ((b : ℕ) : ℤ)) := by
  simp [freeLabels]

/-- An episode works on its blocks first and frees all of them then. -/
theorem Episode.split (hepisode : Episode record plan k h events) :
    ∃ work frees, events = work ++ frees ∧ work.map MemoryIntentEvent.label = workLabels k h ∧
      frees.map MemoryIntentEvent.label = freeLabels k := by
  have hlabels := hepisode.labelled.1
  rw [segmentLabels_completed, List.map_eq_append_iff] at hlabels
  exact hlabels

theorem Episode.allowedTiers (hepisode : Episode record plan k h events) :
    ∀ e ∈ events, e.intent.allowedTiers = {.hbm, .dram} :=
  fun e he => (hepisode.labelled.2 e he).allowedTiers

theorem Episode.not_prefetched (hepisode : Episode record plan k h events) :
    ∀ e ∈ events, e.eventType ≠ .prefetched := by
  intro e he
  have hlabel := List.mem_map_of_mem (f := MemoryIntentEvent.label) he
  rw [hepisode.labelled.1, segmentLabels_completed, List.mem_append] at hlabel
  rcases hlabel with hwork | hfree
  · obtain ⟨b, -, -, htype⟩ := mem_workLabels hwork
    exact htype
  · obtain ⟨b, -, heq⟩ := mem_freeLabels.mp hfree
    have htype : e.eventType = .freed := congrArg Prod.fst heq
    simp [htype]

/-- An object without a live block has none after an episode. -/
theorem Episode.standing (hepisode : Episode record plan k h events) (id : String) :
    events.foldl (Standing.after id) none = none := by
  obtain ⟨work, frees, hevents, hwork, hfrees⟩ := hepisode.split
  have hfreed : ∀ e ∈ frees, e.eventType = .freed := by
    intro e he
    have hlabel := List.mem_map_of_mem (f := MemoryIntentEvent.label) he
    rw [hfrees] at hlabel
    obtain ⟨b, -, heq⟩ := mem_freeLabels.mp hlabel
    exact congrArg Prod.fst heq
  have hobject : ∀ e ∈ events, e.objectId = blockObjectId record e.intent.blockId :=
    fun e he => (hepisode.labelled.2 e he).objectId
  rw [hevents, List.foldl_append]
  apply Standing.foldl_freed hfreed
  by_cases hnamed : ∃ e ∈ work, e.objectId = id
  · -- the block was worked on, so it is freed
    right
    obtain ⟨e, he, hid⟩ := hnamed
    have hlabel := List.mem_map_of_mem (f := MemoryIntentEvent.label) he
    rw [hwork] at hlabel
    obtain ⟨b, hb, hblock, -⟩ := mem_workLabels hlabel
    have hfree : ((.freed, (b : ℤ)) : EventType × ℤ) ∈ frees.map MemoryIntentEvent.label := by
      rw [hfrees]
      exact mem_freeLabels.mpr ⟨b, hb, rfl⟩
    obtain ⟨e', he', hlabel'⟩ := List.mem_map.mp hfree
    have hblock' : e'.intent.blockId = b := congrArg Prod.snd hlabel'
    have hsame : e.intent.blockId = b := hblock
    refine ⟨e', he', ?_⟩
    rw [hobject e' (by simp [hevents, he']), hblock', ← hsame, ← hobject e (by simp [hevents, he]), hid]
  · left
    exact Standing.foldl_unnamed (fun e he hid => hnamed ⟨e, he, hid⟩) none

end Episodes

theorem foldl_episodes {parts : List (List MemoryIntentEvent)} {id : String}
    (h : ∀ part ∈ parts, part.foldl (Standing.after id) none = none) :
    parts.flatten.foldl (Standing.after id) none = none := by
  induction parts with
  | nil => rfl
  | cons part parts ih =>
    rw [List.flatten_cons, List.foldl_append, h part List.mem_cons_self]
    exact ih fun p hp => h p (List.mem_cons_of_mem part hp)

theorem forall_episodes {plan : RequestTraceRecord → BlockPlan} {records : List RequestTraceRecord}
    {episodes : List (List MemoryIntentEvent)}
    (h : List.Forall₂ (fun record events => ∃ k h, Episode record (plan record) k h events) records
      episodes) :
    ∀ part ∈ episodes, ∃ record plan k h, Episode record plan k h part := by
  induction h with
  | nil => simp
  | @cons record part _ _ hpart _ ih =>
    obtain ⟨k, h, hepisode⟩ := hpart
    intro p hp
    rcases List.mem_cons.mp hp with rfl | hp
    · exact ⟨record, plan record, k, h, hepisode⟩
    · exact ih p hp

open KVMemorySimulator

section Run

variable {episodes : List (List MemoryIntentEvent)}
  (heach : ∀ part ∈ episodes, ∃ record plan k h, Episode record plan k h part)
include heach

theorem episodes_not_prefetched : ∀ e ∈ episodes.flatten, e.eventType ≠ .prefetched := by
  intro e he
  obtain ⟨part, hpart, hmem⟩ := List.mem_flatten.mp he
  obtain ⟨record, plan, k, h, hepisode⟩ := heach part hpart
  exact hepisode.not_prefetched e hmem

/-- Episodes are simulated without raising. -/
theorem episodes_run (sim : KVMemorySimulator) (order : SetOrder) :
    ∃ s result, sim.run order SimulatorState.initial episodes.flatten = .ok (s, result) := by
  have htiers : ∀ e ∈ episodes.flatten, e.intent.allowedTiers = {.hbm, .dram} := by
    intro e he
    obtain ⟨part, hpart, hmem⟩ := List.mem_flatten.mp he
    obtain ⟨record, plan, k, h, hepisode⟩ := heach part hpart
    exact hepisode.allowedTiers e hmem
  exact run_total_of_everywhere sim order (by simp) ⟨.dram, by simp, by simp⟩ htiers

end Run

/-! ## Imported requests in floats -/

theorem Episode.length_le {record : RequestTraceRecord} {plan : BlockPlan} {k h : ℕ}
    {events : List MemoryIntentEvent} (hepisode : Episode record plan k h events) :
    (events.length : ℤ) ≤ 5 * plan.numBlocks := by
  have hlength := congrArg List.length hepisode.labelled.1
  simp only [List.length_map, segmentLabels, List.length_append, List.length_flatMap, List.length_cons,
    List.length_nil, List.map_const', List.sum_replicate, List.length_range, List.length_drop,
    List.length_take, if_true, smul_eq_mul] at hlength
  rw [hepisode.numBlocks]
  omega

theorem length_episodes_le {plan : RequestTraceRecord → BlockPlan} {records : List RequestTraceRecord}
    {episodes : List (List MemoryIntentEvent)} {n : ℤ}
    (h : List.Forall₂ (fun record events => ∃ k h, Episode record (plan record) k h events) records
      episodes)
    (hblocks : ∀ record ∈ records, (plan record).numBlocks ≤ n) :
    (episodes.flatten.length : ℤ) ≤ records.length * (5 * n) := by
  induction h with
  | nil => simp
  | @cons record part records parts hpart _ ih =>
    obtain ⟨k, h, hepisode⟩ := hpart
    have hfirst := hepisode.length_le
    have hle := hblocks record List.mem_cons_self
    have hrest := ih fun r hr => hblocks r (List.mem_cons_of_mem record hr)
    rw [List.flatten_cons, List.length_append, List.length_cons]
    push_cast
    linarith

section Floats

variable {blockSizeBytes decodeBlockTokens : ℤ} {maxBlocksPerRequest : Option ℤ}
  {records : List RequestTraceRecord} {config : ModelKVConfig} {events : List MemoryIntentEvent}

/-- Where the times of the requests are in range, floats do not matter to the simulation of the trace. -/
theorem imported_runInFloats (hb : 0 < blockSizeBytes) (hd : 0 < decodeBlockTokens)
    (hmax : ∀ m ∈ maxBlocksPerRequest, 0 < m) (hbytes : ∀ record ∈ records, WithinDoubles config record)
    (hrange : ∀ record ∈ records, record.InFloatRange) (hcount : records.length ≤ 2 ^ 63)
    (hcompleted : ∀ record ∈ records, record.status = "completed")
    (himport : requestTraceToIntentEvents records config blockSizeBytes decodeBlockTokens
      maxBlocksPerRequest = .ok events)
    {sim : KVMemorySimulator} (hp : sim.policy.AccessBased ∨ sim.policy.IntentAware) {order : SetOrder}
    {s : SimulatorState} {result : SimulationResult}
    (hrun : sim.run order SimulatorState.initial events = .ok (s, result)) :
    sim.runInFloats order SimulatorState.initial events = .ok (s, result) := by
  refine runInFloats_of_ok (PlacementPolicy.floatsFit_of_cases hp) ?_ hrun
  refine requestTraceToIntentEvents_inFloatRange hb hd hmax hbytes hrange himport fun e he => ?_
  obtain ⟨episodes, himport', hepisodes⟩ :=
    requestTraceToIntentEvents_episodes config hb hd hmax hbytes hcompleted
  have heq : events = episodes.flatten := Except.ok.inj (himport.symm.trans himport')
  have hperm := RequestTraceRecord.sortedByKey_perm records
  have hlength : (events.length : ℤ) ≤ records.length * (5 * 2 ^ 53) := by
    rw [heq, ← hperm.length_eq]
    refine length_episodes_le hepisodes fun record hin => ?_
    exact recordPlan_numBlocks_le decodeBlockTokens hb hmax (hbytes record (hperm.mem_iff.mp hin))
  obtain ⟨numbered, hnumbered, hstep, -⟩ :=
    requestTraceToIntentEvents_segments records config hb hd hmax hbytes
  cases himport.symm.trans hnumbered
  obtain ⟨i, hi⟩ := List.getElem?_of_mem he
  have hindex : i < events.length := (List.getElem?_eq_some_iff.mp hi).1
  have hsteps : (i : ℤ) ≤ 2 ^ 128 := by omega
  rw [hstep i e hi, abs_of_nonneg (Int.natCast_nonneg i)]
  exact hsteps.trans (pow_le_pow_right₀ (by decide) (by decide))

end Floats

/-- Imported requests leak nothing: whatever the policy and the capacities, the trace of completed requests
is simulated without raising, and no block is live or resident at the end. The bytes of each request are
below `2 ^ 53` and its times fit floats. -/
theorem completed_requests_leave_nothing {blockSizeBytes decodeBlockTokens : ℤ}
    {maxBlocksPerRequest : Option ℤ} (records : List RequestTraceRecord) (config : ModelKVConfig)
    (hb : 0 < blockSizeBytes) (hd : 0 < decodeBlockTokens) (hmax : ∀ m ∈ maxBlocksPerRequest, 0 < m)
    (hbytes : ∀ record ∈ records, WithinDoubles config record)
    (hrange : ∀ record ∈ records, record.InFloatRange) (hcount : records.length ≤ 2 ^ 63)
    (hcompleted : ∀ record ∈ records, record.status = "completed") (sim : KVMemorySimulator)
    (hp : sim.policy.AccessBased ∨ sim.policy.IntentAware) (order : SetOrder) :
    ∃ events s result,
      requestTraceToIntentEvents records config blockSizeBytes decodeBlockTokens maxBlocksPerRequest =
        .ok events ∧
      sim.runInFloats order SimulatorState.initial events = .ok (s, result) ∧
      s.liveBlocks.keys = [] ∧ s.hbmBlocks = ∅ ∧ s.dramBlocks = ∅ ∧
      result.finalHbmUsedBytes = 0 ∧ result.finalDramUsedBytes = 0 := by
  obtain ⟨episodes, himport, hepisodes⟩ :=
    requestTraceToIntentEvents_episodes config hb hd hmax hbytes hcompleted
  have heach := forall_episodes hepisodes
  obtain ⟨s, result, hrun⟩ := episodes_run heach sim order
  have hfloats := imported_runInFloats hb hd hmax hbytes hrange hcount hcompleted himport hp hrun
  obtain ⟨hreplay, rfl⟩ := run_ok hrun
  have hstanding : ∀ id, s.standing id = none := by
    intro id
    rw [replay_standing SimulatorState.consistent_initial (episodes_not_prefetched heach) hreplay id]
    apply foldl_episodes
    intro part hpart
    obtain ⟨record, plan, k, h, hepisode⟩ := heach part hpart
    exact hepisode.standing id
  obtain ⟨hlive, hhbm, hdram⟩ :=
    resident_empty (replay_consistent SimulatorState.consistent_initial hreplay) hstanding
  refine ⟨_, s, _, himport, hfloats, hlive, hhbm, hdram, ?_, ?_⟩
  · show s.hbmUsed = 0
    rw [SimulatorState.hbmUsed, hhbm]
    rfl
  · show s.dramUsed = 0
    rw [SimulatorState.dramUsed, hdram]
    rfl

/-- Two long requests of the same name, in an HBM of ten bytes. -/
theorem completed_requests_leave_nothing_repeated :
    ∃ events s result,
      requestTraceToIntentEvents [longRequest, longRequest] llama3_8b (1024 * 1024) 16 (some 256) =
        .ok events ∧
      (tenBytes DeadlineAwarePolicy).runInFloats SetOrder.fastestFirst SimulatorState.initial events =
        .ok (s, result) ∧
      s.liveBlocks.keys = [] ∧ s.hbmBlocks = ∅ ∧ s.dramBlocks = ∅ ∧
      result.finalHbmUsedBytes = 0 ∧ result.finalDramUsedBytes = 0 :=
  completed_requests_leave_nothing [longRequest, longRequest] llama3_8b (by decide) (by decide) (by simp)
    (by decide) (by decide +kernel) (by decide) (by simp [longRequest]) (tenBytes DeadlineAwarePolicy)
    (.inr PlacementPolicy.intentAware_deadline) SetOrder.fastestFirst

/-- A request of `10 ^ 400` tokens. -/
def endlessRequest : RequestTraceRecord :=
  { longRequest with
    promptTokens := 10 ^ 400
    promptTokens_nonneg := by decide +kernel }

/-- Its bytes divided by the size of a block are too large for a float. -/
theorem endless_request_raises :
    endlessRequest.status = "completed" ∧
    requestTraceToIntentEvents [endlessRequest] llama3_8b (1024 * 1024) 16 none =
      .error (.overflowError "integer division result too large for a float") := by
  refine ⟨rfl, ?_⟩
  obtain ⟨e, h, hcheck⟩ := Replay.error_of_check
    (x := requestTraceToIntentEvents [endlessRequest] llama3_8b (1024 * 1024) 16 none)
    (p := fun e => decide (e = .overflowError "integer division result too large for a float"))
    (by decide +kernel)
  rw [h, of_decide_eq_true hcheck]

end KVMemoryIntent
