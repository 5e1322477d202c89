-- SUMMARY: LRU against any other policy on uniform traces: its misses are bounded by those of a simulator that uses less HBM.
import KVDeadlineScheduler.Library.LruCompetitive
import KVDeadlineScheduler.Simulator.Blocks
import KVDeadlineScheduler.Simulator.LruAnomaly
import KVDeadlineScheduler.Simulator.Peak

/-!
# What any policy can gain over LRU

No policy brings a block into HBM that the event does not name, so on a uniform
trace every simulator serves the same requests as LRU, at best with another choice
of victims. The faults of LRU are charged to the misses and allocations of the other
simulator.
-/

namespace KVMemoryIntent

namespace KVMemorySimulator

open LruCache

variable {sim sim₁ sim₂ : KVMemorySimulator} {order order₁ order₂ : SetOrder}
  {s t s₁ s₂ t₂ : SimulatorState} {e : MemoryIntentEvent} {latency z : ℤ} {stamp : String → ℤ}
  {keys : List String} {C : SimulatorState → MemoryIntent → Prop} {room : ℕ}

/-! ## Any policy serves the requests -/

theorem keptBy_uniformBlock (he : UniformEvent z e) : KeptBy (UniformBlock z) e where
  intent := he.block
  marked := he.block
  annotated _ hb := uniformBlock_annotate hb
  touched _ hb := hb
  retiered a b h ha := by
    obtain ⟨tier, rfl⟩ := h
    exact ha
  aged a b h ha := by
    obtain ⟨r, -, rfl⟩ := h
    exact ha

/-- An ignored event asks for nothing, or for the removal of a block that is not there. -/
theorem Ignored.demands (h : Ignored s e) (hs : s.Consistent)
    (huniform : EachBlock (UniformBlock z) s) (he : UniformEvent z e) :
    (request e).Demands s.hbmBlocks s.hbmBlocks := by
  cases h with
  | miss htype =>
    have hidle : request e = .idle := by simp [request, htype]
    rw [hidle]
    exact Finset.Subset.refl _
  | unknown htype hget =>
    have hout : s.hbmBlocks ⊆ s.hbmBlocks.erase e.objectId :=
      (Finset.erase_eq_of_notMem (hs.notMem_hbm hget)).symm.subset
    rcases htype with htype | htype | htype | htype | htype <;> simp only [request, htype]
    · exact Finset.Subset.refl _
    · exact Finset.Subset.refl _
    · exact hout
    · exact Finset.Subset.refl _
    · exact hout
  | spillDenied _ hget hdenied =>
    rw [(huniform _ _ hget).2] at hdenied
    exact absurd (by decide) hdenied
  | resident htype => exact absurd htype he.not_prefetched

theorem Dispatched.demands (h : Dispatched sim order C s e t latency) (hs : s.Consistent)
    (huniform : EachBlock (UniformBlock z) s) (he : UniformEvent z e) :
    (request e).Demands s.hbmBlocks t.hbmBlocks := by
  cases h with
  | allocatedHbm htype _ hrun =>
    rw [request_allocated htype]
    exact (hrun.frame (stored_allocatedInHbm.consistent hs)).hbm_subset
  | allocatedDram htype =>
    rw [request_allocated htype]
    exact Finset.subset_insert _ _
  | allocatedOther htype =>
    rw [request_allocated htype]
    exact Finset.subset_insert _ _
  | hit htype =>
    rw [request_accessed htype]
    exact Finset.subset_insert _ _
  | miss htype _ _ hrun =>
    rw [request_accessed htype]
    refine (hrun.frame ((stored_missedInHbm hs).consistent hs)).hbm_subset.trans ?_
    rw [missedInHbm_hbmBlocks hs]
  | markedUnknown htype =>
    simp only [request, htype]
    exact Finset.Subset.refl _
  | annotated htype =>
    rcases htype with htype | htype | htype <;> simp only [request, htype] <;>
      exact Finset.Subset.refl _
  | @spilled existing htype hget =>
    have hid : existing.objectId = e.objectId := hs.objectId_eq _ _ hget
    simp only [request, htype]
    show s.hbmBlocks.erase existing.objectId ⊆ s.hbmBlocks.erase e.objectId
    rw [hid]
  | prefetchDeclined htype => exact absurd htype he.not_prefetched
  | prefetched haccepted => exact absurd haccepted.1 he.not_prefetched
  | @evicted existing htype hget =>
    have hid : existing.objectId = e.objectId := hs.objectId_eq _ _ hget
    simp only [request, htype]
    show s.hbmBlocks.erase existing.objectId ⊆ s.hbmBlocks.erase e.objectId
    rw [hid]
  | freed htype =>
    simp only [request, htype]
    exact Finset.Subset.refl _
  | unchanged hignored => exact hignored.demands hs huniform he

/-! ## Faults -/

/-- A fault is a miss or an allocation. -/
theorem faults_le (s : SimulatorState) (e : MemoryIntentEvent) :
    (request e).faults s.hbmBlocks ≤
      (if Misses s e then 1 else 0) + if e.eventType = .allocated then 1 else 0 := by
  cases htype : e.eventType <;> simp [request, Misses, Request.faults, htype]
  split <;> omega

theorem misses_le_faults (s : SimulatorState) (e : MemoryIntentEvent) :
    (if Misses s e then 1 else 0) ≤ (request e).faults s.hbmBlocks := by
  cases htype : e.eventType <;> simp [request, Misses, Request.faults, htype]

theorem runEvent_missCount (hs : s.Consistent) (h : sim.runEvent order s e = .ok t) :
    t.missCount = s.missCount + if Misses s e then 1 else 0 := by
  obtain ⟨u, latency, hd, -, hsettled⟩ := runEvent_ok hs victimsMeet_true h
  rw [hsettled.eq]
  split
  · rename_i hm
    exact (hd.count_miss hs hm).1
  · rename_i hm
    exact (hd.count_no_miss hs hm).1

/-! ## The other simulator -/

/-- A state of any simulator on a uniform trace. -/
structure UniformState (z : ℤ) (s : SimulatorState) : Prop where
  consistent : s.Consistent
  uniform : EachBlock (UniformBlock z) s
  peak : s.hbmUsed ≤ s.actualPeakHbmUsedBytes

theorem uniformState_initial (z : ℤ) : UniformState z SimulatorState.initial where
  consistent := SimulatorState.consistent_initial
  uniform := by simp [EachBlock, SimulatorState.initial]
  peak := by simp [SimulatorState.initial, SimulatorState.hbmUsed, SimulatorState.usedBytes]

/-- One event keeps such a state, demands what it requests and does not lower the peak. -/
theorem UniformState.runEvent (h : UniformState z s) (he : UniformEvent z e)
    (hrun : sim.runEvent order s e = .ok t) :
    UniformState z t ∧ (request e).Demands s.hbmBlocks t.hbmBlocks ∧
      s.actualPeakHbmUsedBytes ≤ t.actualPeakHbmUsedBytes := by
  obtain ⟨u, latency, hd, -, hsettled⟩ := runEvent_ok h.consistent victimsMeet_true hrun
  have hpeak := runEvent_actualPeak h.consistent h.peak hrun
  refine ⟨⟨runEvent_consistent h.consistent hrun, ?_, hpeak ▸ le_max_left _ _⟩, ?_,
    hpeak ▸ le_max_right _ _⟩
  · exact runEvent_eachBlock (keptBy_uniformBlock he) h.consistent h.uniform hrun
  · rw [hsettled.hbmBlocks]
    exact hd.demands h.consistent h.uniform he

/-- Blocks of one size are counted by their bytes. -/
theorem UniformState.card_le (h : UniformState z s) (hz : 0 < z)
    (hroom : s.actualPeakHbmUsedBytes ≤ room * z) : s.hbmBlocks.card ≤ room := by
  have htracks : Tracks z (fun id => (s.liveBlocks.get? id).elim 0 MemoryIntent.lastAccessStep) s :=
    ⟨h.uniform, fun id _ b hb => by simp [hb]⟩
  have hused := htracks.hbmUsed_eq h.consistent
  have hle : (s.hbmBlocks.card : ℤ) * z ≤ room * z := hused ▸ h.peak.trans hroom
  exact_mod_cast le_of_mul_le_mul_right hle hz

theorem UniformState.replay {events : List MemoryIntentEvent} (h : UniformState z s)
    (huniform : ∀ e ∈ events, UniformEvent z e) (hrun : sim.replay order s events = .ok t) :
    s.actualPeakHbmUsedBytes ≤ t.actualPeakHbmUsedBytes := by
  induction events generalizing s with
  | nil =>
    cases hrun
    exact le_refl _
  | cons e events ih =>
    obtain ⟨u, hstep, hrest⟩ := Replay.run_cons_ok.mp hrun
    obtain ⟨hu, -, hpeak⟩ := h.runEvent (huniform e List.mem_cons_self) hstep
    exact hpeak.trans (ih hu (fun e' he' => huniform e' (List.mem_cons_of_mem _ he')) hrest)

/-! ## Runs -/

/-- The allocations of a trace. -/
def allocations (events : List MemoryIntentEvent) : ℕ :=
  events.countP fun e => e.eventType = .allocated

/-- Along a uniform trace the misses of LRU are charged to the potential it starts from
and to the misses and allocations of the other simulator. -/
theorem LruState.replay_charge {events : List MemoryIntentEvent} (order₁ : SetOrder)
    (hpolicy : sim₁.policy = LRUPolicy) (hcap : 0 ≤ sim₁.hbmCapacityBytes)
    (h₁ : LruState sim₁ z stamp s₁) (hrecent : Recency stamp keys s₁.hbmBlocks)
    (h₂ : UniformState z s₂) (hexcess : room ≤ slots sim₁ z)
    (hmeets : Replay.Meets (sim₁.runEvent order₁)
      (fun s e => s.lastDecayStep < e.step ∧ UniformEvent z e) s₁ events)
    (huniform : ∀ e ∈ events, UniformEvent z e) (hrun₂ : sim₂.replay order₂ s₂ events = .ok t₂)
    (hroom : t₂.actualPeakHbmUsedBytes ≤ room * z) :
    ∃ t₁, sim₁.replay order₁ s₁ events = .ok t₁ ∧
      ((slots sim₁ z : ℤ) - room) * (t₁.missCount - s₁.missCount) ≤
        potential (slots sim₁ z) keys s₂.hbmBlocks +
          slots sim₁ z * (t₂.missCount - s₂.missCount + allocations events) := by
  induction events generalizing stamp keys s₁ s₂ with
  | nil =>
    cases hrun₂
    refine ⟨s₁, rfl, ?_⟩
    have hnonneg := potential_nonneg (slots sim₁ z) keys t₂.hbmBlocks
    simpa [allocations] using hnonneg
  | cons e events ih =>
    obtain ⟨hlater, he⟩ := hmeets.head
    have hrest : ∀ e' ∈ events, UniformEvent z e' := fun e' he' => huniform e' (List.mem_cons_of_mem _ he')
    obtain ⟨u₁, hstep₁, hu₁, hserves, -⟩ := h₁.runEvent order₁ hpolicy hcap he hlater
    obtain ⟨u₂, hstep₂, hrest₂⟩ := Replay.run_cons_ok.mp hrun₂
    obtain ⟨hu₂, hdemands, hpeak⟩ := h₂.runEvent he hstep₂
    have hafter : (request e).After s₁.hbmBlocks stamp := by
      unfold request
      split
      · exact fun id hin => lt_of_le_of_lt (h₁.past id hin) hlater
      · exact fun id hin => lt_of_le_of_lt (h₁.past id hin) hlater
      all_goals trivial
    obtain ⟨t₁, hreplay₁, hcharge⟩ := ih hu₁ (hrecent.serve h₁.fits hafter hserves) hu₂
      (hmeets.tail hstep₁) hrest hrest₂
    refine ⟨t₁, Replay.run_cons_ok.mpr ⟨u₁, hstep₁, hreplay₁⟩, ?_⟩
    have hcard := h₂.card_le he.size_pos ((hpeak.trans (hu₂.replay hrest hrest₂)).trans hroom)
    -- what this event is charged
    have hstep := hrecent.charge (slots sim₁ z) hcard hdemands
    have hmisses₁ := runEvent_missCount h₁.consistent hstep₁
    have hmisses₂ := runEvent_missCount h₂.consistent hstep₂
    have hfaults₁ : (u₁.missCount : ℤ) - s₁.missCount ≤ (request e).faults s₁.hbmBlocks := by
      have := misses_le_faults s₁ e
      omega
    have hfaults₂ : ((request e).faults s₂.hbmBlocks : ℤ) ≤
        u₂.missCount - s₂.missCount + (allocations (e :: events) - allocations events) := by
      have hle := faults_le s₂ e
      have hcount : allocations (e :: events) =
          allocations events + if e.eventType = .allocated then 1 else 0 := by
        simp [allocations, List.countP_cons]
      omega
    have hexcess' : (0 : ℤ) ≤ slots sim₁ z - room := by omega
    have hpaid := mul_le_mul_of_nonneg_left hfaults₁ hexcess'
    have hloads := mul_le_mul_of_nonneg_left hfaults₂ (Int.natCast_nonneg (slots sim₁ z))
    linarith

/-- On a uniform trace with increasing steps, take any simulator, with any policy, that
never uses more HBM than `room` blocks of the trace, and LRU in an HBM of `slots` blocks.
With `k = slots` and `h = room`, LRU misses at most so often that `(k - h)` times its
misses is bounded by `k` times the misses of the other simulator and the allocations,
up to the constant `k (k + 1) / 2`. -/
theorem lru_competitive {events : List MemoryIntentEvent} {result₂ : SimulationResult} (order₁ : SetOrder)
    (hpolicy : sim₁.policy = LRUPolicy) (hcap : 0 ≤ sim₁.hbmCapacityBytes)
    (hsteps : events.Pairwise fun e e' => e.step < e'.step) (huniform : ∀ e ∈ events, UniformEvent z e)
    (hrun₂ : sim₂.run order₂ .initial events = .ok (s₂, result₂))
    (hroom : result₂.actualPeakHbmUsedBytes ≤ room * z) :
    ∃ s₁ result₁, sim₁.run order₁ .initial events = .ok (s₁, result₁) ∧
      ((slots sim₁ z : ℤ) - room) * result₁.missCount ≤
        slots sim₁ z * (result₂.missCount + allocations events) +
          slots sim₁ z * (slots sim₁ z + 1) / 2 := by
  obtain ⟨hreplay₂, hresult₂⟩ := run_ok hrun₂
  have hfirst : ∀ e ∈ events, SimulatorState.initial.lastDecayStep < e.step := by
    intro e _
    have hnonneg := e.step_nonneg
    simp only [SimulatorState.initial]
    omega
  have hmeets : Replay.Meets (sim₁.runEvent order₁) _ SimulatorState.initial events :=
    meets_later SimulatorState.consistent_initial hfirst hsteps huniform
  rw [hresult₂] at hroom ⊢
  rcases le_total room (slots sim₁ z) with hexcess | hshort
  · obtain ⟨t₁, hreplay₁, hcharge⟩ := (lruState_initial sim₁ z fun _ => 0).replay_charge order₁ hpolicy
      hcap (recency_nil _) (uniformState_initial z) hexcess hmeets huniform hreplay₂ hroom
    refine ⟨t₁, _, run_of_replay hreplay₁, ?_⟩
    have hempty : 2 * potential (slots sim₁ z) [] SimulatorState.initial.hbmBlocks =
        slots sim₁ z * (slots sim₁ z + 1) := potential_empty (slots sim₁ z)
    simp only [SimulatorState.initial, Nat.cast_zero, sub_zero] at hcharge hempty
    show ((slots sim₁ z : ℤ) - room) * t₁.missCount ≤
      slots sim₁ z * ((s₂.missCount : ℤ) + allocations events) + slots sim₁ z * (slots sim₁ z + 1) / 2
    omega
  · -- LRU has no more slots than the other simulator uses, and the bound says nothing
    obtain ⟨t₁, -, hreplay₁, -⟩ := replay_compared order₁ order₁ hpolicy hpolicy hcap (le_refl _) hsteps huniform
    refine ⟨t₁, _, run_of_replay hreplay₁, ?_⟩
    have hexcess : (slots sim₁ z : ℤ) - room ≤ 0 := by omega
    have hleft : ((slots sim₁ z : ℤ) - room) * (sim₁.report t₁ events).missCount ≤ 0 :=
      mul_nonpos_of_nonpos_of_nonneg hexcess (Int.natCast_nonneg _)
    exact hleft.trans (by positivity)

/-- Four slots for LRU against one block in HBM under the deadline policy. -/
theorem lru_competitive_sweep :
    ∃ s₂ result₂, ({ sweepPoint 10 with policy := DeadlineAwarePolicy } : KVMemorySimulator).run
        .slowestFirst .initial sweepTrace = .ok (s₂, result₂) ∧
      ∃ s₁ result₁, (sweepPoint 40).run .fastestFirst .initial sweepTrace = .ok (s₁, result₁) ∧
        ((4 : ℤ) - 1) * result₁.missCount ≤ 4 * (result₂.missCount + 3) + 4 * (4 + 1) / 2 ∧
        result₂.missCount = 2 := by
  obtain ⟨⟨s₂, result₂⟩, h, hcheck⟩ := Replay.exists_of_check
    (x := ({ sweepPoint 10 with policy := DeadlineAwarePolicy } : KVMemorySimulator).run
      .slowestFirst .initial sweepTrace)
    (p := fun r => decide (r.2.actualPeakHbmUsedBytes ≤ (1 : ℕ) * 10 ∧ r.2.missCount = 2))
    (by decide +kernel)
  obtain ⟨hroom, hmisses⟩ := of_decide_eq_true hcheck
  obtain ⟨s₁, result₁, hrun, hle⟩ : ∃ s₁ result₁,
      (sweepPoint 40).run .fastestFirst .initial sweepTrace = .ok (s₁, result₁) ∧
      ((4 : ℤ) - 1) * result₁.missCount ≤ 4 * (result₂.missCount + 3) + 4 * (4 + 1) / 2 :=
    lru_competitive (z := 10) .fastestFirst rfl (by decide) (by decide +kernel) (by decide +kernel) h hroom
  exact ⟨s₂, result₂, h, s₁, result₁, hrun, hle, hmisses⟩

end KVMemorySimulator

end KVMemoryIntent
