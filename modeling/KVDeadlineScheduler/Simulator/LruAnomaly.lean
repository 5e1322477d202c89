-- SUMMARY: LRU has no capacity anomaly: on uniform traces a larger HBM holds what a smaller one holds and misses no more.
import KVDeadlineScheduler.Library.LruInclusion
import KVDeadlineScheduler.Simulator.Validation

/-!
# Two capacities under LRU

On a trace of blocks of one size that may all live in HBM and in DRAM, HBM is a
cache of so many slots that evicts the block with the oldest access. Each event
is a request to that cache, and `LruCache.Includes` relates the HBM of a smaller
simulator to the one of a larger.
-/

namespace KVMemoryIntent

namespace KVMemorySimulator

open LruCache

variable {sim : KVMemorySimulator} {order : SetOrder} {s s' t : SimulatorState}
  {e : MemoryIntentEvent} {latency z : ℤ} {stamp : String → ℤ} {C : SimulatorState → MemoryIntent → Prop}

/-! ## Uniform traces -/

/-- A block of the common size, allowed in HBM and in DRAM. -/
def UniformBlock (z : ℤ) (block : MemoryIntent) : Prop :=
  block.sizeBytes = z ∧ block.allowedTiers = {.hbm, .dram}

/-- An event of the traces compared: no prefetch, and an allocation goes to HBM
and is accessed at its own step. -/
structure UniformEvent (z : ℤ) (e : MemoryIntentEvent) : Prop where
  block : UniformBlock z e.intent
  not_prefetched : e.eventType ≠ .prefetched
  allocated : e.eventType = .allocated → e.intent.currentTier = .hbm ∧ e.intent.lastAccessStep = e.step

instance : Decidable (UniformEvent z e) :=
  decidable_of_iff
    ((e.intent.sizeBytes = z ∧ e.intent.allowedTiers = {.hbm, .dram}) ∧ e.eventType ≠ .prefetched ∧
      (e.eventType = .allocated → e.intent.currentTier = .hbm ∧ e.intent.lastAccessStep = e.step))
    ⟨fun ⟨h₁, h₂, h₃⟩ => ⟨h₁, h₂, h₃⟩, fun ⟨h₁, h₂, h₃⟩ => ⟨h₁, h₂, h₃⟩⟩

theorem UniformEvent.size_pos (h : UniformEvent z e) : 0 < z :=
  h.block.1 ▸ e.intent_valid.sizeBytes_pos

/-- What the event asks of HBM as a cache. -/
def request (e : MemoryIntentEvent) : Request String ℤ :=
  match e.eventType with
  | .allocated => .touch e.objectId e.step
  | .accessed => .touch e.objectId e.step
  | .spilled => .remove e.objectId
  | .evicted => .remove e.objectId
  | .freed => .remove e.objectId
  | _ => .idle

/-! ## HBM in slots -/

/-- The blocks of size `z` that fit into HBM. -/
def slots (sim : KVMemorySimulator) (z : ℤ) : ℕ := (sim.hbmCapacityBytes / z).toNat

/-- The live blocks are uniform, and the resident ones carry their stamps. -/
structure Tracks (z : ℤ) (stamp : String → ℤ) (s : SimulatorState) : Prop where
  uniform : ∀ id b, s.liveBlocks.get? id = some b → UniformBlock z b
  stamped : ∀ id ∈ s.hbmBlocks, ∀ b, s.liveBlocks.get? id = some b → b.lastAccessStep = stamp id

theorem tracks_initial (z : ℤ) (stamp : String → ℤ) : Tracks z stamp SimulatorState.initial :=
  ⟨by simp [SimulatorState.initial], by simp [SimulatorState.initial]⟩

/-- Size, allowed tiers and last access are those of `b`. -/
def SameUse (b b' : MemoryIntent) : Prop :=
  b'.sizeBytes = b.sizeBytes ∧ b'.allowedTiers = b.allowedTiers ∧ b'.lastAccessStep = b.lastAccessStep

/-- Live blocks may go or change in other respects, and ids may leave HBM. -/
theorem Tracks.of_rel (h : Tracks z stamp s) (hhbm : t.hbmBlocks ⊆ s.hbmBlocks)
    (hlive : ∀ id b', t.liveBlocks.get? id = some b' →
      ∃ b, s.liveBlocks.get? id = some b ∧ SameUse b b') : Tracks z stamp t where
  uniform id b' hb' := by
    obtain ⟨b, hb, hsize, htiers, -⟩ := hlive id b' hb'
    exact ⟨hsize.trans (h.uniform id b hb).1, htiers.trans (h.uniform id b hb).2⟩
  stamped id hin b' hb' := by
    obtain ⟨b, hb, -, -, hlast⟩ := hlive id b' hb'
    exact hlast.trans (h.stamped id (hhbm hin) b hb)

theorem Tracks.congr (h : Tracks z stamp s) (hlive : t.liveBlocks = s.liveBlocks)
    (hhbm : t.hbmBlocks = s.hbmBlocks) : Tracks z stamp t :=
  h.of_rel hhbm.subset fun _ b hb => ⟨b, hlive ▸ hb, rfl, rfl, rfl⟩

/-- One uniform block is stored. It carries its stamp if it is in HBM. -/
theorem Tracks.of_set (h : Tracks z stamp s) {stamp' : String → ℤ} {block : MemoryIntent}
    (hlive : t.liveBlocks = s.liveBlocks.set e.objectId block)
    (hhbm : t.hbmBlocks ⊆ insert e.objectId s.hbmBlocks) (hblock : UniformBlock z block)
    (hstamp : e.objectId ∈ t.hbmBlocks → block.lastAccessStep = stamp' e.objectId)
    (hother : ∀ id, id ≠ e.objectId → stamp' id = stamp id) : Tracks z stamp' t where
  uniform id b hb := by
    rw [hlive, OrderedDict.get?_set] at hb
    split at hb
    · cases hb
      exact hblock
    · exact h.uniform id b hb
  stamped id hin b hb := by
    rw [hlive, OrderedDict.get?_set] at hb
    split at hb
    · rename_i heq
      cases hb
      rw [heq] at hin ⊢
      exact hstamp hin
    · rename_i hne
      rw [hother id hne]
      exact h.stamped id ((Finset.mem_insert.mp (hhbm hin)).resolve_left hne) b hb

theorem Tracks.of_frame (h : Tracks z stamp s) (hframe : CapacityFrame s t) : Tracks z stamp t := by
  refine h.of_rel hframe.hbm_subset fun id b' hb' => ?_
  obtain ⟨b, hb, tier, rfl⟩ := hframe.retiered.of_some hb'
  exact ⟨b, hb, rfl, rfl, rfl⟩

theorem Tracks.settle (h : Tracks z stamp t) (hsettled : Settled sim e latency t s') :
    Tracks z stamp s' := by
  refine h.of_rel hsettled.hbmBlocks.subset fun id b' hb' => ?_
  obtain ⟨b, hb, r, -, rfl⟩ := hsettled.aged.of_some hb'
  exact ⟨b, hb, rfl, rfl, rfl⟩

theorem Tracks.hbmUsed_eq (h : Tracks z stamp s) (hs : s.Consistent) :
    s.hbmUsed = s.hbmBlocks.card * z := by
  unfold SimulatorState.hbmUsed SimulatorState.usedBytes
  rw [Finset.sum_congr rfl (g := fun _ => z), Finset.sum_const, nsmul_eq_mul]
  intro id hin
  obtain ⟨b, hb⟩ := hs.hbm_live id hin
  rw [SimulatorState.sizeOf_of_get? hb]
  exact (h.uniform id b hb).1

/-- HBM is within its capacity when its blocks have slots. -/
theorem Tracks.fits_iff (h : Tracks z stamp s) (hs : s.Consistent) (hz : 0 < z)
    (hcap : 0 ≤ sim.hbmCapacityBytes) :
    s.hbmUsed ≤ sim.hbmCapacityBytes ↔ s.hbmBlocks.card ≤ slots sim z := by
  have hdiv : 0 ≤ sim.hbmCapacityBytes / z := Int.ediv_nonneg hcap (le_of_lt hz)
  rw [h.hbmUsed_eq hs, ← Int.le_ediv_iff_mul_le hz]
  unfold slots
  omega

/-! ## The capacity loop as an eviction -/

/-- LRU displaces a block with the oldest stamp. -/
theorem oldest_of_displace (h : Tracks z stamp s) (hs : s.Consistent) (hpolicy : sim.policy = LRUPolicy)
    {currentStep : ℤ} {victim : MemoryIntent}
    (hcheck : sim.checkCapacity order s currentStep = .displace victim) :
    ∀ id ∈ s.hbmBlocks, stamp victim.objectId ≤ stamp id := by
  obtain ⟨hin, hget⟩ := SetOrder.get?_of_mem_candidates hs (victim_mem_candidates hcheck)
  have hchoose := (checkCapacity_displace hcheck).2.2
  rw [hpolicy] at hchoose
  intro id hid
  obtain ⟨b, hb⟩ := hs.hbm_live id hid
  have hkey : LRUPolicy.key victim ≤ LRUPolicy.key b :=
    List.le_of_mem_argmin (SetOrder.mem_candidates.mpr ⟨id, hid, hb⟩) hchoose
  have hlast : victim.lastAccessStep ≤ b.lastAccessStep := by
    rcases Prod.Lex.toLex_le_toLex.mp hkey with hlt | ⟨heq, -⟩
    · exact le_of_lt hlt
    · exact le_of_eq heq
  rw [← h.stamped _ hin victim hget, ← h.stamped id hid b hb]
  exact hlast

/-- From at most one block too many the loop displaces nothing, or the one block
with the oldest stamp. -/
theorem CapacityRun.lru {currentStep : ℤ} (h : CapacityRun sim order currentStep C s latency s')
    (hpolicy : sim.policy = LRUPolicy) (hs : s.Consistent) (htracks : Tracks z stamp s) (hz : 0 < z)
    (hcap : 0 ≤ sim.hbmCapacityBytes) (hone : s.hbmBlocks.card ≤ slots sim z + 1) :
    (s.hbmBlocks.card ≤ slots sim z ∧ s'.hbmBlocks = s.hbmBlocks) ∨
      (slots sim z < s.hbmBlocks.card ∧ ∃ victim ∈ s.hbmBlocks,
        (∀ id ∈ s.hbmBlocks, stamp victim ≤ stamp id) ∧ s'.hbmBlocks = s.hbmBlocks.erase victim) := by
  have hfits := htracks.fits_iff hs hz hcap
  cases h with
  | fits hcheck => exact .inl ⟨hfits.mp (checkCapacity_fits hcheck), rfl⟩
  | allPinned hcheck =>
    have hprotects := (checkCapacity_allPinned hcheck).2.2.2
    rw [hpolicy] at hprotects
    cases hprotects
  | noVictim hcheck =>
    obtain ⟨hover, hchoose⟩ := checkCapacity_noVictim hcheck
    rw [hpolicy] at hchoose
    have hzero := hbmUsed_eq_zero hs (List.argmin_eq_none.mp hchoose)
    omega
  | @displace _ _ victim _ hcheck _ hrest =>
    have hmem := victim_mem_candidates hcheck
    have hin := (SetOrder.get?_of_mem_candidates hs hmem).1
    have hframe := displaceVictim_frame sim currentStep hs hmem
    have hover : slots sim z < s.hbmBlocks.card := by
      have := (checkCapacity_displace hcheck).1
      by_contra hle
      exact absurd (hfits.mpr (not_lt.mp hle)) (not_le.mpr this)
    refine .inr ⟨hover, victim.objectId, hin, oldest_of_displace htracks hs hpolicy hcheck, ?_⟩
    -- one block less fits, so the next pass ends the loop
    have hcard : (sim.displaceVictim order s victim currentStep).1.hbmBlocks.card ≤ slots sim z := by
      rw [displaceVictim_hbmBlocks, Finset.card_erase_of_mem hin]
      omega
    have hused := ((htracks.of_frame hframe).fits_iff (hframe.consistent hs) hz hcap).mpr hcard
    have hnext : sim.checkCapacity order (sim.displaceVictim order s victim currentStep).1 currentStep =
        .fits := checkCapacity_of_le hused
    cases hrest with
    | fits => exact displaceVictim_hbmBlocks
    | allPinned h => rw [hnext] at h; cases h
    | noVictim h => rw [hnext] at h; cases h
    | displace h => rw [hnext] at h; cases h

/-! ## One event -/

/-- The states LRU reaches on a uniform trace. `stamp` is the last request for
each id. -/
structure LruState (sim : KVMemorySimulator) (z : ℤ) (stamp : String → ℤ) (s : SimulatorState) : Prop where
  consistent : s.Consistent
  valid : AllValid s
  tracks : Tracks z stamp s
  fits : s.hbmBlocks.card ≤ slots sim z
  past : ∀ id ∈ s.hbmBlocks, stamp id ≤ s.lastDecayStep

theorem lruState_initial (sim : KVMemorySimulator) (z : ℤ) (stamp : String → ℤ) :
    LruState sim z stamp SimulatorState.initial where
  consistent := SimulatorState.consistent_initial
  valid := by simp [AllValid, SimulatorState.initial]
  tracks := tracks_initial z stamp
  fits := Nat.zero_le _
  past := by simp [SimulatorState.initial]

/-- What an event does to HBM as a cache. -/
structure LruStep (sim : KVMemorySimulator) (z : ℤ) (stamp : String → ℤ) (s : SimulatorState)
    (e : MemoryIntentEvent) (t : SimulatorState) : Prop where
  serves : Serves (slots sim z) stamp s.hbmBlocks (request e) t.hbmBlocks
  tracks : Tracks z ((request e).stamps stamp) t

theorem request_allocated (htype : e.eventType = .allocated) :
    request e = .touch e.objectId e.step := by
  simp [request, htype]

theorem request_accessed (htype : e.eventType = .accessed) :
    request e = .touch e.objectId e.step := by
  simp [request, htype]

/-- An event that enters the loop with its block in HBM. -/
theorem LruStep.of_capacityRun {entry u : SimulatorState} {block : MemoryIntent}
    (h : LruState sim z stamp s) (hpolicy : sim.policy = LRUPolicy) (hz : 0 < z)
    (hcap : 0 ≤ sim.hbmCapacityBytes) (hrequest : request e = .touch e.objectId e.step)
    (hstored : Stored s e block entry) (hhbm : entry.hbmBlocks = insert e.objectId s.hbmBlocks)
    (hblock : UniformBlock z block) (hlast : block.lastAccessStep = e.step)
    (hrun : CapacityRun sim order e.step C entry latency u) :
    LruStep sim z stamp s e u.recordUsage := by
  have hentry : entry.Consistent := hstored.consistent h.consistent
  have htracks : Tracks z ((request e).stamps stamp) entry := by
    rw [hrequest]
    refine h.tracks.of_set hstored.liveBlocks hstored.hbm_subset hblock (fun _ => ?_) fun id hne => ?_
    · rw [hlast, Request.stamps_touch_self]
    · exact Request.stamps_touch_of_ne _ _ hne
  have hone : entry.hbmBlocks.card ≤ slots sim z + 1 := by
    have := Finset.card_insert_le e.objectId s.hbmBlocks
    have := h.fits
    rw [hhbm]
    omega
  refine ⟨?_, (htracks.of_frame (hrun.frame hentry)).congr rfl rfl⟩
  show Serves (slots sim z) stamp s.hbmBlocks (request e) u.hbmBlocks
  rcases hrun.lru hpolicy hentry htracks hz hcap hone with ⟨hroom, hu⟩ | ⟨hfull, victim, hin, hold, hu⟩
  · rw [hu, hrequest, hhbm]
    rw [hhbm] at hroom
    exact .fits hroom
  · rw [hrequest] at hold ⊢
    rw [hu, hhbm]
    rw [hhbm] at hfull hin hold
    exact .evicts hfull hin hold

/-- An event that is no request and keeps HBM as it is. -/
theorem LruStep.idle (hrequest : request e = .idle) (hhbm : t.hbmBlocks = s.hbmBlocks)
    (htracks : Tracks z stamp t) : LruStep sim z stamp s e t := by
  refine ⟨?_, ?_⟩
  · rw [hrequest, hhbm]
    exact .idle
  · rw [hrequest]
    exact htracks

/-- An event that takes its block out of HBM. -/
theorem LruStep.remove (hrequest : request e = .remove e.objectId)
    (hhbm : t.hbmBlocks = s.hbmBlocks.erase e.objectId) (htracks : Tracks z stamp t) :
    LruStep sim z stamp s e t := by
  refine ⟨?_, ?_⟩
  · rw [hrequest, hhbm]
    exact .remove
  · rw [hrequest]
    exact htracks

theorem uniformBlock_annotate {existing : MemoryIntent} (h : UniformBlock z existing) :
    UniformBlock z (annotate e existing) :=
  ⟨(annotate_sizeBytes e existing).trans h.1, (annotate_allowedTiers e existing).trans h.2⟩

theorem uniformBlock_accessed (h : Tracks z stamp s) (he : UniformEvent z e) :
    UniformBlock z (accessedBlock s e) := by
  unfold accessedBlock
  cases hget : s.liveBlocks.get? e.objectId with
  | none => exact he.block
  | some existing =>
    have hblock : UniformBlock z existing := h.uniform _ _ hget
    exact hblock

/-- An ignored event: no request, or the removal of a block that is not there. -/
theorem Ignored.lruStep (hignored : Ignored s e) (h : LruState sim z stamp s) (he : UniformEvent z e) :
    LruStep sim z stamp s e s := by
  cases hignored with
  | miss htype => exact .idle (by simp [request, htype]) rfl h.tracks
  | unknown htype hget =>
    have hout : s.hbmBlocks = s.hbmBlocks.erase e.objectId :=
      (Finset.erase_eq_of_notMem (h.consistent.notMem_hbm hget)).symm
    rcases htype with htype | htype | htype | htype | htype
    · exact .idle (by simp [request, htype]) rfl h.tracks
    · exact .idle (by simp [request, htype]) rfl h.tracks
    · exact .remove (by simp [request, htype]) hout h.tracks
    · exact absurd htype he.not_prefetched
    · exact .remove (by simp [request, htype]) hout h.tracks
  | spillDenied _ hget hdenied =>
    rw [(h.tracks.uniform _ _ hget).2] at hdenied
    exact absurd (by decide) hdenied
  | resident htype => exact absurd htype he.not_prefetched

theorem Dispatched.lruStep (hd : Dispatched sim order C s e t latency) (h : LruState sim z stamp s)
    (hpolicy : sim.policy = LRUPolicy) (hcap : 0 ≤ sim.hbmCapacityBytes) (he : UniformEvent z e) :
    LruStep sim z stamp s e t := by
  have hs := h.consistent
  cases hd with
  | allocatedHbm htype _ hrun =>
    exact .of_capacityRun h hpolicy he.size_pos hcap (request_allocated htype) stored_allocatedInHbm
      rfl he.block (he.allocated htype).2 hrun
  | allocatedDram htype htier =>
    have := (he.allocated htype).1
    rw [htier] at this
    cases this
  | allocatedOther htype hhbm => exact absurd (he.allocated htype).1 hhbm
  | hit htype hin hvalid =>
    have hsame : insert e.objectId s.hbmBlocks = s.hbmBlocks := Finset.insert_eq_of_mem hin
    refine ⟨?_, ?_⟩
    · have hserves : Serves (slots sim z) stamp s.hbmBlocks (.touch e.objectId e.step)
          (insert e.objectId s.hbmBlocks) := .fits (hsame.symm ▸ h.fits)
      rw [hsame] at hserves
      rw [request_accessed htype]
      exact hserves
    · rw [request_accessed htype]
      refine h.tracks.of_set (e := e) rfl (Finset.subset_insert _ _) (uniformBlock_accessed h.tracks he)
        (fun _ => ?_) fun id hne => ?_
      · exact (Request.stamps_touch_self stamp _ _).symm
      · exact Request.stamps_touch_of_ne _ _ hne
  | miss htype hout hvalid hrun =>
    exact .of_capacityRun h hpolicy he.size_pos hcap (request_accessed htype)
      (stored_missedInHbm hs) (missedInHbm_hbmBlocks hs) (uniformBlock_accessed h.tracks he) rfl hrun
  | markedUnknown htype hget =>
    have hout : e.objectId ∉ s.hbmBlocks := hs.notMem_hbm hget
    refine .idle (by simp [request, htype]) rfl ?_
    exact h.tracks.of_set rfl (Finset.subset_insert _ _) he.block (absurd · hout) fun _ _ => rfl
  | annotated htype hget hvalid =>
    have hidle : request e = .idle := by
      rcases htype with htype | htype | htype <;> simp [request, htype]
    refine .idle hidle rfl ?_
    refine h.tracks.of_set rfl (Finset.subset_insert _ _)
      (uniformBlock_annotate (h.tracks.uniform _ _ hget)) (fun hin => ?_) fun _ _ => rfl
    rw [annotate_lastAccessStep]
    exact h.tracks.stamped _ hin _ hget
  | @spilled existing htype hget =>
    have hid : existing.objectId = e.objectId := hs.objectId_eq _ _ hget
    have hstored := stored_spilled (e := e) hs hget
    have hhbm : (storeSpilled s { existing with currentTier := .dram }).hbmBlocks =
        s.hbmBlocks.erase e.objectId := by
      rw [← hid]
      rfl
    have hblock : UniformBlock z existing := h.tracks.uniform _ _ hget
    refine .remove (by simp [request, htype]) hhbm ?_
    refine h.tracks.of_set hstored.liveBlocks hstored.hbm_subset hblock (fun hin => ?_) fun _ _ => rfl
    rw [hhbm] at hin
    exact absurd rfl (Finset.ne_of_mem_erase hin)
  | prefetchDeclined htype => exact absurd htype he.not_prefetched
  | prefetched haccepted => exact absurd haccepted.1 he.not_prefetched
  | @evicted existing htype hget =>
    have hid : existing.objectId = e.objectId := hs.objectId_eq _ _ hget
    have hhbm : (storeEvicted s existing).hbmBlocks = s.hbmBlocks.erase e.objectId := by
      rw [← hid]
      rfl
    refine .remove (by simp [request, htype]) hhbm ?_
    exact h.tracks.of_rel (Finset.erase_subset _ _) fun id b hb => ⟨b, hb, rfl, rfl, rfl⟩
  | freed htype =>
    refine .remove (by simp [request, htype]) rfl ?_
    exact h.tracks.of_rel (Finset.erase_subset _ _) fun id b hb =>
      ⟨b, (get?_of_runFreed hb).2, rfl, rfl, rfl⟩
  | unchanged hignored => exact hignored.lruStep h he

/-! ## Progress -/

/-- A uniform victim may go to DRAM. -/
theorem eachVictim_of_uniform {currentStep : ℤ} (fuel : ℕ) (hs : s.Consistent)
    (huniform : ∀ id b, s.liveBlocks.get? id = some b → UniformBlock z b) :
    EachVictim sim order HasFallback currentStep fuel s := by
  induction fuel generalizing s with
  | zero => trivial
  | succ fuel ih =>
    unfold EachVictim
    split
    · rename_i victim hcheck
      have hmem := victim_mem_candidates hcheck
      have hframe := displaceVictim_frame sim currentStep hs hmem
      have hvictim := huniform _ _ (SetOrder.get?_of_mem_candidates hs hmem).2
      refine ⟨⟨.dram, by simp [hvictim.2], by decide⟩, ih (hframe.consistent hs) fun id b' hb' => ?_⟩
      obtain ⟨b, hb, tier, rfl⟩ := hframe.retiered.of_some hb'
      exact huniform id b hb
    · trivial

theorem LruState.keepsTiersAllowed (h : LruState sim z stamp s) (he : UniformEvent z e) :
    KeepsTiersAllowed sim order s e where
  missed _ _ := by
    have hblock := (uniformBlock_accessed h.tracks he).2
    have hallowed : ((s.liveBlocks.get? e.objectId).getD e.intent).allowedTiers = {.hbm, .dram} := hblock
    simp [hallowed]
  prefetched haccepted := absurd haccepted.1 he.not_prefetched
  displaced entry hentry := by
    have huniform : ∀ block, Stored s e block entry → UniformBlock z block →
        EachVictim sim order HasFallback e.step (capacityFuel entry) entry := by
      intro block hstored hblock
      refine eachVictim_of_uniform (z := z) _ (hstored.consistent h.consistent) fun id b hb => ?_
      rw [hstored.liveBlocks, OrderedDict.get?_set] at hb
      split at hb
      · cases hb
        exact hblock
      · exact h.tracks.uniform id b hb
    unfold capacityEntry at hentry
    split at hentry
    · split at hentry
      · cases hentry
        exact huniform _ stored_allocatedInHbm he.block
      · cases hentry
    · split at hentry
      · cases hentry
      · cases hentry
        have hvalid := (accessedBlock_postInit h.valid e).2
        exact huniform _ (stored_missedInHbm h.consistent) (uniformBlock_accessed h.tracks he)
    · rename_i htype
      exact absurd htype he.not_prefetched
    · cases hentry

/-- An event of a uniform trace goes through, serves its request, and counts a
miss exactly when it is one. -/
theorem LruState.runEvent (h : LruState sim z stamp s) (order : SetOrder) (hpolicy : sim.policy = LRUPolicy)
    (hcap : 0 ≤ sim.hbmCapacityBytes) (he : UniformEvent z e) (hlater : s.lastDecayStep < e.step) :
    ∃ s', sim.runEvent order s e = .ok s' ∧ LruState sim z ((request e).stamps stamp) s' ∧
      Serves (slots sim z) stamp s.hbmBlocks (request e) s'.hbmBlocks ∧ s'.lastDecayStep = e.step ∧
      (Misses s e → s'.missCount = s.missCount + 1 ∧ s'.decodeCriticalMisses =
        if e.intent.isDecodeCritical then s.decodeCriticalMisses + 1 else s.decodeCriticalMisses) ∧
      (¬Misses s e → s'.missCount = s.missCount ∧ s'.decodeCriticalMisses = s.decodeCriticalMisses) := by
  have hkeeps : KeepsTiersAllowed sim order s e := h.keepsTiersAllowed he
  obtain ⟨s', hrun, hs', hvalid⟩ := runEvent_total h.consistent h.valid hkeeps
  obtain ⟨t, latency, hd, ht, hsettled⟩ := runEvent_ok h.consistent victimsMeet_true hrun
  have hstep := hd.lruStep h hpolicy hcap he
  have hserves : Serves (slots sim z) stamp s.hbmBlocks (request e) s'.hbmBlocks :=
    hsettled.hbmBlocks.symm ▸ hstep.serves
  have hlast : s'.lastDecayStep = e.step := by rw [hsettled.eq]
  refine ⟨s', hrun, ⟨hs', hvalid, hstep.tracks.settle hsettled, hserves.card_le h.fits, ?_⟩, hserves,
    hlast, fun hm => ?_, fun hm => ?_⟩
  · rw [hlast]
    refine hserves.stamps_le (fun id hin => (h.past id hin).trans (le_of_lt hlater)) ?_
    intro key time hrequest
    unfold request at hrequest
    split at hrequest <;> cases hrequest <;> exact le_refl _
  · rw [hsettled.eq]
    exact hd.count_miss h.consistent hm
  · rw [hsettled.eq]
    exact hd.count_no_miss h.consistent hm

/-! ## Two capacities -/

/-- Two states of LRU after the same uniform events, the second with the larger
capacity. -/
structure Compared (sim₁ sim₂ : KVMemorySimulator) (z : ℤ) (stamp : String → ℤ)
    (s₁ s₂ : SimulatorState) : Prop where
  small : LruState sim₁ z stamp s₁
  large : LruState sim₂ z stamp s₂
  includes : Includes stamp s₁.hbmBlocks s₂.hbmBlocks
  lastDecayStep : s₂.lastDecayStep = s₁.lastDecayStep
  missCount : s₂.missCount ≤ s₁.missCount
  decodeCriticalMisses : s₂.decodeCriticalMisses ≤ s₁.decodeCriticalMisses

section Compared

variable {sim₁ sim₂ : KVMemorySimulator} {order₁ order₂ : SetOrder} {s₁ s₂ : SimulatorState}

theorem slots_mono (h : sim₁.hbmCapacityBytes ≤ sim₂.hbmCapacityBytes) (hz : 0 < z) :
    slots sim₁ z ≤ slots sim₂ z :=
  Int.toNat_le_toNat (Int.ediv_le_ediv hz h)

/-- One event keeps the two states related. -/
theorem Compared.runEvent (h : Compared sim₁ sim₂ z stamp s₁ s₂) (order₁ order₂ : SetOrder)
    (hpolicy₁ : sim₁.policy = LRUPolicy) (hpolicy₂ : sim₂.policy = LRUPolicy)
    (hcap : 0 ≤ sim₁.hbmCapacityBytes) (hle : sim₁.hbmCapacityBytes ≤ sim₂.hbmCapacityBytes)
    (he : UniformEvent z e) (hlater : s₁.lastDecayStep < e.step) :
    ∃ t₁ t₂, sim₁.runEvent order₁ s₁ e = .ok t₁ ∧ sim₂.runEvent order₂ s₂ e = .ok t₂ ∧
      Compared sim₁ sim₂ z ((request e).stamps stamp) t₁ t₂ := by
  have hlater₂ : s₂.lastDecayStep < e.step := h.lastDecayStep.symm ▸ hlater
  obtain ⟨t₁, hrun₁, hsmall, hserves₁, hlast₁, hmiss₁, hhit₁⟩ :=
    h.small.runEvent order₁ hpolicy₁ hcap he hlater
  obtain ⟨t₂, hrun₂, hlarge, hserves₂, hlast₂, hmiss₂, hhit₂⟩ :=
    h.large.runEvent order₂ hpolicy₂ (hcap.trans hle) he hlater₂
  have hafter : (request e).After s₂.hbmBlocks stamp := by
    unfold request
    split
    · exact fun id hin => lt_of_le_of_lt (h.large.past id hin) hlater₂
    · exact fun id hin => lt_of_le_of_lt (h.large.past id hin) hlater₂
    all_goals trivial
  have hincludes := h.includes.serve (slots_mono hle he.size_pos) hafter hserves₁ hserves₂
  have hcounts : t₂.missCount ≤ t₁.missCount ∧ t₂.decodeCriticalMisses ≤ t₁.decodeCriticalMisses := by
    have hmisses := h.missCount
    have hdcMisses := h.decodeCriticalMisses
    by_cases hm₂ : Misses s₂ e
    · -- what the larger HBM misses, the smaller one misses too
      have hm₁ : Misses s₁ e := ⟨hm₂.1, fun hin => hm₂.2 (h.includes.subset hin)⟩
      rw [(hmiss₁ hm₁).1, (hmiss₁ hm₁).2, (hmiss₂ hm₂).1, (hmiss₂ hm₂).2]
      refine ⟨by omega, ?_⟩
      split <;> omega
    · rw [(hhit₂ hm₂).1, (hhit₂ hm₂).2]
      by_cases hm₁ : Misses s₁ e
      · rw [(hmiss₁ hm₁).1, (hmiss₁ hm₁).2]
        refine ⟨by omega, ?_⟩
        split <;> omega
      · rw [(hhit₁ hm₁).1, (hhit₁ hm₁).2]
        exact ⟨hmisses, hdcMisses⟩
  exact ⟨t₁, t₂, hrun₁, hrun₂, hsmall, hlarge, hincludes, hlast₂.trans hlast₁.symm, hcounts.1, hcounts.2⟩

theorem compared_initial (sim₁ sim₂ : KVMemorySimulator) (z : ℤ) (stamp : String → ℤ) :
    Compared sim₁ sim₂ z stamp SimulatorState.initial SimulatorState.initial where
  small := lruState_initial sim₁ z stamp
  large := lruState_initial sim₂ z stamp
  includes := includes_empty stamp
  lastDecayStep := rfl
  missCount := le_refl _
  decodeCriticalMisses := le_refl _

/-! ## Runs -/

/-- On a uniform trace with increasing steps every event is later than the last
decay pass. -/
theorem meets_later {events : List MemoryIntentEvent} (hs : s.Consistent)
    (hfirst : ∀ e ∈ events, s.lastDecayStep < e.step)
    (hsteps : events.Pairwise fun e e' => e.step < e'.step) (huniform : ∀ e ∈ events, UniformEvent z e) :
    Replay.Meets (sim.runEvent order) (fun s e => s.lastDecayStep < e.step ∧ UniformEvent z e) s events := by
  induction events generalizing s with
  | nil => trivial
  | cons e events ih =>
    obtain ⟨hlater, hsteps⟩ := List.pairwise_cons.mp hsteps
    refine .cons ⟨hfirst e List.mem_cons_self, huniform e List.mem_cons_self⟩ fun t hrun => ?_
    obtain ⟨u, latency, -, -, hsettled⟩ := runEvent_ok hs victimsMeet_true hrun
    have hlast : t.lastDecayStep = e.step := by rw [hsettled.eq]
    apply ih (runEvent_consistent hs hrun) _ hsteps fun e' he' => huniform e' (List.mem_cons_of_mem _ he')
    intro e' he'
    rw [hlast]
    exact hlater e' he'

theorem replay_compared {events : List MemoryIntentEvent} (order₁ order₂ : SetOrder)
    (hpolicy₁ : sim₁.policy = LRUPolicy) (hpolicy₂ : sim₂.policy = LRUPolicy)
    (hcap : 0 ≤ sim₁.hbmCapacityBytes) (hle : sim₁.hbmCapacityBytes ≤ sim₂.hbmCapacityBytes)
    (hsteps : events.Pairwise fun e e' => e.step < e'.step) (huniform : ∀ e ∈ events, UniformEvent z e) :
    ∃ s₁ s₂, sim₁.replay order₁ SimulatorState.initial events = .ok s₁ ∧
      sim₂.replay order₂ SimulatorState.initial events = .ok s₂ ∧
      ∃ stamp, Compared sim₁ sim₂ z stamp s₁ s₂ := by
  have hfirst : ∀ e ∈ events, SimulatorState.initial.lastDecayStep < e.step := by
    intro e _
    have hnonneg := e.step_nonneg
    simp only [SimulatorState.initial]
    omega
  refine Replay.lockstep_progress ?_ ⟨fun _ => 0, compared_initial sim₁ sim₂ z _⟩
    (meets_later SimulatorState.consistent_initial hfirst hsteps huniform)
  rintro s₁ s₂ e ⟨stamp, h⟩ ⟨hlater, he⟩
  obtain ⟨t₁, t₂, hrun₁, hrun₂, h'⟩ :=
    h.runEvent order₁ order₂ hpolicy₁ hpolicy₂ hcap hle he hlater
  exact ⟨t₁, t₂, hrun₁, hrun₂, _, h'⟩

/-- Under LRU, on a uniform trace with increasing steps, a simulator with the
larger HBM holds after every event what the one with the smaller HBM holds, and
its run reports no more misses and no more decode-critical misses. -/
theorem lru_no_capacity_anomaly {events : List MemoryIntentEvent} (order₁ order₂ : SetOrder)
    (hpolicy₁ : sim₁.policy = LRUPolicy) (hpolicy₂ : sim₂.policy = LRUPolicy)
    (hcap : 0 ≤ sim₁.hbmCapacityBytes) (hle : sim₁.hbmCapacityBytes ≤ sim₂.hbmCapacityBytes)
    (hsteps : events.Pairwise fun e e' => e.step < e'.step) (huniform : ∀ e ∈ events, UniformEvent z e) :
    (∀ pre, pre <+: events → ∃ s₁ s₂, sim₁.replay order₁ SimulatorState.initial pre = .ok s₁ ∧
      sim₂.replay order₂ SimulatorState.initial pre = .ok s₂ ∧ s₁.hbmBlocks ⊆ s₂.hbmBlocks ∧
      s₂.missCount ≤ s₁.missCount ∧ s₂.decodeCriticalMisses ≤ s₁.decodeCriticalMisses) ∧
    ∃ s₁ s₂ result₁ result₂, sim₁.run order₁ SimulatorState.initial events = .ok (s₁, result₁) ∧
      sim₂.run order₂ SimulatorState.initial events = .ok (s₂, result₂) ∧
      result₂.missCount ≤ result₁.missCount ∧
      result₂.decodeCriticalMisses ≤ result₁.decodeCriticalMisses := by
  refine ⟨fun pre hpre => ?_, ?_⟩
  · obtain ⟨s₁, s₂, hreplay₁, hreplay₂, stamp, h⟩ :=
      replay_compared order₁ order₂ hpolicy₁ hpolicy₂ hcap hle (hsteps.sublist hpre.sublist)
        fun e he => huniform e (hpre.subset he)
    exact ⟨s₁, s₂, hreplay₁, hreplay₂, h.includes.subset, h.missCount, h.decodeCriticalMisses⟩
  · obtain ⟨s₁, s₂, hreplay₁, hreplay₂, stamp, h⟩ :=
      replay_compared order₁ order₂ hpolicy₁ hpolicy₂ hcap hle hsteps huniform
    exact ⟨s₁, s₂, _, _, run_of_replay hreplay₁, run_of_replay hreplay₂, h.missCount, h.decodeCriticalMisses⟩

/-- Three blocks in turn, one removed by name, and accesses to all of them. -/
def sweepTrace : List MemoryIntentEvent :=
  [sampleEvent 0 .allocated (sampleIntent "a" {.hbm, .dram} .hbm),
    sampleEvent 1 .allocated { sampleIntent "b" {.hbm, .dram} .hbm with lastAccessStep := 1 },
    sampleEvent 2 .spilled (sampleIntent "b" {.hbm, .dram} .hbm),
    sampleEvent 3 .allocated { sampleIntent "c" {.hbm, .dram} .hbm with lastAccessStep := 3 },
    sampleEvent 4 .accessed (sampleIntent "a" {.hbm, .dram} .dram),
    sampleEvent 5 .accessed (sampleIntent "b" {.hbm, .dram} .dram)]

def sweepPoint (hbmCapacityBytes : ℤ) : KVMemorySimulator where
  policy := LRUPolicy
  hbmCapacityBytes := hbmCapacityBytes
  dramCapacityBytes := 100

theorem lru_no_capacity_anomaly_sweep :
    (∀ pre, pre <+: sweepTrace → ∃ s₁ s₂,
      (sweepPoint 10).replay SetOrder.fastestFirst SimulatorState.initial pre = .ok s₁ ∧
      (sweepPoint 25).replay SetOrder.slowestFirst SimulatorState.initial pre = .ok s₂ ∧
      s₁.hbmBlocks ⊆ s₂.hbmBlocks ∧ s₂.missCount ≤ s₁.missCount ∧
      s₂.decodeCriticalMisses ≤ s₁.decodeCriticalMisses) ∧
    ∃ s₁ s₂ result₁ result₂,
      (sweepPoint 10).run SetOrder.fastestFirst SimulatorState.initial sweepTrace = .ok (s₁, result₁) ∧
      (sweepPoint 25).run SetOrder.slowestFirst SimulatorState.initial sweepTrace = .ok (s₂, result₂) ∧
      result₂.missCount ≤ result₁.missCount ∧
      result₂.decodeCriticalMisses ≤ result₁.decodeCriticalMisses :=
  lru_no_capacity_anomaly (z := 10) _ _ rfl rfl (by decide) (by decide) (by decide +kernel)
    (by decide +kernel)

end Compared

end KVMemorySimulator

end KVMemoryIntent
