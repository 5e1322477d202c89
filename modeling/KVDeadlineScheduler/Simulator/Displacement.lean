-- SUMMARY: The capacity loop as a greedy eviction: which of the resident blocks are still there when it ends.
import KVDeadlineScheduler.Library.GreedyEviction
import KVDeadlineScheduler.Simulator.DecodeCritical

/-!
# Which blocks are displaced

Every policy displaces blocks in a fixed order, which does not depend on what else
is resident. The loop changes no block that stays in HBM, so the order can be read
off the state in which it is entered, and the loop is a run of `GreedyEviction`. A
block that has just been brought in stays exactly if it fits together with the
blocks that would be displaced after it.
-/

namespace KVMemoryIntent

/-! ## The order of a policy -/

/-- The policy displaces no block that `protects` picks while there are others, and
of these the one that `before` puts first. -/
structure PlacementPolicy.DisplacesBy (p : PlacementPolicy) (currentStep : ℤ)
    (protects : MemoryIntent → Bool) (before : MemoryIntent → MemoryIntent → Prop) : Prop where
  asymm : ∀ a b, before a b → ¬before b a
  pinned : p.protectsPinned = true → ∀ b, b.pinRequested = true → protects b = true
  none : ∀ blocks capacityBytes, p.chooseVictim blocks capacityBytes currentStep = none → blocks = []
  victim : ∀ blocks capacityBytes victim, p.chooseVictim blocks capacityBytes currentStep = some victim →
    (p.protectsPinned = true → ∃ b ∈ blocks, b.pinRequested = false) →
    protects victim = false ∧
      ∀ b ∈ blocks, protects b = false → b.objectId ≠ victim.objectId → before victim b

theorem LRUPolicy.displacesBy (currentStep : ℤ) :
    LRUPolicy.DisplacesBy currentStep (fun _ => false) fun a b => LRUPolicy.key a < LRUPolicy.key b where
  asymm _ _ := lt_asymm
  pinned hprotects := by cases hprotects
  none _ _ hnone := List.argmin_eq_none.mp hnone
  victim blocks _ victim hv _ := by
    refine ⟨rfl, fun b hb _ hne => lt_of_le_of_ne (List.le_of_mem_argmin hb hv) fun heq => hne ?_⟩
    simp only [LRUPolicy.key, EmbeddingLike.apply_eq_iff_eq, Prod.mk.injEq] at heq
    exact heq.2.2.symm

theorem DeadlineAwarePolicy.displacesBy (currentStep : ℤ) :
    DeadlineAwarePolicy.DisplacesBy currentStep (·.pinRequested) fun a b =>
      IntentAwarePolicy.key DeadlineAwarePolicy.evictionScore currentStep b <
        IntentAwarePolicy.key DeadlineAwarePolicy.evictionScore currentStep a where
  asymm _ _ := lt_asymm
  pinned _ _ hpin := hpin
  none _ _ hnone := PlacementPolicy.intentAware_deadline.eq_nil_of_none hnone
  victim blocks capacityBytes victim hv hsome := by
    have hfree := PlacementPolicy.intentAware_deadline.victim_unpinned hv (hsome rfl)
    refine ⟨hfree, fun b hb hpin hne => ?_⟩
    have hle : IntentAwarePolicy.key DeadlineAwarePolicy.evictionScore currentStep b ≤
        IntentAwarePolicy.key DeadlineAwarePolicy.evictionScore currentStep victim :=
      List.le_of_mem_argmax (IntentAwarePolicy.mem_admissible hb hpin) hv
    refine lt_of_le_of_ne hle fun heq => hne ?_
    simp only [IntentAwarePolicy.key, EmbeddingLike.apply_eq_iff_eq, Prod.mk.injEq] at heq
    exact heq.2.2

namespace KVMemorySimulator

variable {sim : KVMemorySimulator} {order : SetOrder} {s s' t : SimulatorState} {e : MemoryIntentEvent}
  {latency currentStep : ℤ} {C : SimulatorState → MemoryIntent → Prop} {block : MemoryIntent}
  {protects : MemoryIntent → Bool} {before : MemoryIntent → MemoryIntent → Prop}

/-! ## The loop is a greedy eviction -/

/-- The live block `id` is one that `protects` picks. -/
def ProtectedIn (protects : MemoryIntent → Bool) (s : SimulatorState) (id : String) : Prop :=
  ∃ b ∈ s.liveBlocks.get? id, protects b = true

/-- The live block `id` is displaced before the live block `id'`. -/
def DisplacedBefore (before : MemoryIntent → MemoryIntent → Prop) (s : SimulatorState)
    (id id' : String) : Prop :=
  ∃ a ∈ s.liveBlocks.get? id, ∃ b ∈ s.liveBlocks.get? id', before a b

/-- A resident block of a state within the frame of the loop is the one the loop was
entered with. -/
theorem CapacityFrame.get?_resident {u : SimulatorState} {id : String} {b : MemoryIntent}
    (h : CapacityFrame s u) (hin : id ∈ u.hbmBlocks) (hb : u.liveBlocks.get? id = some b) :
    b ∈ s.liveBlocks.get? id :=
  (h.kept id fun _ => hin).1.symm.trans hb

theorem CapacityFrame.load_eq {u : SimulatorState} (h : CapacityFrame s u) :
    GreedyEviction.load s.sizeOf u.hbmBlocks = u.hbmUsed :=
  SimulatorState.usedBytes_congr fun id _ => (h.sizeOf_eq id).symm

/-- The choice of a victim, read off the state the loop was entered in. -/
theorem CapacityFrame.first {u : SimulatorState} {victim : MemoryIntent}
    (hby : sim.policy.DisplacesBy currentStep protects before) (h : CapacityFrame s u)
    (hu : u.Consistent) (hcheck : sim.checkCapacity order u currentStep = .displace victim) :
    victim.objectId ∈ u.hbmBlocks ∧ ¬ProtectedIn protects s victim.objectId ∧
      ∀ id ∈ u.hbmBlocks, ¬ProtectedIn protects s id → id ≠ victim.objectId →
        DisplacedBefore before s victim.objectId id := by
  obtain ⟨-, hsome, hchoice⟩ := checkCapacity_displace hcheck
  obtain ⟨hin, hget⟩ := SetOrder.get?_of_mem_candidates hu (victim_mem_candidates hcheck)
  have hvictim := h.get?_resident hin hget
  obtain ⟨hfree, hfirst⟩ := hby.victim _ _ _ hchoice hsome
  refine ⟨hin, ?_, fun id hid hunprotected hne => ?_⟩
  · rintro ⟨b, hb, hprotected⟩
    cases Option.mem_unique hb hvictim
    rw [hfree] at hprotected
    cases hprotected
  · obtain ⟨b, hb⟩ := hu.hbm_live id hid
    have hmem := h.get?_resident hid hb
    have hb' : protects b = false := by
      by_contra hprotected
      exact hunprotected ⟨b, hmem, by simpa using hprotected⟩
    have hidb : b.objectId ≠ victim.objectId := (hu.objectId_eq id b hb).symm ▸ hne
    refine ⟨victim, hvictim, b, hmem, hfirst b ?_ hb' hidb⟩
    exact SetOrder.mem_candidates.mpr ⟨id, hid, hb⟩

theorem CapacityRun.greedy (hby : sim.policy.DisplacesBy currentStep protects before)
    (hs : s.Consistent) (h : CapacityRun sim order currentStep C s latency t) :
    GreedyEviction.Run s.sizeOf (ProtectedIn protects s) (DisplacedBefore before s)
      sim.hbmCapacityBytes s.hbmBlocks t.hbmBlocks := by
  have hloop : ∀ {u t : SimulatorState} {l : ℤ}, CapacityRun sim order currentStep C u l t →
      u.Consistent → CapacityFrame s u →
      GreedyEviction.Run s.sizeOf (ProtectedIn protects s) (DisplacedBefore before s)
        sim.hbmCapacityBytes u.hbmBlocks t.hbmBlocks := by
    intro u t l hrun
    induction hrun with
    | fits hcheck =>
      intro _ hframe
      exact .fits (hframe.load_eq.trans_le (checkCapacity_fits hcheck))
    | allPinned hcheck =>
      intro hu hframe
      obtain ⟨-, -, hall, hprotects⟩ := checkCapacity_allPinned hcheck
      refine .stuck fun id hin => ?_
      obtain ⟨b, hb⟩ := hu.hbm_live id hin
      have hpin := hall b (SetOrder.mem_candidates.mpr ⟨id, hin, hb⟩)
      exact ⟨b, hframe.get?_resident hin hb, hby.pinned hprotects b hpin⟩
    | noVictim hcheck =>
      intro hu _
      have hempty := SetOrder.candidates_eq_nil hu (hby.none _ _ (checkCapacity_noVictim hcheck).2)
      refine .stuck fun id hin => ?_
      rw [hempty] at hin
      exact absurd hin (Finset.notMem_empty id)
    | @displace u t victim l hcheck _ _ ih =>
      intro hu hframe
      obtain ⟨hin, hfree, hfirst⟩ := hframe.first hby hu hcheck
      have hdisplaced := displaceVictim_frame sim currentStep hu (victim_mem_candidates hcheck)
      have hrest := ih (hdisplaced.consistent hu) (hframe.trans hdisplaced)
      rw [displaceVictim_hbmBlocks] at hrest
      refine .evict ?_ hin hfree hfirst hrest
      exact (checkCapacity_displace hcheck).1.trans_eq hframe.load_eq.symm
  exact hloop h hs (.of_eq rfl rfl rfl rfl rfl rfl rfl rfl rfl rfl)

instance (s : SimulatorState) (id : String) : Decidable (ProtectedIn protects s id) :=
  inferInstanceAs (Decidable (∃ b ∈ s.liveBlocks.get? id, protects b = true))

instance [DecidableRel before] (s : SimulatorState) (id id' : String) :
    Decidable (DisplacedBefore before s id id') :=
  inferInstanceAs (Decidable (∃ a ∈ s.liveBlocks.get? id, ∃ b ∈ s.liveBlocks.get? id', before a b))

theorem displacedBefore_asymm (hasymm : ∀ a b, before a b → ¬before b a) {id id' : String}
    (h : DisplacedBefore before s id id') : ¬DisplacedBefore before s id' id := by
  obtain ⟨a, ha, b, hb, hab⟩ := h
  rintro ⟨b', hb', a', ha', hba⟩
  cases Option.mem_unique ha ha'
  cases Option.mem_unique hb hb'
  exact hasymm a b hab hba

/-! ## A block that is brought in -/

/-- A protected block that is brought into HBM stays there. -/
theorem CapacityRun.placed_protected {u : SimulatorState}
    (hby : sim.policy.DisplacesBy currentStep protects before) (hs : s.Consistent)
    (hstored : Stored s e block u) (hhbm : u.hbmBlocks = insert e.objectId s.hbmBlocks)
    (hprotected : protects block = true) (h : CapacityRun sim order currentStep C u latency t) :
    e.objectId ∈ t.hbmBlocks := by
  have hget : u.liveBlocks.get? e.objectId = some block := by
    rw [hstored.liveBlocks, OrderedDict.get?_set_self]
  refine (h.greedy hby (hstored.consistent hs)).mem_of_pinned ?_ ⟨block, hget, hprotected⟩
  rw [hhbm]
  exact Finset.mem_insert_self _ _

section Placed

variable [DecidableRel before]

/-- The resident blocks that the policy would not displace before `block`. -/
def outlasting (protects : MemoryIntent → Bool) (before : MemoryIntent → MemoryIntent → Prop)
    [DecidableRel before] (s : SimulatorState) (block : MemoryIntent) : Finset String :=
  s.hbmBlocks.filter fun id => ∃ b ∈ s.liveBlocks.get? id, protects b = true ∨ ¬before b block

/-- The rivals of a block that is brought in are the block itself and those it would
be displaced before. -/
theorem rivals_placed {u : SimulatorState} (hasymm : ∀ a b, before a b → ¬before b a)
    (hs : s.Consistent) (hstored : Stored s e block u)
    (hhbm : u.hbmBlocks = insert e.objectId s.hbmBlocks) :
    GreedyEviction.rivals (ProtectedIn protects u) (DisplacedBefore before u) u.hbmBlocks e.objectId =
      insert e.objectId (outlasting protects before s block) := by
  have hget : u.liveBlocks.get? e.objectId = some block := by
    rw [hstored.liveBlocks, OrderedDict.get?_set_self]
  ext id
  rw [GreedyEviction.rivals, outlasting, Finset.mem_filter, Finset.mem_insert, Finset.mem_filter, hhbm,
    Finset.mem_insert]
  by_cases hid : id = e.objectId
  · subst hid
    have hnot : ¬DisplacedBefore before u e.objectId e.objectId :=
      fun h => displacedBefore_asymm hasymm h h
    exact iff_of_true ⟨.inl rfl, .inr hnot⟩ (.inl rfl)
  · have hsame : u.liveBlocks.get? id = s.liveBlocks.get? id := by
      rw [hstored.liveBlocks, OrderedDict.get?_set_of_ne _ _ hid]
    simp only [hid, false_or]
    refine and_congr_right fun hin => ?_
    obtain ⟨b, hb⟩ := hs.hbm_live id hin
    simp only [ProtectedIn, DisplacedBefore, hsame, hb, hget, Option.mem_some_iff, exists_eq_left']

/-- A block that is brought into HBM and not protected stays there exactly if it fits
together with the resident blocks that would not be displaced before it. -/
theorem CapacityRun.placed_mem_iff {u : SimulatorState}
    (hby : sim.policy.DisplacesBy currentStep protects before) (hs : s.Consistent)
    (hstored : Stored s e block u) (hhbm : u.hbmBlocks = insert e.objectId s.hbmBlocks)
    (hout : e.objectId ∉ s.hbmBlocks) (hfree : protects block = false)
    (h : CapacityRun sim order currentStep C u latency t) :
    e.objectId ∈ t.hbmBlocks ↔
      block.sizeBytes + s.usedBytes (outlasting protects before s block) ≤ sim.hbmCapacityBytes := by
  have hu := hstored.consistent hs
  have hget : u.liveBlocks.get? e.objectId = some block := by
    rw [hstored.liveBlocks, OrderedDict.get?_set_self]
  have hunprotected : ¬ProtectedIn protects u e.objectId := by
    rintro ⟨b, hb, hprotected⟩
    cases Option.mem_unique hb hget
    rw [hfree] at hprotected
    cases hprotected
  have hin : e.objectId ∈ u.hbmBlocks := by
    rw [hhbm]
    exact Finset.mem_insert_self _ _
  have hnotMem : e.objectId ∉ outlasting protects before s block :=
    fun hmem => hout (Finset.mem_of_mem_filter _ hmem)
  have hrest : ∑ id ∈ outlasting protects before s block, u.sizeOf id =
      s.usedBytes (outlasting protects before s block) := by
    refine Finset.sum_congr rfl fun id hid => ?_
    have hne : id ≠ e.objectId := by
      rintro rfl
      exact hnotMem hid
    unfold SimulatorState.sizeOf
    rw [hstored.liveBlocks, OrderedDict.get?_set_of_ne _ _ hne]
  rw [(h.greedy hby hu).mem_iff (fun id _ => hu.sizeOf_nonneg id)
      (fun _ _ => displacedBefore_asymm hby.asymm) hin hunprotected,
    rivals_placed hby.asymm hs hstored hhbm, GreedyEviction.load, Finset.sum_insert hnotMem,
    SimulatorState.sizeOf_of_get? hget, hrest]

end Placed

end KVMemorySimulator

end KVMemoryIntent
