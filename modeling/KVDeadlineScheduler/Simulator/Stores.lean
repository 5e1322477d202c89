-- SUMMARY: Consistency of the stores, relations between the live blocks of two states, and the byte counts.
import KVDeadlineScheduler.Simulator.Run

/-!
# The stores of the simulator

Every id in a residency set names a live block, and a live block is stored under
its own object id. `LiveRel R s s'` says that `s'` has the live blocks of `s`,
each changed only as `R` allows. The byte counts depend on the live blocks only
through their sizes.
-/

namespace KVMemoryIntent

namespace SimulatorState

/-- What every state the simulator reaches satisfies. -/
structure Consistent (s : SimulatorState) : Prop where
  hbm_live : ∀ id ∈ s.hbmBlocks, ∃ b, s.liveBlocks.get? id = some b
  dram_live : ∀ id ∈ s.dramBlocks, ∃ b, s.liveBlocks.get? id = some b
  objectId_eq : ∀ id b, s.liveBlocks.get? id = some b → b.objectId = id
  sound : ∀ id b, s.liveBlocks.get? id = some b → b.Sound

theorem consistent_initial : initial.Consistent where
  hbm_live := by simp [initial]
  dram_live := by simp [initial]
  objectId_eq := by simp [initial]
  sound := by simp [initial]

/-- Consistency depends on the stores only. -/
theorem Consistent.congr {s t : SimulatorState} (hs : s.Consistent)
    (hlive : t.liveBlocks = s.liveBlocks) (hhbm : t.hbmBlocks = s.hbmBlocks)
    (hdram : t.dramBlocks = s.dramBlocks) : t.Consistent := by
  refine ⟨?_, ?_, ?_, ?_⟩
  · rw [hlive, hhbm]
    exact hs.hbm_live
  · rw [hlive, hdram]
    exact hs.dram_live
  · rw [hlive]
    exact hs.objectId_eq
  · rw [hlive]
    exact hs.sound

theorem Consistent.notMem_hbm {s : SimulatorState} (hs : s.Consistent) {id : String}
    (hget : s.liveBlocks.get? id = none) : id ∉ s.hbmBlocks := by
  intro hin
  obtain ⟨b, hb⟩ := hs.hbm_live id hin
  simp [hget] at hb

theorem Consistent.notMem_dram {s : SimulatorState} (hs : s.Consistent) {id : String}
    (hget : s.liveBlocks.get? id = none) : id ∉ s.dramBlocks := by
  intro hin
  obtain ⟨b, hb⟩ := hs.dram_live id hin
  simp [hget] at hb

/-! ## Relations between live blocks -/

/-- The same ids are live in both states, under blocks related by `R`. -/
def LiveRel (R : MemoryIntent → MemoryIntent → Prop) (s s' : SimulatorState) : Prop :=
  ∀ id, (s.liveBlocks.get? id = none → s'.liveBlocks.get? id = none) ∧
    ∀ b, s.liveBlocks.get? id = some b → ∃ b', s'.liveBlocks.get? id = some b' ∧ R b b'

section LiveRel

variable {R S : MemoryIntent → MemoryIntent → Prop} {s s' s'' : SimulatorState}

theorem LiveRel.of_eq (hR : ∀ b, R b b) (h : s'.liveBlocks = s.liveBlocks) : LiveRel R s s' := by
  intro id
  rw [h]
  exact ⟨fun hn => hn, fun b hb => ⟨b, hb, hR b⟩⟩

theorem LiveRel.trans (htrans : ∀ a b c, R a b → R b c → R a c) (h : LiveRel R s s')
    (h' : LiveRel R s' s'') : LiveRel R s s'' := by
  intro id
  refine ⟨fun hn => (h' id).1 ((h id).1 hn), fun b hb => ?_⟩
  obtain ⟨b', hb', hR⟩ := (h id).2 b hb
  obtain ⟨b'', hb'', hR'⟩ := (h' id).2 b' hb'
  exact ⟨b'', hb'', htrans _ _ _ hR hR'⟩

/-- The block of the first state behind a live block of the second. -/
theorem LiveRel.of_some (h : LiveRel R s s') {id : String} {b' : MemoryIntent}
    (hb' : s'.liveBlocks.get? id = some b') : ∃ b, s.liveBlocks.get? id = some b ∧ R b b' := by
  cases hb : s.liveBlocks.get? id with
  | none => rw [(h id).1 hb] at hb'; cases hb'
  | some b =>
    obtain ⟨c, hc, hR⟩ := (h id).2 b hb
    rw [hc] at hb'
    exact ⟨b, rfl, Option.some.inj hb' ▸ hR⟩

theorem LiveRel.sizeOf_eq (hsize : ∀ a b, R a b → b.sizeBytes = a.sizeBytes) (h : LiveRel R s s')
    (id : String) : s'.sizeOf id = s.sizeOf id := by
  unfold sizeOf
  cases hb : s.liveBlocks.get? id with
  | none => rw [(h id).1 hb]
  | some b =>
    obtain ⟨b', hb', hR⟩ := (h id).2 b hb
    rw [hb']
    exact hsize _ _ hR

/-- Consistency carries over when the residency sets only lose ids or gain live
ones, and the live blocks keep their ids and stay sound. -/
theorem LiveRel.consistent (hid : ∀ a b, R a b → b.objectId = a.objectId)
    (hsound : ∀ a b, R a b → a.Sound → b.Sound) (h : LiveRel R s s') (hs : s.Consistent)
    (hhbm : ∀ id ∈ s'.hbmBlocks, ∃ b, s.liveBlocks.get? id = some b)
    (hdram : ∀ id ∈ s'.dramBlocks, ∃ b, s.liveBlocks.get? id = some b) : s'.Consistent where
  hbm_live id hm := by
    obtain ⟨b, hb⟩ := hhbm id hm
    obtain ⟨b', hb', -⟩ := (h id).2 b hb
    exact ⟨b', hb'⟩
  dram_live id hm := by
    obtain ⟨b, hb⟩ := hdram id hm
    obtain ⟨b', hb', -⟩ := (h id).2 b hb
    exact ⟨b', hb'⟩
  objectId_eq id b' hb' := by
    obtain ⟨b, hb, hR⟩ := h.of_some hb'
    exact (hid _ _ hR).trans (hs.objectId_eq id b hb)
  sound id b' hb' := by
    obtain ⟨b, hb, hR⟩ := h.of_some hb'
    exact hsound _ _ hR (hs.sound id b hb)

end LiveRel

/-! ## Changes of one block -/

/-- The block is in another tier and otherwise the same. -/
def Retiered (b b' : MemoryIntent) : Prop := ∃ t, b' = { b with currentTier := t }

theorem Retiered.refl (b : MemoryIntent) : Retiered b b := ⟨b.currentTier, rfl⟩

theorem Retiered.trans (a b c : MemoryIntent) (hab : Retiered a b) (hbc : Retiered b c) :
    Retiered a c := by
  obtain ⟨t, rfl⟩ := hab
  obtain ⟨u, rfl⟩ := hbc
  exact ⟨u, rfl⟩

theorem Retiered.sizeBytes (a b : MemoryIntent) (h : Retiered a b) : b.sizeBytes = a.sizeBytes := by
  obtain ⟨t, rfl⟩ := h
  rfl

theorem Retiered.objectId (a b : MemoryIntent) (h : Retiered a b) : b.objectId = a.objectId := by
  obtain ⟨t, rfl⟩ := h
  rfl

theorem Retiered.sound (a b : MemoryIntent) (h : Retiered a b) (ha : a.Sound) : b.Sound := by
  obtain ⟨t, rfl⟩ := h
  exact ⟨ha.1, ha.2, ha.3, ha.4, ha.5, ha.6, ha.7, ha.8⟩

/-- The block has another recency score, in range, and otherwise is the same. -/
def Aged (b b' : MemoryIntent) : Prop := ∃ r, (0 ≤ r ∧ r ≤ 1) ∧ b' = { b with recencyScore := r }

theorem Aged.of_sound {b : MemoryIntent} (hb : b.Sound) : Aged b b :=
  ⟨b.recencyScore, hb.recencyScore_range, rfl⟩

theorem Aged.sizeBytes (a b : MemoryIntent) (h : Aged a b) : b.sizeBytes = a.sizeBytes := by
  obtain ⟨r, -, rfl⟩ := h
  rfl

theorem Aged.objectId (a b : MemoryIntent) (h : Aged a b) : b.objectId = a.objectId := by
  obtain ⟨r, -, rfl⟩ := h
  rfl

theorem Aged.sound (a b : MemoryIntent) (h : Aged a b) (ha : a.Sound) : b.Sound := by
  obtain ⟨r, hr, rfl⟩ := h
  exact ⟨ha.1, ha.2, ha.3, ha.4, ha.5, ha.6, hr, ha.8⟩

theorem Aged.valid {a b : MemoryIntent} (h : Aged a b) (ha : a.Valid) : b.Valid := by
  have hsound := Aged.sound a b h ha.toSound
  obtain ⟨r, -, rfl⟩ := h
  exact ⟨hsound, ha.currentTier_mem⟩

/-! ## Byte counts -/

theorem sizeOf_of_get? {s : SimulatorState} {id : String} {b : MemoryIntent}
    (h : s.liveBlocks.get? id = some b) : s.sizeOf id = b.sizeBytes := by
  simp [sizeOf, h]

theorem usedBytes_congr {s s' : SimulatorState} {ids : Finset String}
    (h : ∀ id ∈ ids, s'.sizeOf id = s.sizeOf id) : s'.usedBytes ids = s.usedBytes ids :=
  Finset.sum_congr rfl h

theorem hbmUsed_congr {s s' : SimulatorState} (hlive : s'.liveBlocks = s.liveBlocks)
    (hhbm : s'.hbmBlocks = s.hbmBlocks) : s'.hbmUsed = s.hbmUsed := by
  unfold hbmUsed usedBytes sizeOf
  rw [hlive, hhbm]

theorem Consistent.sizeOf_nonneg {s : SimulatorState} (hs : s.Consistent) (id : String) :
    0 ≤ s.sizeOf id := by
  unfold sizeOf
  cases hb : s.liveBlocks.get? id with
  | none => exact le_refl 0
  | some b => exact le_of_lt (hs.sound id b hb).sizeBytes_pos

theorem Consistent.usedBytes_mono {s : SimulatorState} (hs : s.Consistent) {ids ids' : Finset String}
    (h : ids ⊆ ids') : s.usedBytes ids ≤ s.usedBytes ids' :=
  Finset.sum_le_sum_of_subset_of_nonneg h fun id _ _ => hs.sizeOf_nonneg id

theorem Consistent.usedBytes_erase_le {s : SimulatorState} (hs : s.Consistent) (ids : Finset String)
    (id : String) : s.usedBytes (ids.erase id) ≤ s.usedBytes ids :=
  hs.usedBytes_mono (Finset.erase_subset id ids)

theorem usedBytes_insert_le {s : SimulatorState} (hs : s.Consistent) (ids : Finset String)
    (id : String) : s.usedBytes (insert id ids) ≤ s.usedBytes ids + s.sizeOf id := by
  by_cases hin : id ∈ ids
  · rw [Finset.insert_eq_of_mem hin]
    have := hs.sizeOf_nonneg id
    omega
  · rw [usedBytes, Finset.sum_insert hin, add_comm]
    rfl

/-! ## Relations between resident blocks -/

/-- HBM holds no ids it did not hold before, under blocks related by `R` to the
ones they were. -/
structure ResidentRel (R : MemoryIntent → MemoryIntent → Prop) (s s' : SimulatorState) : Prop where
  subset : s'.hbmBlocks ⊆ s.hbmBlocks
  rel : ∀ id ∈ s'.hbmBlocks, ∀ b', s'.liveBlocks.get? id = some b' →
    ∃ b, s.liveBlocks.get? id = some b ∧ R b b'

section ResidentRel

variable {R : MemoryIntent → MemoryIntent → Prop} {s s' : SimulatorState}

/-- Nothing is written, and HBM only loses ids. -/
theorem ResidentRel.of_eq (hR : ∀ b, R b b) (hlive : s'.liveBlocks = s.liveBlocks)
    (hhbm : s'.hbmBlocks ⊆ s.hbmBlocks) : ResidentRel R s s' :=
  ⟨hhbm, fun _ _ b' hb' => ⟨b', hlive ▸ hb', hR b'⟩⟩

/-- One block is written. -/
theorem ResidentRel.of_set (hR : ∀ b, R b b) {id : String} {block : MemoryIntent}
    (hlive : s'.liveBlocks = s.liveBlocks.set id block) (hhbm : s'.hbmBlocks ⊆ s.hbmBlocks)
    (hblock : id ∈ s'.hbmBlocks → ∃ b, s.liveBlocks.get? id = some b ∧ R b block) :
    ResidentRel R s s' := by
  refine ⟨hhbm, fun id' hin b' hb' => ?_⟩
  rw [hlive, OrderedDict.get?_set] at hb'
  split at hb'
  · rename_i heq
    subst heq
    cases hb'
    exact hblock hin
  · exact ⟨b', hb', hR b'⟩

theorem ResidentRel.hbmUsed_le (hsize : ∀ a b, R a b → b.sizeBytes = a.sizeBytes)
    (h : ResidentRel R s s') (hs : s.Consistent) (hs' : s'.Consistent) : s'.hbmUsed ≤ s.hbmUsed := by
  have hsizes : s'.usedBytes s'.hbmBlocks = s.usedBytes s'.hbmBlocks := by
    refine Finset.sum_congr rfl fun id hin => ?_
    obtain ⟨b', hb'⟩ := hs'.hbm_live id hin
    obtain ⟨b, hb, hR⟩ := h.rel id hin b' hb'
    rw [sizeOf, sizeOf, hb, hb']
    exact hsize b b' hR
  unfold hbmUsed
  rw [hsizes]
  exact Finset.sum_le_sum_of_subset_of_nonneg h.subset fun id _ _ => hs.sizeOf_nonneg id

end ResidentRel

end SimulatorState

/-! ## Candidates -/

namespace SetOrder

theorem mem_candidates {order : SetOrder} {s : SimulatorState} {b : MemoryIntent} :
    b ∈ order.candidates s ↔ ∃ id ∈ s.hbmBlocks, s.liveBlocks.get? id = some b := by
  simp only [candidates, List.mem_filterMap, order.mem_hbmBlocks]

/-- In a consistent state a candidate is a resident block stored under its id. -/
theorem get?_of_mem_candidates {order : SetOrder} {s : SimulatorState} {b : MemoryIntent}
    (hs : s.Consistent) (hb : b ∈ order.candidates s) :
    b.objectId ∈ s.hbmBlocks ∧ s.liveBlocks.get? b.objectId = some b := by
  obtain ⟨id, hid, hget⟩ := mem_candidates.mp hb
  rw [hs.objectId_eq id b hget]
  exact ⟨hid, hget⟩

theorem candidates_eq_nil {order : SetOrder} {s : SimulatorState} (hs : s.Consistent)
    (h : order.candidates s = []) : s.hbmBlocks = ∅ := by
  rw [Finset.eq_empty_iff_forall_notMem]
  intro id hid
  obtain ⟨b, hb⟩ := hs.hbm_live id hid
  have hmem : b ∈ order.candidates s := mem_candidates.mpr ⟨id, hid, hb⟩
  rw [h] at hmem
  cases hmem

end SetOrder

end KVMemoryIntent
