-- SUMMARY: The state of the KV memory simulator, its parameters, the decision log, and the order in which sets are enumerated.
import Mathlib.Algebra.BigOperators.Group.Finset.Basic
import Mathlib.Algebra.Order.BigOperators.Group.Finset
import Mathlib.Data.Finset.Insert
import Mathlib.Data.List.Sort
import KVDeadlineScheduler.Library.OrderedDict
import KVDeadlineScheduler.Policies

/-!
# Simulator state

`KVMemorySimulator` holds the parameters of a simulator and `SimulatorState`
everything a run changes. A block lives in `liveBlocks` under its object id.
Where it resides is recorded in the sets `hbmBlocks` and `dramBlocks`.
-/

namespace KVMemoryIntent

/-! ## Decision log -/

inductive DecisionAction where
  | spill
  | evict
  | prefetch
  | capacityExhausted
  deriving DecidableEq, Repr

structure DecisionRecord where
  step : ℤ
  action : DecisionAction
  policy : String
  victimObjectId : Option String
  victimPriority : Option Priority
  victimPhase : Option Phase
  victimRequestPriority : Option ℤ
  victimDeadlineUs : Option ℤ
  reason : String
  avoidedDecodeCritical : Bool
  deriving DecidableEq

/-! ## State and parameters -/

structure SimulatorState where
  liveBlocks : OrderedDict String MemoryIntent := OrderedDict.empty
  hbmBlocks : Finset String := ∅
  dramBlocks : Finset String := ∅
  latencies : List ℤ := []
  decisionLog : List DecisionRecord := []
  spillCount : ℕ := 0
  prefetchCount : ℕ := 0
  missCount : ℕ := 0
  evictionCount : ℕ := 0
  decodeCriticalMisses : ℕ := 0
  decodeCriticalEvictions : ℕ := 0
  peakHbmDemandBytes : ℤ := 0
  actualPeakHbmUsedBytes : ℤ := 0
  capacityExhaustionEvents : ℕ := 0
  pinnedCapacityExhaustionEvents : ℕ := 0
  lastDecayStep : ℤ := -1

structure KVMemorySimulator where
  policy : PlacementPolicy
  hbmCapacityBytes : ℤ
  dramCapacityBytes : ℤ
  missPenaltyUs : ℤ := 5000
  spillLatencyUs : ℤ := 200
  prefetchLatencyUs : ℤ := 100
  baseStepLatencyUs : ℤ := 50

namespace SimulatorState

/-- The state of a fresh simulator. -/
def initial : SimulatorState := {}

/-- The size of the live block `id`, and 0 when no such block is live. -/
def sizeOf (s : SimulatorState) (id : String) : ℤ :=
  (s.liveBlocks.get? id).elim 0 MemoryIntent.sizeBytes

def usedBytes (s : SimulatorState) (ids : Finset String) : ℤ := ∑ id ∈ ids, s.sizeOf id

def hbmUsed (s : SimulatorState) : ℤ := s.usedBytes s.hbmBlocks

def dramUsed (s : SimulatorState) : ℤ := s.usedBytes s.dramBlocks

def recordUsage (s : SimulatorState) : SimulatorState :=
  { s with actualPeakHbmUsedBytes := max s.actualPeakHbmUsedBytes s.hbmUsed }

end SimulatorState

/-! ## Enumeration order of sets -/

/-- The order in which the interpreter enumerates `hbm_blocks` and a block's
`allowed_tiers`. It depends on a hash seed and on the history of the set, so it is
an arbitrary function of the state. -/
structure SetOrder where
  hbmBlocks : SimulatorState → List String
  allowedTiers : SimulatorState → MemoryIntent → List Tier
  nodup_hbmBlocks : ∀ s, (hbmBlocks s).Nodup
  mem_hbmBlocks : ∀ s id, id ∈ hbmBlocks s ↔ id ∈ s.hbmBlocks
  nodup_allowedTiers : ∀ s block, (allowedTiers s block).Nodup
  mem_allowedTiers : ∀ s block tier, tier ∈ allowedTiers s block ↔ tier ∈ block.allowedTiers

namespace SetOrder

/-- The ids of a finite set in ascending order. -/
def ascendingIds (ids : Finset String) : List String :=
  Quot.liftOn ids.val (List.insertionSort (· ≤ ·)) fun _ _ h =>
    ((List.perm_insertionSort _ _).trans (h.trans (List.perm_insertionSort _ _).symm)).eq_of_pairwise
      (fun _ _ _ _ => le_antisymm) (List.pairwise_insertionSort _ _) (List.pairwise_insertionSort _ _)

theorem coe_ascendingIds (ids : Finset String) : (ascendingIds ids : Multiset String) = ids.val := by
  obtain ⟨⟨l⟩, hnd⟩ := ids
  exact Quot.sound (List.perm_insertionSort _ l)

theorem mem_ascendingIds {ids : Finset String} {id : String} :
    id ∈ ascendingIds ids ↔ id ∈ ids := by
  rw [← Multiset.mem_coe, coe_ascendingIds, Finset.mem_val]

theorem nodup_ascendingIds (ids : Finset String) : (ascendingIds ids).Nodup := by
  rw [← Multiset.coe_nodup, coe_ascendingIds]
  exact ids.nodup

/-- Blocks by ascending id, and tiers in a fixed order that lists all four. -/
def ofTiers (tiers : List Tier) (hnd : tiers.Nodup) (hall : ∀ tier, tier ∈ tiers) : SetOrder where
  hbmBlocks s := ascendingIds s.hbmBlocks
  allowedTiers _ block := tiers.filter (fun tier => tier ∈ block.allowedTiers)
  nodup_hbmBlocks s := nodup_ascendingIds s.hbmBlocks
  mem_hbmBlocks _ _ := mem_ascendingIds
  nodup_allowedTiers _ _ := hnd.filter _
  mem_allowedTiers _ block tier := by simp [hall tier]

def fastestFirst : SetOrder :=
  ofTiers [.hbm, .dram, .cxl, .nvme] (by decide) (by rintro (_ | _ | _ | _) <;> decide)

def slowestFirst : SetOrder :=
  ofTiers [.nvme, .cxl, .dram, .hbm] (by decide) (by rintro (_ | _ | _ | _) <;> decide)

/-- Blocks by ascending id, and `first` before the other tiers. -/
def startingWith (first : Tier) : SetOrder :=
  ofTiers (first :: [Tier.hbm, .dram, .cxl, .nvme].erase first) (by cases first <;> decide)
    (by rintro (_ | _ | _ | _) <;> cases first <;> decide)

/-- The resident blocks, in enumeration order. -/
def candidates (order : SetOrder) (s : SimulatorState) : List MemoryIntent :=
  (order.hbmBlocks s).filterMap s.liveBlocks.get?

end SetOrder

end KVMemoryIntent
