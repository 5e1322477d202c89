-- SUMMARY: The memory-intent schema: enumerations, the intent record, the checks made at construction, and the protection scores.
import Mathlib.Algebra.Order.Field.Rat
import Mathlib.Data.Finset.Card
import Mathlib.Data.Fintype.Basic
import Mathlib.Tactic.Linarith

/-!
# Schema

The record a serving runtime attaches to one memory object. Building a record,
and copying one with changed fields, runs the checks of `postInit`. Scores and
the recency are exact rationals.
-/

namespace KVMemoryIntent

/-- What ends a computation early: an exception, or a loop that never ends. -/
inductive Failure where
  | valueError (message : String)
  | overflowError (message : String)
  | divergence
  deriving DecidableEq, Repr

/-- What a check of the kind `x < 0` has shown when it lets `x` pass. -/
theorem nonneg_of_not_neg {x : ℤ} (h : ¬x < 0) : 0 ≤ x := not_lt.mp h

/-! ## Enumerations -/

inductive ObjectType where
  | kvCache
  | weight
  | activation
  | scratch
  deriving DecidableEq, Repr

inductive Phase where
  | prefill
  | decode
  | verify
  | rollback
  | done
  | idle
  deriving DecidableEq, Repr

inductive Priority where
  | decodeCritical
  | hot
  | warm
  | cold
  deriving DecidableEq, Repr

inductive Tier where
  | hbm
  | dram
  | cxl
  | nvme
  deriving DecidableEq, Repr

inductive EventType where
  | allocated
  | accessed
  | committed
  | markedDecodeCritical
  | markedCold
  | spilled
  | prefetched
  | miss
  | evicted
  | freed
  deriving DecidableEq, Repr

def Phase.value : Phase → String
  | .prefill => "PREFILL"
  | .decode => "DECODE"
  | .verify => "VERIFY"
  | .rollback => "ROLLBACK"
  | .done => "DONE"
  | .idle => "IDLE"

def Priority.value : Priority → String
  | .decodeCritical => "DECODE_CRITICAL"
  | .hot => "HOT"
  | .warm => "WARM"
  | .cold => "COLD"

/-! ## The intent record -/

structure MemoryIntent where
  objectId : String
  requestId : String
  blockId : ℤ
  objectType : ObjectType
  phase : Phase
  priority : Priority
  allowedTiers : Finset Tier
  currentTier : Tier
  sizeBytes : ℤ
  requestPriority : ℤ := 0
  recencyScore : ℚ := 0
  deadlineUs : Option ℤ := none
  slackUs : Option ℤ := none
  arrivalStep : Option ℤ := none
  targetDecodeStep : Option ℤ := none
  expectedReuseWindowTokens : Option ℤ := none
  recomputeCostUs : Option ℤ := none
  spillCostUs : Option ℤ := none
  compressionOk : Bool := false
  recomputeOk : Bool := false
  prefetchOk : Bool := false
  pinRequested : Bool := false
  isDraft : Bool := false
  isCommitted : Bool := false
  createdStep : ℤ := 0
  lastAccessStep : ℤ := 0
  deriving DecidableEq

namespace MemoryIntent

/-- The checks run on every new record, in the order of the source. A
decode-critical record comes out pinned. -/
def postInit (m : MemoryIntent) : Except Failure MemoryIntent :=
  if m.objectId = "" then
    .error (.valueError "object_id must not be empty")
  else if m.objectType = .kvCache ∧ m.requestId = "" then
    .error (.valueError "KV_CACHE objects must include a non-empty request_id")
  else if m.blockId < 0 then
    .error (.valueError "block_id must be >= 0")
  else if m.sizeBytes ≤ 0 then
    .error (.valueError "size_bytes must be > 0")
  else if m.allowedTiers = ∅ then
    .error (.valueError "allowed_tiers must not be empty")
  else if m.currentTier ∉ m.allowedTiers then
    .error (.valueError "current_tier must be present in allowed_tiers")
  else if ¬(0 ≤ m.requestPriority ∧ m.requestPriority ≤ 100) then
    .error (.valueError "request_priority must be in range 0..100")
  else if ¬(0 ≤ m.recencyScore ∧ m.recencyScore ≤ 1) then
    .error (.valueError "recency_score must be in range 0.0..1.0")
  else
    .ok { m with pinRequested := m.pinRequested || m.priority = .decodeCritical }

/-- What construction guarantees of a record, apart from the tier it is in: the
simulator rewrites `currentTier` in place, past the checks. -/
structure Sound (m : MemoryIntent) : Prop where
  objectId_ne : m.objectId ≠ ""
  requestId_ne : m.objectType = .kvCache → m.requestId ≠ ""
  blockId_nonneg : 0 ≤ m.blockId
  sizeBytes_pos : 0 < m.sizeBytes
  allowedTiers_ne : m.allowedTiers ≠ ∅
  requestPriority_range : 0 ≤ m.requestPriority ∧ m.requestPriority ≤ 100
  recencyScore_range : 0 ≤ m.recencyScore ∧ m.recencyScore ≤ 1
  pinned : m.priority = .decodeCritical → m.pinRequested = true

/-- A record as the constructor leaves it. -/
structure Valid (m : MemoryIntent) : Prop extends Sound m where
  currentTier_mem : m.currentTier ∈ m.allowedTiers

instance Valid.decidable (m : MemoryIntent) : Decidable m.Valid :=
  decidable_of_iff
    ((m.objectId ≠ "" ∧ (m.objectType = .kvCache → m.requestId ≠ "") ∧ 0 ≤ m.blockId ∧
      0 < m.sizeBytes ∧ m.allowedTiers ≠ ∅ ∧ (0 ≤ m.requestPriority ∧ m.requestPriority ≤ 100) ∧
      (0 ≤ m.recencyScore ∧ m.recencyScore ≤ 1) ∧
      (m.priority = .decodeCritical → m.pinRequested = true)) ∧ m.currentTier ∈ m.allowedTiers)
    ⟨fun ⟨⟨h₁, h₂, h₃, h₄, h₅, h₆, h₇, h₈⟩, h₉⟩ =>
        ⟨⟨h₁, h₂, h₃, h₄, h₅, h₆, h₇, h₈⟩, h₉⟩,
      fun ⟨⟨h₁, h₂, h₃, h₄, h₅, h₆, h₇, h₈⟩, h₉⟩ =>
        ⟨⟨h₁, h₂, h₃, h₄, h₅, h₆, h₇, h₈⟩, h₉⟩⟩

/-- A record that came out of the constructor is valid, and only its pin may
differ from the fields that went in. -/
theorem postInit_ok {m m' : MemoryIntent} (h : m.postInit = .ok m') :
    m' = { m with pinRequested := m.pinRequested || m.priority = .decodeCritical } ∧ m'.Valid := by
  unfold postInit at h
  split at h; · cases h
  rename_i hobj
  split at h; · cases h
  rename_i hreq
  split at h; · cases h
  rename_i hblock
  split at h; · cases h
  rename_i hsize
  split at h; · cases h
  rename_i htiers
  split at h; · cases h
  rename_i htier
  split at h; · cases h
  rename_i hprio
  split at h; · cases h
  rename_i hrec
  cases h
  refine ⟨rfl, ⟨hobj, fun ht hr => hreq ⟨ht, hr⟩, not_lt.mp hblock, not_le.mp hsize, htiers,
    not_not.mp hprio, not_not.mp hrec, fun hp => ?_⟩, not_not.mp htier⟩
  simp only at hp
  simp [hp]

/-- The constructor accepts fields that make a valid record once the pin rule
has been applied to them. -/
theorem postInit_of_valid {m : MemoryIntent}
    (h : Valid { m with pinRequested := m.pinRequested || m.priority = .decodeCritical }) :
    m.postInit = .ok { m with pinRequested := m.pinRequested || m.priority = .decodeCritical } := by
  have hreq : ¬(m.objectType = .kvCache ∧ m.requestId = "") := fun hc => h.requestId_ne hc.1 hc.2
  rw [postInit, if_neg h.objectId_ne, if_neg hreq, if_neg (not_lt.mpr h.blockId_nonneg),
    if_neg (not_le.mpr h.sizeBytes_pos), if_neg h.allowedTiers_ne,
    if_neg (not_not.mpr h.currentTier_mem), if_neg (not_not.mpr h.requestPriority_range),
    if_neg (not_not.mpr h.recencyScore_range)]

/-- The pin rule changes nothing in a sound record. -/
theorem Sound.pin_eq {m : MemoryIntent} (h : m.Sound) :
    (m.pinRequested || decide (m.priority = .decodeCritical)) = m.pinRequested := by
  by_cases hp : m.priority = .decodeCritical
  · simp [h.pinned hp]
  · simp [hp]

/-- The constructor leaves fields alone that respect the pin rule already. -/
theorem postInit_eq {m m' : MemoryIntent} (h : m.postInit = .ok m')
    (hpin : m.priority = .decodeCritical → m.pinRequested = true) : m' = m ∧ m.Valid := by
  have heq : (m.pinRequested || decide (m.priority = .decodeCritical)) = m.pinRequested := by
    by_cases hp : m.priority = .decodeCritical
    · simp [hpin hp]
    · simp [hp]
  obtain ⟨hm, hvalid⟩ := postInit_ok h
  rw [heq] at hm
  subst hm
  exact ⟨rfl, hvalid⟩

/-- The constructor returns a valid record unchanged. -/
theorem Valid.postInit {m : MemoryIntent} (h : m.Valid) : m.postInit = .ok m := by
  have heq : { m with pinRequested := m.pinRequested || m.priority = .decodeCritical } = m := by
    rw [h.pin_eq]
  have := postInit_of_valid (m := m) (heq.symm ▸ h)
  rwa [heq] at this

/-- A record as the constructor returns it, with what the checks have shown. -/
def validated (m : MemoryIntent) : Except Failure { m : MemoryIntent // m.Valid } :=
  match h : m.postInit with
  | .ok m' => .ok ⟨m', (postInit_ok h).2⟩
  | .error failure => .error failure

theorem Valid.validated {m : MemoryIntent} (h : m.Valid) : m.validated = .ok ⟨m, h⟩ := by
  unfold MemoryIntent.validated
  split
  · rename_i m' hm
    rw [h.postInit] at hm
    cases hm
    rfl
  · rename_i failure hm
    rw [h.postInit] at hm
    cases hm

theorem validated_of_valid {m : MemoryIntent}
    (h : Valid { m with pinRequested := m.pinRequested || m.priority = .decodeCritical }) :
    m.validated =
      .ok ⟨{ m with pinRequested := m.pinRequested || m.priority = .decodeCritical }, h⟩ := by
  unfold validated
  split
  · rename_i m' hm
    rw [postInit_of_valid h] at hm
    cases hm
    rfl
  · rename_i failure hm
    rw [postInit_of_valid h] at hm
    cases hm

theorem validated_eq_ok {m : MemoryIntent} {v : { m : MemoryIntent // m.Valid }}
    (h : m.validated = .ok v) : m.postInit = .ok v.1 := by
  unfold validated at h
  split at h
  · rename_i m' hm
    cases h
    exact hm
  · cases h

/-- The constructor changes nothing but the pin. -/
theorem validated_fields {m : MemoryIntent} {v : { m : MemoryIntent // m.Valid }}
    (h : m.validated = .ok v) :
    v.1 = { m with pinRequested := m.pinRequested || m.priority = .decodeCritical } :=
  (postInit_ok (validated_eq_ok h)).1

/-- `copy_with` without changes. With changes it is `postInit` of the changed
record. -/
def copyWith (m : MemoryIntent) : Except Failure MemoryIntent := m.postInit

/-! ## Predicates and scores -/

def isDecodeCritical (m : MemoryIntent) : Bool := m.priority = .decodeCritical ∨ m.phase = .decode

/-- Higher score means the block is more urgent to protect. -/
def effectiveDeadlineScore (m : MemoryIntent) (currentStep : ℤ) : ℚ :=
  m.deadlineUs.elim 0 (fun d => max 0 (10000 - (d : ℚ)) / 20)
  + m.slackUs.elim 0 (fun s => max 0 (5000 - (s : ℚ)) / 10)
  + m.targetDecodeStep.elim 0 (fun t => max 0 (64 - ((max (t - currentStep) 0 : ℤ) : ℚ)))
  + m.requestPriority * 2
  + (match m.phase with
    | .decode => 120
    | .verify => 30
    | _ => 0)
  + (match m.priority with
    | .decodeCritical => 300
    | .hot => 80
    | .warm => 30
    | .cold => 0)
  + m.recomputeCostUs.elim 0 (fun c => min ((c : ℚ) / 25) 250)
  + (if m.pinRequested then 400 else 0)

/-- Higher score means evicting this block is more dangerous. -/
def evictionRiskScore (m : MemoryIntent) (currentStep : ℤ) : ℚ :=
  m.effectiveDeadlineScore currentStep
  + m.recencyScore * 40
  + (if m.isCommitted then 15 else 0)
  - (if m.isDraft ∧ ¬m.isCommitted then 35 else 0)
  - (if m.recomputeOk then 25 else 0)
  - (if m.compressionOk then 15 else 0)
  - m.expectedReuseWindowTokens.elim 0 (fun w => min ((w : ℚ) / 8) 80)
  - (match m.phase with
    | .done => 140
    | .idle => 60
    | _ => 0)

/-- The integers that `eviction_risk_score` and the score it starts from make floats of.
The scores above are exact; a number too large for a float is told from these. -/
def riskFloats (m : MemoryIntent) (currentStep : ℤ) : List ℤ :=
  m.deadlineUs.toList
  ++ m.slackUs.toList
  ++ (m.targetDecodeStep.map fun t => max (t - currentStep) 0).toList
  ++ m.recomputeCostUs.toList
  ++ m.expectedReuseWindowTokens.toList

end MemoryIntent

/-- An intent as its constructor leaves it. -/
abbrev ValidIntent := { m : MemoryIntent // m.Valid }

end KVMemoryIntent
