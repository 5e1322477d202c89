-- SUMMARY: The victim of a policy is the unique best admissible block under the policy's key, whatever order the blocks are listed in.
import KVDeadlineScheduler.Policies

/-!
# Victim choice

`min` and `max` keep the first optimum they meet, so the choice could depend on
the order of the resident blocks. It does not: the keys end in the object id, and
the object ids of the resident blocks are distinct.
-/

namespace KVMemoryIntent

namespace PlacementPolicy

/-- The blocks `p` may displace. A policy that protects pinned blocks gives one up
only when there is no other block. -/
def Admissible (p : PlacementPolicy) (blocks : List MemoryIntent) (block : MemoryIntent) : Prop :=
  block ∈ blocks ∧
    (p.protectsPinned = true → block.pinRequested = true → ∀ b ∈ blocks, b.pinRequested = true)

/-- `p` chooses by what it is shown and not by the order in which it is shown it,
and prefers its choice at step `currentStep` to every other admissible block. -/
structure ChoosesBest (p : PlacementPolicy) (prefers : ℤ → MemoryIntent → MemoryIntent → Prop) :
    Prop where
  same : ∀ (blocks blocks' : List MemoryIntent) (capacityBytes currentStep : ℤ),
    blocks.Perm blocks' → (blocks.map (·.objectId)).Nodup →
    p.chooseVictim blocks capacityBytes currentStep = p.chooseVictim blocks' capacityBytes currentStep
  best : ∀ (blocks : List MemoryIntent) (capacityBytes currentStep : ℤ),
    blocks ≠ [] → (blocks.map (·.objectId)).Nodup →
    ∃ victim, p.chooseVictim blocks capacityBytes currentStep = some victim ∧
      p.Admissible blocks victim ∧
      ∀ block, p.Admissible blocks block → block ≠ victim → prefers currentStep victim block

variable {blocks : List MemoryIntent}

theorem eq_of_objectId_eq (hnodup : (blocks.map (·.objectId)).Nodup) :
    ∀ a ∈ blocks, ∀ b ∈ blocks, a.objectId = b.objectId → a = b :=
  fun _ ha _ hb hab => List.inj_on_of_nodup_map hnodup ha hb hab

/-! ## Least keys -/

/-- The least key is strictly less than the others, as no two blocks share a key. -/
theorem leastKey_best {β : Type} [LinearOrder β] (name : String) {key : MemoryIntent → β}
    (hkey : ∀ a b, key a = key b → a.objectId = b.objectId) (hne : blocks ≠ [])
    (hnodup : (blocks.map (·.objectId)).Nodup) (capacityBytes currentStep : ℤ) :
    ∃ victim, (leastKey name key).chooseVictim blocks capacityBytes currentStep = some victim ∧
      (leastKey name key).Admissible blocks victim ∧
      ∀ block, (leastKey name key).Admissible blocks block → block ≠ victim →
        key victim < key block := by
  cases hchoice : blocks.argmin key with
  | none => exact absurd (List.argmin_eq_none.mp hchoice) hne
  | some victim =>
    have hmem : victim ∈ blocks := List.argmin_mem hchoice
    refine ⟨victim, hchoice, ⟨hmem, fun hprotects => ?_⟩, fun block hblock hother => ?_⟩
    · cases hprotects
    · have hle : key victim ≤ key block := List.le_of_mem_argmin hblock.1 hchoice
      refine lt_of_le_of_ne hle fun heq => hother ?_
      exact eq_of_objectId_eq hnodup block hblock.1 victim hmem (hkey victim block heq).symm

theorem leastKey_choosesBest {β : Type} [LinearOrder β] (name : String) {key : MemoryIntent → β}
    (hkey : ∀ a b, key a = key b → a.objectId = b.objectId) :
    (leastKey name key).ChoosesBest fun _ victim block => key victim < key block where
  same _ _ capacityBytes currentStep hperm hnodup :=
    orderIndependent_leastKey name hkey capacityBytes currentStep hperm (eq_of_objectId_eq hnodup)
  best _ capacityBytes currentStep hne hnodup :=
    leastKey_best name hkey hne hnodup capacityBytes currentStep

theorem predictiveHotness_choosesBest :
    PredictiveHotnessPolicy.ChoosesBest fun _ victim block =>
      PredictiveHotnessPolicy.key victim < PredictiveHotnessPolicy.key block :=
  have hleast := leastKey_choosesBest "PredictiveHotness" fun _ _ => PredictiveHotnessPolicy.objectId_of_key
  ⟨hleast.same, hleast.best⟩

/-! ## Greatest keys among the unpinned blocks -/

theorem mem_admissible_iff {block : MemoryIntent} :
    block ∈ IntentAwarePolicy.admissible blocks ↔
      block ∈ blocks ∧ (block.pinRequested = true → ∀ b ∈ blocks, b.pinRequested = true) := by
  simp only [IntentAwarePolicy.admissible]
  split
  next hnil =>
    have hpinned : ∀ b ∈ blocks, b.pinRequested = true := by
      simpa [List.filter_eq_nil_iff] using hnil
    exact ⟨fun h => ⟨h, fun _ => hpinned⟩, fun h => h.1⟩
  next hsome =>
    have hfree : ¬∀ b ∈ blocks, b.pinRequested = true := by
      simpa [List.filter_eq_nil_iff] using hsome
    simp [hfree]

theorem admissible_ne_nil (hne : blocks ≠ []) : IntentAwarePolicy.admissible blocks ≠ [] := by
  simp only [IntentAwarePolicy.admissible]
  split
  · exact hne
  · assumption

theorem subclass_choosesBest (name : String) (score : MemoryIntent → ℤ → ℚ)
    (prefetch : MemoryIntent → ℤ → Bool)
    (explain : MemoryIntent → List MemoryIntent → ℤ → String) :
    (IntentAwarePolicy.subclass name score prefetch explain).ChoosesBest
      fun currentStep victim block =>
        IntentAwarePolicy.key score currentStep block <
          IntentAwarePolicy.key score currentStep victim where
  same _ _ capacityBytes currentStep hperm hnodup :=
    (IntentAware.subclass name score prefetch explain).orderIndependent capacityBytes currentStep
      hperm (eq_of_objectId_eq hnodup)
  best blocks capacityBytes currentStep hne hnodup := by
    cases hchoice : (IntentAwarePolicy.admissible blocks).argmax
        (IntentAwarePolicy.key score currentStep) with
    | none => exact absurd (List.argmax_eq_none.mp hchoice) (admissible_ne_nil hne)
    | some victim =>
      have hmem : victim ∈ IntentAwarePolicy.admissible blocks := List.argmax_mem hchoice
      have hvictim := mem_admissible_iff.mp hmem
      refine ⟨victim, hchoice, ⟨hvictim.1, fun _ => hvictim.2⟩, fun block hblock hother => ?_⟩
      have hcand : block ∈ IntentAwarePolicy.admissible blocks :=
        mem_admissible_iff.mpr ⟨hblock.1, hblock.2 rfl⟩
      refine lt_of_le_of_ne (List.le_of_mem_argmax hcand hchoice) fun heq => hother ?_
      exact eq_of_objectId_eq hnodup block hblock.1 victim hvictim.1
        (IntentAwarePolicy.objectId_of_key heq)

/-! ## The five policies -/

/-- The order in which the resident blocks are listed never matters: each policy
picks the one admissible block that is best under its whole key. -/
theorem choosesBest_of_policies :
    LRUPolicy.ChoosesBest (fun _ victim block => LRUPolicy.key victim < LRUPolicy.key block) ∧
    HotColdPolicy.ChoosesBest
      (fun _ victim block => HotColdPolicy.key victim < HotColdPolicy.key block) ∧
    PredictiveHotnessPolicy.ChoosesBest
      (fun _ victim block =>
        PredictiveHotnessPolicy.key victim < PredictiveHotnessPolicy.key block) ∧
    IntentAwarePolicy.ChoosesBest
      (fun currentStep victim block =>
        IntentAwarePolicy.key IntentAwarePolicy.evictionScore currentStep block <
          IntentAwarePolicy.key IntentAwarePolicy.evictionScore currentStep victim) ∧
    DeadlineAwarePolicy.ChoosesBest
      (fun currentStep victim block =>
        IntentAwarePolicy.key DeadlineAwarePolicy.evictionScore currentStep block <
          IntentAwarePolicy.key DeadlineAwarePolicy.evictionScore currentStep victim) :=
  ⟨leastKey_choosesBest _ fun _ _ => LRUPolicy.objectId_of_key,
    leastKey_choosesBest _ fun _ _ => HotColdPolicy.objectId_of_key,
    predictiveHotness_choosesBest,
    subclass_choosesBest _ _ _ _,
    subclass_choosesBest _ _ _ _⟩

end PlacementPolicy

end KVMemoryIntent
