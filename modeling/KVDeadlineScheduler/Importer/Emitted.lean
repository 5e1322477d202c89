-- SUMMARY: What holds of every event of an imported trace: enough that it holds of those that the four loops append.
import KVDeadlineScheduler.Importer.Segments
import KVDeadlineScheduler.Simulator.Floats

/-!
# Events of an import

The four loops build every event of an import. What holds of their events, whatever
the step, holds of all of them: allocations are in HBM, and no number of an
intent is much larger than those of the records.
-/

namespace KVMemoryIntent

/-! ## Every event -/

/-- The event has the intent that its constructor makes of `m`. -/
def Carries (e : MemoryIntentEvent) (m : MemoryIntent) : Prop :=
  e.intent = { m with pinRequested := m.pinRequested || m.priority = .decodeCritical }

/-- The events that the loops append for a request have the property. -/
structure LoopsEmit (P : MemoryIntentEvent → Prop) (record : RequestTraceRecord) (plan : BlockPlan) :
    Prop where
  allocated : ∀ (b : ℕ) e, b < plan.numBlocks → e.eventType = .allocated →
    Carries e (allocIntent record plan e.step b) → P e
  hot : ∀ (offset : ℕ) (step : ℤ) e, offset < plan.decodeHotBlocks →
    e.eventType = .markedDecodeCritical ∨ e.eventType = .accessed →
    Carries e { hotIntent record plan step (plan.numBlocks - plan.decodeHotBlocks + offset) offset with
      lastAccessStep := e.step } → P e
  cold : ∀ (b : ℕ) e, b < plan.numBlocks - plan.decodeHotBlocks → e.eventType = .markedCold →
    Carries e (coldIntent record plan e.step b) → P e
  freed : ∀ (b : ℕ) e, b < plan.numBlocks → e.eventType = .freed →
    Carries e (freedIntent record plan e.step b) → P e

/-- What the import has emitted so far has the property. -/
def EveryEvent (P : MemoryIntentEvent → Prop) (st : ImportState) : Prop := ∀ e ∈ st.events, P e

namespace EveryEvent

variable {P : MemoryIntentEvent → Prop} {record : RequestTraceRecord} {plan : BlockPlan}
  {st st' : ImportState}

theorem append {eventType : EventType} {intent : { m : MemoryIntent // m.Valid }} {reason : String}
    (h : EveryEvent P st) (happend : st.append eventType intent reason = .ok st')
    (hnew : ∀ e : MemoryIntentEvent, e.step = st.currentStep → e.eventType = eventType →
      e.intent = intent.1 → P e) : EveryEvent P st' := by
  obtain ⟨event, hevent, happend⟩ := Replay.bind_eq_ok.mp happend
  obtain ⟨hstep, htype, hintent⟩ := MemoryIntentEvent.postInit_ok hevent
  cases happend
  intro e he
  rcases List.mem_append.mp he with he | he
  · exact h e he
  · rw [List.mem_singleton.mp he]
    exact hnew event hstep htype hintent

theorem allocateBlock {b : ℕ} (hP : LoopsEmit P record plan) (h : EveryEvent P st)
    (hb : b < plan.numBlocks) (hrun : allocateBlock record plan st b = .ok st') : EveryEvent P st' := by
  obtain ⟨intent, hintent, hrun⟩ := Replay.bind_eq_ok.mp hrun
  refine h.append hrun fun e hstep htype heq => hP.allocated b e hb htype ?_
  rw [Carries, heq, MemoryIntent.validated_fields hintent, hstep]

theorem accessHotBlock {offset : ℕ} (hP : LoopsEmit P record plan) (h : EveryEvent P st)
    (hoffset : offset < plan.decodeHotBlocks) (hrun : accessHotBlock record plan st offset = .ok st') :
    EveryEvent P st' := by
  obtain ⟨intent, hintent, hrun⟩ := Replay.bind_eq_ok.mp hrun
  obtain ⟨marked, hmarked, hrun⟩ := Replay.bind_eq_ok.mp hrun
  obtain ⟨accessed, haccessed, hrun⟩ := Replay.bind_eq_ok.mp hrun
  have hfields := MemoryIntent.validated_fields hintent
  refine (h.append hmarked fun e hstep htype heq => ?_).append hrun fun e hstep htype heq => ?_
  · refine hP.hot offset st.currentStep e hoffset (.inl htype) ?_
    rw [Carries, heq, hfields, hstep]
    rfl
  · refine hP.hot offset st.currentStep e hoffset (.inr htype) ?_
    rw [Carries, heq, MemoryIntent.validated_fields haccessed, hfields, hstep]
    rfl

theorem markColdBlock {b : ℕ} (hP : LoopsEmit P record plan) (h : EveryEvent P st)
    (hb : b < plan.numBlocks - plan.decodeHotBlocks) (hrun : markColdBlock record plan st b = .ok st') :
    EveryEvent P st' := by
  obtain ⟨intent, hintent, hrun⟩ := Replay.bind_eq_ok.mp hrun
  refine h.append hrun fun e hstep htype heq => hP.cold b e hb htype ?_
  rw [Carries, heq, MemoryIntent.validated_fields hintent, hstep]

theorem freeBlock {b : ℕ} (hP : LoopsEmit P record plan) (h : EveryEvent P st)
    (hb : b < plan.numBlocks) (hrun : freeBlock record plan st b = .ok st') : EveryEvent P st' := by
  obtain ⟨intent, hintent, hrun⟩ := Replay.bind_eq_ok.mp hrun
  refine h.append hrun fun e hstep htype heq => hP.freed b e hb htype ?_
  rw [Carries, heq, MemoryIntent.validated_fields hintent, hstep]

/-- A loop over blocks keeps the property, if its body does on the blocks it visits. -/
theorem loop {body : ImportState → ℕ → Except Failure ImportState} {n : ℤ} (h : EveryEvent P st)
    (hbody : ∀ b t t', EveryEvent P t → ((b : ℕ) : ℤ) < n → body t b = .ok t' → EveryEvent P t')
    (hrun : (List.range n.toNat).foldlM body st = .ok st') : EveryEvent P st' := by
  refine Replay.run_invariant (C := fun _ b => ((b : ℕ) : ℤ) < n)
    (fun t b t' ht hb hstep => hbody b t t' ht hb hstep) h (.of_forall_mem fun b hb => ?_) hrun
  have hrange := List.mem_range.mp hb
  omega

theorem importBlocks (hP : LoopsEmit P record plan) (h : EveryEvent P st)
    (hrun : importBlocks record plan st = .ok st') : EveryEvent P st' := by
  obtain ⟨allocated, hallocated, hrun⟩ := Replay.bind_eq_ok.mp hrun
  obtain ⟨accessed, haccessed, hrun⟩ := Replay.bind_eq_ok.mp hrun
  obtain ⟨cooled, hcooled, hrun⟩ := Replay.bind_eq_ok.mp hrun
  have h := h.loop (fun _ _ _ ht hb hstep => ht.allocateBlock hP hb hstep) hallocated
  have h := h.loop (fun _ _ _ ht hb hstep => ht.accessHotBlock hP hb hstep) haccessed
  have h := h.loop (fun _ _ _ ht hb hstep => ht.markColdBlock hP (by omega) hstep) hcooled
  split at hrun
  · exact h.loop (fun _ _ _ ht hb hstep => ht.freeBlock hP hb hstep) hrun
  · cases hrun
    exact h

theorem importRecord {config : ModelKVConfig} {blockSizeBytes decodeBlockTokens : ℤ}
    {maxBlocksPerRequest : Option ℤ} (h : EveryEvent P st)
    (hP : ∀ totalKvBytes plan,
      estimateRequestKvBytes config record.promptTokens record.generatedTokens = .ok totalKvBytes →
      blockPlan totalKvBytes record.generatedTokens blockSizeBytes decodeBlockTokens maxBlocksPerRequest =
        .ok plan → LoopsEmit P record plan)
    (hrun : importRecord config blockSizeBytes decodeBlockTokens maxBlocksPerRequest st record = .ok st') :
    EveryEvent P st' := by
  obtain ⟨totalKvBytes, hbytes, hrun⟩ := Replay.bind_eq_ok.mp hrun
  obtain ⟨plan, hplan, hrun⟩ := Replay.bind_eq_ok.mp hrun
  exact h.importBlocks (hP totalKvBytes plan hbytes hplan) hrun

end EveryEvent

/-- What the loops emit for every record holds of every event of the trace. -/
theorem requestTraceToIntentEvents_every {P : MemoryIntentEvent → Prop} {records : List RequestTraceRecord}
    {config : ModelKVConfig} {blockSizeBytes decodeBlockTokens : ℤ} {maxBlocksPerRequest : Option ℤ}
    {events : List MemoryIntentEvent}
    (h : requestTraceToIntentEvents records config blockSizeBytes decodeBlockTokens maxBlocksPerRequest =
      .ok events)
    (hP : ∀ record ∈ records, ∀ totalKvBytes plan,
      estimateRequestKvBytes config record.promptTokens record.generatedTokens = .ok totalKvBytes →
      blockPlan totalKvBytes record.generatedTokens blockSizeBytes decodeBlockTokens maxBlocksPerRequest =
        .ok plan → LoopsEmit P record plan) :
    ∀ e ∈ events, P e := by
  unfold requestTraceToIntentEvents at h
  split_ifs at h
  obtain ⟨st, hst, h⟩ := Replay.bind_eq_ok.mp h
  cases h
  have hstart : EveryEvent P {} := fun e he => absurd he List.not_mem_nil
  refine Replay.run_invariant (C := fun _ record => record ∈ records)
    (fun st record st' ht hin hstep => ht.importRecord (hP record hin) hstep) hstart
    (.of_forall_mem fun record hin => ?_) hst
  exact (RequestTraceRecord.sortedByKey_perm records).mem_iff.mp hin

/-- All allocations of an imported trace are in HBM. -/
theorem requestTraceToIntentEvents_allocated {records : List RequestTraceRecord} {config : ModelKVConfig}
    {blockSizeBytes decodeBlockTokens : ℤ} {maxBlocksPerRequest : Option ℤ} {events : List MemoryIntentEvent}
    (h : requestTraceToIntentEvents records config blockSizeBytes decodeBlockTokens maxBlocksPerRequest =
      .ok events) :
    ∀ e ∈ events, e.eventType = .allocated → e.intent.currentTier = .hbm := by
  refine requestTraceToIntentEvents_every h fun record _ _ plan _ _ => ⟨?_, ?_, ?_, ?_⟩
  · intro b e _ _ hcarries _
    rw [hcarries]
    rfl
  · rintro offset step e _ (htype | htype) _ hallocated
    · exact absurd (htype.symm.trans hallocated) (by decide)
    · exact absurd (htype.symm.trans hallocated) (by decide)
  · intro b e _ htype _ hallocated
    exact absurd (htype.symm.trans hallocated) (by decide)
  · intro b e _ htype _ hallocated
    exact absurd (htype.symm.trans hallocated) (by decide)

/-! ## Numbers of an imported trace -/

/-- The times of a record, in milliseconds. -/
def RequestTraceRecord.times (record : RequestTraceRecord) : List ℤ :=
  [record.arrivalMs] ++ record.startMs.toList ++ record.endMs.toList ++ record.deadlineMs.toList

/-- The times are small enough for the numbers that the import makes of them to fit a float. -/
def RequestTraceRecord.InFloatRange (record : RequestTraceRecord) : Prop :=
  ∀ i ∈ record.times, |i| ≤ 2 ^ 1000

instance (record : RequestTraceRecord) : Decidable record.InFloatRange :=
  inferInstanceAs (Decidable (∀ i ∈ _, _))

section Numbers

variable {record : RequestTraceRecord} {plan : BlockPlan} {bound : ℤ}

theorem truncate_le {x : ℚ} {n : ℕ} (h : x ≤ n) : truncate x ≤ n := by
  have hnum : x.num ≤ n * x.den := by
    have hmul : x * x.den ≤ n * x.den := mul_le_mul_of_nonneg_right h (Nat.cast_nonneg _)
    rw [Rat.mul_den_eq_num] at hmul
    exact_mod_cast hmul
  have hden : (0 : ℤ) < x.den := Int.natCast_pos.mpr x.den_pos
  rcases le_or_gt 0 x.num with hpos | hneg
  · rw [truncate, Int.tdiv_eq_ediv_of_nonneg hpos]
    exact Int.ediv_le_of_le_mul hden hnum
  · refine le_trans ?_ (Int.natCast_nonneg n)
    have hneg' : x.num = -(-x.num) := (neg_neg _).symm
    rw [truncate, hneg', Int.neg_tdiv]
    exact neg_nonpos.mpr (Int.tdiv_nonneg (by omega) hden.le)

theorem ageFraction_nonneg (b : ℕ) : 0 ≤ ageFraction plan b :=
  div_nonneg (Int.cast_nonneg (Int.natCast_nonneg b)) (Int.cast_nonneg (le_max_of_le_right zero_le_one))

theorem abs_orElse_le {x : Option ℤ} {y : ℤ} (hx : ∀ i ∈ x.toList, |i| ≤ bound) (hy : |y| ≤ bound) :
    |orElse x y| ≤ bound := by
  cases x with
  | none => exact hy
  | some i =>
    simp only [orElse]
    split
    · exact hy
    · exact hx i (by simp)

/-- No number of the intent is far above the bound, but for steps. -/
def NumbersWithin (bound : ℤ) (e : MemoryIntentEvent) : Prop :=
  ∀ i ∈ e.intent.scoreNumbers, |i| ≤ 4000 * bound + |e.step|

/-- A deadline or a slack in microseconds. -/
theorem abs_map_le {x : Option ℤ} {f : ℤ → ℤ} {c : ℤ} (hx : ∀ d ∈ x.toList, |d| ≤ bound)
    (hf : ∀ d, |d| ≤ bound → |f d| ≤ c) : ∀ d ∈ x.map f, |d| ≤ c := by
  intro i hi
  obtain ⟨d, hd, rfl⟩ := Option.map_eq_some_iff.mp hi
  exact hf d (hx d (Option.mem_toList.mpr hd))

section Intents

variable {currentStep : ℤ} (hbound : 2 ^ 60 ≤ bound) (htimes : ∀ i ∈ record.times, |i| ≤ bound)
include hbound htimes

theorem allocIntent_within {b : ℕ} (hb : b ≤ bound) :
    ∀ i ∈ (allocIntent record plan currentStep b).scoreNumbers, |i| ≤ 4000 * bound + |currentStep| := by
  simp only [RequestTraceRecord.times, List.forall_mem_append, List.forall_mem_singleton] at htimes
  obtain ⟨⟨⟨harrival, hstart⟩, -⟩, hdeadline⟩ := htimes
  have hfirst : |orElse record.startMs record.arrivalMs| ≤ bound := abs_orElse_le hstart harrival
  have hstep := abs_nonneg currentStep
  have hreuse : truncate ((1 - ageFraction plan b) * 512) ≤ 512 := by
    refine truncate_le (n := 512) ?_
    have hage : 0 ≤ ageFraction plan b := ageFraction_nonneg b
    push_cast
    linarith
  rw [abs_le] at hfirst
  refine MemoryIntent.scoreNumbers_within_iff.mpr ⟨?_, ?_, ?_, ?_, ?_, ?_⟩
  · dsimp only [allocIntent]
    split
    · refine abs_map_le hdeadline fun d hd => ?_
      rw [abs_le] at hd ⊢
      omega
    · simp
  · dsimp only [allocIntent]
    split
    · refine abs_map_le hdeadline fun d hd => ?_
      rw [abs_le] at hd ⊢
      omega
    · simp
  · rintro _ ⟨⟩
    rw [abs_le]
    omega
  · rintro _ ⟨⟩
    rw [abs_le]
    split <;> omega
  · rintro _ ⟨⟩
    rw [abs_le]
    split <;> omega
  · dsimp only [allocIntent]
    omega

theorem hotIntent_within {blockId step : ℤ} {offset : ℕ} (hoffset : offset ≤ bound) :
    ∀ i ∈ MemoryIntent.scoreNumbers
      { hotIntent record plan step blockId offset with lastAccessStep := currentStep },
      |i| ≤ 4000 * bound + |currentStep| := by
  simp only [RequestTraceRecord.times, List.forall_mem_append, List.forall_mem_singleton] at htimes
  obtain ⟨⟨⟨harrival, hstart⟩, -⟩, hdeadline⟩ := htimes
  have hfirst : |orElse record.startMs record.arrivalMs| ≤ bound := abs_orElse_le hstart harrival
  have hstep := abs_nonneg currentStep
  rw [abs_le] at hfirst
  refine MemoryIntent.scoreNumbers_within_iff.mpr ⟨?_, ?_, ?_, ?_, ?_, ?_⟩
  · refine abs_map_le hdeadline fun d hd => ?_
    rw [abs_le] at hd ⊢
    omega
  · refine abs_map_le hdeadline fun d hd => ?_
    rw [abs_le] at hd ⊢
    omega
  · rintro _ ⟨⟩
    rw [abs_le]
    omega
  · rintro _ ⟨⟩
    rw [abs_le]
    omega
  · rintro _ ⟨⟩
    rw [abs_le]
    omega
  · dsimp only
    omega

theorem coldIntent_within {b : ℕ} (hb : b ≤ bound) :
    ∀ i ∈ (coldIntent record plan currentStep b).scoreNumbers, |i| ≤ 4000 * bound + |currentStep| := by
  simp only [RequestTraceRecord.times, List.forall_mem_append, List.forall_mem_singleton] at htimes
  obtain ⟨⟨⟨harrival, -⟩, hend⟩, -⟩ := htimes
  have hlast : |orElse record.endMs record.arrivalMs| ≤ bound := abs_orElse_le hend harrival
  have hstep := abs_nonneg currentStep
  have hrecent : |max (currentStep - 5) 0| ≤ |currentStep| := by
    rw [abs_of_nonneg (le_max_right _ _)]
    exact max_le ((sub_le_self _ (by decide)).trans (le_abs_self _)) hstep
  rw [abs_le] at hlast
  refine MemoryIntent.scoreNumbers_within_iff.mpr ⟨?_, ?_, ?_, ?_, ?_, ?_⟩
  · simp [coldIntent]
  · simp [coldIntent]
  · rintro _ ⟨⟩
    rw [abs_le]
    omega
  · rintro _ ⟨⟩
    rw [abs_le]
    omega
  · rintro _ ⟨⟩
    rw [abs_le]
    omega
  · dsimp only [coldIntent]
    omega

omit htimes in
theorem freedIntent_within {b : ℤ} :
    ∀ i ∈ (freedIntent record plan currentStep b).scoreNumbers, |i| ≤ 4000 * bound + |currentStep| := by
  have hstep := abs_nonneg currentStep
  refine MemoryIntent.scoreNumbers_within_iff.mpr ⟨?_, ?_, ?_, ?_, ?_, ?_⟩
  · simp [freedIntent]
  · simp [freedIntent]
  · simp [freedIntent]
  · simp [freedIntent]
  · rintro _ ⟨⟩
    rw [abs_zero]
    omega
  · dsimp only [freedIntent]
    omega

theorem loopsEmit_numbers (hblocks : plan.numBlocks ≤ bound) (hpos : 0 ≤ plan.decodeHotBlocks)
    (hhot : plan.decodeHotBlocks ≤ plan.numBlocks) :
    LoopsEmit (NumbersWithin bound) record plan := by
  refine ⟨?_, ?_, ?_, ?_⟩
  · intro b e hb _ hcarries
    rw [NumbersWithin, hcarries]
    exact allocIntent_within hbound htimes (hb.le.trans hblocks)
  · intro offset step e hoffset _ hcarries
    rw [NumbersWithin, hcarries]
    exact hotIntent_within hbound htimes (hoffset.le.trans (hhot.trans hblocks))
  · intro b e hb _ hcarries
    rw [NumbersWithin, hcarries]
    exact coldIntent_within hbound htimes (by omega)
  · intro b e _ _ hcarries
    rw [NumbersWithin, hcarries]
    exact freedIntent_within hbound

end Intents

end Numbers

section Range

variable {config : ModelKVConfig} {blockSizeBytes decodeBlockTokens : ℤ} {maxBlocksPerRequest : Option ℤ}

/-- There are no more blocks than bytes. -/
theorem recordPlan_numBlocks_le (decodeBlockTokens : ℤ) (hb : 0 < blockSizeBytes)
    (hmax : ∀ m ∈ maxBlocksPerRequest, 0 < m) {record : RequestTraceRecord}
    (hbytes : WithinDoubles config record) :
    (recordPlan config blockSizeBytes decodeBlockTokens maxBlocksPerRequest record).numBlocks ≤ 2 ^ 53 := by
  have huncapped : uncappedBlocks
      (kvBytesPerToken config * (record.promptTokens + record.generatedTokens)) blockSizeBytes ≤ 2 ^ 53 := by
    unfold WithinDoubles at hbytes
    generalize kvBytesPerToken config * (record.promptTokens + record.generatedTokens) = total at hbytes ⊢
    rcases le_or_gt total 0 with hzero | hpos
    · have hnone : ¬0 < exactCeil total blockSizeBytes := fun h => by
        have := (exactCeil_pos_iff hb).mp h
        omega
      rw [uncappedBlocks]
      omega
    · have hlt := uncappedBlocks_mul_lt hb hpos
      nlinarith
  show (exactBlocks _ _ _).1 ≤ _
  unfold exactBlocks
  cases maxBlocksPerRequest with
  | none => exact huncapped
  | some m =>
    dsimp only
    split
    · rename_i hcap
      exact hcap.le.trans huncapped
    · exact huncapped

/-- The numbers of an imported trace are in range, if the times of its records are and its steps stay
below them. -/
theorem requestTraceToIntentEvents_inFloatRange {records : List RequestTraceRecord}
    {events : List MemoryIntentEvent} (hb : 0 < blockSizeBytes) (hd : 0 < decodeBlockTokens)
    (hmax : ∀ m ∈ maxBlocksPerRequest, 0 < m) (hbytes : ∀ record ∈ records, WithinDoubles config record)
    (hrange : ∀ record ∈ records, record.InFloatRange)
    (h : requestTraceToIntentEvents records config blockSizeBytes decodeBlockTokens maxBlocksPerRequest =
      .ok events)
    (hsteps : ∀ e ∈ events, |e.step| ≤ 2 ^ 1000) : ∀ e ∈ events, e.InFloatRange := by
  have hlarge : (2 ^ 53 : ℤ) ≤ 2 ^ 1000 := pow_le_pow_right₀ (by decide) (by decide)
  have hlarge' : (2 ^ 60 : ℤ) ≤ 2 ^ 1000 := pow_le_pow_right₀ (by decide) (by decide)
  have hall : ∀ e ∈ events, NumbersWithin (2 ^ 1000) e := by
    refine requestTraceToIntentEvents_every h fun record hin totalKvBytes plan htotal hplan => ?_
    rw [estimateRequestKvBytes_ok config record.promptTokens_nonneg record.generatedTokens_nonneg] at htotal
    cases htotal
    rw [blockPlan_record hb hd hmax (hbytes record hin)] at hplan
    cases hplan
    obtain ⟨k, hot, hk, hh, ⟨-, hle⟩, -⟩ := recordPlan_covers decodeBlockTokens hb hmax record
    have hblocks := recordPlan_numBlocks_le decodeBlockTokens hb hmax (hbytes record hin)
    refine loopsEmit_numbers hlarge' (hrange record hin) (hblocks.trans hlarge) ?_ ?_
    · rw [hh]
      exact Int.natCast_nonneg hot
    · rw [hh, hk]
      exact Int.ofNat_le.mpr hle
  have hsum : (4000 * 2 ^ 1000 + 2 ^ 1000 : ℤ) ≤ 2 ^ 1022 := by
    calc (4000 * 2 ^ 1000 + 2 ^ 1000 : ℤ) = 4001 * 2 ^ 1000 := (add_one_mul 4000 _).symm
      _ ≤ 2 ^ 12 * 2 ^ 1000 := mul_le_mul_of_nonneg_right (by decide) (pow_nonneg (by decide) _)
      _ = 2 ^ 1012 := (pow_add 2 12 1000).symm
      _ ≤ 2 ^ 1022 := pow_le_pow_right₀ (by decide) (by decide)
  intro e he
  have hstep := hsteps e he
  refine ⟨fun i hi => ?_, hstep.trans (pow_le_pow_right₀ (by decide) (by decide))⟩
  exact (hall e he i hi).trans ((add_le_add_right hstep _).trans hsum)

end Range

end KVMemoryIntent
