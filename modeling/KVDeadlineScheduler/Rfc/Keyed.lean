-- SUMMARY: When the RFC registry is a map from process and start address to region, over every run of requests.
import KVDeadlineScheduler.Rfc.Registry

/-!
# The RFC registry as a map

Regions are unregistered by process and start address, so the registry is meant
to hold one region for each. Nothing on the way in enforces this: it is so as
long as no request registers a pair that is still stored.
-/

namespace MemoryIntentRfc

/-- At most one region is stored for each process and start. -/
def KeyedByStart (registry : Registry) : Prop := (registry.map MemoryIntentRegion.key).Nodup

instance (registry : Registry) : Decidable (KeyedByStart registry) :=
  inferInstanceAs (Decidable (List.Nodup _))

/-- The command registers a region under `key`. -/
def Command.Registers (key : BitVec 32 × BitVec 64) (command : Command) : Prop :=
  ∃ region, command = .register region ∧ region.key = key

/-- The command registers or removes a region of `key`. -/
def Command.Touches (key : BitVec 32 × BitVec 64) (command : Command) : Prop :=
  command.Registers key ∨ command = .unregister key.1 key.2 ∨ command = .clear

/-- The command registers no pair that is stored. -/
def Command.Fresh (registry : Registry) (command : Command) : Prop :=
  ∀ region ∈ registry, ¬ command.Registers region.key

section Commands

variable {registry : Registry} {command : Command}

theorem register_perm (region : MemoryIntentRegion) (registry : Registry) :
    (memoryIntentRegister region registry).Perm (region :: registry) :=
  IntervalTree.insert_perm region registry

theorem keyedByStart_register {region : MemoryIntentRegion} :
    KeyedByStart (memoryIntentRegister region registry) ↔
      KeyedByStart registry ∧ (Command.register region).Fresh registry := by
  rw [KeyedByStart, ((register_perm region registry).map _).nodup_iff, List.map_cons,
    List.nodup_cons, and_comm]
  refine and_congr_right fun _ => ?_
  constructor
  · rintro hnew other hother ⟨region', hregion, hkey⟩
    cases hregion
    exact hnew (hkey ▸ List.mem_map_of_mem hother)
  · intro hfresh hin
    obtain ⟨other, hother, hkey⟩ := List.mem_map.mp hin
    exact hfresh other hother ⟨region, rfl, hkey.symm⟩

theorem unregister_sublist (pid : BitVec 32) (startVaddr : BitVec 64) (registry : Registry) :
    (memoryIntentUnregister pid startVaddr registry).Sublist registry :=
  IntervalTree.removeOverlap_sublist _ _ _ _

theorem keyedByStart_apply (h : KeyedByStart registry) (hfresh : command.Fresh registry) :
    KeyedByStart (command.apply registry) := by
  cases command with
  | register region => exact keyedByStart_register.mpr ⟨h, hfresh⟩
  | unregister pid startVaddr => exact h.sublist ((unregister_sublist pid startVaddr registry).map _)
  | clear => exact List.nodup_nil

/-- A region overlaps its own first address. -/
theorem overlaps_start (region : MemoryIntentRegion) :
    IntervalTree.overlaps MemoryIntentRegion.startAt MemoryIntentRegion.lastAt
      region.start.toNat region.start.toNat region = true := by
  have hle : region.start.toNat ≤ region.last.toNat := region.nonempty
  rw [IntervalTree.overlaps, Bool.and_eq_true]
  exact ⟨decide_eq_true le_rfl, decide_eq_true hle⟩

/-- Removing the first region of a pair that is stored once leaves none. -/
theorem absent_after_unregister (h : KeyedByStart registry) (pid : BitVec 32)
    (startVaddr : BitVec 64) :
    (pid, startVaddr) ∉
      (memoryIntentUnregister pid startVaddr registry).map MemoryIntentRegion.key := by
  intro hin
  obtain ⟨region, hregion, hkey⟩ := List.mem_map.mp hin
  obtain ⟨hpid, hstart⟩ : region.pid = pid ∧ region.start = startVaddr := Prod.mk.injEq .. ▸ hkey
  -- The region left behind meets the test itself, so the one removed stood before it.
  have hmeets : (IntervalTree.overlaps MemoryIntentRegion.startAt MemoryIntentRegion.lastAt
      startVaddr.toNat startVaddr.toNat region &&
      (region.pid == pid && region.start == startVaddr)) = true := by
    rw [← hpid, ← hstart, overlaps_start]
    simp
  have hin' : region ∈ registry := (unregister_sublist pid startVaddr registry).subset hregion
  rcases List.exists_or_eq_self_of_eraseP (fun x => IntervalTree.overlaps MemoryIntentRegion.startAt
      MemoryIntentRegion.lastAt startVaddr.toNat startVaddr.toNat x &&
      (x.pid == pid && x.start == startVaddr)) registry with hself | ⟨a, l₁, l₂, hl₁, ha, hl, herase⟩
  · have hnone := List.eraseP_eq_self_iff.mp hself region hin'
    exact hnone hmeets
  · have hakey : a.key = (pid, startVaddr) := by
      simp only [Bool.and_eq_true, beq_iff_eq] at ha
      exact Prod.ext ha.2.1 ha.2.2
    rw [memoryIntentUnregister, IntervalTree.removeOverlap, herase, List.mem_append] at hregion
    rw [KeyedByStart, hl, List.map_append, List.map_cons, List.nodup_append, List.nodup_cons] at h
    rcases hregion with hregion | hregion
    · exact absurd hmeets (hl₁ region hregion)
    · exact h.2.1.1 (hakey.trans hkey.symm ▸ List.mem_map_of_mem hregion)

/-- A pair that is not stored stays so until it is registered. -/
theorem absent_apply {key : BitVec 32 × BitVec 64} (h : key ∉ registry.map MemoryIntentRegion.key)
    (hregisters : ¬ command.Registers key) :
    key ∉ (command.apply registry).map MemoryIntentRegion.key := by
  cases command with
  | register region =>
    intro hin
    rw [Command.apply, ((register_perm region registry).map _).mem_iff, List.map_cons,
      List.mem_cons] at hin
    rcases hin with hkey | hin
    · exact hregisters ⟨region, rfl, hkey.symm⟩
    · exact h hin
  | unregister pid startVaddr =>
    exact fun hin => h (((unregister_sublist pid startVaddr registry).map _).subset hin)
  | clear => simp [Command.apply]

/-- A region stays until its pair is unregistered or the registry is cleared. -/
theorem mem_apply {region : MemoryIntentRegion} (hin : region ∈ registry)
    (htouches : ¬ command.Touches region.key) : region ∈ command.apply registry := by
  cases command with
  | register other => exact IntervalTree.mem_insert.mpr (.inr hin)
  | unregister pid startVaddr =>
    refine IntervalTree.mem_removeOverlap hin ?_
    rw [Bool.eq_false_iff]
    intro hsame
    apply htouches
    simp only [Bool.and_eq_true, beq_iff_eq] at hsame
    rw [← hsame.1, ← hsame.2]
    exact .inr (.inl rfl)
  | clear => exact absurd (.inr (.inr rfl)) htouches

end Commands

/-! ## Runs of requests -/

section Runs

variable {text : KernelText}

theorem step_eq_ok {registry registry' : Registry} {request : Request} :
    step text registry request = .ok registry' ↔
      ∃ command, request.command text = .ok command ∧ registry' = command.apply registry := by
  rw [step, Replay.bind_eq_ok]
  refine exists_congr fun command => and_congr_right fun _ => ?_
  constructor
  · intro h
    cases h
    rfl
  · intro h
    rw [h]
    rfl

/-- A request whose command meets `P`. -/
def Request.Asks (text : KernelText) (P : Command → Prop) (request : Request) : Prop :=
  ∃ command, request.command text = .ok command ∧ P command

/-- The request registers no pair that is stored. -/
def Request.Fresh (text : KernelText) (registry : Registry) (request : Request) : Prop :=
  ∀ command, request.command text = .ok command → command.Fresh registry

/-- What a map from process and start to region does, of a registry that a run of requests led to. -/
structure ActsAsMap (text : KernelText) (requests : List Request) (registry : Registry) : Prop where
  atMostOne : KeyedByStart registry
  unregistered : ∀ before request later pid startVaddr,
    requests = before ++ request :: later →
    request.command text = .ok (.unregister pid startVaddr) →
    (∀ r ∈ later, ¬ r.Asks text (Command.Registers (pid, startVaddr))) →
    ∀ vaddr region, lookupRegion registry pid vaddr = some region → region.start ≠ startVaddr
  registered : ∀ before request later region,
    requests = before ++ request :: later →
    request.command text = .ok (.register region) →
    (∀ r ∈ later, ¬ r.Asks text (Command.Touches region.key)) →
    ∀ vaddr, region.Covers vaddr →
      (∀ other ∈ registry, other.pid = region.pid → other.Covers vaddr →
        other.start = region.start) →
      memoryIntentLookupAttrs registry region.pid vaddr = some region.attrs

theorem keyedByStart_run {registry registry' : Registry} {requests : List Request}
    (h : KeyedByStart registry) (hfresh : Replay.Meets (step text) (Request.Fresh text) registry requests)
    (hrun : Replay.run (step text) registry requests = .ok registry') : KeyedByStart registry' := by
  refine Replay.run_invariant (fun s request t hs hC hstep => ?_) h hfresh hrun
  obtain ⟨command, hcommand, rfl⟩ := step_eq_ok.mp hstep
  exact keyedByStart_apply hs (hC command hcommand)

theorem absent_run {key : BitVec 32 × BitVec 64} {registry registry' : Registry}
    {requests : List Request} (h : key ∉ registry.map MemoryIntentRegion.key)
    (hnever : ∀ r ∈ requests, ¬ r.Asks text (Command.Registers key))
    (hrun : Replay.run (step text) registry requests = .ok registry') :
    key ∉ registry'.map MemoryIntentRegion.key := by
  refine Replay.run_invariant (P := fun s => key ∉ s.map MemoryIntentRegion.key)
    (fun s request t hs hC hstep => ?_) h (Replay.Meets.of_forall_mem hnever) hrun
  obtain ⟨command, hcommand, rfl⟩ := step_eq_ok.mp hstep
  exact absent_apply hs fun hreg => hC ⟨command, hcommand, hreg⟩

theorem mem_run {region : MemoryIntentRegion} {registry registry' : Registry}
    {requests : List Request} (h : region ∈ registry)
    (hnever : ∀ r ∈ requests, ¬ r.Asks text (Command.Touches region.key))
    (hrun : Replay.run (step text) registry requests = .ok registry') : region ∈ registry' := by
  refine Replay.run_invariant (P := fun s => region ∈ s)
    (fun s request t hs hC hstep => ?_) h (Replay.Meets.of_forall_mem hnever) hrun
  obtain ⟨command, hcommand, rfl⟩ := step_eq_ok.mp hstep
  exact mem_apply hs fun htouch => hC ⟨command, hcommand, htouch⟩

theorem request_at {before later : List Request} {request : Request} {registry : Registry}
    (hrun : Replay.run (step text) [] (before ++ request :: later) = .ok registry) :
    ∃ s t, Replay.run (step text) [] before = .ok s ∧ step text s request = .ok t ∧
      Replay.run (step text) t later = .ok registry := by
  obtain ⟨s, hs, hrest⟩ := Replay.run_append_ok.mp hrun
  obtain ⟨t, ht, hlater⟩ := Replay.run_cons_ok.mp hrest
  exact ⟨s, t, hs, ht, hlater⟩

theorem covers_iff_overlaps {region : MemoryIntentRegion} {vaddr : BitVec 64} :
    IntervalTree.overlaps MemoryIntentRegion.startAt MemoryIntentRegion.lastAt
      vaddr.toNat vaddr.toNat region = true ↔ region.Covers vaddr := by
  rw [IntervalTree.overlaps, Bool.and_eq_true]
  exact and_congr decide_eq_true_iff decide_eq_true_iff

/-- In a registry keyed by start, a region is found at an address that no other region of its
process with another start covers. -/
theorem lookup_of_keyed {registry : Registry} (hkeyed : KeyedByStart registry)
    {region : MemoryIntentRegion} (hin : region ∈ registry) {vaddr : BitVec 64}
    (hcovers : region.Covers vaddr)
    (halone : ∀ other ∈ registry, other.pid = region.pid → other.Covers vaddr →
      other.start = region.start) :
    memoryIntentLookupAttrs registry region.pid vaddr = some region.attrs := by
  have hfound : lookupRegion registry region.pid vaddr = some region := by
    refine IntervalTree.findOverlap_eq_some_of_unique hin (covers_iff_overlaps.mpr hcovers)
      (beq_self_eq_true _) fun other hother hoverlaps hpid => ?_
    have hpid : other.pid = region.pid := eq_of_beq hpid
    have hstart := halone other hother hpid (covers_iff_overlaps.mp hoverlaps)
    exact List.inj_on_of_nodup_map hkeyed hother hin (Prod.ext hpid hstart)
  rw [memoryIntentLookupAttrs, hfound]
  rfl

theorem actsAsMap_of_fresh {requests : List Request} {registry : Registry}
    (hfresh : Replay.Meets (step text) (Request.Fresh text) [] requests)
    (hrun : Replay.run (step text) [] requests = .ok registry) :
    ActsAsMap text requests registry := by
  have hempty : KeyedByStart [] := List.nodup_nil
  have hkeyed : KeyedByStart registry := keyedByStart_run hempty hfresh hrun
  refine ⟨hkeyed, ?_, ?_⟩
  · rintro before request later pid startVaddr rfl hcommand hnever vaddr region hlookup hstart
    obtain ⟨s, t, hs, ht, hlater⟩ := request_at hrun
    have hs' : KeyedByStart s :=
      keyedByStart_run hempty (hfresh.restrict (List.prefix_append _ _)) hs
    obtain ⟨command, hcommand', rfl⟩ := step_eq_ok.mp ht
    rw [hcommand] at hcommand'
    cases hcommand'
    have habsent := absent_run (absent_after_unregister hs' pid startVaddr) hnever hlater
    obtain ⟨hin, -, hpid⟩ := IntervalTree.findOverlap_eq_some hlookup
    have hkey : region.key = (pid, startVaddr) := Prod.ext (eq_of_beq hpid) hstart
    exact habsent (hkey ▸ List.mem_map_of_mem hin)
  · rintro before request later region rfl hcommand hnever vaddr hcovers halone
    obtain ⟨s, t, hs, ht, hlater⟩ := request_at hrun
    obtain ⟨command, hcommand', rfl⟩ := step_eq_ok.mp ht
    rw [hcommand] at hcommand'
    cases hcommand'
    have hin : region ∈ registry :=
      mem_run (IntervalTree.mem_insert.mpr (.inl rfl)) hnever hlater
    exact lookup_of_keyed hkeyed hin hcovers halone

/-- A run of successful requests has the registry act as a map in every state it reaches exactly when
none of its requests registers a pair of process and start that is still stored. -/
theorem actsAsMap_iff_fresh (text : KernelText) {requests : List Request} {registry : Registry}
    (hrun : Replay.run (step text) [] requests = .ok registry) :
    (∀ before later, requests = before ++ later →
      ∀ s, Replay.run (step text) [] before = .ok s → ActsAsMap text before s) ↔
    Replay.Meets (step text) (Request.Fresh text) [] requests := by
  constructor
  · intro hmap
    refine .of_forall_before fun before request later s hsplit hs => ?_
    intro command hcommand
    have hnext : Replay.run (step text) [] (before ++ [request]) = .ok (command.apply s) :=
      Replay.run_append_ok.mpr ⟨s, hs, Replay.run_cons_ok.mpr
        ⟨_, step_eq_ok.mpr ⟨command, hcommand, rfl⟩, rfl⟩⟩
    have hkeyed := (hmap (before ++ [request]) later (by simp [hsplit]) _ hnext).atMostOne
    cases command with
    | register region => exact (keyedByStart_register.mp hkeyed).2
    | unregister pid startVaddr =>
      rintro other - ⟨region, hregion, -⟩
      cases hregion
    | clear =>
      rintro other - ⟨region, hregion, -⟩
      cases hregion
  · rintro hfresh before later rfl s hs
    exact actsAsMap_of_fresh (hfresh.restrict (List.prefix_append _ _)) hs

/-- What the kernel reads from three lines: a range, the same range with other attributes, and the
start of it. -/
def sampleText : KernelText where
  scanRegister line :=
    if line = "7 1000 1000 1 5000 2".toList then some ⟨7, 0x1000, 0x1000, 0x1, 5000, 2⟩
    else if line = "7 1000 1000 10 9000 1".toList then some ⟨7, 0x1000, 0x1000, 0x10, 9000, 1⟩
    else none
  scanUnregister line := if line = "7 1000".toList then some (7, 0x1000) else none

def sampleRegister : Request :=
  .procRegister ⟨"7 1000 1000 1 5000 2".toList, true, true, true, true⟩

def sampleReregister : Request :=
  .procRegister ⟨"7 1000 1000 10 9000 1".toList, true, true, true, true⟩

def sampleUnregister : Request := .unregister ⟨"7 1000".toList, true⟩

/-- Registering the range again after it was unregistered. -/
theorem actsAsMap_iff_fresh_sample :
    ∃ registry,
      Replay.run (step sampleText) [] [sampleRegister, sampleUnregister, sampleReregister] =
        .ok registry ∧
      ((∀ before later,
          [sampleRegister, sampleUnregister, sampleReregister] = before ++ later →
          ∀ s, Replay.run (step sampleText) [] before = .ok s → ActsAsMap sampleText before s) ↔
        Replay.Meets (step sampleText) (Request.Fresh sampleText) []
          [sampleRegister, sampleUnregister, sampleReregister]) := by
  obtain ⟨registry, hrun, -⟩ := Replay.exists_of_check (p := fun _ => true)
    (x := Replay.run (step sampleText) [] [sampleRegister, sampleUnregister, sampleReregister])
    (by decide)
  exact ⟨registry, hrun, actsAsMap_iff_fresh sampleText hrun⟩

/-- Registering a stored range again leaves two regions of it. The lookup answers from the first, and
from the second after the range was unregistered. -/
theorem reregister_keeps_both :
    (∃ registry, Replay.run (step sampleText) [] [sampleRegister, sampleReregister] = .ok registry ∧
      ¬ KeyedByStart registry ∧
      memoryIntentLookupAttrs registry 7 0x1800 = some ⟨0x1, 5000, 2⟩) ∧
    ∃ registry,
      Replay.run (step sampleText) [] [sampleRegister, sampleReregister, sampleUnregister] =
        .ok registry ∧
      (lookupRegion registry 7 0x1800).map MemoryIntentRegion.start = some 0x1000 := by
  constructor
  · obtain ⟨registry, hrun, hcheck⟩ := Replay.exists_of_check
      (x := Replay.run (step sampleText) [] [sampleRegister, sampleReregister])
      (p := fun r => decide (¬ KeyedByStart r ∧
        memoryIntentLookupAttrs r 7 0x1800 = some ⟨0x1, 5000, 2⟩)) (by decide)
    exact ⟨registry, hrun, of_decide_eq_true hcheck⟩
  · obtain ⟨registry, hrun, hcheck⟩ := Replay.exists_of_check
      (x := Replay.run (step sampleText) [] [sampleRegister, sampleReregister, sampleUnregister])
      (p := fun r => decide ((lookupRegion r 7 0x1800).map MemoryIntentRegion.start = some 0x1000))
      (by decide)
    exact ⟨registry, hrun, of_decide_eq_true hcheck⟩

end Runs

end MemoryIntentRfc
