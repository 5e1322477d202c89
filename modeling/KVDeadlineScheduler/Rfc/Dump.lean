-- SUMMARY: The dump of the RFC registry: its lines, and what they register when they are written back.
import Mathlib.Data.Nat.Digits.Defs
import KVDeadlineScheduler.Rfc.Registry

/-!
# Dumping the RFC registry

A dump prints the regions in the format of a registration, but for one field: where a
registration has the length of the range a dump has its end. A dump that is written
back registers each region with its end for a length.
-/

namespace MemoryIntentRfc

/-! ## Printing -/

/-- `%lx` behind the prefix of the format. -/
def printHex (value : BitVec 64) : List Char := '0' :: 'x' :: Nat.toDigits 16 value.toNat

/-- `%d` -/
def printSigned (value : BitVec 32) : List Char :=
  if value.msb then '-' :: Nat.toDigits 10 (-value).toNat else Nat.toDigits 10 value.toNat

/-- Fields in the format of a dump line. -/
def printFields (fields : RegisterFields) : List Char :=
  [' '].intercalate
    [printSigned fields.pid, printHex fields.start, printHex fields.length, printHex fields.flags,
      Nat.toDigits 10 fields.deadlineNs.toNat, Nat.toDigits 10 fields.priority.toNat] ++ ['\n']

/-- What a dump prints of a region: its end stands where a registration has the length. -/
def dumpFields (region : MemoryIntentRegion) : RegisterFields where
  pid := region.pid
  start := region.start
  length := region.last + 1
  flags := region.attrs.intentFlags
  deadlineNs := region.attrs.deadlineNs
  priority := region.attrs.priority

/-- The lines of a dump, from an iteration over all addresses. -/
def memoryIntentDumpSeq (registry : Registry) : List (List Char) :=
  (registry.filter (IntervalTree.overlaps MemoryIntentRegion.startAt MemoryIntentRegion.lastAt
    0 (2 ^ 64 - 1))).map fun region => printFields (dumpFields region)

/-- `sscanf` reads back what a dump of the registry prints. -/
def ScansDump (text : KernelText) (registry : Registry) : Prop :=
  ∀ region ∈ registry, text.scanRegister (printFields (dumpFields region)) = some (dumpFields region)

/-- Every region overlaps the range of all addresses. -/
theorem memoryIntentDumpSeq_eq (registry : Registry) :
    memoryIntentDumpSeq registry = registry.map fun region => printFields (dumpFields region) := by
  unfold memoryIntentDumpSeq
  congr 1
  refine List.filter_eq_self.mpr fun region _ => ?_
  have hstart : region.start.toNat < 2 ^ 64 := region.start.isLt
  rw [IntervalTree.overlaps, Bool.and_eq_true]
  exact ⟨decide_eq_true (Nat.le_sub_one_of_lt hstart), decide_eq_true (Nat.zero_le _)⟩

/-! ### The length of a line -/

theorem length_printHex_le (value : BitVec 64) : (printHex value).length ≤ 18 := by
  have hdigits : (Nat.toDigits 16 value.toNat).length ≤ 16 :=
    (Nat.length_toDigits_le_iff (by decide) (by decide)).mpr (by have := value.isLt; omega)
  simp only [printHex, List.length_cons]
  omega

theorem length_toDigits_le {bits : ℕ} (value : BitVec bits) (digits : ℕ) (hpos : 0 < digits)
    (hfits : 2 ^ bits ≤ 10 ^ digits) : (Nat.toDigits 10 value.toNat).length ≤ digits :=
  (Nat.length_toDigits_le_iff (by decide) hpos).mpr (value.isLt.trans_le hfits)

theorem length_printSigned_le (value : BitVec 32) : (printSigned value).length ≤ 11 := by
  unfold printSigned
  split
  · have := length_toDigits_le (-value) 10 (by decide) (by decide)
    simp only [List.length_cons]
    omega
  · have := length_toDigits_le value 10 (by decide) (by decide)
    omega

/-- A line fits into the buffer of the writes. -/
theorem length_printFields (fields : RegisterFields) :
    0 < (printFields fields).length ∧ (printFields fields).length < mmIntentLineMax := by
  have hpid := length_printSigned_le fields.pid
  have hstart := length_printHex_le fields.start
  have hlength := length_printHex_le fields.length
  have hflags := length_printHex_le fields.flags
  have hdeadline := length_toDigits_le fields.deadlineNs 20 (by decide) (by decide)
  have hpriority := length_toDigits_le fields.priority 10 (by decide) (by decide)
  simp only [printFields, List.intercalate, mmIntentLineMax]
  simp
  omega

/-! ## Reachable registries -/

/-- What holds of a registry that requests led to: the regions ascend, and none reaches
the last address. -/
structure Listed (registry : Registry) : Prop where
  sorted : registry.Pairwise fun a b => a.startAt ≤ b.startAt
  bounded : ∀ region ∈ registry, region.last.toNat + 1 < 2 ^ 64

section Reachable

variable {text : KernelText} {registry registry' : Registry} {request : Request}
  {region : MemoryIntentRegion} {fields : RegisterFields}

theorem listed_nil : Listed [] := ⟨.nil, by simp⟩

/-- A range whose end does not overflow ends before the last address. -/
theorem regionOf_ok (h : regionOf fields = .ok region) :
    fields.length ≠ 0 ∧ fields.start.toNat + fields.length.toNat < 2 ^ 64 ∧
      region.pid = fields.pid ∧ region.start = fields.start ∧
      region.last = fields.start + fields.length - 1 ∧
      region.attrs = ⟨fields.flags, fields.deadlineNs, fields.priority⟩ := by
  unfold regionOf at h
  split at h
  · cases h
  · rename_i hlength
    split at h
    · rename_i hover
      cases h
      have hlt : fields.start.toNat + fields.length.toNat < 2 ^ 64 := by
        simpa [BitVec.uaddOverflow] using hover
      exact ⟨hlength, hlt, rfl, rfl, rfl, rfl⟩
    · cases h

theorem regionOf_bounded (h : regionOf fields = .ok region) : region.last.toNat + 1 < 2 ^ 64 := by
  obtain ⟨hlength, hlt, -, -, hlast, -⟩ := regionOf_ok h
  have hpos : fields.length.toNat ≠ 0 := fun h0 => hlength (BitVec.eq_of_toNat_eq h0)
  rw [hlast]
  bv_omega

theorem registerPrepare_bounded {checksPid : Bool} {call : RegisterCall}
    (h : registerPrepare text checksPid call = .ok region) : region.last.toNat + 1 < 2 ^ 64 := by
  obtain ⟨line, -, h⟩ := Replay.bind_eq_ok.mp h
  split at h
  · cases h
  · obtain ⟨region', hregion, h⟩ := Replay.bind_eq_ok.mp h
    split at h
    · cases h
    · split at h
      · cases h
      · cases h
        exact regionOf_bounded hregion

theorem command_bounded (h : request.command text = .ok (.register region)) :
    region.last.toNat + 1 < 2 ^ 64 := by
  cases request with
  | debugfsRegister call =>
    obtain ⟨prepared, hprepare, h⟩ := Replay.bind_eq_ok.mp h
    cases h
    exact registerPrepare_bounded hprepare
  | procRegister call =>
    obtain ⟨prepared, hprepare, h⟩ := Replay.bind_eq_ok.mp h
    cases h
    exact registerPrepare_bounded hprepare
  | unregister call =>
    obtain ⟨key, -, h⟩ := Replay.bind_eq_ok.mp h
    cases h
  | clear => cases h

theorem Listed.step (h : Listed registry) (hstep : step text registry request = .ok registry') :
    Listed registry' := by
  obtain ⟨command, hcommand, hstep⟩ := Replay.bind_eq_ok.mp hstep
  cases hstep
  cases command with
  | register region =>
    refine ⟨IntervalTree.pairwise_insert h.sorted region, fun other hother => ?_⟩
    rcases IntervalTree.mem_insert.mp hother with rfl | hother
    · exact command_bounded hcommand
    · exact h.bounded other hother
  | unregister pid startVaddr =>
    have hsub : (memoryIntentUnregister pid startVaddr registry).Sublist registry :=
      IntervalTree.removeOverlap_sublist _ _ _ _
    exact ⟨h.sorted.sublist hsub, fun other hother => h.bounded other (hsub.subset hother)⟩
  | clear => exact listed_nil

theorem listed_run {requests : List Request}
    (hrun : Replay.run (step text) [] requests = .ok registry) : Listed registry :=
  Replay.run_always (fun _ _ _ hs hstep => hs.step hstep) listed_nil hrun

end Reachable

/-! ## Writing a dump back -/

section WriteBack

variable (text : KernelText)

/-- A line is written to the `register` file in proc. A write that fails leaves the
registry as it is. -/
def writeBack (registry : Registry) (line : List Char) : Registry :=
  match step text registry (.procRegister ⟨line, true, true, true, true⟩) with
  | .ok registry' => registry'
  | .error _ => registry

/-- The lines are written in order after the registry was cleared. -/
def restore (lines : List (List Char)) : Registry := lines.foldl (writeBack text) []

/-- The region that a dump line of `region` registers, if it registers one. -/
def reread (region : MemoryIntentRegion) : Option MemoryIntentRegion :=
  match regionOf (dumpFields region) with
  | .ok region' => some region'
  | .error _ => none

variable {text} {registry : Registry} {region region' : MemoryIntentRegion}

/-- The end of the region is taken for its length. -/
theorem reread_eq_some (hbounded : region.last.toNat + 1 < 2 ^ 64) (h : reread region = some region') :
    region.start.toNat + region.last.toNat + 1 < 2 ^ 64 ∧ region'.pid = region.pid ∧
      region'.start = region.start ∧ region'.last = region.start + region.last ∧
      region'.attrs = region.attrs := by
  unfold reread at h
  split at h
  · rename_i read hread
    cases h
    obtain ⟨-, hlt, hpid, hstart, hlast, hattrs⟩ := regionOf_ok hread
    simp only [dumpFields] at hlt hpid hstart hlast hattrs
    have hsucc : (region.last + 1).toNat = region.last.toNat + 1 := by bv_omega
    refine ⟨by omega, hpid, hstart, ?_, hattrs⟩
    rw [hlast]
    bv_omega
  · cases h

theorem reread_isSome_iff (hbounded : region.last.toNat + 1 < 2 ^ 64) :
    (reread region).isSome ↔ region.start.toNat + region.last.toNat + 1 < 2 ^ 64 := by
  constructor
  · intro h
    obtain ⟨region', hregion'⟩ := Option.isSome_iff_exists.mp h
    exact (reread_eq_some hbounded hregion').1
  · intro hlt
    have hlength : (dumpFields region).length ≠ 0 := by
      simp only [dumpFields]
      bv_omega
    have hover : (dumpFields region).start.uaddOverflow (dumpFields region).length = false := by
      have hsucc : (region.last + 1).toNat = region.last.toNat + 1 := by bv_omega
      simp only [BitVec.uaddOverflow, dumpFields, hsucc]
      exact decide_eq_false (by omega)
    unfold reread regionOf
    rw [dif_neg hlength, dif_pos hover]
    rfl

theorem writeBack_dumpLine
    (hscan : text.scanRegister (printFields (dumpFields region)) = some (dumpFields region))
    (registry : Registry) :
    writeBack text registry (printFields (dumpFields region)) =
      match reread region with
      | some region' => memoryIntentRegister region' registry
      | none => registry := by
  obtain ⟨hpos, hmax⟩ := length_printFields (dumpFields region)
  have hline : ¬((printFields (dumpFields region)).length = 0 ∨
      mmIntentLineMax ≤ (printFields (dumpFields region)).length) := by omega
  unfold reread
  simp only [writeBack, step, Request.command, procPrepare, registerPrepare, copyLine, hline, if_false]
  cases hregion : regionOf (dumpFields region) with
  | ok region' => simp [bind, Except.bind, hscan, hregion, pure, Except.pure,
      Command.apply]
  | error failure => simp [bind, Except.bind, hscan, hregion]

/-- Lines that are written in ascending order are listed in that order. -/
theorem restore_dump (hscans : ScansDump text registry) (hlisted : Listed registry) :
    restore text (memoryIntentDumpSeq registry) = registry.filterMap reread := by
  rw [memoryIntentDumpSeq_eq, restore, List.foldl_map]
  induction registry using List.reverseRecOn with
  | nil => rfl
  | append_singleton before region ih =>
    have hsub : before.Sublist (before ++ [region]) := List.sublist_append_left _ _
    have hbefore : Listed before :=
      ⟨hlisted.sorted.sublist hsub, fun other hother => hlisted.bounded other (hsub.subset hother)⟩
    have hscansBefore : ScansDump text before := fun other hother => hscans other (hsub.subset hother)
    rw [List.foldl_append, ih hscansBefore hbefore, List.filterMap_append]
    simp only [List.foldl_cons, List.foldl_nil, List.filterMap_cons, List.filterMap_nil]
    rw [writeBack_dumpLine (hscans region (by simp))]
    cases hread : reread region with
    | none => simp
    | some region' =>
      refine IntervalTree.insert_of_le fun other hother => ?_
      -- rereading keeps the starts, and those before start no later
      obtain ⟨source, hsource, hother⟩ := List.mem_filterMap.mp hother
      have hbound : region.last.toNat + 1 < 2 ^ 64 := hlisted.bounded region (by simp)
      have hstart := (reread_eq_some hbound hread).2.2.1
      have hsourceStart := (reread_eq_some (hbefore.bounded source hsource) hother).2.2.1
      have hle := (List.pairwise_append.mp hlisted.sorted).2.2 source hsource region (by simp)
      simp only [MemoryIntentRegion.startAt] at hle ⊢
      rw [hstart, hsourceStart]
      exact hle

/-- A list that a partial function maps to itself is mapped element by element. -/
theorem filterMap_eq_self {α : Type} {f : α → Option α} {l : List α} (h : l.filterMap f = l) :
    ∀ x ∈ l, f x = some x := by
  have hall : ∀ x ∈ l, (f x).isSome := by
    have hlength : (l.filterMap f).length = l.length := congrArg List.length h
    rw [List.length_filterMap_eq_countP] at hlength
    exact List.countP_eq_length.mp hlength
  induction l with
  | nil => simp
  | cons y l ih =>
    obtain ⟨y', hy⟩ := Option.isSome_iff_exists.mp (hall y List.mem_cons_self)
    rw [List.filterMap_cons_some hy, List.cons.injEq] at h
    intro x hx
    rcases List.mem_cons.mp hx with rfl | hx
    · rw [hy, h.1]
    · exact ih h.2 (fun z hz => hall z (List.mem_cons_of_mem y hz)) x hx

/-- A region is read back as it is when it starts at address zero, and only then. -/
theorem reread_eq_self_iff (hbounded : region.last.toNat + 1 < 2 ^ 64) :
    reread region = some region ↔ region.start = 0 := by
  constructor
  · intro h
    have hlast := (reread_eq_some hbounded h).2.2.2.1
    bv_omega
  · intro hzero
    have hsome : (reread region).isSome := (reread_isSome_iff hbounded).mpr (by rw [hzero]; simpa using hbounded)
    obtain ⟨region', hread⟩ := Option.isSome_iff_exists.mp hsome
    obtain ⟨-, hpid, hstart, hlast, hattrs⟩ := reread_eq_some hbounded hread
    rw [hzero, zero_add] at hlast
    rw [hread]
    cases region
    cases region'
    simp only at hpid hstart hlast hattrs
    subst hpid hstart hlast hattrs
    rfl

/-- The dump of a registry that requests led to, written back into the cleared registry
line by line, registers the regions whose end, taken for a length, does not overflow, each
with the same process, start and attributes but reaching to its start plus its last
address. So it restores the registry exactly when all of its regions start at address
zero. -/
theorem dump_written_back {requests : List Request}
    (hrun : Replay.run (step text) [] requests = .ok registry) (hscans : ScansDump text registry) :
    ((restore text (memoryIntentDumpSeq registry)).map fun r => (r.pid, r.start, r.last, r.attrs)) =
        ((registry.filter fun r => r.start.toNat + r.last.toNat + 1 < 2 ^ 64).map fun r =>
          (r.pid, r.start, r.start + r.last, r.attrs)) ∧
      (restore text (memoryIntentDumpSeq registry) = registry ↔ ∀ r ∈ registry, r.start = 0) := by
  have hlisted := listed_run hrun
  rw [restore_dump hscans hlisted]
  constructor
  · have hbounded := hlisted.bounded
    clear hlisted hrun hscans
    induction registry with
    | nil => rfl
    | cons region registry ih =>
      have hregion := hbounded region List.mem_cons_self
      have hrest := ih fun r hr => hbounded r (List.mem_cons_of_mem region hr)
      cases hread : reread region with
      | none =>
        have hover : ¬region.start.toNat + region.last.toNat + 1 < 2 ^ 64 := by
          rw [← reread_isSome_iff hregion, hread]
          exact Bool.false_ne_true
        rw [List.filterMap_cons_none hread, List.filter_cons_of_neg (by simpa using hover), hrest]
      | some region' =>
        obtain ⟨hlt, hpid, hstart, hlast, hattrs⟩ := reread_eq_some hregion hread
        rw [List.filterMap_cons_some hread, List.filter_cons_of_pos (by simpa using hlt), List.map_cons,
          List.map_cons, hrest, hpid, hstart, hlast, hattrs]
  · constructor
    · intro hsame r hr
      exact (reread_eq_self_iff (hlisted.bounded r hr)).mp (filterMap_eq_self hsame r hr)
    · intro hzero
      have hself : ∀ r ∈ registry, reread r = some r := fun r hr =>
        (reread_eq_self_iff (hlisted.bounded r hr)).mpr (hzero r hr)
      rw [List.filterMap_congr hself, List.filterMap_some]

deriving instance DecidableEq for RegisterFields

/-- What the kernel reads from a registration and from the dump of its region. -/
def dumpText : KernelText where
  scanRegister line :=
    if line = "7 0x1000 0x2000 0x1 5000 2\n".toList then some ⟨7, 0x1000, 0x2000, 0x1, 5000, 2⟩
    else if line = "7 0x1000 0x3000 0x1 5000 2\n".toList then some ⟨7, 0x1000, 0x3000, 0x1, 5000, 2⟩
    else none
  scanUnregister _ := none

def dumpRegister : Request :=
  .procRegister ⟨"7 0x1000 0x2000 0x1 5000 2\n".toList, true, true, true, true⟩

/-- Two pages come back as three. -/
theorem dump_written_back_sample :
    ∃ registry, Replay.run (step dumpText) [] [dumpRegister] = .ok registry ∧
      ((restore dumpText (memoryIntentDumpSeq registry)).map fun r => (r.pid, r.start, r.last, r.attrs)) =
        [(7, 0x1000, 0x3fff, ⟨0x1, 5000, 2⟩)] ∧
      restore dumpText (memoryIntentDumpSeq registry) ≠ registry := by
  obtain ⟨registry, hrun, hcheck⟩ := Replay.exists_of_check
    (x := Replay.run (step dumpText) [] [dumpRegister])
    (p := fun r : Registry => decide ((∀ region ∈ r,
        dumpText.scanRegister (printFields (dumpFields region)) = some (dumpFields region)) ∧
      ((r.filter fun r => r.start.toNat + r.last.toNat + 1 < 2 ^ 64).map fun r =>
        (r.pid, r.start, r.start + r.last, r.attrs)) = [(7, 0x1000, 0x3fff, ⟨0x1, 5000, 2⟩)] ∧
      ¬∀ region ∈ r, region.start = 0)) (by decide +kernel)
  obtain ⟨hscans, hregions, hstart⟩ := of_decide_eq_true hcheck
  obtain ⟨hmap, hself⟩ := dump_written_back hrun hscans
  exact ⟨registry, hrun, hmap.trans hregions, fun hsame => hstart (hself.mp hsame)⟩

end WriteBack

end MemoryIntentRfc
