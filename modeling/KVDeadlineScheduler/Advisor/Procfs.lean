-- SUMMARY: The proc interface of the advisor: what its writes do, and the memory that no history of them gives back.
import KVDeadlineScheduler.Advisor.Table

/-!
# The proc interface of the advisor

A write to `register` parses its line into an intent of its own and hands it to
`kv_intent_register`, which stores a copy. The write frees its intent only when
that call fails. A write to `unregister` queues the entry it removes for release
after a grace period.
-/

namespace KvIntentAdvisor

def kvProcBufsz : ℕ := 128

/-- The fields of a `register` line, as `"%lu %lu %llu %u %u %llu"` reads them. -/
structure RegisterFields where
  startPfn : BitVec 64
  endPfn : BitVec 64
  deadlineNs : BitVec 64
  priority : BitVec 32
  pin : BitVec 32
  recomputeCostNs : BitVec 64

/-- The kernel's text conversions: `sscanf` where it finds all six fields, and
`kstrtoul(strim(local), 10)`. -/
structure KernelText where
  sscanf : List Char → Option RegisterFields
  kstrtoul : List Char → Option (BitVec 64)

/-- A write to `register`, whether its bytes could be copied and its two allocations succeed, and
the clock reading taken. -/
structure RegisterWrite where
  buffer : List Char
  copied : Bool
  intentAllocated : Bool
  entryAllocated : Bool
  now : BitVec 64

structure UnregisterWrite where
  buffer : List Char
  copied : Bool

/-- The table, the objects allocated and not freed, and those of them that wait for a grace period. -/
structure ProcState where
  table : Table
  allocated : ℕ
  pending : ℕ

section Writes

variable (text : KernelText) (hashMin : BitVec 64 → Bucket)

/-- The checks on a line that every write begins with. -/
def copyLine (buffer : List Char) (copied : Bool) : Except Errno (List Char) :=
  if buffer.length = 0 ∨ kvProcBufsz ≤ buffer.length then .error .einval
  else if !copied then .error .efault
  else .ok buffer

/-- The intent that a write fills in from its line. -/
def registerIntent (call : RegisterWrite) : Except Errno KvRegionIntent := do
  let line ← copyLine call.buffer call.copied
  match text.sscanf line with
  | none => .error .einval
  | some fields =>
    if !call.intentAllocated then .error .enomem
    else return {
      startPfn := fields.startPfn
      endPfn := fields.endPfn
      deadlineNs := fields.deadlineNs
      registeredAt := call.now
      recomputeCostNs := fields.recomputeCostNs
      priority := fields.priority
      pinRequested := fields.pin != 0
      recomputeOk := false }

/-- `kv_intent_register` with its memory: the entry is freed again when the page is taken. -/
def registerAllocating (intent : KvRegionIntent) (entryAllocated : Bool) (s : ProcState) :
    Except Errno Unit × ProcState :=
  match kvIntentRegister hashMin (some intent) entryAllocated s.table with
  | (.error e, _) => (.error e, s)
  | (.ok (), table) => (.ok (), { s with table := table, allocated := s.allocated + 1 })

def kvProcRegisterWrite (call : RegisterWrite) (s : ProcState) : Except Errno ℕ × ProcState :=
  match registerIntent text call with
  | .error e => (.error e, s)
  | .ok intent =>
    let s := { s with allocated := s.allocated + 1 }
    match registerAllocating hashMin intent call.entryAllocated s with
    | (.error _, s) => (.error .einval, { s with allocated := s.allocated - 1 })
    | (.ok (), s) => (.ok call.buffer.length, s)

def kvProcUnregisterWrite (call : UnregisterWrite) (s : ProcState) : Except Errno ℕ × ProcState :=
  match copyLine call.buffer call.copied with
  | .error e => (.error e, s)
  | .ok line =>
    match text.kstrtoul line with
    | none => (.error .einval, s)
    | some startPfn =>
      match kvIntentLookup hashMin s.table startPfn with
      | none => (.ok call.buffer.length, s)
      | some _ => (.ok call.buffer.length,
        { s with table := kvIntentUnregister hashMin startPfn s.table, pending := s.pending + 1 })

/-- `kv_intent_free_rcu` of one entry whose grace period is over. -/
def kvIntentFreeRcu (s : ProcState) : ProcState :=
  if s.pending = 0 then s
  else { s with allocated := s.allocated - 1, pending := s.pending - 1 }

inductive ProcAction where
  | registerWrite (call : RegisterWrite)
  | unregisterWrite (call : UnregisterWrite)
  | freeRcu

def procStep (s : ProcState) : ProcAction → ProcState
  | .registerWrite call => (kvProcRegisterWrite text hashMin call s).2
  | .unregisterWrite call => (kvProcUnregisterWrite text hashMin call s).2
  | .freeRcu => kvIntentFreeRcu s

def procRun (s : ProcState) (actions : List ProcAction) : ProcState :=
  actions.foldl (procStep text hashMin) s

/-- The action is a register write that answers with its length. -/
def registers (s : ProcState) : ProcAction → Bool
  | .registerWrite call =>
    match (kvProcRegisterWrite text hashMin call s).1 with
    | .ok _ => true
    | .error _ => false
  | _ => false

/-- The register writes of a history that succeed. -/
def successes (s : ProcState) : List ProcAction → ℕ
  | [] => 0
  | action :: actions =>
    (if registers text hashMin s action then 1 else 0) +
      successes (procStep text hashMin s action) actions

end Writes

section Memory

variable {text : KernelText} {hashMin : BitVec 64 → Bucket} {s : ProcState}

/-- The objects allocated are the live entries, the entries that wait, and `leaked` more. -/
def Accounts (hashMin : BitVec 64 → Bucket) (s : ProcState) (leaked : ℕ) : Prop :=
  ∃ live, Stands hashMin s.table live ∧ s.allocated = live.length + s.pending + leaked

variable (text hashMin) in
/-- A register write fails and changes nothing, or stores a new region and leaves two objects. -/
theorem kvProcRegisterWrite_cases (call : RegisterWrite) (s : ProcState) :
    (∃ e, kvProcRegisterWrite text hashMin call s = (.error e, s)) ∨
    ∃ entry : KvRegionEntry,
      kvProcRegisterWrite text hashMin call s = (.ok call.buffer.length,
        ⟨s.table.add (hashMin entry.intent.startPfn) entry, s.allocated + 2, s.pending⟩) := by
  simp only [kvProcRegisterWrite, registerAllocating, kvIntentRegister]
  cases registerIntent text call with
  | error e => exact .inl ⟨e, rfl⟩
  | ok intent =>
    by_cases hrange : intent.startPfn < intent.endPfn
    · simp only [dif_pos hrange]
      cases call.entryAllocated with
      | false => exact .inl ⟨.einval, rfl⟩
      | true =>
        cases kvIntentLookup hashMin s.table intent.startPfn with
        | some found => exact .inl ⟨.einval, rfl⟩
        | none => exact .inr ⟨⟨intent, hrange⟩, rfl⟩
    · simp only [dif_neg hrange]
      exact .inl ⟨.einval, rfl⟩

variable (text hashMin) in
theorem kvProcUnregisterWrite_cases (call : UnregisterWrite) (s : ProcState) :
    (kvProcUnregisterWrite text hashMin call s).2 = s ∨
    ∃ startPfn entry, kvIntentLookup hashMin s.table startPfn = some entry ∧
      (kvProcUnregisterWrite text hashMin call s).2 =
        ⟨kvIntentUnregister hashMin startPfn s.table, s.allocated, s.pending + 1⟩ := by
  simp only [kvProcUnregisterWrite]
  cases copyLine call.buffer call.copied with
  | error e => exact .inl rfl
  | ok line =>
    cases hparsed : text.kstrtoul line with
    | none => exact .inl (by simp only [hparsed])
    | some startPfn =>
      cases hfind : kvIntentLookup hashMin s.table startPfn with
      | none => exact .inl (by simp only [hparsed, hfind])
      | some entry => exact .inr ⟨startPfn, entry, hfind, by simp only [hparsed, hfind]⟩

theorem Accounts.step {leaked : ℕ} (h : Accounts hashMin s leaked) (action : ProcAction) :
    Accounts hashMin (procStep text hashMin s action)
      (leaked + if registers text hashMin s action then 1 else 0) := by
  obtain ⟨live, hstands, hcount⟩ := h
  cases action with
  | registerWrite call =>
    rcases kvProcRegisterWrite_cases text hashMin call s with ⟨e, heq⟩ | ⟨entry, heq⟩
    · simp only [procStep, registers, heq]
      exact ⟨live, hstands, hcount⟩
    · simp only [procStep, registers, heq]
      refine ⟨entry :: live, BucketTable.Flat.add hstands entry, ?_⟩
      simp only [List.length_cons, if_true]
      omega
  | unregisterWrite call =>
    rcases kvProcUnregisterWrite_cases text hashMin call s with heq | ⟨startPfn, entry, hfind, heq⟩
    · simp only [procStep, registers, heq]
      exact ⟨live, hstands, hcount⟩
    · simp only [procStep, registers, heq]
      refine ⟨_, BucketTable.Flat.remove hstands (hashMin startPfn) (·.covers startPfn), ?_⟩
      rw [hstands.lookup] at hfind
      have hlength := List.length_eraseP_of_mem (List.mem_of_find?_eq_some hfind) (List.find?_some hfind)
      have hpos := List.length_pos_of_mem (List.mem_of_find?_eq_some hfind)
      simp only [KvRegionEntry.answersFor, KvRegionEntry.bucket] at hlength ⊢
      simp only [Bool.false_eq_true, if_false]
      omega
  | freeRcu =>
    simp only [procStep, registers, kvIntentFreeRcu]
    split
    · exact ⟨live, hstands, hcount⟩
    · refine ⟨live, hstands, ?_⟩
      simp only [Bool.false_eq_true, if_false]
      omega

theorem Accounts.run {leaked : ℕ} (h : Accounts hashMin s leaked) (actions : List ProcAction) :
    Accounts hashMin (procRun text hashMin s actions) (leaked + successes text hashMin s actions) := by
  induction actions generalizing s leaked with
  | nil => exact h
  | cons action actions ih =>
    rw [successes, ← Nat.add_assoc]
    exact ih (h.step action)

/-- After any history of writes and grace periods, the objects allocated are the entries in the
table, the entries that wait for a grace period, and one more for each register write that succeeded. -/
theorem register_leaks_intent (text : KernelText) (hashMin : BitVec 64 → Bucket)
    (actions : List ProcAction) :
    let s := procRun text hashMin ⟨.empty, 0, 0⟩ actions
    ∃ live, Stands hashMin s.table live ∧
      s.allocated = live.length + s.pending + successes text hashMin ⟨.empty, 0, 0⟩ actions := by
  have h : Accounts hashMin ⟨.empty, 0, 0⟩ 0 := ⟨[], BucketTable.flat_empty, rfl⟩
  simpa [Accounts] using h.run actions

end Memory

end KvIntentAdvisor
