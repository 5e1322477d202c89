-- SUMMARY: The RFC memory-intent registry: its core calls over the interval tree and the writes that reach them.
import Mathlib.Data.BitVec
import KVDeadlineScheduler.Library.IntervalTree
import KVDeadlineScheduler.Library.Replay

/-!
# The RFC memory-intent registry

Regions of all processes stand in one interval tree. Registering inserts without
a look at what is stored, unregistering removes the first region of the process
that starts at the address, and a lookup answers from the first region of the
process that covers the address. Each call runs under one mutex.
-/

namespace MemoryIntentRfc

structure MemoryIntentAttrs where
  intentFlags : BitVec 64
  deadlineNs : BitVec 64
  priority : BitVec 32
  deriving DecidableEq

/-- A tagged range of virtual addresses, which is never empty. -/
structure MemoryIntentRegion where
  start : BitVec 64
  last : BitVec 64
  pid : BitVec 32
  attrs : MemoryIntentAttrs
  nonempty : start ≤ last
  deriving DecidableEq

abbrev Registry := List MemoryIntentRegion

namespace MemoryIntentRegion

def startAt (region : MemoryIntentRegion) : ℕ := region.start.toNat

def lastAt (region : MemoryIntentRegion) : ℕ := region.last.toNat

/-- What `unregister` knows a region by. -/
def key (region : MemoryIntentRegion) : BitVec 32 × BitVec 64 := (region.pid, region.start)

/-- The address is in the region. -/
def Covers (region : MemoryIntentRegion) (vaddr : BitVec 64) : Prop :=
  region.start ≤ vaddr ∧ vaddr ≤ region.last

end MemoryIntentRegion

/-! ## The core calls -/

def memoryIntentRegister (region : MemoryIntentRegion) (registry : Registry) : Registry :=
  IntervalTree.insert MemoryIntentRegion.startAt region registry

def memoryIntentUnregister (pid : BitVec 32) (startVaddr : BitVec 64) (registry : Registry) :
    Registry :=
  IntervalTree.removeOverlap MemoryIntentRegion.startAt MemoryIntentRegion.lastAt
    startVaddr.toNat startVaddr.toNat
    (fun region => region.pid == pid && region.start == startVaddr) registry

/-- The region a lookup answers from. -/
def lookupRegion (registry : Registry) (pid : BitVec 32) (vaddr : BitVec 64) :
    Option MemoryIntentRegion :=
  IntervalTree.findOverlap MemoryIntentRegion.startAt MemoryIntentRegion.lastAt
    vaddr.toNat vaddr.toNat (fun region => region.pid == pid) registry

def memoryIntentLookupAttrs (registry : Registry) (pid : BitVec 32) (vaddr : BitVec 64) :
    Option MemoryIntentAttrs :=
  (lookupRegion registry pid vaddr).map MemoryIntentRegion.attrs

/-! ## The writes -/

inductive Errno where
  | einval
  | efault
  | esrch
  | enomem
  deriving DecidableEq, Repr

def mmIntentLineMax : ℕ := 128

/-- The fields of a register line. -/
structure RegisterFields where
  pid : BitVec 32
  start : BitVec 64
  length : BitVec 64
  flags : BitVec 64
  deadlineNs : BitVec 64
  priority : BitVec 32

/-- The kernel's `sscanf` for the two formats of the writes, where it finds all fields. -/
structure KernelText where
  scanRegister : List Char → Option RegisterFields
  scanUnregister : List Char → Option (BitVec 32 × BitVec 64)

/-- A write to a `register` file. The pid is looked up by the debugfs file only. -/
structure RegisterCall where
  line : List Char
  copied : Bool
  pidFound : Bool
  taskFound : Bool
  allocated : Bool

structure UnregisterCall where
  line : List Char
  copied : Bool

section Writes

variable (text : KernelText)

/-- The checks on a line that every write begins with. -/
def copyLine (line : List Char) (copied : Bool) : Except Errno (List Char) :=
  if line.length = 0 ∨ mmIntentLineMax ≤ line.length then .error .einval
  else if !copied then .error .efault
  else .ok line

theorem last_of_no_overflow {start length : BitVec 64} (hlength : length ≠ 0)
    (h : start.uaddOverflow length = false) : start ≤ start + length - 1 := by
  have hpos : 0 < length.toNat := by
    rcases Nat.eq_zero_or_pos length.toNat with h0 | h0
    · exact absurd (BitVec.eq_of_toNat_eq h0) hlength
    · exact h0
  have hlt : start.toNat + length.toNat < 2 ^ 64 := by
    simpa [BitVec.uaddOverflow] using h
  bv_omega

/-- The region of a line's fields: the length is not zero and the end does not overflow. -/
def regionOf (fields : RegisterFields) : Except Errno MemoryIntentRegion :=
  if hlength : fields.length = 0 then .error .einval
  else if h : fields.start.uaddOverflow fields.length = false then
    .ok
      { start := fields.start
        last := fields.start + fields.length - 1
        pid := fields.pid
        attrs := ⟨fields.flags, fields.deadlineNs, fields.priority⟩
        nonempty := last_of_no_overflow hlength h }
  else .error .einval

/-- The region a write to a `register` file allocates. -/
def registerPrepare (checksPid : Bool) (call : RegisterCall) : Except Errno MemoryIntentRegion := do
  let line ← copyLine call.line call.copied
  match text.scanRegister line with
  | none => .error .einval
  | some fields =>
    let region ← regionOf fields
    if checksPid && !(call.pidFound && call.taskFound) then .error .esrch
    else if !call.allocated then .error .enomem
    else .ok region

/-- The debugfs file also asks for a task of the given pid. -/
def debugfsPrepare (call : RegisterCall) : Except Errno MemoryIntentRegion :=
  registerPrepare text true call

def procPrepare (call : RegisterCall) : Except Errno MemoryIntentRegion :=
  registerPrepare text false call

def unregisterPrepare (call : UnregisterCall) : Except Errno (BitVec 32 × BitVec 64) := do
  let line ← copyLine call.line call.copied
  match text.scanUnregister line with
  | none => .error .einval
  | some fields => .ok fields

inductive Request where
  | debugfsRegister (call : RegisterCall)
  | procRegister (call : RegisterCall)
  | unregister (call : UnregisterCall)
  | clear

/-- What a request asks of the registry once its line is read. -/
inductive Command where
  | register (region : MemoryIntentRegion)
  | unregister (pid : BitVec 32) (startVaddr : BitVec 64)
  | clear
  deriving DecidableEq

def Request.command : Request → Except Errno Command
  | .debugfsRegister call => return .register (← debugfsPrepare text call)
  | .procRegister call => return .register (← procPrepare text call)
  | .unregister call => do
    let (pid, startVaddr) ← unregisterPrepare text call
    return .unregister pid startVaddr
  | .clear => .ok .clear

def Command.apply (registry : Registry) : Command → Registry
  | .register region => memoryIntentRegister region registry
  | .unregister pid startVaddr => memoryIntentUnregister pid startVaddr registry
  | .clear => []

/-- A request that fails does not reach the registry. -/
def step (registry : Registry) (request : Request) : Except Errno Registry := do
  let command ← request.command text
  return command.apply registry

end Writes

end MemoryIntentRfc
