-- SUMMARY: Hash lists read without a lock while writers add and unlink: the machine with its heap, its grace periods and its steps.
import KVDeadlineScheduler.Library.BucketTable
import KVDeadlineScheduler.Library.Replay

/-!
# Bucket tables read under grace periods

Each bucket is a doubly linked list of nodes. Writers take one lock, walk a
bucket, and add a node at its head or unlink the one they found. Readers walk
without the lock, one pointer at a time. An unlinked node keeps its `next`
pointer, and its memory is released only when every reader that was active at
the moment its release was asked for has left.
-/

namespace RcuTable

open BucketTable (Write)

/-! ## The machine -/

/-- Where a node stands. A retired node waits for the readers listed. -/
inductive Phase (β ρ : Type) where
  | linked (bucket : β)
  | unlinked
  | retired (waits : List ρ)

/-- A memory cell that holds a pointer to a node. -/
inductive Link (β : Type) where
  | head (bucket : β)
  | next (node : ℕ)

structure Node (α β ρ : Type) where
  value : α
  next : Option ℕ
  pprev : Link β
  phase : Phase β ρ

/-- The holder of the lock and the pointer its walk has reached. -/
structure Writer (α β : Type) where
  task : Write β α
  cursor : Option ℕ

/-- A reader, the pointer its walk has reached, and the answer of its last walk. -/
structure Reader (α : Type) where
  cursor : Option ℕ
  wanted : α → Bool
  answer : Option α

structure State (α β ρ : Type) where
  heads : β → Option ℕ
  heap : ℕ → Option (Node α β ρ)
  writer : Option (Writer α β)
  active : List ρ
  reader : ρ → Reader α
  /-- The finished writes in the order of the lock, each with what it found. -/
  log : List (Write β α × Option α)

/-- A step that cannot be taken now, or one that reads through a dangling pointer. -/
inductive Stop where
  | blocked
  | fault
  deriving DecidableEq

inductive Action (α β ρ : Type) where
  | lock (task : Write β α)
  | walk
  | finish (fresh : ℕ)
  | retire (node : ℕ)
  | release (node : ℕ)
  | enter (r : ρ) (bucket : β) (wanted : α → Bool)
  | advance (r : ρ)
  | leave (r : ρ)

section Steps

variable {α β ρ : Type} [DecidableEq β] [DecidableEq ρ]

namespace State

variable (s : State α β ρ)

def deref (i : ℕ) : Except Stop (Node α β ρ) :=
  match s.heap i with
  | some node => .ok node
  | none => .error .fault

def setNode (i : ℕ) (f : Node α β ρ → Node α β ρ) : Except Stop (State α β ρ) := do
  let node ← s.deref i
  return { s with heap := Function.update s.heap i (some (f node)) }

def store (link : Link β) (target : Option ℕ) : Except Stop (State α β ρ) :=
  match link with
  | .head bucket => .ok { s with heads := Function.update s.heads bucket target }
  | .next i => s.setNode i fun node => { node with next := target }

def setPprev (target : Option ℕ) (link : Link β) : Except Stop (State α β ρ) :=
  match target with
  | none => .ok s
  | some i => s.setNode i fun node => { node with pprev := link }

/-- The node is published by the store to the head; readers see no other store of these. -/
def addHead (fresh : ℕ) (bucket : β) (x : α) : Except Stop (State α β ρ) := do
  let first := s.heads bucket
  let node : Node α β ρ := ⟨x, first, .head bucket, .linked bucket⟩
  let s := { s with heap := Function.update s.heap fresh (some node) }
  let s ← s.store (.head bucket) (some fresh)
  s.setPprev first (.next fresh)

/-- The node keeps its `next` pointer, for the readers that stand on it. -/
def unlink (i : ℕ) : Except Stop (State α β ρ) := do
  let node ← s.deref i
  let s ← s.store node.pprev node.next
  let s ← s.setPprev node.next node.pprev
  s.setNode i fun node => { node with phase := .unlinked }

end State

/-- The walk has come to an end, or to a node that is wanted. -/
def stopsAt (s : State α β ρ) (cursor : Option ℕ) (wanted : α → Bool) :
    Except Stop (Option (ℕ × α) ⊕ Option ℕ) :=
  match cursor with
  | none => .ok (.inl none)
  | some i => do
    let node ← s.deref i
    if wanted node.value then return .inl (some (i, node.value)) else return .inr node.next

/-- The end of a write that found `found`: the change, and the lock is free again. -/
def complete (s : State α β ρ) (task : Write β α) (found : Option (ℕ × α)) (fresh : ℕ) :
    Except Stop (State α β ρ) := do
  let s := { s with writer := none, log := s.log ++ [(task, found.map Prod.snd)] }
  match task, found with
  | .addUnless .., some _ => return s
  | .addUnless bucket _ x, none => s.addHead fresh bucket x
  | .removeFirst .., some (i, _) => s.unlink i
  | .removeFirst .., none => return s

def Phase.forget (r : ρ) : Phase β ρ → Phase β ρ
  | .retired waits => .retired (waits.filter (· ≠ r))
  | phase => phase

def step (s : State α β ρ) : Action α β ρ → Except Stop (State α β ρ)
  | .lock task =>
    match s.writer with
    | some _ => .error .blocked
    | none => .ok { s with writer := some ⟨task, s.heads task.bucket⟩ }
  | .walk =>
    match s.writer with
    | none => .error .blocked
    | some writer => do
      match ← stopsAt s writer.cursor writer.task.wanted with
      | .inl _ => .error .blocked
      | .inr next => return { s with writer := some { writer with cursor := next } }
  | .finish fresh =>
    match s.writer with
    | none => .error .blocked
    | some writer => do
      match ← stopsAt s writer.cursor writer.task.wanted with
      | .inl found =>
        if (s.heap fresh).isSome then .error .blocked else complete s writer.task found fresh
      | .inr _ => .error .blocked
  | .retire i =>
    match s.heap i with
    | some { phase := .unlinked, .. } =>
      s.setNode i fun node => { node with phase := .retired s.active }
    | _ => .error .blocked
  | .release i =>
    match s.heap i with
    | some { phase := .retired [], .. } => .ok { s with heap := Function.update s.heap i none }
    | _ => .error .blocked
  | .enter r bucket wanted =>
    if r ∈ s.active then .error .blocked
    else .ok
      { s with
        active := r :: s.active
        reader := Function.update s.reader r ⟨s.heads bucket, wanted, none⟩ }
  | .advance r =>
    if r ∉ s.active then .error .blocked
    else do
      match ← stopsAt s (s.reader r).cursor (s.reader r).wanted with
      | .inl _ => .error .blocked
      | .inr next =>
        return { s with reader := Function.update s.reader r { s.reader r with cursor := next } }
  | .leave r =>
    if r ∉ s.active then .error .blocked
    else do
      match ← stopsAt s (s.reader r).cursor (s.reader r).wanted with
      | .inl found =>
        return { s with
          active := s.active.filter (· ≠ r)
          reader := Function.update s.reader r { s.reader r with answer := found.map Prod.snd }
          heap := fun i => (s.heap i).map fun node => { node with phase := node.phase.forget r } }
      | .inr _ => .error .blocked

/-- Nothing is linked, nobody holds the lock or reads. -/
def initial (reader : ρ → Reader α) : State α β ρ where
  heads := fun _ => none
  heap := fun _ => none
  writer := none
  active := []
  reader := reader
  log := []

end Steps

end RcuTable
