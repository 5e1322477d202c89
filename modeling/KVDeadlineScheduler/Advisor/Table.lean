-- SUMMARY: The in-kernel intent advisor: its hash table of regions, its calls, and the list of live regions they answer from.
import Mathlib.Data.BitVec
import KVDeadlineScheduler.Library.BucketTable

/-!
# The kv_intent advisor

Regions of page frames stand in a hash table keyed by their first page. A lookup
scans only the bucket of the page it is asked for, so what it answers depends on
where the first pages of the regions hash to. The hash is the kernel's, and stays
a parameter.
-/

namespace KvIntentAdvisor

structure KvRegionIntent where
  startPfn : BitVec 64
  endPfn : BitVec 64
  deadlineNs : BitVec 64
  registeredAt : BitVec 64
  recomputeCostNs : BitVec 64
  priority : BitVec 32
  pinRequested : Bool
  recomputeOk : Bool
  deriving DecidableEq

/-- An entry of the table: a copy of an intent whose range is not empty. -/
structure KvRegionEntry where
  intent : KvRegionIntent
  nonempty : intent.startPfn < intent.endPfn
  deriving DecidableEq

def kvPriorityCold : BitVec 32 := 0
def kvPriorityDecodeCritical : BitVec 32 := 3

def kvIntentHashBits : ℕ := 8

abbrev Bucket := Fin (2 ^ kvIntentHashBits)

abbrev Table := BucketTable Bucket KvRegionEntry

inductive Errno where
  | einval
  | efault
  | enomem
  | eexist
  deriving DecidableEq, Repr

def KvRegionEntry.covers (entry : KvRegionEntry) (pfn : BitVec 64) : Bool :=
  decide (entry.intent.startPfn ≤ pfn) && decide (pfn < entry.intent.endPfn)

theorem KvRegionEntry.covers_start (entry : KvRegionEntry) : entry.covers entry.intent.startPfn = true := by
  simp [covers, entry.nonempty]

/-- A pinned region of 16 pages. -/
def sampleEntry : KvRegionEntry :=
  ⟨⟨16, 32, 0, 0, 0, kvPriorityDecodeCritical, true, false⟩, by decide⟩

section Calls

variable (hashMin : BitVec 64 → Bucket)

/-! ## The calls -/

def kvIntentLookup (table : Table) (pfn : BitVec 64) : Option KvRegionEntry :=
  table.find (hashMin pfn) (·.covers pfn)

/-- The null pointer is `none`; `allocated` says whether the entry could be allocated. -/
def kvIntentRegister (intent : Option KvRegionIntent) (allocated : Bool) (table : Table) :
    Except Errno Unit × Table :=
  match intent with
  | none => (.error .einval, table)
  | some intent =>
    if hrange : intent.startPfn < intent.endPfn then
      if !allocated then (.error .enomem, table)
      else if (kvIntentLookup hashMin table intent.startPfn).isSome then (.error .eexist, table)
      else (.ok (), table.add (hashMin intent.startPfn) ⟨intent, hrange⟩)
    else (.error .einval, table)

/-- The entry deleted is the one a lookup of the page answers, wherever its region starts. -/
def kvIntentUnregister (startPfn : BitVec 64) (table : Table) : Table :=
  table.remove (hashMin startPfn) (·.covers startPfn)

def kvIntentGetPriority (table : Table) (pfn : BitVec 64) : BitVec 32 :=
  match kvIntentLookup hashMin table pfn with
  | some entry => entry.intent.priority
  | none => kvPriorityCold

def kvIntentIsPinned (table : Table) (pfn : BitVec 64) : Bool :=
  match kvIntentLookup hashMin table pfn with
  | some entry => entry.intent.pinRequested
  | none => false

inductive Call where
  | register (intent : Option KvRegionIntent) (allocated : Bool)
  | unregister (startPfn : BitVec 64)
  | getPriority (pfn : BitVec 64)
  | isPinned (pfn : BitVec 64)

inductive Answer where
  | registered (result : Except Errno Unit)
  | unregistered
  | priority (priority : BitVec 32)
  | pinned (pinned : Bool)

def call (table : Table) : Call → Answer × Table
  | .register intent allocated =>
    let (result, table) := kvIntentRegister hashMin intent allocated table
    (.registered result, table)
  | .unregister startPfn => (.unregistered, kvIntentUnregister hashMin startPfn table)
  | .getPriority pfn => (.priority (kvIntentGetPriority hashMin table pfn), table)
  | .isPinned pfn => (.pinned (kvIntentIsPinned hashMin table pfn), table)

/-! ## The live regions

What the advisor is for: a list of the regions registered and not yet removed,
the newest first. A page is answered for by a region that contains it, among
those whose first page shares the bucket of the page. -/

abbrev Live := List KvRegionEntry

def KvRegionEntry.bucket (entry : KvRegionEntry) : Bucket := hashMin entry.intent.startPfn

def KvRegionEntry.answersFor (pfn : BitVec 64) (entry : KvRegionEntry) : Bool :=
  decide (entry.bucket hashMin = hashMin pfn) && entry.covers pfn

def newestFor (live : Live) (pfn : BitVec 64) : Option KvRegionEntry :=
  live.find? (·.answersFor hashMin pfn)

def liveCall (live : Live) : Call → Answer × Live
  | .register none _ => (.registered (.error .einval), live)
  | .register (some intent) allocated =>
    if hrange : intent.startPfn < intent.endPfn then
      if !allocated then (.registered (.error .enomem), live)
      else if (newestFor hashMin live intent.startPfn).isSome then (.registered (.error .eexist), live)
      else (.registered (.ok ()), ⟨intent, hrange⟩ :: live)
    else (.registered (.error .einval), live)
  | .unregister startPfn => (.unregistered, live.eraseP (·.answersFor hashMin startPfn))
  | .getPriority pfn =>
    (.priority (((newestFor hashMin live pfn).map fun entry => entry.intent.priority).getD kvPriorityCold), live)
  | .isPinned pfn =>
    (.pinned (((newestFor hashMin live pfn).map fun entry => entry.intent.pinRequested).getD false), live)

end Calls

section Refinement

variable {hashMin : BitVec 64 → Bucket} {table : Table} {live : Live}

/-- The table stands for the live regions. -/
def Stands (hashMin : BitVec 64 → Bucket) (table : Table) (live : Live) : Prop :=
  BucketTable.Flat (·.bucket hashMin) table live

theorem Stands.lookup (h : Stands hashMin table live) (pfn : BitVec 64) :
    kvIntentLookup hashMin table pfn = newestFor hashMin live pfn :=
  BucketTable.Flat.find h (hashMin pfn) (·.covers pfn)

/-- A region that joins the live ones starts at a page that no live region answers for. -/
theorem liveCall_register_cases (live : Live) (intent : Option KvRegionIntent) (allocated : Bool) :
    (∃ e, liveCall hashMin live (.register intent allocated) = (.registered (.error e), live)) ∨
    ∃ entry : KvRegionEntry, intent = some entry.intent ∧
      newestFor hashMin live entry.intent.startPfn = none ∧
      liveCall hashMin live (.register intent allocated) = (.registered (.ok ()), entry :: live) := by
  cases intent with
  | none => exact .inl ⟨.einval, rfl⟩
  | some intent =>
    simp only [liveCall]
    split
    case isFalse => exact .inl ⟨.einval, rfl⟩
    case isTrue hrange =>
      cases allocated with
      | false => exact .inl ⟨.enomem, by simp⟩
      | true =>
        cases hfind : newestFor hashMin live intent.startPfn with
        | some entry => exact .inl ⟨.eexist, by simp⟩
        | none => exact .inr ⟨⟨intent, hrange⟩, rfl, hfind, by simp⟩

variable (hashMin) in
theorem simulates_live :
    Machine.Simulates (Stands hashMin) (call hashMin) (liveCall hashMin) := by
  intro table live c h
  cases c with
  | register intent allocated =>
    cases intent with
    | none => exact ⟨rfl, h⟩
    | some intent =>
      simp only [call, kvIntentRegister, liveCall, h.lookup]
      split
      case isFalse => exact ⟨rfl, h⟩
      case isTrue hrange =>
        cases allocated with
        | false => exact ⟨rfl, h⟩
        | true =>
          cases hfind : newestFor hashMin live intent.startPfn with
          | some entry => exact ⟨rfl, h⟩
          | none => exact ⟨rfl, BucketTable.Flat.add h ⟨intent, hrange⟩⟩
  | unregister startPfn => exact ⟨rfl, BucketTable.Flat.remove h (hashMin startPfn) (·.covers startPfn)⟩
  | getPriority pfn =>
    simp only [call, kvIntentGetPriority, liveCall, h.lookup]
    cases newestFor hashMin live pfn <;> exact ⟨rfl, h⟩
  | isPinned pfn =>
    simp only [call, kvIntentIsPinned, liveCall, h.lookup]
    cases newestFor hashMin live pfn <;> exact ⟨rfl, h⟩

/-! ## What every history leaves -/

/-- No region starts at a page that an older one in its bucket already contained. -/
def WellFormed (hashMin : BitVec 64 → Bucket) (live : Live) : Prop :=
  live.Pairwise fun newer older => older.answersFor hashMin newer.intent.startPfn = false

theorem WellFormed.starts_distinct (h : WellFormed hashMin live) :
    (live.map fun entry => entry.intent.startPfn).Nodup := by
  rw [List.nodup_iff_pairwise_ne, List.pairwise_map]
  refine List.Pairwise.imp ?_ h
  intro newer older hanswers heq
  have hself : older.answersFor hashMin older.intent.startPfn = true := by
    simp [KvRegionEntry.answersFor, KvRegionEntry.bucket, older.covers_start]
  rw [heq, hself] at hanswers
  cases hanswers

theorem WellFormed.liveCall (h : WellFormed hashMin live) (c : Call) :
    WellFormed hashMin (liveCall hashMin live c).2 := by
  cases c with
  | register intent allocated =>
    rcases liveCall_register_cases live intent allocated with ⟨e, heq⟩ | ⟨entry, -, hnone, heq⟩
    · rw [heq]
      exact h
    · rw [heq]
      refine List.pairwise_cons.mpr ⟨?_, h⟩
      intro older holder
      simpa using List.find?_eq_none.mp hnone older holder
  | unregister startPfn => exact h.sublist List.eraseP_sublist
  | getPriority pfn => exact h
  | isPinned pfn => exact h

theorem WellFormed.after (h : WellFormed hashMin live) (calls : List Call) :
    WellFormed hashMin (Machine.after (KvIntentAdvisor.liveCall hashMin) live calls) := by
  induction calls generalizing live with
  | nil => exact h
  | cons c calls ih => exact ih (h.liveCall c)

theorem newestFor_eq_some {pfn : BitVec 64} {entry : KvRegionEntry} :
    newestFor hashMin live pfn = some entry ↔
      entry.answersFor hashMin pfn = true ∧ ∃ newer older, live = newer ++ entry :: older ∧
        ∀ other ∈ newer, other.answersFor hashMin pfn = false := by
  simp [newestFor, List.find?_eq_some_iff_append]

/-- The region that a lookup answers from: it contains the page and shares its bucket, and no newer
live region does. -/
def AnswersNewest (hashMin : BitVec 64 → Bucket) (table : Table) (live : Live) : Prop :=
  ∀ pfn entry, kvIntentLookup hashMin table pfn = some entry ↔
    entry.answersFor hashMin pfn = true ∧ ∃ newer older, live = newer ++ entry :: older ∧
      ∀ other ∈ newer, other.answersFor hashMin pfn = false

/-- After any history, under any hash, the table stands for the live regions, which have distinct
starts, it answers every further call as they do, and a lookup finds the newest of those that
contain the page and start in its bucket. -/
theorem table_acts_as_live (hashMin : BitVec 64 → Bucket) (calls : List Call) :
    let table := Machine.after (call hashMin) .empty calls
    let live := Machine.after (liveCall hashMin) [] calls
    Stands hashMin table live ∧ WellFormed hashMin live ∧
      (live.map fun entry => entry.intent.startPfn).Nodup ∧
      (∀ c, (call hashMin table c).1 = (liveCall hashMin live c).1) ∧
      AnswersNewest hashMin table live := by
  intro table live
  have hstands : Stands hashMin table live :=
    (simulates_live hashMin).after BucketTable.flat_empty calls
  have hwell : WellFormed hashMin live := WellFormed.after List.Pairwise.nil calls
  refine ⟨hstands, hwell, hwell.starts_distinct, ?_, ?_⟩
  · exact fun c => (simulates_live hashMin table live c hstands).1
  · intro pfn entry
    rw [hstands.lookup, newestFor_eq_some]

end Refinement

end KvIntentAdvisor
