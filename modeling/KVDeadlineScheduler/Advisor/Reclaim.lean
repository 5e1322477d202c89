-- SUMMARY: The reclaim hook of the advisor, and the pages it keeps after any history.
import KVDeadlineScheduler.Advisor.Table

/-!
# Reclaim

`shrink_page_list` asks the advisor about each page before it reclaims it. The lookup
searches the hash bucket of the page itself, so only the pages of a region that share the
bucket of its first page are found.
-/

namespace KvIntentAdvisor

/-! ## The hook in `shrink_page_list` -/

structure VmEvents where
  kvIntentKeep : ℕ
  kvIntentReclaim : ℕ
  deriving DecidableEq

section Hook

variable (hashMin : BitVec 64 → Bucket)

/-- Whether the page goes to `keep_locked`, and the event counted. -/
def consultAdvisor (table : Table) (maySwap : Bool) (pfn : BitVec 64) (events : VmEvents) :
    Bool × VmEvents :=
  if kvIntentIsPinned hashMin table pfn then
    (true, { events with kvIntentKeep := events.kvIntentKeep + 1 })
  else if kvIntentGetPriority hashMin table pfn = kvPriorityDecodeCritical ∧ !maySwap then
    (true, { events with kvIntentKeep := events.kvIntentKeep + 1 })
  else (false, { events with kvIntentReclaim := events.kvIntentReclaim + 1 })

/-- The pages of a list that the hook keeps, of those that get as far as the hook. -/
def shrinkPageList (table : Table) (maySwap : Bool) :
    List (BitVec 64) → VmEvents → List (BitVec 64) × VmEvents
  | [], events => ([], events)
  | pfn :: pages, events =>
    let (keep, events) := consultAdvisor hashMin table maySwap pfn events
    let (kept, events) := shrinkPageList table maySwap pages events
    (if keep then pfn :: kept else kept, events)

end Hook

/-- A region asks for its pages to be kept, the critical ones only while nothing can be swapped. -/
def KvRegionEntry.shields (maySwap : Bool) (entry : KvRegionEntry) : Bool :=
  entry.intent.pinRequested || decide (entry.intent.priority = kvPriorityDecodeCritical) && !maySwap

section Kept

variable {hashMin : BitVec 64 → Bucket} {table : Table} {live : Live}

theorem consultAdvisor_eq (table : Table) (maySwap : Bool) (pfn : BitVec 64) (events : VmEvents) :
    consultAdvisor hashMin table maySwap pfn events =
      if (kvIntentLookup hashMin table pfn).any (·.shields maySwap) then
        (true, { events with kvIntentKeep := events.kvIntentKeep + 1 })
      else (false, { events with kvIntentReclaim := events.kvIntentReclaim + 1 }) := by
  rcases Option.eq_none_or_eq_some (kvIntentLookup hashMin table pfn) with hnone | ⟨entry, hsome⟩
  · simp [consultAdvisor, kvIntentIsPinned, kvIntentGetPriority, hnone, kvPriorityCold,
      kvPriorityDecodeCritical]
  · cases hpin : entry.intent.pinRequested <;>
      simp [consultAdvisor, kvIntentIsPinned, kvIntentGetPriority, hsome, KvRegionEntry.shields, hpin]

theorem shrinkPageList_eq (table : Table) (maySwap : Bool) (pages : List (BitVec 64)) (events : VmEvents) :
    let kept := pages.filter fun pfn => (kvIntentLookup hashMin table pfn).any (·.shields maySwap)
    shrinkPageList hashMin table maySwap pages events =
      (kept, ⟨events.kvIntentKeep + kept.length,
        events.kvIntentReclaim + (pages.length - kept.length)⟩) := by
  intro kept
  induction pages generalizing events with
  | nil => rfl
  | cons pfn pages ih =>
    have hle := List.length_filter_le
      (fun pfn => (kvIntentLookup hashMin table pfn).any (·.shields maySwap)) pages
    simp only [shrinkPageList, consultAdvisor_eq, kept, List.filter_cons]
    split
    · simp only [ih, List.length_cons, if_true, Prod.mk.injEq, VmEvents.mk.injEq, true_and]
      omega
    · simp only [ih, List.length_cons, Bool.false_eq_true, if_false, Prod.mk.injEq, VmEvents.mk.injEq,
        true_and]
      omega

/-- No other live region contains a page of this one. -/
def Alone (live : Live) (entry : KvRegionEntry) : Prop :=
  ∀ other ∈ live, other ≠ entry → ∀ pfn, entry.covers pfn = true → other.covers pfn = false

theorem newestFor_of_alone {entry : KvRegionEntry} (hin : entry ∈ live) (halone : Alone live entry)
    {pfn : BitVec 64} (hpfn : entry.covers pfn = true) :
    newestFor hashMin live pfn = if hashMin pfn = entry.bucket hashMin then some entry else none := by
  have hother : ∀ other ∈ live, other.answersFor hashMin pfn = true → other = entry := by
    intro other hmem hanswers
    by_contra hne
    have := halone other hmem hne pfn hpfn
    simp [KvRegionEntry.answersFor, this] at hanswers
  split
  · next hbucket =>
    have hself : entry.answersFor hashMin pfn = true := by
      simp [KvRegionEntry.answersFor, hbucket, hpfn]
    cases hfind : newestFor hashMin live pfn with
    | none =>
      have := List.find?_eq_none.mp hfind entry hin
      exact absurd hself this
    | some found =>
      rw [hother found (List.mem_of_find?_eq_some hfind) (by simpa using List.find?_some hfind)]
  · next hbucket =>
    refine List.find?_eq_none.mpr fun other hmem hanswers => ?_
    obtain rfl := hother other hmem hanswers
    simp [KvRegionEntry.answersFor, Ne.symm hbucket] at hanswers

/-- Of the pages of a live region that no other one overlaps, reclaim keeps those in the bucket of
the first page, and these only if the region asks for it; each page it looks at is counted once. -/
theorem reclaim_keeps_bucket_of_region (hashMin : BitVec 64 → Bucket) (calls : List Call)
    (maySwap : Bool) (pages : List (BitVec 64)) (events : VmEvents) {entry : KvRegionEntry}
    (hlive : entry ∈ Machine.after (liveCall hashMin) [] calls)
    (halone : Alone (Machine.after (liveCall hashMin) [] calls) entry)
    (hpages : ∀ pfn ∈ pages, entry.covers pfn = true) :
    let kept := pages.filter fun pfn =>
      decide (hashMin pfn = entry.bucket hashMin) && entry.shields maySwap
    shrinkPageList hashMin (Machine.after (call hashMin) .empty calls) maySwap pages events =
      (kept, ⟨events.kvIntentKeep + kept.length,
        events.kvIntentReclaim + (pages.length - kept.length)⟩) := by
  intro kept
  have hstands : Stands hashMin (Machine.after (call hashMin) .empty calls)
      (Machine.after (liveCall hashMin) [] calls) :=
    (simulates_live hashMin).after BucketTable.flat_empty calls
  have hfilter : (pages.filter fun pfn =>
      (kvIntentLookup hashMin (Machine.after (call hashMin) .empty calls) pfn).any (·.shields maySwap)) =
      kept := by
    refine List.filter_congr fun pfn hpfn => ?_
    rw [hstands.lookup, newestFor_of_alone hlive halone (hpages pfn hpfn)]
    split
    · next h => simp [h]
    · next h => simp [h]
  rw [shrinkPageList_eq, hfilter]

/-- Every second page is in the bucket of an even first page. -/
def sampleHash (pfn : BitVec 64) : Bucket :=
  ⟨pfn.toNat % 2, (Nat.mod_lt _ (by decide)).trans (by decide)⟩

theorem reclaim_keeps_bucket_of_region_sample :
    shrinkPageList sampleHash
      (Machine.after (call sampleHash) .empty [.register (some sampleEntry.intent) true]) true
      [18, 19, 20] ⟨0, 0⟩ = ([18, 20], ⟨2, 1⟩) := by
  have halone : Alone (Machine.after (liveCall sampleHash) [] [.register (some sampleEntry.intent) true])
      sampleEntry :=
    fun other hin hne => absurd (List.mem_singleton.mp hin) hne
  refine (reclaim_keeps_bucket_of_region sampleHash [.register (some sampleEntry.intent) true] true
    [18, 19, 20] ⟨0, 0⟩ List.mem_cons_self halone ?_).trans rfl
  intro pfn hpfn
  simp only [List.mem_cons, List.not_mem_nil, or_false] at hpfn
  rcases hpfn with rfl | rfl | rfl <;> rfl

end Kept

end KvIntentAdvisor
