-- SUMMARY: The advisor under concurrency: lock holders, RCU readers and frees in any order.
import KVDeadlineScheduler.Advisor.Table
import KVDeadlineScheduler.Library.RcuReaders

/-!
# The advisor under concurrency

`kv_intent_register` and `kv_intent_unregister` walk and change a bucket under
`kv_intent_lock`. `kv_intent_get_priority` and `kv_intent_is_pinned` walk it inside
an RCU read-side section, at the same time. `call_rcu` runs after the lock is
released, and the entry is freed after a grace period.
-/

namespace KvIntentAdvisor

open RcuTable (Inv valueAt removedSince)

variable {ρ : Type}

/-- A call past its checks and its allocation, on its way to `kv_intent_lock`. -/
inductive WriteCall where
  | register (entry : KvRegionEntry)
  | unregister (startPfn : BitVec 64)

/-- The page that the call looks up under the lock. -/
def WriteCall.pfn : WriteCall → BitVec 64
  | register entry => entry.intent.startPfn
  | unregister startPfn => startPfn

def WriteCall.toCall : WriteCall → Call
  | register entry => .register (some entry.intent) true
  | unregister startPfn => .unregister startPfn

inductive Action (ρ : Type) where
  | spinLock (call : WriteCall)
  | walk
  | spinUnlock (fresh : ℕ)
  | callRcu (node : ℕ)
  | kvIntentFreeRcu (node : ℕ)
  | rcuReadLock (r : ρ) (pfn : BitVec 64)
  | advance (r : ρ)
  | rcuReadUnlock (r : ρ)

abbrev State (ρ : Type) := RcuTable.State KvRegionEntry Bucket ρ

section Steps

variable (hashMin : BitVec 64 → Bucket)

def WriteCall.task : WriteCall → BucketTable.Write Bucket KvRegionEntry
  | register entry =>
    .addUnless (hashMin entry.intent.startPfn) (·.covers entry.intent.startPfn) entry
  | unregister startPfn => .removeFirst (hashMin startPfn) (·.covers startPfn)

def Action.step : Action ρ → RcuTable.Action KvRegionEntry Bucket ρ
  | spinLock call => .lock (call.task hashMin)
  | walk => .walk
  | spinUnlock fresh => .finish fresh
  | callRcu node => .retire node
  | kvIntentFreeRcu node => .release node
  | rcuReadLock r pfn => .enter r (hashMin pfn) (·.covers pfn)
  | advance r => .advance r
  | rcuReadUnlock r => .leave r

def run [DecidableEq ρ] (s : State ρ) (actions : List (Action ρ)) : Except RcuTable.Stop (State ρ) :=
  Replay.run RcuTable.step s (actions.map (Action.step hashMin))

/-- The table after calls made one at a time. -/
def tableAfter (calls : List WriteCall) : Table :=
  Machine.after (call hashMin) .empty (calls.map WriteCall.toCall)

end Steps

variable {hashMin : BitVec 64 → Bucket}

/-! ## Calls as writes -/

theorem call_eq_write (table : Table) (c : WriteCall) :
    (call hashMin table c.toCall).2 = (table.write (c.task hashMin)).2 := by
  cases c with
  | register entry =>
    simp only [WriteCall.toCall, call, kvIntentRegister, entry.nonempty, dif_pos, Bool.not_true,
      Bool.false_eq_true, if_false]
    cases hfind : kvIntentLookup hashMin table entry.intent.startPfn with
    | some found =>
      rw [WriteCall.task, BucketTable.addUnless_of_some hfind]
      simp
    | none =>
      rw [WriteCall.task, BucketTable.addUnless_of_none hfind]
      simp
  | unregister startPfn => rfl

theorem tableAfter_eq (calls : List WriteCall) :
    tableAfter hashMin calls = BucketTable.afterWrites .empty (calls.map (WriteCall.task hashMin)) := by
  suffices ∀ table : Table, Machine.after (call hashMin) table (calls.map WriteCall.toCall) =
      BucketTable.afterWrites table (calls.map (WriteCall.task hashMin)) from this .empty
  intro table
  induction calls generalizing table with
  | nil => rfl
  | cons c calls ih =>
    simp only [List.map_cons, Machine.after_cons, BucketTable.afterWrites, call_eq_write] at ih ⊢
    exact ih _

theorem exists_calls {log : List (BucketTable.Write Bucket KvRegionEntry × Option KvRegionEntry)}
    (h : ∀ entry ∈ log, ∃ c : WriteCall, entry.1 = c.task hashMin) :
    ∃ calls : List WriteCall, log.map Prod.fst = calls.map (WriteCall.task hashMin) := by
  induction log with
  | nil => exact ⟨[], rfl⟩
  | cons entry log ih =>
    obtain ⟨c, hc⟩ := h entry List.mem_cons_self
    obtain ⟨calls, hcalls⟩ := ih fun other hother => h other (List.mem_cons_of_mem entry hother)
    exact ⟨c :: calls, by rw [List.map_cons, List.map_cons, hc, hcalls]⟩

/-! ## Every interleaving -/

/-- The finished calls are `calls` in the order of the lock, each found what a lookup after the calls
before it finds, and the nodes linked in the buckets hold what `calls` leave. -/
structure Reflects (hashMin : BitVec 64 → Bucket) (s : State ρ) (calls : List WriteCall) : Prop where
  finished : s.log.map Prod.fst = calls.map (WriteCall.task hashMin)
  found : ∀ before c later, calls = before ++ c :: later →
    (s.log.map Prod.snd)[before.length]? = some (kvIntentLookup hashMin (tableAfter hashMin before) c.pfn)
  buckets : ∀ bucket, ∃ nodes, RcuTable.Chain s.heap bucket (.head bucket) (s.heads bucket) nodes ∧
    nodes.map (valueAt s.heap) = (tableAfter hashMin calls bucket).map some

theorem reflects_of_inv {s : State ρ} {order : Bucket → List ℕ} (hinv : Inv s order)
    {calls : List WriteCall} (hcalls : s.log.map Prod.fst = calls.map (WriteCall.task hashMin)) :
    Reflects hashMin s calls where
  finished := hcalls
  found before c later heq := by
    obtain ⟨log₁, log₂, hlog, hbefore, hlater⟩ := List.map_eq_append_iff.mp
      (hcalls.trans (by rw [heq, List.map_append, List.map_cons]))
    obtain ⟨⟨task, x⟩, log₃, rfl, htask, -⟩ := List.map_eq_cons_iff.mp hlater
    have hlength : before.length = log₁.length := by
      simpa using (congrArg List.length hbefore).symm
    have hx := hinv.found log₁ task x log₃ hlog
    rw [hbefore, ← tableAfter_eq] at hx
    obtain rfl : task = c.task hashMin := htask
    rw [hlog, hlength, List.map_append, List.map_cons, ← List.length_map Prod.snd,
      List.getElem?_append_right (Nat.le_refl _), Nat.sub_self, List.getElem?_cons_zero, hx]
    cases c <;> rfl
  buckets bucket := by
    refine ⟨order bucket, hinv.chain bucket, ?_⟩
    rw [hinv.contents bucket, RcuTable.State.table, hcalls, tableAfter_eq]

variable [DecidableEq ρ] (reader : ρ → RcuTable.Reader KvRegionEntry)

theorem reflects_run {actions : List (Action ρ)} {s : State ρ}
    (hrun : run hashMin (RcuTable.initial reader) actions = .ok s) : ∃ calls, Reflects hashMin s calls := by
  have hinv : ∃ order, Inv (RcuTable.initial (β := Bucket) reader) order :=
    ⟨_, RcuTable.inv_initial reader⟩
  have htasks : ∀ entry ∈ s.log, ∃ c : WriteCall, entry.1 = c.task hashMin := by
    refine RcuTable.tasks_run (P := fun task => ∃ c : WriteCall, task = c.task hashMin) hinv hrun ?_
      (fun writer hw => nomatch hw) fun entry hentry => nomatch hentry
    intro task hin
    obtain ⟨action, -, haction⟩ := List.mem_map.mp hin
    cases action <;> cases haction
    exact ⟨_, rfl⟩
  obtain ⟨calls, hcalls⟩ := exists_calls htasks
  obtain ⟨order, hinv⟩ := RcuTable.inv_run hinv hrun
  exact ⟨calls, reflects_of_inv hinv hcalls⟩

/-- Whatever the order of the steps, no dangling pointer is followed, and the table is at every
moment the one that the finished calls leave one after the other. -/
theorem concurrent_calls_serialize (hashMin : BitVec 64 → Bucket) (actions : List (Action ρ)) :
    run hashMin (RcuTable.initial reader) actions ≠ .error .fault ∧
    ∀ s, run hashMin (RcuTable.initial reader) actions = .ok s → ∃ calls, Reflects hashMin s calls :=
  ⟨RcuTable.run_ne_fault ⟨_, RcuTable.inv_initial reader⟩ _, fun _ hrun => reflects_run reader hrun⟩

/-- A lookup that overlaps other calls answers as the table did when it began, unless the entry of
that answer was removed since; then it answers none, or another entry that the table held then. -/
theorem overlapping_lookup (hashMin : BitVec 64 → Bucket) {before during : List (Action ρ)} {r : ρ}
    {pfn : BitVec 64} {s₃ : State ρ}
    (hrun : run hashMin (RcuTable.initial reader)
      (before ++ .rcuReadLock r pfn :: (during ++ [.rcuReadUnlock r])) = .ok s₃)
    (hstay : .rcuReadUnlock r ∉ during) :
    ∃ s₀ s₂ calls, run hashMin (RcuTable.initial reader) before = .ok s₀ ∧ Reflects hashMin s₀ calls ∧
      run hashMin (RcuTable.initial reader) (before ++ .rcuReadLock r pfn :: during) = .ok s₂ ∧
      ((s₃.reader r).answer = kvIntentLookup hashMin (tableAfter hashMin calls) pfn ∨
        ∃ entry ∈ removedSince s₀ s₂, kvIntentLookup hashMin (tableAfter hashMin calls) pfn = some entry) ∧
      ∀ entry, (s₃.reader r).answer = some entry →
        entry ∈ tableAfter hashMin calls (hashMin pfn) ∧ entry.covers pfn = true := by
  unfold run at hrun ⊢
  rw [List.map_append, List.map_cons, List.map_append, Replay.run_append_ok] at hrun
  obtain ⟨s₀, hbefore, hrest⟩ := hrun
  obtain ⟨s₁, henter, hrest⟩ := Replay.run_cons_ok.mp hrest
  obtain ⟨s₂, hduring, hlast⟩ := Replay.run_append_ok.mp hrest
  obtain ⟨_, hleave, hnil⟩ := Replay.run_cons_ok.mp hlast
  cases hnil
  have hinv : ∃ order, Inv s₀ order := RcuTable.inv_run ⟨_, RcuTable.inv_initial reader⟩ hbefore
  obtain ⟨calls, hreflects⟩ : ∃ calls, Reflects hashMin s₀ calls := reflects_run reader hbefore
  have hstay' : .leave r ∉ during.map (Action.step hashMin) := by
    intro hin
    obtain ⟨action, haction, hleave⟩ := List.mem_map.mp hin
    cases action <;> cases hleave
    exact hstay haction
  obtain ⟨seen, hsub, hkept, hanswer⟩ := RcuTable.answer_of_walk hinv henter hduring hstay' hleave
  have htable : s₀.table = tableAfter hashMin calls := by
    rw [RcuTable.State.table, hreflects.finished, tableAfter_eq]
  rw [htable] at hsub hkept
  refine ⟨s₀, s₂, calls, hbefore, hreflects, ?_, ?_, ?_⟩
  · rw [List.map_append, List.map_cons, Replay.run_append_ok]
    exact ⟨s₀, hbefore, Replay.run_cons_ok.mpr ⟨s₁, henter, hduring⟩⟩
  · rw [hanswer]
    exact RcuTable.find_of_between hsub hkept
  · intro entry hentry
    rw [hanswer] at hentry
    exact ⟨hsub.subset (List.mem_of_find?_eq_some hentry), by simpa using List.find?_some hentry⟩

/-! A reader enters, the only region is unregistered and queued for release, and the reader still
finds it. -/

def sampleBefore : List (Action Unit) := [.spinLock (.register sampleEntry), .spinUnlock 1]

def sampleDuring : List (Action Unit) :=
  [.spinLock (.unregister 16), .spinUnlock 2, .callRcu 1]

theorem overlapping_lookup_sample :
    let reader : Unit → RcuTable.Reader KvRegionEntry := fun _ => ⟨none, fun _ => false, none⟩
    let all := sampleBefore ++ .rcuReadLock () 20 :: (sampleDuring ++ [.rcuReadUnlock ()])
    ∃ s₃, run (fun _ => 0) (RcuTable.initial reader) all = .ok s₃ ∧
      (s₃.reader ()).answer = some sampleEntry ∧
      ∃ s₀ calls, run (fun _ => 0) (RcuTable.initial reader) sampleBefore = .ok s₀ ∧
        Reflects (fun _ => 0) s₀ calls := by
  intro reader all
  have hall : ∃ s₃, run (fun _ => 0) (RcuTable.initial reader) all = .ok s₃ ∧
      (s₃.reader ()).answer = some sampleEntry := ⟨_, rfl, rfl⟩
  obtain ⟨s₃, hrun, hanswer⟩ := hall
  obtain ⟨s₀, s₂, calls, hbefore, hreflects, -⟩ :=
    overlapping_lookup reader (fun _ => 0) hrun (by simp [sampleDuring])
  exact ⟨s₃, hrun, hanswer, s₀, calls, hbefore, hreflects⟩

end KvIntentAdvisor
