-- SUMMARY: The intent registry of the kernel shrinker: its proc writes, its scan, and what holds over every history of them.
import KVDeadlineScheduler.Library.Selection
import KVDeadlineScheduler.Shrinker.Score

/-!
# The shrinker's registry

The registry is the linked list of intents in insertion order. Writers and the
reclaim path touch it only inside a section of `kv_intent_lock`, so a history is
a list of such sections in the order in which the lock was taken. What a write
does before it takes the lock (copying, parsing, allocating, reading the clock)
is part of its call.
-/

namespace KvIntentShrinker

abbrev Registry := List KvBlockIntent

inductive Errno where
  | einval
  | efault
  | enomem
  | eexist
  | enoent
  deriving DecidableEq, Repr

/-! ## The proc writes -/

def kvStatusBufsz : ℕ := 128

/-- The kernel's text conversions that the writes call: the four fields of
`sscanf(local, "%llu %llu %u %u")`, if all are found, and `kstrtoull(strim(local), 10)`. -/
structure KernelText where
  sscanf : List Char → Option (BitVec 64 × BitVec 64 × BitVec 32 × BitVec 32)
  kstrtoull : List Char → Option (BitVec 64)

/-- A write to `register`: the bytes given, whether they could be copied, whether the allocation
succeeded, and the clock reading taken. -/
structure RegisterWrite where
  buffer : List Char
  copied : Bool
  allocated : Bool
  now : Ktime

structure UnregisterWrite where
  buffer : List Char
  copied : Bool

def KvPriorityLevel.ofNat? : ℕ → Option KvPriorityLevel
  | 0 => some .cold
  | 1 => some .warm
  | 2 => some .hot
  | 3 => some .decodeCritical
  | _ => none

def kvFindIntentLocked (registry : Registry) (objectIdHash : BitVec 64) : Option KvBlockIntent :=
  registry.find? fun intent => intent.objectIdHash == objectIdHash

section Writes

variable (text : KernelText)

/-- What `kv_register_write` does before it takes the lock. -/
def kvRegisterPrepare (call : RegisterWrite) : Except Errno KvBlockIntent :=
  if call.buffer.length = 0 ∨ kvStatusBufsz ≤ call.buffer.length then .error .einval
  else if !call.copied then .error .efault
  else
    match text.sscanf call.buffer with
    | none => .error .einval
    | some (objectIdHash, deadlineUs, priority, sizeBytes) =>
      match KvPriorityLevel.ofNat? priority.toNat with
      | none => .error .einval
      | some priority =>
        if sizeBytes = 0 then .error .einval
        else if !call.allocated then .error .enomem
        else .ok (.register objectIdHash deadlineUs priority sizeBytes call.now)

def kvRegisterWrite (call : RegisterWrite) (registry : Registry) : Except Errno ℕ × Registry :=
  match kvRegisterPrepare text call with
  | .error e => (.error e, registry)
  | .ok intent =>
    if (kvFindIntentLocked registry intent.objectIdHash).isSome then (.error .eexist, registry)
    else (.ok call.buffer.length, registry ++ [intent])

/-- What `kv_unregister_write` does before it takes the lock. -/
def kvUnregisterPrepare (call : UnregisterWrite) : Except Errno (BitVec 64) :=
  if call.buffer.length = 0 ∨ kvStatusBufsz ≤ call.buffer.length then .error .einval
  else if !call.copied then .error .efault
  else
    match text.kstrtoull call.buffer with
    | none => .error .einval
    | some objectIdHash => .ok objectIdHash

/-- The entry that is found is the one deleted from the list. -/
def kvUnregisterWrite (call : UnregisterWrite) (registry : Registry) : Except Errno ℕ × Registry :=
  match kvUnregisterPrepare text call with
  | .error e => (.error e, registry)
  | .ok objectIdHash =>
    if (kvFindIntentLocked registry objectIdHash).isNone then (.error .enoent, registry)
    else (.ok call.buffer.length,
      registry.eraseP fun intent => intent.objectIdHash == objectIdHash)

end Writes

/-! ## The shrinker -/

def kvIsEvictable (intent : KvBlockIntent) : Bool :=
  if intent.priority = .decodeCritical ∧ intent.pinRequested then false
  else if intent.pinRequested then false
  else intent.priority = .cold ∨ intent.priority = .warm

def kvShrinkerCount (registry : Registry) : ℕ := registry.countP kvIsEvictable

/-- One iteration of the scan under the lock: the entry removed, if any, and what is left. -/
def kvScanRemoval (score : KvBlockIntent → ℤ) (registry : Registry) :
    Option (KvBlockIntent × Registry) :=
  Selection.takeBest kvIsEvictable score registry

/-- `kv_eviction_score` at a clock reading, as the `int` it leaves after any wrapping. -/
def scoreAt (now : Ktime) (intent : KvBlockIntent) : ℤ :=
  (kvEvictionScore intent (kvNowUs now)).value.toInt

/-- The scan, given the clock reading of each of its `nr_to_scan` iterations. -/
def kvShrinkerScan : List Ktime → Registry → ℕ × Registry
  | [], registry => (0, registry)
  | now :: clock, registry =>
    match kvScanRemoval (scoreAt now) registry with
    | none => (0, registry)
    | some (_, rest) =>
      let (freed, final) := kvShrinkerScan clock rest
      (freed + 1, final)

/-! ## Histories -/

/-- One section of the lock. -/
inductive Action where
  | register (call : RegisterWrite)
  | unregister (call : UnregisterWrite)
  | scanRemoval (score : KvBlockIntent → ℤ)

def step (text : KernelText) (registry : Registry) : Action → Registry
  | .register call => (kvRegisterWrite text call registry).2
  | .unregister call => (kvUnregisterWrite text call registry).2
  | .scanRemoval score => ((kvScanRemoval score registry).map Prod.snd).getD registry

/-- The registry after a history of sections. -/
def run (text : KernelText) (registry : Registry) (history : List Action) : Registry :=
  history.foldl (step text) registry

section Invariants

variable {text : KernelText} {registry : Registry}

/-- What a registry looks like at any time. -/
structure WellFormed (registry : Registry) : Prop where
  distinct : (registry.map KvBlockIntent.objectIdHash).Nodup
  pinned : ∀ intent ∈ registry, intent.priority = .decodeCritical → intent.pinRequested = true

/-- An entry the scan never takes. -/
def Protected (intent : KvBlockIntent) : Prop :=
  intent.priority = .hot ∨ intent.priority = .decodeCritical

theorem WellFormed.sublist {rest : Registry} (h : WellFormed registry)
    (hsub : rest.Sublist registry) : WellFormed rest :=
  ⟨h.distinct.sublist (hsub.map _), fun intent hin => h.pinned intent (hsub.subset hin)⟩

theorem not_evictable_of_protected {intent : KvBlockIntent} (h : Protected intent) :
    kvIsEvictable intent = false := by
  rcases h with h | h <;> simp [kvIsEvictable, h]

/-! ### What each section does -/

theorem kvRegisterPrepare_eq_ok {call : RegisterWrite} {intent : KvBlockIntent}
    (h : kvRegisterPrepare text call = .ok intent) :
    ∃ objectIdHash deadlineUs priority sizeBytes,
      intent = .register objectIdHash deadlineUs priority sizeBytes call.now := by
  unfold kvRegisterPrepare at h
  split at h
  · cases h
  split at h
  · cases h
  split at h
  · cases h
  next objectIdHash deadlineUs _ sizeBytes _ =>
    split at h
    · cases h
    next priority _ =>
      split at h
      · cases h
      split at h
      · cases h
      cases h
      exact ⟨objectIdHash, deadlineUs, priority, sizeBytes, rfl⟩

variable (text) in
/-- A register write fails and changes nothing, or appends its intent under a new id. -/
theorem kvRegisterWrite_cases (call : RegisterWrite) (registry : Registry) :
    (∃ e, kvRegisterWrite text call registry = (.error e, registry)) ∨
    ∃ intent, kvRegisterPrepare text call = .ok intent ∧
      intent.objectIdHash ∉ registry.map KvBlockIntent.objectIdHash ∧
      kvRegisterWrite text call registry = (.ok call.buffer.length, registry ++ [intent]) := by
  unfold kvRegisterWrite
  cases hprep : kvRegisterPrepare text call with
  | error e => exact .inl ⟨e, rfl⟩
  | ok intent =>
    cases hfind : kvFindIntentLocked registry intent.objectIdHash with
    | some found => exact .inl ⟨.eexist, by simp [hfind]⟩
    | none =>
      refine .inr ⟨intent, rfl, ?_, by simp [hfind]⟩
      intro hin
      obtain ⟨other, hother, hhash⟩ := List.mem_map.mp hin
      have := List.find?_eq_none.mp hfind other hother
      simp [hhash] at this

variable (text) in
/-- An unregister write fails and changes nothing, or deletes the first entry of the id it names. -/
theorem kvUnregisterWrite_cases (call : UnregisterWrite) (registry : Registry) :
    (∃ e, kvUnregisterWrite text call registry = (.error e, registry)) ∨
    ∃ objectIdHash, kvUnregisterPrepare text call = .ok objectIdHash ∧
      kvUnregisterWrite text call registry = (.ok call.buffer.length,
        registry.eraseP fun intent => intent.objectIdHash == objectIdHash) := by
  unfold kvUnregisterWrite
  cases hprep : kvUnregisterPrepare text call with
  | error e => exact .inl ⟨e, rfl⟩
  | ok objectIdHash =>
    cases hfind : kvFindIntentLocked registry objectIdHash with
    | none => exact .inl ⟨.enoent, by simp [hfind]⟩
    | some found => exact .inr ⟨objectIdHash, rfl, by simp [hfind]⟩

theorem step_scanRemoval_sublist (score : KvBlockIntent → ℤ) (registry : Registry) :
    (step text registry (.scanRemoval score)).Sublist registry := by
  simp only [step, kvScanRemoval]
  rcases Selection.takeBest_cases kvIsEvictable score registry with
    ⟨hnone, -⟩ | ⟨pre, x, post, hfirst, htake⟩
  · simp [hnone]
  · rw [htake, hfirst.split]
    simp

/-! ### Every history -/

theorem WellFormed.step (h : WellFormed registry) (action : Action) :
    WellFormed (step text registry action) := by
  cases action with
  | register call =>
    simp only [KvIntentShrinker.step]
    rcases kvRegisterWrite_cases text call registry with
      ⟨e, heq⟩ | ⟨intent, hprep, hnew, heq⟩
    · rw [heq]
      exact h
    · obtain ⟨objectIdHash, deadlineUs, priority, sizeBytes, rfl⟩ := kvRegisterPrepare_eq_ok hprep
      rw [heq]
      constructor
      · rw [List.map_append, List.map_singleton, ← List.concat_eq_append]
        exact h.distinct.concat hnew
      · intro other hother hcritical
        rcases List.mem_append.mp hother with hother | hother
        · exact h.pinned other hother hcritical
        · rw [List.mem_singleton.mp hother] at hcritical ⊢
          exact decide_eq_true hcritical
  | unregister call =>
    simp only [KvIntentShrinker.step]
    rcases kvUnregisterWrite_cases text call registry with ⟨e, heq⟩ | ⟨id, -, heq⟩
    · rw [heq]
      exact h
    · rw [heq]
      exact h.sublist List.eraseP_sublist
  | scanRemoval score => exact h.sublist (step_scanRemoval_sublist score registry)

theorem WellFormed.run (h : WellFormed registry) (history : List Action) :
    WellFormed (run text registry history) := by
  induction history generalizing registry with
  | nil => exact h
  | cons action history ih => exact ih (h.step action)

/-- The history has no unregister write that names `objectIdHash`. -/
def NeverNamed (text : KernelText) (objectIdHash : BitVec 64) (history : List Action) : Prop :=
  ∀ call, .unregister call ∈ history → kvUnregisterPrepare text call ≠ .ok objectIdHash

/-- A protected entry outlives any section but an unregister write that names it. -/
theorem mem_step_of_protected {intent : KvBlockIntent} (hin : intent ∈ registry)
    (hprotected : Protected intent) {action : Action}
    (hnamed : ∀ call, action = .unregister call →
      kvUnregisterPrepare text call ≠ .ok intent.objectIdHash) :
    intent ∈ step text registry action := by
  cases action with
  | register call =>
    simp only [step]
    rcases kvRegisterWrite_cases text call registry with ⟨e, heq⟩ | ⟨other, -, -, heq⟩
    · rw [heq]
      exact hin
    · rw [heq]
      exact List.mem_append_left _ hin
  | unregister call =>
    simp only [step]
    rcases kvUnregisterWrite_cases text call registry with ⟨e, heq⟩ | ⟨id, hprep, heq⟩
    · rw [heq]
      exact hin
    · rw [heq]
      refine (List.mem_eraseP_of_neg ?_).mpr hin
      intro hsame
      have hid : intent.objectIdHash = id := by simpa using hsame
      exact hnamed call rfl (hid ▸ hprep)
  | scanRemoval score =>
    simp only [step, kvScanRemoval]
    rcases Selection.takeBest_cases kvIsEvictable score registry with
      ⟨hnone, -⟩ | ⟨pre, x, post, hfirst, htake⟩
    · simpa [hnone] using hin
    · have hne : intent ≠ x := by
        rintro rfl
        have := hfirst.admitted
        rw [not_evictable_of_protected hprotected] at this
        cases this
      rw [hfirst.split, List.mem_append, List.mem_cons] at hin
      simp only [htake, Option.map_some, Option.getD_some, List.mem_append]
      tauto

theorem mem_run_of_protected {intent : KvBlockIntent} {history : List Action}
    (hin : intent ∈ registry) (hprotected : Protected intent)
    (hnamed : NeverNamed text intent.objectIdHash history) :
    intent ∈ run text registry history := by
  induction history generalizing registry with
  | nil => exact hin
  | cons action history ih =>
    refine ih (mem_step_of_protected hin hprotected ?_) ?_
    · rintro call rfl
      exact hnamed call List.mem_cons_self
    · exact fun call hcall => hnamed call (List.mem_cons_of_mem _ hcall)

/-- Over every history from the empty registry: ids are distinct, `DECODE_CRITICAL` entries are pinned,
a write that fails changes nothing, a write that succeeds stores its intent, and a `HOT` or
`DECODE_CRITICAL` entry stays until an unregister write names its id. -/
theorem history_keeps_registry (text : KernelText) (history : List Action) :
    WellFormed (run text [] history) ∧
    (∀ call e, (kvRegisterWrite text call (run text [] history)).1 = .error e →
      (kvRegisterWrite text call (run text [] history)).2 = run text [] history) ∧
    (∀ call e, (kvUnregisterWrite text call (run text [] history)).1 = .error e →
      (kvUnregisterWrite text call (run text [] history)).2 = run text [] history) ∧
    (∀ call count, (kvRegisterWrite text call (run text [] history)).1 = .ok count →
      ∃ intent, kvRegisterPrepare text call = .ok intent ∧
        intent ∈ run text [] (history ++ [.register call])) ∧
    ∀ intent ∈ run text [] history, Protected intent →
      ∀ later, NeverNamed text intent.objectIdHash later →
        intent ∈ run text [] (history ++ later) := by
  have hempty : WellFormed [] := ⟨List.nodup_nil, by simp⟩
  refine ⟨hempty.run history, ?_, ?_, ?_, ?_⟩
  · intro call e hfail
    rcases kvRegisterWrite_cases text call (run text [] history) with
      ⟨e', heq⟩ | ⟨intent, -, -, heq⟩
    · rw [heq]
    · rw [heq] at hfail
      cases hfail
  · intro call e hfail
    rcases kvUnregisterWrite_cases text call (run text [] history) with
      ⟨e', heq⟩ | ⟨id, -, heq⟩
    · rw [heq]
    · rw [heq] at hfail
      cases hfail
  · intro call count hok
    rcases kvRegisterWrite_cases text call (run text [] history) with
      ⟨e', heq⟩ | ⟨intent, hprep, -, heq⟩
    · rw [heq] at hok
      cases hok
    · refine ⟨intent, hprep, ?_⟩
      rw [run, List.foldl_append]
      simp only [List.foldl_cons, List.foldl_nil, step]
      rw [run] at heq
      rw [heq]
      simp
  · intro intent hin hprotected later hnamed
    rw [run, List.foldl_append]
    exact mem_run_of_protected hin hprotected hnamed

end Invariants

end KvIntentShrinker
