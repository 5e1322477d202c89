-- SUMMARY: The adapter's cache against its log: after calls that return, a block is cached as it was recorded last.
import KVDeadlineScheduler.Adapter.Actions

/-!
# The cache mirrors the log

A hook caches a block before it records it, and may record it several times. In
between, the cache is ahead of the log at one key. A hook that returns has caught
up at each key it has fetched.
-/

namespace KVMemoryIntent

namespace VLLMIntentAdapter

open Stateful (Wp)

/-- What is cached under a key, against the last event for it. -/
structure Mirrored (cached : Option ValidIntent) (last : Option MemoryIntentEvent) : Prop where
  agrees : ∀ block, cached = some block → ∃ event, last = some event ∧ block.1 = event.intent
  kept : ∀ event, last = some event → event.eventType ≠ .freed → cached.isSome

def Mirrors (adapter : VLLMIntentAdapter) : Prop :=
  ∀ key, Mirrored (adapter.blocks.get? key) (adapter.lastEvent key)

/-- The cache may be ahead of the log at one key. -/
def MirrorsBut (key : String × ℤ) (adapter : VLLMIntentAdapter) : Prop :=
  ∀ k, k ≠ key → Mirrored (adapter.blocks.get? k) (adapter.lastEvent k)

section Steps

variable {s : VLLMIntentAdapter} {key : String × ℤ}

theorem Mirrors.caching (h : s.Mirrors) (key : String × ℤ) (block : ValidIntent) :
    (s.caching key block).MirrorsBut key := by
  intro k hne
  unfold VLLMIntentAdapter.caching
  rw [OrderedDict.get?_set_of_ne _ _ hne]
  exact h k

/-- A cached block has the ids of its key, as the event it mirrors has. -/
theorem Mirrors.blockKey (h : s.Mirrors) {cached : ValidIntent} (hget : s.blocks.get? key = some cached) :
    cached.1.blockKey = key := by
  obtain ⟨event, hlast, heq⟩ := (h key).agrees cached hget
  have hkey := Journal.key_of_last hlast
  rwa [heq]

/-- Recording catches up at the key of the event. -/
theorem MirrorsBut.recorded {event : MemoryIntentEvent} (h : s.MirrorsBut event.intent.blockKey) :
    (s.recorded event).Mirrors := by
  intro k
  by_cases hk : k = event.intent.blockKey
  · have hcached : (s.recorded event).blocks.get? k = some ⟨event.intent, event.intent_valid⟩ := by
      rw [hk]
      exact OrderedDict.get?_set_self _ _ _
    rw [hcached, hk, lastEvent_recorded]
    refine ⟨fun block hblock => ?_, fun _ _ _ => rfl⟩
    cases hblock
    exact ⟨event, rfl, rfl⟩
  · have hcached : (s.recorded event).blocks.get? k = s.blocks.get? k :=
      OrderedDict.get?_set_of_ne _ _ hk
    rw [hcached, lastEvent_recorded_of_ne hk]
    exact h k hk

/-- A key may leave the cache once the last event for it frees its block. -/
theorem Mirrors.erase (h : s.Mirrors) {event : MemoryIntentEvent} (hlast : s.lastEvent key = some event)
    (hfreed : event.eventType = .freed) :
    Mirrors { s with blocks := s.blocks.erase key } := by
  intro k
  by_cases hk : k = key
  · have hgone : (s.blocks.erase key).get? k = none := by
      rw [hk]
      exact OrderedDict.get?_erase_self _ _
    have hlast' : s.lastEvent k = some event := by rw [hk, hlast]
    refine ⟨fun block hblock => ?_, fun e he hne => ?_⟩
    · rw [hgone] at hblock
      cases hblock
    · have heq : some event = some e := hlast'.symm.trans he
      cases heq
      exact absurd hfreed hne
  · have hsame : (s.blocks.erase key).get? k = s.blocks.get? k := OrderedDict.get?_erase_of_ne _ hk
    have hmirrored := h k
    rw [← hsame] at hmirrored
    exact hmirrored

/-- While a hook works on a block, the cache is ahead of the log at its key only. -/
theorem mirrors_actions :
    KeptByActions .all Mirrors (fun key m s => s.MirrorsBut key ∧ m.blockKey = key) fun _ => True where
  raise _ := trivial
  raiseWork _ := trivial
  noted h _ _ := h
  settled _ h _ := h
  settledWork _ h _ := h
  forgotten h _ := h
  blockKey h := h.2
  cached h hget := ⟨fun k _ => h k, h.blockKey hget⟩
  refreshed h hget _ hfields := ⟨h.caching _ _, hfields.blockKey.trans (h.blockKey hget)⟩
  made h _ hmade := ⟨⟨fun k _ => h k, hmade.blockKey⟩, h.caching _ _, hmade.blockKey⟩
  changed h hfields := ⟨h.1, hfields.blockKey.trans h.2⟩
  recorded h _ := by
    obtain ⟨hbut, rfl⟩ := h
    exact hbut.recorded
  erased h hlast hfreed := h.erase hlast hfreed

end Steps

/-! ## Calls -/

/-- After calls that return, a cached block is the intent of the last event for it, and only a block
whose last event frees it may be missing from the cache. -/
theorem cache_mirrors_log (defaultBlockSizeBytes : ℤ) (defaultAllowedTiers : Option (Finset Tier))
    (calls : List HookCall) {events : List MemoryIntentEvent} {after : VLLMIntentAdapter}
    (h : (Stateful.forEach HookCall.run calls).run (init none defaultBlockSizeBytes defaultAllowedTiers) =
      (.ok events, after)) (requestId : String) (blockId : ℤ) :
    (∀ block, after.blocks.get? (requestId, blockId) = some block →
      ∃ event, after.lastEvent (requestId, blockId) = some event ∧ block.1 = event.intent) ∧
    (∀ event, after.lastEvent (requestId, blockId) = some event → event.eventType ≠ .freed →
      (after.blocks.get? (requestId, blockId)).isSome) := by
  have hinit : (init none defaultBlockSizeBytes defaultAllowedTiers).Mirrors := by
    intro key
    refine ⟨fun block hblock => ?_, fun event hevent => ?_⟩
    · cases hblock
    · cases hevent
  have hrun : Wp (Stateful.forEach HookCall.run calls) (fun _ u => u.Mirrors) (fun _ _ => True)
      (init none defaultBlockSizeBytes defaultAllowedTiers) :=
    Wp.forEach hinit fun call _ u hu => mirrors_actions.run call call.permitted_all hu
  have hkey := hrun.of_ok h (requestId, blockId)
  exact ⟨hkey.agrees, hkey.kept⟩

/-- A block is decoded twice in one call, another is freed, and a third leaves the cache with its request. -/
theorem cache_mirrors_log_decode :
    ∃ events after,
      (Stateful.forEach HookCall.run
        [.decodeStep 0 "a" [0, 0] (some 100) none, .blockFreed 1 "a" 1, .requestFinished 2 "b" [0]]).run
          (init none 16384 none) = (.ok events, after) ∧
      ((after.blocks.get? ("a", 0)).isSome ∧ (after.blocks.get? ("a", 1)).isSome ∧
        (after.blocks.get? ("b", 0)).isNone) ∧
      ∀ block, after.blocks.get? ("a", 0) = some block →
        ∃ event, after.lastEvent ("a", 0) = some event ∧ block.1 = event.intent := by
  obtain ⟨events, after, hrun, hcheck⟩ := Stateful.exists_of_check
    (x := Stateful.forEach HookCall.run
      [.decodeStep 0 "a" [0, 0] (some 100) none, .blockFreed 1 "a" 1, .requestFinished 2 "b" [0]])
    (s := init none 16384 none)
    (p := fun _ t => (t.blocks.get? ("a", 0)).isSome && (t.blocks.get? ("a", 1)).isSome &&
      (t.blocks.get? ("b", 0)).isNone) (by decide +kernel)
  simp only [Bool.and_eq_true] at hcheck
  exact ⟨events, after, hrun, ⟨hcheck.1.1, hcheck.1.2, hcheck.2⟩,
    (cache_mirrors_log 16384 none _ hrun "a" 0).1⟩

end VLLMIntentAdapter

end KVMemoryIntent
