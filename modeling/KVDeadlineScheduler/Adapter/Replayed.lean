-- SUMMARY: The adapter's log replayed: it never fails, and every object that lives in the simulator is still in the adapter's cache.
import KVDeadlineScheduler.Adapter.Mirror
import KVDeadlineScheduler.Simulator.Floats
import KVDeadlineScheduler.Simulator.Latency
import KVDeadlineScheduler.Simulator.Lifetime

/-!
# The adapter and the simulator

The adapter caches blocks and records events, and the simulator replays the events.
A block leaves the cache only after its last event freed it, so the simulator has
no live object that the adapter has forgotten. This holds across calls that raise.
-/

namespace KVMemoryIntent

/-- An object that is live after some events has a last event, which does not free it. -/
theorem Standing.last_of_foldl {id : String} {events : List MemoryIntentEvent} {standing : Standing}
    (h : events.foldl (Standing.after id) none = some standing) :
    ∃ event, Journal.last MemoryIntentEvent.objectId events id = some event ∧ event.eventType ≠ .freed := by
  induction events using List.reverseRecOn generalizing standing with
  | nil => cases h
  | append_singleton events e ih =>
    rw [List.foldl_append, List.foldl_cons, List.foldl_nil] at h
    by_cases heq : e.objectId = id
    · refine ⟨e, heq ▸ Journal.last_append_self, fun hfreed => ?_⟩
      simp only [Standing.after, if_pos heq, hfreed] at h
      cases h
    · rw [Standing.after_of_ne heq] at h
      rw [Journal.last_append_of_ne (Ne.symm heq)]
      exact ih h

namespace VLLMIntentAdapter

open Stateful (Wp)

/-- A block filed under a key, with the object id of that key. -/
structure NamedBy (tiers : Finset Tier) (key : String × ℤ) (block : MemoryIntent) : Prop where
  filed : FiledUnder tiers key block
  objectId : block.objectId = objectId key.1 key.2

theorem NamedBy.refreshed {tiers : Finset Tier} {key : String × ℤ} {requestPriority : Option ℤ}
    {m m' : MemoryIntent} (h : NamedBy tiers key m) (hfields : RefreshedWith requestPriority m m') :
    NamedBy tiers key m' :=
  ⟨h.filed.refreshed hfields, hfields.objectId.trans h.objectId⟩

theorem NamedBy.blockKey {tiers : Finset Tier} {key : String × ℤ} {m : MemoryIntent}
    (h : NamedBy tiers key m) : m.blockKey = key := Prod.ext h.filed.requestId h.filed.blockId

/-- The log holds events of named blocks, and a block whose last event is not its free is cached. -/
structure Tracks (tiers : Finset Tier) (adapter : VLLMIntentAdapter) : Prop where
  defaults : adapter.defaultAllowedTiers = tiers
  cached : ∀ key block, adapter.blocks.get? key = some block → NamedBy tiers key block.1
  logged : ∀ event ∈ adapter.recorder.events,
    NamedBy tiers event.intent.blockKey event.intent ∧ event.eventType ≠ .prefetched
  kept : ∀ key event, adapter.lastEvent key = some event → event.eventType ≠ .freed →
    (adapter.blocks.get? key).isSome

section Steps

variable {tiers : Finset Tier} {s : VLLMIntentAdapter} {key : String × ℤ}

theorem Tracks.caching (h : s.Tracks tiers) {block : ValidIntent} (hnamed : NamedBy tiers key block.1) :
    (s.caching key block).Tracks tiers where
  defaults := h.defaults
  cached k b hb := by
    unfold VLLMIntentAdapter.caching at hb
    rw [OrderedDict.get?_set] at hb
    split at hb
    next heq =>
      cases hb
      exact heq ▸ hnamed
    next => exact h.cached k b hb
  logged := h.logged
  kept k event hlast hfreed := by
    unfold VLLMIntentAdapter.caching
    rw [OrderedDict.get?_set]
    split
    next => rfl
    next => exact h.kept k event hlast hfreed

theorem Tracks.recorded (h : s.Tracks tiers) {event : MemoryIntentEvent}
    (hnamed : NamedBy tiers key event.intent) (htype : event.eventType ≠ .prefetched) :
    (s.recorded event).Tracks tiers := by
  have hkey : event.intent.blockKey = key := hnamed.blockKey
  have hcached : (s.caching key ⟨event.intent, event.intent_valid⟩).Tracks tiers := h.caching hnamed
  constructor
  case defaults => exact h.defaults
  case cached =>
    intro k b hb
    refine hcached.cached k b ?_
    rw [← hkey]
    exact hb
  case logged =>
    intro e he
    rcases List.mem_append.mp he with he | he
    · exact h.logged e he
    · rw [List.mem_singleton.mp he]
      exact ⟨hkey ▸ hnamed, htype⟩
  case kept =>
    intro k e hlast hfreed
    by_cases hk : k = event.intent.blockKey
    · rw [hk]
      show ((s.blocks.set event.intent.blockKey _).get? event.intent.blockKey).isSome
      rw [OrderedDict.get?_set_self]
      rfl
    · rw [lastEvent_recorded_of_ne hk] at hlast
      show ((s.blocks.set event.intent.blockKey _).get? k).isSome
      rw [OrderedDict.get?_set_of_ne _ _ hk]
      exact h.kept k e hlast hfreed

theorem Tracks.erase (h : s.Tracks tiers) {event : MemoryIntentEvent} (hlast : s.lastEvent key = some event)
    (hfreed : event.eventType = .freed) : Tracks tiers { s with blocks := s.blocks.erase key } where
  defaults := h.defaults
  cached k b hb := by
    rw [OrderedDict.get?_erase] at hb
    split at hb
    next => cases hb
    next => exact h.cached k b hb
  logged := h.logged
  kept k e he hne := by
    rw [OrderedDict.get?_erase]
    split
    next heq =>
      subst heq
      obtain rfl : event = e := Option.some.inj (hlast.symm.trans he)
      exact absurd hfreed hne
    next => exact h.kept k e he hne

/-- The metadata of requests is not tracked. -/
theorem Tracks.noting (h : s.Tracks tiers) (requestMetadata : OrderedDict String RequestMetadata) :
    Tracks tiers { s with requestMetadata := requestMetadata } :=
  ⟨h.defaults, h.cached, h.logged, h.kept⟩

theorem tracks_actions (tiers : Finset Tier) :
    KeptByActions .all (Tracks tiers) (fun key m s => s.Tracks tiers ∧ NamedBy tiers key m)
      (Tracks tiers) where
  raise h := h
  raiseWork h := h.1
  noted h _ _ := h.noting _
  settled _ h _ := h.noting _
  settledWork _ h _ := ⟨h.1.noting _, h.2⟩
  forgotten h _ := h.noting _
  blockKey h := h.2.blockKey
  cached h hget := ⟨h, h.cached _ _ hget⟩
  refreshed h hget _ hfields := by
    have hnamed := (h.cached _ _ hget).refreshed hfields
    exact ⟨h.caching hnamed, hnamed⟩
  made {_ key _ block} h _ hmade := by
    have hnamed : NamedBy tiers key block.1 :=
      ⟨⟨hmade.requestId, hmade.blockId, hmade.allowedTiers.trans h.defaults⟩, hmade.objectId⟩
    exact ⟨⟨h, hnamed⟩, h.caching hnamed, hnamed⟩
  changed h hfields := ⟨h.1, h.2.refreshed hfields⟩
  recorded h htype := h.1.recorded h.2 htype
  erased h hlast hfreed := h.erase hlast hfreed

end Steps

/-! ## The log and the cache -/

theorem tracks_init (defaultBlockSizeBytes : ℤ) (defaultAllowedTiers : Option (Finset Tier)) :
    (init none defaultBlockSizeBytes defaultAllowedTiers).Tracks
      (init none defaultBlockSizeBytes defaultAllowedTiers).defaultAllowedTiers where
  defaults := rfl
  cached key block hblock := by cases hblock
  logged event hevent := by cases hevent
  kept key event hlast := by cases hlast

theorem tracks_afterCalls (defaultBlockSizeBytes : ℤ) (defaultAllowedTiers : Option (Finset Tier))
    (calls : List HookCall) :
    ((init none defaultBlockSizeBytes defaultAllowedTiers).afterCalls calls).Tracks
      (init none defaultBlockSizeBytes defaultAllowedTiers).defaultAllowedTiers :=
  afterCalls_invariant (tracks_init defaultBlockSizeBytes defaultAllowedTiers)
    fun call _ _ hs => (tracks_actions _).run call call.permitted_all hs

/-- What is live at the end of the log is cached under a key of that object. -/
theorem Tracks.cached_of_standing {adapter : VLLMIntentAdapter} {tiers : Finset Tier} {id : String}
    {standing : Standing} (h : adapter.Tracks tiers)
    (hlive : adapter.recorder.events.foldl (Standing.after id) none = some standing) :
    ∃ key block, adapter.blocks.get? key = some block ∧ block.1.objectId = id := by
  obtain ⟨event, hlast, hfreed⟩ := Standing.last_of_foldl hlive
  have hid : event.objectId = id := Journal.key_of_last hlast
  have hmem : event ∈ adapter.recorder.events := Journal.mem_of_last hlast
  have hnamed := (h.logged event hmem).1
  have hkey : adapter.lastEvent event.intent.blockKey = some event := by
    have hcoarse : Journal.last MemoryIntentEvent.objectId adapter.recorder.events event.objectId =
        some event := by rw [hid, hlast]
    refine Journal.last_of_coarser hcoarse fun e he hsame => ?_
    have hother := (h.logged e he).1.objectId
    rw [hsame] at hother
    exact hother.trans hnamed.objectId.symm
  obtain ⟨block, hblock⟩ := Option.isSome_iff_exists.mp (h.kept _ event hkey hfreed)
  have hfiled := (h.cached _ block hblock).objectId
  exact ⟨_, block, hblock, hfiled.trans (hnamed.objectId.symm.trans hid)⟩

/-- The log replays to the end. What the simulator then holds is cached, and if nothing is cached, it
holds nothing. -/
theorem Tracks.replays {adapter : VLLMIntentAdapter} {tiers : Finset Tier} (h : adapter.Tracks tiers)
    (hhbm : .hbm ∈ tiers) (hother : ∃ tier ∈ tiers, tier ≠ .hbm) (sim : KVMemorySimulator)
    (order : SetOrder) :
    ∃ s result, sim.run order SimulatorState.initial adapter.recorder.events = .ok (s, result) ∧
      (∀ id, (s.liveBlocks.get? id).isSome →
        ∃ key block, adapter.blocks.get? key = some block ∧ block.1.objectId = id) ∧
      (adapter.blocks.keys = [] → s.liveBlocks.keys = [] ∧ s.hbmBlocks = ∅ ∧ s.dramBlocks = ∅) := by
  obtain ⟨s, result, hrun⟩ := KVMemorySimulator.run_total_of_everywhere sim order hhbm hother
    fun e he => (h.logged e he).1.filed.allowedTiers
  have hreplay := (KVMemorySimulator.run_ok hrun).1
  have hconsistent := KVMemorySimulator.replay_consistent SimulatorState.consistent_initial hreplay
  have hstanding : ∀ id, s.standing id = adapter.recorder.events.foldl (Standing.after id) none :=
    KVMemorySimulator.replay_standing SimulatorState.consistent_initial
      (fun e he => (h.logged e he).2) hreplay
  have hcached : ∀ id standing, s.standing id = some standing →
      ∃ key block, adapter.blocks.get? key = some block ∧ block.1.objectId = id :=
    fun id standing hlive => h.cached_of_standing ((hstanding id).symm.trans hlive)
  refine ⟨s, result, hrun, fun id hlive => ?_, fun hempty => ?_⟩
  · obtain ⟨block, hblock⟩ := Option.isSome_iff_exists.mp hlive
    exact hcached id block.standing (by rw [SimulatorState.standing, hblock, Option.map_some])
  · refine KVMemorySimulator.resident_empty hconsistent fun id => ?_
    by_contra hlive
    obtain ⟨standing, hlive⟩ := Option.ne_none_iff_exists'.mp hlive
    obtain ⟨key, block, hblock, -⟩ := hcached id standing hlive
    have hkey : key ∈ adapter.blocks.keys := OrderedDict.mem_keys_iff.mpr ⟨block, hblock⟩
    rw [hempty] at hkey
    cases hkey

/-- The log of an adapter, after calls of which some may have raised, replays to the end when no number
in it is too large for a float. What the simulator then holds, the adapter has cached, and if its cache
is empty, so is the simulator. -/
theorem log_replays_to_cached (sim : KVMemorySimulator)
    (hp : sim.policy.AccessBased ∨ sim.policy.IntentAware) (order : SetOrder) (defaultBlockSizeBytes : ℤ)
    (defaultAllowedTiers : Option (Finset Tier)) (calls : List HookCall) {adapter : VLLMIntentAdapter}
    (hadapter : adapter = (init none defaultBlockSizeBytes defaultAllowedTiers).afterCalls calls)
    (hrange : ∀ e ∈ adapter.recorder.events, e.InFloatRange)
    (hhbm : .hbm ∈ adapter.defaultAllowedTiers)
    (hother : ∃ tier ∈ adapter.defaultAllowedTiers, tier ≠ .hbm) :
    ∃ s result, sim.runInFloats order SimulatorState.initial adapter.recorder.events = .ok (s, result) ∧
      (∀ id, (s.liveBlocks.get? id).isSome →
        ∃ key block, adapter.blocks.get? key = some block ∧ block.1.objectId = id) ∧
      (adapter.blocks.keys = [] → s.liveBlocks.keys = [] ∧ s.hbmBlocks = ∅ ∧ s.dramBlocks = ∅) := by
  have htracks := tracks_afterCalls defaultBlockSizeBytes defaultAllowedTiers calls
  rw [← hadapter] at htracks
  rw [htracks.defaults] at hhbm hother
  obtain ⟨s, result, hrun, hcached, hempty⟩ := htracks.replays hhbm hother sim order
  have hfloats := PlacementPolicy.floatsFit_of_cases hp
  exact ⟨s, result, KVMemorySimulator.runInFloats_of_ok hfloats hrange hrun, hcached, hempty⟩

/-- One call raises after its first block. The request that it was for then finishes. -/
theorem log_replays_to_cached_finished :
    ∃ adapter s result,
      adapter = (init none 16384 none).afterCalls
        [.prefillStep 0 "req" [0, -1], .blockAccessed 1 "req" 0 .decode true, .requestFinished 2 "req" [0]] ∧
      adapter.recorder.events.length = 4 ∧
      KVMemorySimulator.oneBlockHbm.runInFloats SetOrder.fastestFirst SimulatorState.initial
        adapter.recorder.events = .ok (s, result) ∧
      s.liveBlocks.keys = [] ∧ s.hbmBlocks = ∅ ∧ s.dramBlocks = ∅ := by
  have hname : policyFromName "lru" = .ok KVMemorySimulator.oneBlockHbm.policy := rfl
  obtain ⟨s, result, hrun, -, hempty⟩ := log_replays_to_cached KVMemorySimulator.oneBlockHbm
    (policyFromName_cases hname) SetOrder.fastestFirst 16384 none
    [.prefillStep 0 "req" [0, -1], .blockAccessed 1 "req" 0 .decode true, .requestFinished 2 "req" [0]] rfl
    (by decide +kernel) (by decide +kernel) ⟨.dram, by decide +kernel, by decide⟩
  exact ⟨_, s, result, rfl, by decide +kernel, hrun, hempty (by decide +kernel)⟩

end VLLMIntentAdapter

end KVMemoryIntent
