-- SUMMARY: What the adapter remembers of a freed block: freed by its own hook it stays cached, freed with its request it is gone.
import KVDeadlineScheduler.Adapter.Failures

/-!
# Freed blocks

The hook that frees a block records the freeing event like any other, and
recording caches. Only the end of a request takes its blocks out of the cache
again, so a block freed on its own is found by the next hook that names it.
-/

namespace KVMemoryIntent

namespace VLLMIntentAdapter

open Stateful (Wp)

section Touch

variable {requestId : String} {blockId step : ℤ} {s : VLLMIntentAdapter}
  {options : BlockOptions} {change : MemoryIntent → MemoryIntent} {eventType : EventType}
  {reason : String}

/-- A hook on one block caches what it records, under the key it was called with. -/
theorem touch_caches (h : s.Coherent) (hchange : KeepsFiling change) :
    Wp (touch step requestId blockId options change eventType reason)
      (fun event u => u.Coherent ∧
        u.blocks.get? (requestId, blockId) = some ⟨event.intent, event.intent_valid⟩)
      (fun _ _ => True) s := by
  have hin : blockId ∈ [blockId] := List.mem_singleton_self blockId
  have hwithin : Within requestId [blockId] s s := .refl h
  refine ((hwithin.getOrCreateBlock hin options).mono (fun _ _ hu => hu) fun _ _ _ => trivial).bind
    fun made u hmade => ?_
  obtain ⟨hu, hfiled⟩ := hmade
  have hchanged := hchange.filedUnder hfiled
  refine ((hu.validated hchanged).mono (fun _ _ hv => hv) fun _ _ _ => trivial).bind fun intent v hv => ?_
  refine wp_emit (fun _ event _ _ hintent => ?_) fun _ _ => trivial
  have hevent : FiledUnder v.defaultAllowedTiers (requestId, blockId) event.intent := by
    rw [hintent]
    exact hv.2
  have hkey : (requestId, blockId) = (event.intent.requestId, event.intent.blockId) :=
    Prod.ext hevent.requestId.symm hevent.blockId.symm
  refine ⟨(hv.1.recorded hin hevent).coherent, ?_⟩
  rw [hkey]
  exact OrderedDict.get?_set_self _ _ _

/-- On a cached block the hook gives its usual reason, and the block keeps the step of its creation. -/
theorem touch_of_cached {cached : ValidIntent}
    (hget : s.blocks.get? (requestId, blockId) = some cached)
    (hchange : ∀ m, (change m).createdStep = m.createdStep) :
    Wp (touch step requestId blockId options change eventType reason)
      (fun event _ => event.reason = some reason ∧ event.intent.createdStep = cached.1.createdStep)
      (fun _ _ => True) s := by
  rw [touch, Stateful.wp_bind]
  refine wp_getOrCreateBlock_fields (fun found hfound block hblock => ?_) (fun hnone => ?_)
    (fun _ _ => trivial) fun _ _ => trivial
  · rw [hget] at hfound
    cases hfound
    have hcreated : block.1.createdStep = cached.1.createdStep := by
      rw [(MemoryIntent.postInit_ok hblock).1]
      rfl
    dsimp only
    rw [Stateful.wp_bind]
    refine wp_validated (fun v hv => ?_) fun _ => trivial
    refine wp_emit_reason (fun _ event _ _ hintent hreason => ⟨hreason, ?_⟩) fun _ _ => trivial
    rw [hintent, hv]
    exact (hchange block.1).trans hcreated
  · rw [hget] at hnone
    cases hnone

theorem onBlockFreed_caches (h : s.Coherent) :
    Wp (onBlockFreed step requestId blockId)
      (fun event u => u.Coherent ∧
        u.blocks.get? (requestId, blockId) = some ⟨event.intent, event.intent_valid⟩)
      (fun _ _ => True) s := by
  rw [onBlockFreed_eq]
  refine touch_caches h ?_
  exact fun _ => ⟨rfl, rfl, rfl⟩

theorem onBlockAccessed_of_cached {cached : ValidIntent}
    (hget : s.blocks.get? (requestId, blockId) = some cached) (phase : Phase)
    (decodeCritical : Bool) :
    Wp (onBlockAccessed step requestId blockId phase decodeCritical)
      (fun event _ => event.reason = some "vLLM-style block access" ∧
        event.intent.createdStep = cached.1.createdStep) (fun _ _ => True) s := by
  rw [onBlockAccessed_eq]
  refine touch_of_cached hget ?_
  exact fun _ => rfl

end Touch

/-! ## Spilling -/

/-- A spill emits an event for a block that is cached, and takes nothing out of the cache. -/
theorem spillBlock_emits {s : VLLMIntentAdapter} (h : s.Coherent) (step : ℤ) (requestId : String)
    (blockId : ℤ) :
    Wp (spillBlock step requestId blockId)
      (fun events u => u.Coherent ∧
        (∀ key, (s.blocks.get? key).isSome → (u.blocks.get? key).isSome) ∧
        ((s.blocks.get? (requestId, blockId)).isSome →
          ∃ event ∈ events, event.intent.requestId = requestId ∧ event.intent.blockId = blockId))
      (fun _ _ => True) s := by
  have hin : blockId ∈ [blockId] := List.mem_singleton_self blockId
  rw [spillBlock, Stateful.wp_bind, Stateful.wp_get]
  cases hget : s.blocks.get? (requestId, blockId) with
  | none => exact ⟨h, fun _ hkey => hkey, fun hsome => by cases hsome⟩
  | some block =>
    have hfiled := h _ block hget
    dsimp only
    rw [Stateful.wp_bind]
    refine wp_validated (fun v hv => ?_) fun _ => trivial
    rw [Stateful.wp_bind]
    refine wp_emit (fun _ event _ _ hintent => ?_) fun _ _ => trivial
    have hevent : FiledUnder s.defaultAllowedTiers (requestId, blockId) event.intent := by
      rw [hintent, hv]
      exact hfiled.of_eq rfl rfl rfl
    refine ⟨((Within.refl h).recorded hin hevent).coherent, fun key hkey => ?_, fun _ => ?_⟩
    · unfold recorded
      rw [OrderedDict.get?_set]
      split
      · rfl
      · exact hkey
    · exact ⟨event, List.mem_singleton_self event, hevent.requestId, hevent.blockId⟩

/-- A spilled sequence emits an event for each of its blocks that is cached. -/
theorem emitSequenceSpill_emits {s : VLLMIntentAdapter} (h : s.Coherent) {sequence : Sequence}
    {requestId : String} {blockId : ℤ} (hrequest : sequenceRequestId sequence = .ok requestId)
    (hblock : blockId ∈ sequenceBlockIds sequence)
    (hcached : (s.blocks.get? (requestId, blockId)).isSome) :
    Wp (emitSequenceSpill sequence)
      (fun events _ => ∃ event ∈ events,
        event.intent.requestId = requestId ∧ event.intent.blockId = blockId)
      (fun _ _ => True) s := by
  rw [emitSequenceSpill, Stateful.wp_bind]
  refine Stateful.wp_lift (fun r hr => ?_) fun _ _ => trivial
  rw [hrequest] at hr
  cases hr
  refine (Stateful.wp_forEach (E := fun _ _ => True)
    (I := fun done collected u => u.Coherent ∧ (u.blocks.get? (requestId, blockId)).isSome ∧
      (blockId ∈ done → ∃ event ∈ collected,
        event.intent.requestId = requestId ∧ event.intent.blockId = blockId))
    ⟨h, hcached, fun hdone => by cases hdone⟩
    fun done b rest collected u _ hu => ?_).mono (fun _ _ hu => hu.2.2 hblock) fun _ _ _ => trivial
  obtain ⟨hcoherent, hsome, hdone⟩ := hu
  refine (spillBlock_emits hcoherent _ requestId b).mono (fun events v hv => ?_) fun _ _ _ => trivial
  refine ⟨hv.1, hv.2.1 _ hsome, fun hmem => ?_⟩
  rcases List.mem_append.mp hmem with hmem | hmem
  · obtain ⟨event, hevent, hkey⟩ := hdone hmem
    exact ⟨event, List.mem_append_left _ hevent, hkey⟩
  · rw [List.mem_singleton] at hmem
    subst hmem
    obtain ⟨event, hevent, hkey⟩ := hv.2.2 hsome
    exact ⟨event, List.mem_append_right _ hevent, hkey⟩

/-! ## Freeing a block -/

theorem finishBlock_erases (s : VLLMIntentAdapter) (step : ℤ) (requestId : String) (blockId : ℤ) :
    Wp (finishBlock step requestId blockId)
      (fun _ u => u.blocks.get? (requestId, blockId) = none) (fun _ _ => True) s := by
  have hany {α : Type} (x : Hook α) (t : VLLMIntentAdapter) :
      Wp x (fun _ _ => True) (fun _ _ => True) t := by
    unfold Wp
    split <;> trivial
  refine (hany _ s).bind fun made t _ => ?_
  refine (hany _ t).bind fun intent u _ => ?_
  refine (hany _ u).bind fun cold v _ => ?_
  refine (hany _ v).bind fun freed w _ => ?_
  rw [Stateful.wp_bind, Stateful.wp_modify]
  exact OrderedDict.get?_erase_self _ _

/-- The end of a request takes the blocks that the call names out of the cache. -/
theorem onRequestFinished_forgets {s : VLLMIntentAdapter} (h : s.Coherent) (step : ℤ)
    (requestId : String) (blockIds : List ℤ) :
    Wp (onRequestFinished step requestId blockIds)
      (fun _ u => ∀ blockId ∈ blockIds, u.blocks.get? (requestId, blockId) = none)
      (fun _ _ => True) s := by
  have hloop : Wp (Stateful.forEach (finishBlock step requestId) blockIds)
      (fun _ u => u.Coherent ∧ ∀ blockId ∈ blockIds, u.blocks.get? (requestId, blockId) = none)
      (fun _ _ => True) s := by
    refine Stateful.wp_forEach
      (I := fun done _ (u : VLLMIntentAdapter) => u.Coherent ∧
        ∀ blockId ∈ done, u.blocks.get? (requestId, blockId) = none)
      ⟨h, by simp⟩ fun done b rest _ u _ hu => ?_
    have hin : b ∈ [b] := List.mem_singleton_self b
    have hfinish := ((Within.refl hu.1).finishBlock hin).and (finishBlock_erases u step requestId b)
    refine hfinish.mono (fun _ v hv => ⟨hv.1.coherent, fun blockId hdone => ?_⟩) fun _ _ _ => trivial
    by_cases hb : blockId = b
    · rw [hb]
      exact hv.2
    · have hmem : blockId ∈ done := by simpa [hb] using hdone
      rw [hv.1.blocks (requestId, blockId) (by simp [hb])]
      exact hu.2 blockId hmem
  exact hloop.bind fun _ _ hu => hu.2

/-- Freeing a block on its own leaves it cached as it was freed, whatever was called before. So the next
access does not count it as new, and a spill still emits an event for it. Only the end of its request
takes it out. -/
theorem freed_block_stays_cached (recorder : Option IntentTraceRecorder) (defaultBlockSizeBytes : ℤ)
    (defaultAllowedTiers : Option (Finset Tier)) (calls : List HookCall) (step : ℤ)
    (requestId : String) (blockId : ℤ) {event : MemoryIntentEvent} {after : VLLMIntentAdapter}
    (h : (onBlockFreed step requestId blockId).run
      ((init recorder defaultBlockSizeBytes defaultAllowedTiers).afterCalls calls) =
        (.ok event, after)) :
    after.blocks.get? (requestId, blockId) = some ⟨event.intent, event.intent_valid⟩ ∧
    (∀ step' phase decodeCritical event' after',
      (onBlockAccessed step' requestId blockId phase decodeCritical).run after =
        (.ok event', after') →
      event'.reason = some "vLLM-style block access" ∧
      event'.intent.createdStep = event.intent.createdStep) ∧
    (∀ sequence events after', sequenceRequestId sequence = .ok requestId →
      blockId ∈ sequenceBlockIds sequence →
      (emitSequenceSpill sequence).run after = (.ok events, after') →
      ∃ spilled ∈ events,
        spilled.intent.requestId = requestId ∧ spilled.intent.blockId = blockId) ∧
    ∀ step' blockIds events after', blockId ∈ blockIds →
      (onRequestFinished step' requestId blockIds).run after = (.ok events, after') →
      after'.blocks.get? (requestId, blockId) = none := by
  have hbefore := coherent_afterCalls
    (coherent_init recorder defaultBlockSizeBytes defaultAllowedTiers) calls
  obtain ⟨hcoherent, hcached⟩ := (onBlockFreed_caches hbefore).of_ok h
  refine ⟨hcached, fun step' phase decodeCritical event' after' haccess => ?_,
    fun sequence events after' hrequest hblock hspill => ?_,
    fun step' blockIds events after' hblock hfinish => ?_⟩
  · exact (onBlockAccessed_of_cached hcached phase decodeCritical).of_ok haccess
  · have hsome : (after.blocks.get? (requestId, blockId)).isSome := by rw [hcached]; rfl
    exact (emitSequenceSpill_emits hcoherent hrequest hblock hsome).of_ok hspill
  · exact (onRequestFinished_forgets hcoherent step' requestId blockIds).of_ok hfinish blockId hblock

/-- A block is allocated and freed. -/
theorem freed_block_stays_cached_sample :
    ∃ event after,
      (onBlockFreed 1 "req" 0).run ((init none 16384 none).afterCalls
        [.blockAllocated 0 "req" 0 .prefill none none none false]) = (.ok event, after) ∧
      after.blocks.get? ("req", 0) = some ⟨event.intent, event.intent_valid⟩ := by
  obtain ⟨event, after, hrun, -⟩ := Stateful.exists_of_check (x := onBlockFreed 1 "req" 0)
    (s := (init none 16384 none).afterCalls
      [.blockAllocated 0 "req" 0 .prefill none none none false])
    (p := fun _ _ => true) (by decide +kernel)
  exact ⟨event, after, hrun, (freed_block_stays_cached none 16384 none
    [.blockAllocated 0 "req" 0 .prefill none none none false] 1 "req" 0 hrun).1⟩

/-- The freed block is not forgotten: an access five steps later does not warn of a new block. -/
theorem freed_block_not_forgotten :
    ∃ event after event' after',
      (onBlockFreed 1 "req" 0).run ((init none 16384 none).afterCalls
        [.blockAllocated 0 "req" 0 .prefill none none none false]) = (.ok event, after) ∧
      (after.blocks.get? ("req", 0)).isSome ∧
      (onBlockAccessed 6 "req" 0 .decode false).run after = (.ok event', after') ∧
      event'.reason ≠ some lazyCreationWarning ∧ event'.intent.createdStep = 0 := by
  obtain ⟨event, after, hrun, hcheck⟩ := Stateful.exists_of_check (x := onBlockFreed 1 "req" 0)
    (s := (init none 16384 none).afterCalls
      [.blockAllocated 0 "req" 0 .prefill none none none false])
    (p := fun _ t => (t.blocks.get? ("req", 0)).isSome &&
      match (onBlockAccessed 6 "req" 0 .decode false).run t with
      | (.ok e, _) => e.reason ≠ some lazyCreationWarning && e.intent.createdStep = 0
      | (.error _, _) => false) (by decide +kernel)
  simp only [Bool.and_eq_true] at hcheck
  obtain ⟨hsome, haccess⟩ := hcheck
  split at haccess
  next event' after' hrun' =>
    simp only [Bool.and_eq_true, decide_eq_true_eq] at haccess
    exact ⟨event, after, event', after', hrun, hsome, hrun', haccess.1, haccess.2⟩
  next => cases haccess

end VLLMIntentAdapter

end KVMemoryIntent
