-- SUMMARY: The priority a request is scheduled with reaches every event of its new blocks, except that 0 counts as missing.
import KVDeadlineScheduler.Adapter.Actions

/-!
# The declared priority

A block that is made takes its priority from the metadata of its request, a block
that is fetched keeps the one it has, and recording changes neither. So as long as
no call passes another priority, every block made after the scheduling has the
declared one, or the default where the declared one is 0.
-/

namespace KVMemoryIntent

namespace VLLMIntentAdapter

open Stateful (Wp)

/-- The call passes no priority for the request, and does not schedule or finish it. -/
def HookCall.LeavesPriority (requestId : String) : HookCall → Prop
  | .requestScheduled _ id _ _ => id ≠ requestId
  | .blockAllocated _ id _ _ requestPriority _ _ _ => id = requestId → requestPriority = none
  | .decodeStep _ id _ _ requestPriority => id = requestId → requestPriority = none
  | .requestFinished _ id _ => id ≠ requestId
  | .sequenceAccesses sequence =>
    sequenceRequestId sequence = .ok requestId → sequence.requestPriority = none
  | .sequenceFree sequence => sequenceRequestId sequence ≠ .ok requestId
  | _ => True

/-- A block of the request that is not cached in `s` has the given priority. -/
def Carries (s : VLLMIntentAdapter) (requestId : String) (priority : ℤ) (m : MemoryIntent) : Prop :=
  m.requestId = requestId → s.blocks.get? (requestId, m.blockId) = none →
    m.requestPriority = priority

/-- Since `s` the request has kept its priority, and its new blocks have it, cached and recorded. -/
structure Honours (s : VLLMIntentAdapter) (requestId : String) (priority : ℤ)
    (t : VLLMIntentAdapter) : Prop where
  known : ∃ requestMeta, t.requestMetadata.get? requestId = some requestMeta ∧
    requestMeta.priorityOrDefault = priority
  cached : ∀ key block, t.blocks.get? key = some block → Carries s requestId priority block.1
  logged : ∃ new, t.recorder.events = s.recorder.events ++ new ∧
    ∀ event ∈ new, Carries s requestId priority event.intent
  coherent : t.Coherent

section Steps

variable {s t : VLLMIntentAdapter} {requestId id : String} {priority blockId step : ℤ}
  {m : MemoryIntent}

/-- Metadata written for the request itself has to keep its priority. -/
theorem Honours.setMetadata (h : Honours s requestId priority t) {requestMeta : RequestMetadata}
    (hkeeps : id = requestId → requestMeta.priorityOrDefault = priority) :
    Honours s requestId priority
      { t with requestMetadata := t.requestMetadata.set id requestMeta } := by
  refine ⟨?_, h.cached, h.logged, h.coherent⟩
  by_cases hid : id = requestId
  · exact ⟨requestMeta, by simp [hid], hkeeps hid⟩
  · obtain ⟨known, hget, hpriority⟩ := h.known
    exact ⟨known, (OrderedDict.get?_set_of_ne _ _ (Ne.symm hid)).trans hget, hpriority⟩

theorem Honours.known_ne_none (h : Honours s requestId priority t) :
    t.requestMetadata.get? requestId ≠ none := by
  obtain ⟨requestMeta, hget, -⟩ := h.known
  simp [hget]

theorem Honours.metadataOf (h : Honours s requestId priority t) :
    (t.metadataOf requestId).priorityOrDefault = priority := by
  obtain ⟨requestMeta, hget, hpriority⟩ := h.known
  simpa [VLLMIntentAdapter.metadataOf, hget] using hpriority

theorem Honours.caching (h : Honours s requestId priority t) {key : String × ℤ} {block : ValidIntent}
    (hcarries : Carries s requestId priority block.1)
    (hfiled : FiledUnder t.defaultAllowedTiers key block.1) :
    Honours s requestId priority (t.caching key block) := by
  refine ⟨h.known, fun k b hget => ?_, h.logged, h.coherent.caching hfiled⟩
  unfold VLLMIntentAdapter.caching at hget
  rw [OrderedDict.get?_set] at hget
  split at hget
  · cases hget
    exact hcarries
  · exact h.cached k b hget

theorem Honours.recorded (h : Honours s requestId priority t) {event : MemoryIntentEvent}
    (hcarries : Carries s requestId priority event.intent)
    (hfiled : FiledUnder t.defaultAllowedTiers (event.intent.requestId, event.intent.blockId)
      event.intent) : Honours s requestId priority (t.recorded event) := by
  have hcached : Honours s requestId priority (t.caching
      (event.intent.requestId, event.intent.blockId) ⟨event.intent, event.intent_valid⟩) :=
    h.caching hcarries hfiled
  obtain ⟨new, hnew, hlogged⟩ := h.logged
  refine ⟨h.known, hcached.cached, ⟨new ++ [event], ?_, fun e he => ?_⟩, hcached.coherent⟩
  · simp [VLLMIntentAdapter.recorded, IntentTraceRecorder.record, hnew]
  · rcases List.mem_append.mp he with he | he
    · exact hlogged e he
    · rw [List.mem_singleton.mp he]
      exact hcarries

theorem Honours.erase (h : Honours s requestId priority t) (key : String × ℤ) :
    Honours s requestId priority { t with blocks := t.blocks.erase key } := by
  have hstill : ∀ k block, (t.blocks.erase key).get? k = some block → t.blocks.get? k = some block := by
    intro k block hget
    rw [OrderedDict.get?_erase] at hget
    split at hget
    · cases hget
    · exact hget
  exact ⟨h.known, fun k block hget => h.cached k block (hstill k block hget), h.logged,
    fun k block hget => h.coherent k block (hstill k block hget)⟩

/-- A block made for the request without a priority has the one the request has kept. -/
theorem Honours.carries_made (h : Honours s requestId priority t) {key : String × ℤ}
    {requestPriority : Option ℤ} (hpasses : key.1 = requestId → requestPriority = none)
    (hmade : MadeFor t key requestPriority m) : Carries s requestId priority m := by
  intro hr _
  have hkey : key.1 = requestId := hmade.requestId.symm.trans hr
  rw [hmade.requestPriority, hpasses hkey, Option.getD_none, hkey]
  exact h.metadataOf

/-- A cached block keeps its priority where no other is passed. -/
theorem Carries.refreshed (h : Carries s requestId priority m) {requestPriority : Option ℤ}
    (hpasses : m.requestId = requestId → requestPriority = none) {m' : MemoryIntent}
    (hfields : RefreshedWith requestPriority m m') : Carries s requestId priority m' := by
  intro hr hnone
  rw [hfields.requestId] at hr
  rw [hfields.blockId] at hnone
  rw [hfields.requestPriority, hpasses hr, Option.getD_none]
  exact h hr hnone

end Steps

/-! ## Calls -/

/-- Calls that pass no priority for a request, and do not schedule or finish it. -/
def Permits.leavingPriority (requestId : String) : Permits where
  passes id requestPriority := id = requestId → requestPriority = none
  passes_none _ _ := rfl
  settles id := id ≠ requestId

theorem HookCall.LeavesPriority.permitted {requestId : String} {call : HookCall}
    (h : call.LeavesPriority requestId) : call.Permitted (.leavingPriority requestId) := by
  cases call with
  | sequenceAccesses sequence =>
    intro id hid heq
    exact h (heq ▸ hid)
  | sequenceFree sequence =>
    intro id hid heq
    exact h (heq ▸ hid)
  | _ => exact h

/-- The block a hook works on has the priority as well. -/
theorem honours_actions (s : VLLMIntentAdapter) (requestId : String) (priority : ℤ) :
    KeptByActions (.leavingPriority requestId) (Honours s requestId priority)
      (fun key m t => Honours s requestId priority t ∧ Carries s requestId priority m ∧
        FiledUnder t.defaultAllowedTiers key m) (Honours s requestId priority) where
  raise h := h
  raiseWork h := h.1
  noted {t id _ requestMeta} h hpasses hmeta := by
    refine h.setMetadata fun hid => ?_
    rw [RequestMetadata.priorityOrDefault, hmeta, hpasses hid, Option.getD_none, hid]
    exact h.metadataOf
  settled _ h hsettles := by
    refine h.setMetadata fun hid => ?_
    subst hid
    exact hsettles.elim (fun hne => absurd rfl hne) fun hnone => absurd hnone h.known_ne_none
  settledWork _ h hnone := by
    refine ⟨h.1.setMetadata fun hid => ?_, h.2⟩
    subst hid
    exact absurd hnone h.1.known_ne_none
  forgotten h hother := by
    obtain ⟨requestMeta, hget, hpriority⟩ := h.known
    exact ⟨⟨requestMeta, (OrderedDict.get?_erase_of_ne _ (Ne.symm hother)).trans hget, hpriority⟩,
      h.cached, h.logged, h.coherent⟩
  blockKey h := Prod.ext h.2.2.requestId h.2.2.blockId
  cached h hget := ⟨h, h.cached _ _ hget, h.coherent _ _ hget⟩
  refreshed h hget hpasses hfields := by
    have hfiled := h.coherent _ _ hget
    have hcarries := (h.cached _ _ hget).refreshed
      (fun hr => hpasses (hfiled.requestId.symm.trans hr)) hfields
    exact ⟨h.caching hcarries (hfiled.refreshed hfields), hcarries, hfiled.refreshed hfields⟩
  made h hpasses hmade := by
    have hcarries := h.carries_made hpasses hmade
    have hfiled : FiledUnder _ _ _ := ⟨hmade.requestId, hmade.blockId, hmade.allowedTiers⟩
    exact ⟨⟨h, hcarries, hfiled⟩, h.caching hcarries hfiled, hcarries, hfiled⟩
  changed h hfields := ⟨h.1, h.2.1.refreshed (fun _ => rfl) hfields, h.2.2.refreshed hfields⟩
  recorded h _ := h.1.recorded h.2.1 ⟨rfl, rfl, h.2.2.allowedTiers⟩
  erased h _ _ := h.erase _

/-! ## Runs -/

theorem Honours.afterCalls {s t : VLLMIntentAdapter} {requestId : String} {priority : ℤ}
    (h : Honours s requestId priority t) {calls : List HookCall}
    (hleaves : ∀ call ∈ calls, call.LeavesPriority requestId) :
    Honours s requestId priority (t.afterCalls calls) :=
  afterCalls_invariant h fun call hcall _ hu =>
    (honours_actions s requestId priority).run call (hleaves call hcall).permitted hu

/-- The adapter right after a request was scheduled. -/
def scheduling (adapter : VLLMIntentAdapter) (step : ℤ) (requestId : String) (requestPriority : ℤ)
    (deadlineUs : Option ℤ) : VLLMIntentAdapter :=
  adapter.afterCalls [.requestScheduled step requestId requestPriority deadlineUs]

/-- Right after the scheduling there is no new block, and the request has the priority it was given
unless that is 0. -/
theorem honours_scheduling {s : VLLMIntentAdapter} (h : s.Coherent) (step : ℤ) (requestId : String)
    (requestPriority : ℤ) (deadlineUs : Option ℤ) :
    Honours (s.scheduling step requestId requestPriority deadlineUs) requestId
      (if requestPriority = 0 then 50 else requestPriority)
      (s.scheduling step requestId requestPriority deadlineUs) := by
  have hcoherent : (s.scheduling step requestId requestPriority deadlineUs).Coherent :=
    coherent_afterCalls h _
  refine ⟨⟨_, OrderedDict.get?_set_self _ _ _, rfl⟩, fun key block hget hr hnone => ?_,
    ⟨[], by simp, by simp⟩, hcoherent⟩
  have hfiled := hcoherent key block hget
  have hkey : key = (requestId, block.1.blockId) :=
    Prod.ext (hfiled.requestId.symm.trans hr) hfiled.blockId.symm
  rw [← hkey, hget] at hnone
  cases hnone

/-- After any calls a request is scheduled, and what follows passes no priority for it and does not
schedule or finish it. Every event recorded since for a block not cached then has the declared priority,
or 50 if that is 0; so the declaration is honoured unless it is 0. -/
theorem declared_priority_honoured_iff (recorder : Option IntentTraceRecorder)
    (defaultBlockSizeBytes : ℤ) (defaultAllowedTiers : Option (Finset Tier))
    (earlier : List HookCall) (step : ℤ) (requestId : String) (requestPriority : ℤ)
    (deadlineUs : Option ℤ) {later : List HookCall} {scheduled : VLLMIntentAdapter}
    (hscheduled : scheduled = ((init recorder defaultBlockSizeBytes defaultAllowedTiers).afterCalls
      earlier).scheduling step requestId requestPriority deadlineUs)
    (hlater : ∀ call ∈ later, call.LeavesPriority requestId) :
    ∃ new, (scheduled.afterCalls later).recorder.events = scheduled.recorder.events ++ new ∧
      ∀ event ∈ new, event.intent.requestId = requestId →
        scheduled.blocks.get? (requestId, event.intent.blockId) = none →
        event.intent.requestPriority = (if requestPriority = 0 then 50 else requestPriority) ∧
        (event.intent.requestPriority = requestPriority ↔ requestPriority ≠ 0) := by
  have hcoherent := coherent_afterCalls
    (coherent_init recorder defaultBlockSizeBytes defaultAllowedTiers) earlier
  have hstart := honours_scheduling hcoherent step requestId requestPriority deadlineUs
  rw [← hscheduled] at hstart
  obtain ⟨new, hnew, hlogged⟩ := (hstart.afterCalls hlater).logged
  refine ⟨new, hnew, fun event hevent hrequest hfresh => ?_⟩
  have hpriority := hlogged event hevent hrequest hfresh
  refine ⟨hpriority, ?_⟩
  rw [hpriority]
  split <;> omega

/-- A request is scheduled with priority 80, and a block of it is allocated and decoded. -/
theorem declared_priority_honoured_sample :
    (∀ call ∈ [HookCall.blockAllocated 1 "req" 0 .prefill none none none false,
      .decodeStep 2 "req" [0, 1] (some 5000) none], call.LeavesPriority "req") ∧
    ∃ new, (((init none 16384 none).scheduling 0 "req" 80 none).afterCalls
        [.blockAllocated 1 "req" 0 .prefill none none none false,
          .decodeStep 2 "req" [0, 1] (some 5000) none]).recorder.events =
      ((init none 16384 none).scheduling 0 "req" 80 none).recorder.events ++ new ∧
      ∀ event ∈ new, event.intent.requestId = "req" →
        ((init none 16384 none).scheduling 0 "req" 80 none).blocks.get?
          ("req", event.intent.blockId) = none →
        event.intent.requestPriority = 80 ∧ (event.intent.requestPriority = 80 ↔ (80 : ℤ) ≠ 0) := by
  have hlater : ∀ call ∈ [HookCall.blockAllocated 1 "req" 0 .prefill none none none false,
      .decodeStep 2 "req" [0, 1] (some 5000) none], call.LeavesPriority "req" := by
    simp [HookCall.LeavesPriority]
  exact ⟨hlater, declared_priority_honoured_iff none 16384 none [] 0 "req" 80 none rfl hlater⟩

/-- A request scheduled with priority 0: its block is allocated with priority 50. -/
theorem zero_priority_not_honoured :
    (HookCall.blockAllocated 1 "req" 0 .prefill none none none false).LeavesPriority "req" ∧
    ∃ event,
      (((init none 16384 none).scheduling 0 "req" 0 none).afterCalls
        [.blockAllocated 1 "req" 0 .prefill none none none false]).recorder.events = [event] ∧
      event.intent.requestId = "req" ∧ event.intent.requestPriority ≠ 0 := by
  refine ⟨fun _ => rfl, ?_⟩
  have hcheck : ((((init none 16384 none).scheduling 0 "req" 0 none).afterCalls
      [.blockAllocated 1 "req" 0 .prefill none none none false]).recorder.events.map fun event =>
        (event.intent.requestId, event.intent.requestPriority)) = [("req", 50)] := by
    decide +kernel
  obtain ⟨event, hevents, hfields⟩ := List.map_eq_singleton_iff.mp hcheck
  rw [Prod.mk.injEq] at hfields
  refine ⟨event, hevents, hfields.1, ?_⟩
  rw [hfields.2]
  decide

end VLLMIntentAdapter

end KVMemoryIntent
