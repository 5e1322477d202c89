-- SUMMARY: The actions that the adapter's hooks are made of: an invariant that they keep is kept by every call.
import KVDeadlineScheduler.Adapter.Failures
import KVDeadlineScheduler.Library.Journal

/-!
# Actions of a call

Every hook works on one block after another. It fetches the block or makes one, changes
fields of it and records it, and at the end of a request it takes the block out of the
cache. What these actions keep, all calls keep.
-/

namespace KVMemoryIntent

/-- The key a block is cached under. -/
def MemoryIntent.blockKey (m : MemoryIntent) : String × ℤ := (m.requestId, m.blockId)

namespace VLLMIntentAdapter

open Stateful (Wp)

/-- The last recorded event for a request and a block. -/
def lastEvent (adapter : VLLMIntentAdapter) (key : String × ℤ) : Option MemoryIntentEvent :=
  Journal.last (fun event : MemoryIntentEvent => event.intent.blockKey) adapter.recorder.events key

section LastEvent

variable {s : VLLMIntentAdapter} {key : String × ℤ}

theorem lastEvent_recorded (s : VLLMIntentAdapter) (event : MemoryIntentEvent) :
    (s.recorded event).lastEvent event.intent.blockKey = some event := by
  simp [lastEvent, recorded, IntentTraceRecorder.record]

theorem lastEvent_recorded_of_ne {event : MemoryIntentEvent} (h : key ≠ event.intent.blockKey) :
    (s.recorded event).lastEvent key = s.lastEvent key := by
  simp [lastEvent, recorded, IntentTraceRecorder.record, h]

end LastEvent

/-! ## The actions -/

/-- `m'` is `m` as a hook changes it, which may pass a priority for its request. -/
structure RefreshedWith (requestPriority : Option ℤ) (m m' : MemoryIntent) : Prop where
  objectId : m'.objectId = m.objectId
  requestId : m'.requestId = m.requestId
  blockId : m'.blockId = m.blockId
  allowedTiers : m'.allowedTiers = m.allowedTiers
  requestPriority : m'.requestPriority = requestPriority.getD m.requestPriority

theorem RefreshedWith.blockKey {requestPriority : Option ℤ} {m m' : MemoryIntent}
    (h : RefreshedWith requestPriority m m') : m'.blockKey = m.blockKey :=
  Prod.ext h.requestId h.blockId

theorem FiledUnder.refreshed {tiers : Finset Tier} {key : String × ℤ} {requestPriority : Option ℤ}
    {m m' : MemoryIntent} (h : FiledUnder tiers key m) (hfields : RefreshedWith requestPriority m m') :
    FiledUnder tiers key m' :=
  h.of_eq hfields.requestId hfields.blockId hfields.allowedTiers

/-- A block that the adapter makes for a key. -/
structure MadeFor (adapter : VLLMIntentAdapter) (key : String × ℤ) (requestPriority : Option ℤ)
    (m : MemoryIntent) : Prop where
  objectId : m.objectId = VLLMIntentAdapter.objectId key.1 key.2
  requestId : m.requestId = key.1
  blockId : m.blockId = key.2
  allowedTiers : m.allowedTiers = adapter.defaultAllowedTiers
  requestPriority : m.requestPriority = requestPriority.getD (adapter.metadataOf key.1).priorityOrDefault

theorem MadeFor.blockKey {adapter : VLLMIntentAdapter} {key : String × ℤ} {requestPriority : Option ℤ}
    {m : MemoryIntent} (h : MadeFor adapter key requestPriority m) : m.blockKey = key :=
  Prod.ext h.requestId h.blockId

/-- What calls may do: pass a priority for a request, and schedule or finish one. -/
structure Permits where
  passes : String → Option ℤ → Prop
  passes_none : ∀ requestId, passes requestId none
  settles : String → Prop

/-- All calls. -/
def Permits.all : Permits where
  passes _ _ := True
  passes_none _ := trivial
  settles _ := True

def HookCall.Permitted (permits : Permits) : HookCall → Prop
  | .requestScheduled _ requestId _ _ => permits.settles requestId
  | .blockAllocated _ requestId _ _ requestPriority _ _ _ => permits.passes requestId requestPriority
  | .decodeStep _ requestId _ _ requestPriority => permits.passes requestId requestPriority
  | .requestFinished _ requestId _ => permits.settles requestId
  | .sequenceAccesses sequence => ∀ requestId, sequenceRequestId sequence = .ok requestId →
      permits.passes requestId sequence.requestPriority
  | .sequenceFree sequence => ∀ requestId, sequenceRequestId sequence = .ok requestId →
      permits.settles requestId
  | _ => True

theorem HookCall.permitted_all (call : HookCall) : call.Permitted .all := by
  cases call <;> simp [HookCall.Permitted, Permits.all]

/-- `I` holds between blocks and `W` while a hook works on the block of a key, which has come as far as
the intent says. `E` is left where an action raises. -/
structure KeptByActions (permits : Permits) (I : VLLMIntentAdapter → Prop)
    (W : String × ℤ → MemoryIntent → VLLMIntentAdapter → Prop) (E : VLLMIntentAdapter → Prop) : Prop where
  raise : ∀ {s}, I s → E s
  raiseWork : ∀ {key m s}, W key m s → E s
  noted : ∀ {s requestId requestPriority} {requestMeta : RequestMetadata}, I s →
    permits.passes requestId requestPriority →
    requestMeta.requestPriority = requestPriority.getD (s.metadataOf requestId).requestPriority →
    I { s with requestMetadata := s.requestMetadata.set requestId requestMeta }
  settled : ∀ {s requestId} (requestMeta : RequestMetadata), I s →
    permits.settles requestId ∨ s.requestMetadata.get? requestId = none →
    I { s with requestMetadata := s.requestMetadata.set requestId requestMeta }
  settledWork : ∀ {key m s requestId} (requestMeta : RequestMetadata), W key m s →
    s.requestMetadata.get? requestId = none →
    W key m { s with requestMetadata := s.requestMetadata.set requestId requestMeta }
  forgotten : ∀ {s requestId}, I s → permits.settles requestId →
    I { s with requestMetadata := s.requestMetadata.erase requestId }
  blockKey : ∀ {key m s}, W key m s → m.blockKey = key
  cached : ∀ {s key} {block : ValidIntent}, I s → s.blocks.get? key = some block → W key block.1 s
  refreshed : ∀ {s key requestPriority} {cached block : ValidIntent}, I s →
    s.blocks.get? key = some cached → permits.passes key.1 requestPriority →
    RefreshedWith requestPriority cached.1 block.1 → W key block.1 (s.caching key block)
  made : ∀ {s key requestPriority} {block : ValidIntent}, I s → permits.passes key.1 requestPriority →
    MadeFor s key requestPriority block.1 → W key block.1 s ∧ W key block.1 (s.caching key block)
  changed : ∀ {key m m' s}, W key m s → RefreshedWith none m m' → W key m' s
  recorded : ∀ {key s} {event : MemoryIntentEvent}, W key event.intent s →
    event.eventType ≠ .prefetched → I (s.recorded event)
  erased : ∀ {s key event}, I s → s.lastEvent key = some event → event.eventType = .freed →
    I { s with blocks := s.blocks.erase key }

theorem metadataOf_knowing (s : VLLMIntentAdapter) (requestId : String) :
    (s.knowing requestId).metadataOf requestId = s.metadataOf requestId := by
  rw [metadataOf, knowing_get?, if_pos rfl, Option.getD_some]

namespace KeptByActions

variable {permits : Permits} {I : VLLMIntentAdapter → Prop}
  {W : String × ℤ → MemoryIntent → VLLMIntentAdapter → Prop} {E : VLLMIntentAdapter → Prop}
  (h : KeptByActions permits I W E) {s : VLLMIntentAdapter} {key : String × ℤ}
  {requestId : String} {blockId step : ℤ}
include h

theorem knowing (hs : I s) (requestId : String) : I (s.knowing requestId) := by
  unfold VLLMIntentAdapter.knowing
  split
  next => exact hs
  next hunknown => exact h.settled _ hs (.inr (by simpa using hunknown))

theorem knowingWork {m : MemoryIntent} (hs : W key m s) (requestId : String) :
    W key m (s.knowing requestId) := by
  unfold VLLMIntentAdapter.knowing
  split
  next => exact hs
  next hunknown => exact h.settledWork _ hs (by simpa using hunknown)

theorem getOrCreateBlock (hs : I s) {options : BlockOptions}
    (hpasses : permits.passes requestId options.requestPriority) :
    Wp (getOrCreateBlock step requestId blockId options)
      (fun made u => W (requestId, blockId) made.1.1 u) (fun _ u => E u) s := by
  refine wp_getOrCreateBlock_fields (fun cached hget block hblock => ?_)
    (fun _ block warning hblock => ?_) (fun _ _ => h.raise hs) fun _ _ => h.raise (h.knowing hs requestId)
  · refine h.refreshed hs hget hpasses ?_
    rw [(MemoryIntent.postInit_ok hblock).1]
    exact ⟨rfl, rfl, rfl, rfl, rfl⟩
  · refine (h.made (h.knowing hs requestId) hpasses ?_).2
    rw [(MemoryIntent.postInit_ok hblock).1]
    refine ⟨rfl, rfl, rfl, (knowing_defaultAllowedTiers s requestId).symm, ?_⟩
    rw [metadataOf_knowing]
    rfl

theorem validated {m m' : MemoryIntent} (hs : W key m s) (hfiling : RefreshedWith none m m') :
    Wp (Stateful.lift m'.validated) (fun v u => W key v.1 u) (fun _ u => E u) s := by
  refine wp_validated (fun v hv => ?_) fun _ => h.raiseWork hs
  refine h.changed (h.changed hs hfiling) ?_
  rw [hv]
  exact ⟨rfl, rfl, rfl, rfl, rfl⟩

theorem emit {intent : ValidIntent} (hs : W key intent.1 s) {eventType : EventType}
    (htype : eventType ≠ .prefetched) (reason : String) :
    Wp (emit step eventType intent reason)
      (fun event u => I u ∧ u.lastEvent key = some event ∧ event.eventType = eventType)
      (fun _ u => E u) s := by
  refine wp_emit (fun _ event _ htype' hintent => ?_) fun _ _ => h.raiseWork hs
  have hevent : W key event.intent s := hintent ▸ hs
  refine ⟨h.recorded hevent (htype' ▸ htype), ?_, htype'⟩
  rw [← h.blockKey hevent]
  exact lastEvent_recorded s event

/-! ## The hooks, one by one -/

theorem touch (hs : I s) {options : BlockOptions}
    (hpasses : permits.passes requestId options.requestPriority) {change : MemoryIntent → MemoryIntent}
    (hchange : ∀ m, RefreshedWith none m (change m)) {eventType : EventType} (htype : eventType ≠ .prefetched)
    (reason : String) :
    Wp (touch step requestId blockId options change eventType reason)
      (fun event u => I u ∧ u.lastEvent (requestId, blockId) = some event ∧ event.eventType = eventType)
      (fun _ u => E u) s := by
  refine (h.getOrCreateBlock hs hpasses).bind fun made u hmade => ?_
  refine (h.validated hmade (hchange made.1.1)).bind fun intent v hv => ?_
  exact h.emit hv htype _

theorem onBlockAccessed (hs : I s) (phase : Phase) (decodeCritical : Bool) :
    Wp (onBlockAccessed step requestId blockId phase decodeCritical) (fun _ u => I u) (fun _ u => E u) s := by
  rw [onBlockAccessed_eq]
  refine (h.touch hs (permits.passes_none _) ?_ (by decide) _).mono (fun _ _ hu => hu.1) fun _ _ hu => hu
  exact fun _ => ⟨rfl, rfl, rfl, rfl, rfl⟩

theorem onBlockCommitted (hs : I s) :
    Wp (onBlockCommitted step requestId blockId) (fun _ u => I u) (fun _ u => E u) s := by
  rw [onBlockCommitted_eq]
  refine (h.touch hs (permits.passes_none _) ?_ (by decide) _).mono (fun _ _ hu => hu.1) fun _ _ hu => hu
  exact fun _ => ⟨rfl, rfl, rfl, rfl, rfl⟩

theorem onBlockMarkedCold (hs : I s) (expectedReuseWindowTokens : Option ℤ) :
    Wp (onBlockMarkedCold step requestId blockId expectedReuseWindowTokens) (fun _ u => I u)
      (fun _ u => E u) s := by
  rw [onBlockMarkedCold_eq]
  refine (h.touch hs (permits.passes_none _) ?_ (by decide) _).mono (fun _ _ hu => hu.1) fun _ _ hu => hu
  exact fun _ => ⟨rfl, rfl, rfl, rfl, rfl⟩

/-- The last event of the block is its free. -/
theorem onBlockFreed (hs : I s) :
    Wp (onBlockFreed step requestId blockId)
      (fun event u => I u ∧ u.lastEvent (requestId, blockId) = some event ∧ event.eventType = .freed)
      (fun _ u => E u) s := by
  rw [onBlockFreed_eq]
  refine h.touch hs (permits.passes_none _) ?_ (by decide) _
  exact fun _ => ⟨rfl, rfl, rfl, rfl, rfl⟩

theorem decodeBlock (hs : I s) (deadlineUs : Option ℤ) {requestPriority : Option ℤ}
    (hpasses : permits.passes requestId requestPriority) (entry : ℤ × ℕ) :
    Wp (decodeBlock step requestId deadlineUs requestPriority entry) (fun _ u => I u) (fun _ u => E u) s := by
  refine (h.getOrCreateBlock hs hpasses).bind fun made u hmade => ?_
  rw [Stateful.wp_bind, wp_requestDefaults]
  refine (h.validated (h.knowingWork hmade requestId) ?_).bind fun intent v hv => ?_
  · exact ⟨rfl, rfl, rfl, rfl, rfl⟩
  refine (h.emit hv (by decide) _).bind fun marked w hw => ?_
  exact (h.onBlockAccessed hw.1 .decode true).bind fun accessed x hx => hx

theorem prefillBlock (hs : I s) :
    Wp (prefillBlock step requestId blockId) (fun _ u => I u) (fun _ u => E u) s := by
  refine (h.getOrCreateBlock hs (permits.passes_none _)).bind fun made u hmade => ?_
  refine (h.validated hmade ?_).bind fun intent v hv => ?_
  · exact ⟨rfl, rfl, rfl, rfl, rfl⟩
  exact (h.emit hv (by decide) _).bind fun event w hw => hw.1

/-- The block is freed in the log before it leaves the cache. -/
theorem finishBlock (hs : I s) :
    Wp (finishBlock step requestId blockId) (fun _ u => I u) (fun _ u => E u) s := by
  refine (h.getOrCreateBlock hs (permits.passes_none _)).bind fun made u hmade => ?_
  refine (h.validated hmade ?_).bind fun intent v hv => ?_
  · exact ⟨rfl, rfl, rfl, rfl, rfl⟩
  refine (h.emit hv (by decide) _).bind fun cold w hw => ?_
  refine (h.onBlockFreed hw.1).bind fun freed x hx => ?_
  rw [Stateful.wp_bind, Stateful.wp_modify]
  exact h.erased hx.1 hx.2.1 hx.2.2

theorem spillBlock (hs : I s) :
    Wp (spillBlock step requestId blockId) (fun _ u => I u) (fun _ u => E u) s := by
  rw [VLLMIntentAdapter.spillBlock, Stateful.wp_bind, Stateful.wp_get]
  cases hget : s.blocks.get? (requestId, blockId) with
  | none => exact hs
  | some block =>
    refine (h.validated (h.cached hs hget) ?_).bind fun intent v hv => ?_
    · exact ⟨rfl, rfl, rfl, rfl, rfl⟩
    exact (h.emit hv (by decide) _).bind fun event w hw => hw.1

theorem onBlockAllocated (hs : I s) {requestPriority : Option ℤ}
    (hpasses : permits.passes requestId requestPriority) (phase : Phase) (deadlineUs sizeBytes : Option ℤ)
    (isDraft : Bool) :
    Wp (onBlockAllocated step requestId blockId phase requestPriority deadlineUs sizeBytes isDraft)
      (fun _ u => I u) (fun _ u => E u) s := by
  rw [VLLMIntentAdapter.onBlockAllocated, Stateful.wp_bind]
  have hknown := h.knowing hs requestId
  refine wp_makeIntent (fun v hv => ?_) fun _ => h.raise hknown
  have hmade : MadeFor (s.knowing requestId) (requestId, blockId) requestPriority v.1 := by
    rw [(MemoryIntent.postInit_ok hv).1]
    refine ⟨rfl, rfl, rfl, (knowing_defaultAllowedTiers s requestId).symm, ?_⟩
    rw [metadataOf_knowing]
    rfl
  exact (h.emit (h.made hknown hpasses hmade).1 (by decide) _).mono (fun _ _ hu => hu.1) fun _ _ hu => hu

theorem onPrefillStep (hs : I s) (blockIds : List ℤ) :
    Wp (onPrefillStep step requestId blockIds) (fun _ u => I u) (fun _ u => E u) s :=
  Wp.forEach hs fun _ _ _ hu => h.prefillBlock hu

theorem onRequestScheduled (hs : I s)
    (hsettles : permits.settles requestId ∨ s.requestMetadata.get? requestId = none)
    (requestPriority : ℤ) (deadlineUs : Option ℤ) :
    Wp (onRequestScheduled step requestId requestPriority deadlineUs) (fun _ u => I u) (fun _ u => E u) s :=
  h.settled _ hs hsettles

theorem onDecodeStep (hs : I s) (blockIds : List ℤ) (deadlineUs : Option ℤ) {requestPriority : Option ℤ}
    (hpasses : permits.passes requestId requestPriority) :
    Wp (onDecodeStep step requestId blockIds deadlineUs requestPriority) (fun _ u => I u)
      (fun _ u => E u) s := by
  rw [VLLMIntentAdapter.onDecodeStep, Stateful.wp_bind, wp_requestDefaults, Stateful.wp_bind,
    Stateful.wp_modify]
  refine Wp.forEach (h.noted (h.knowing hs requestId) hpasses ?_) fun entry _ u hu => ?_
  · rw [metadataOf_knowing]
  · exact h.decodeBlock hu deadlineUs hpasses entry

theorem onRequestFinished (hs : I s) (hsettles : permits.settles requestId) (blockIds : List ℤ) :
    Wp (onRequestFinished step requestId blockIds) (fun _ u => I u) (fun _ u => E u) s := by
  refine (Wp.forEach (I := I) hs fun _ _ _ hu => h.finishBlock hu).bind fun events u hu => ?_
  exact h.forgotten hu hsettles

theorem emitSequenceAccesses (hs : I s) (sequence : Sequence)
    (hpasses : ∀ requestId, sequenceRequestId sequence = .ok requestId →
      permits.passes requestId sequence.requestPriority) :
    Wp (emitSequenceAccesses sequence) (fun _ u => I u) (fun _ u => E u) s := by
  rw [VLLMIntentAdapter.emitSequenceAccesses, Stateful.wp_bind]
  refine Stateful.wp_lift (fun requestId hrequest => ?_) fun _ _ => h.raise hs
  have hsteps : ∀ t : VLLMIntentAdapter, I t →
      Wp (if 0 < sequence.decodeDepth.getD 0 then
          VLLMIntentAdapter.onDecodeStep (sequence.step.getD 0) requestId (sequenceBlockIds sequence)
            sequence.deadlineUs sequence.requestPriority
        else VLLMIntentAdapter.onPrefillStep (sequence.step.getD 0) requestId
          (sequenceBlockIds sequence)) (fun _ u => I u) (fun _ u => E u) t := by
    intro t ht
    exact Stateful.wp_ite (fun _ => h.onDecodeStep ht _ _ (hpasses requestId hrequest))
      fun _ => h.onPrefillStep ht _
  rw [Stateful.wp_bind, Stateful.wp_get]
  dsimp only
  refine Stateful.wp_ite (fun hunknown => ?_) fun _ => hsteps s hs
  have hscheduled : Wp (VLLMIntentAdapter.onRequestScheduled (sequence.step.getD 0) requestId
      (sequence.requestPriority.getD 50) sequence.deadlineUs) (fun _ u => I u) (fun _ u => E u) s :=
    h.onRequestScheduled hs (.inr (Option.isNone_iff_eq_none.mp hunknown)) _ _
  exact hscheduled.bind fun _ t ht => hsteps t ht

/-- Every permitted call keeps what its actions keep, and leaves what they leave where it raises. -/
theorem run (call : HookCall) (hcall : call.Permitted permits) (hs : I s) :
    Wp call.run (fun _ u => I u) (fun _ u => E u) s := by
  cases call with
  | requestScheduled => exact h.onRequestScheduled hs (.inl hcall) _ _
  | blockAllocated => exact (h.onBlockAllocated hs hcall _ _ _ _).bind fun _ _ hu => hu
  | blockAccessed => exact (h.onBlockAccessed hs _ _).bind fun _ _ hu => hu
  | decodeStep => exact h.onDecodeStep hs _ _ hcall
  | prefillStep => exact h.onPrefillStep hs _
  | blockCommitted => exact (h.onBlockCommitted hs).bind fun _ _ hu => hu
  | blockMarkedCold => exact (h.onBlockMarkedCold hs _).bind fun _ _ hu => hu
  | blockFreed => exact (h.onBlockFreed hs).bind fun _ _ hu => hu.1
  | requestFinished => exact h.onRequestFinished hs hcall _
  | sequenceAccesses sequence => exact h.emitSequenceAccesses hs sequence hcall
  | sequenceSpill sequence =>
    rw [HookCall.run, emitSequenceSpill, Stateful.wp_bind]
    refine Stateful.wp_lift (fun requestId _ => ?_) fun _ _ => h.raise hs
    exact Wp.forEach hs fun _ _ _ hu => h.spillBlock hu
  | sequenceFree sequence =>
    rw [HookCall.run, emitSequenceFree, Stateful.wp_bind]
    refine Stateful.wp_lift (fun requestId hrequest => ?_) fun _ _ => h.raise hs
    exact h.onRequestFinished hs (hcall requestId hrequest) _

end KeptByActions

end VLLMIntentAdapter

end KVMemoryIntent
