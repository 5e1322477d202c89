-- SUMMARY: The plugin of the vLLM integration: the file that it writes, and what the marks that it adds do to a simulation.
import KVDeadlineScheduler.Adapter.Replayed
import KVDeadlineScheduler.Adapter.StepOrder
import KVDeadlineScheduler.Simulator.RepeatedMarks

/-!
# The plugin

The plugin hands callbacks of the runtime to its adapter and appends the events that the
adapter returns to a file. The last four events of a decoding sequence are promoted:
they are written again, as decode-critical marks. A callback that raises writes nothing,
although the adapter may have recorded events.
-/

namespace KVMemoryIntent

open VLLMIntentAdapter (Hook HookCall Sequence emitSequenceAccesses emitSequenceSpill emitSequenceFree)

/-- A plugin around an adapter, with the events in the file at its `out_path`, one a line. -/
structure KVIntentPlugin where
  adapter : VLLMIntentAdapter
  out : List MemoryIntentEvent := []

/-- Why a callback raises. -/
inductive CallbackFailure where
  | refused (failure : Failure)
  | typeError (message : String)

/-- A sequence as a step output lists it. A depth that is missing from `sequence` is either null or not
an attribute at all. -/
structure RunningSequence where
  sequence : Sequence
  hasDecodeDepth : Bool := true

/-- `getattr(sequence, "decode_depth", 0) > 0`. -/
def RunningSequence.decodes (running : RunningSequence) : Except CallbackFailure Bool :=
  match running.sequence.decodeDepth with
  | some depth => .ok (0 < depth)
  | none =>
    if running.hasDecodeDepth then
      .error (.typeError "'>' not supported between instances of 'NoneType' and 'int'")
    else .ok false

namespace KVIntentPlugin

abbrev Callback (α : Type) := Stateful KVIntentPlugin CallbackFailure α

open Stateful (modify lift forEach)

/-- A call of a hook of the adapter. -/
def calling {α : Type} (hook : Hook α) : Callback α :=
  Stateful.zoom KVIntentPlugin.adapter (fun adapter plugin => { plugin with adapter := adapter })
    (Stateful.mapError .refused hook)

def append (events : List MemoryIntentEvent) : Callback Unit :=
  modify fun plugin => { plugin with out := plugin.out ++ events }

def promotionReason : String := "decode tail promoted by KVIntentPlugin"

/-- The decode-critical copy of an event. -/
def promote (event : MemoryIntentEvent) : Except Failure MemoryIntentEvent := do
  let intent ← MemoryIntent.validated { event.intent with pinRequested := true }
  MemoryIntentEvent.postInit event.step .markedDecodeCritical intent (some promotionReason) none

/-- `sequence_events[-4:]`. -/
def lastFour (events : List MemoryIntentEvent) : List MemoryIntentEvent :=
  events.drop (events.length - 4)

/-- One round of the loop of `on_scheduler_step`. -/
def sequenceEvents (running : RunningSequence) : Callback (List MemoryIntentEvent) := do
  let events ← calling (emitSequenceAccesses running.sequence)
  if ← lift running.decodes then
    let critical ← lift (((lastFour events).mapM promote).mapError .refused)
    return events ++ critical
  else
    return events

def onSchedulerStep (runningSequences : List RunningSequence) : Callback Unit := do
  let events ← forEach sequenceEvents runningSequences
  append events

def onSequencePreempted (sequence : Sequence) : Callback Unit := do
  let events ← calling (emitSequenceSpill sequence)
  append events

def onSequenceFinished (sequence : Sequence) : Callback Unit := do
  let events ← calling (emitSequenceFree sequence)
  append events

/-- What the runtime does: it calls back, or calls a hook of the adapter past the plugin. -/
inductive PluginCall where
  | schedulerStep (runningSequences : List RunningSequence)
  | sequencePreempted (sequence : Sequence)
  | sequenceFinished (sequence : Sequence)
  | hook (call : HookCall)

def PluginCall.run : PluginCall → Callback Unit
  | .schedulerStep runningSequences => onSchedulerStep runningSequences
  | .sequencePreempted sequence => onSequencePreempted sequence
  | .sequenceFinished sequence => onSequenceFinished sequence
  | .hook call => do
    let _ ← calling call.run
    return ()

/-- The calls that go through the plugin. -/
def PluginCall.IsCallback : PluginCall → Prop
  | .hook _ => False
  | _ => True

/-- The plugin after some calls. A call that raises changes the adapter too. -/
def afterCalls (plugin : KVIntentPlugin) (calls : List PluginCall) : KVIntentPlugin :=
  calls.foldl (fun plugin call => (call.run.run plugin).2) plugin

/-- The calls, one after the other, until one raises. -/
def callAll (calls : List PluginCall) : Callback Unit :=
  calls.foldlM (fun _ call => call.run) ()

def IsPromotion (event : MemoryIntentEvent) : Prop := event.reason = some promotionReason

instance (event : MemoryIntentEvent) : Decidable (IsPromotion event) := inferInstanceAs (Decidable (_ = _))

/-- The events without the promotions. -/
def unpromoted (events : List MemoryIntentEvent) : List MemoryIntentEvent :=
  events.filter fun event => ¬IsPromotion event

end KVIntentPlugin

open KVIntentPlugin (IsPromotion promotionReason unpromoted)

namespace VLLMIntentAdapter

open Stateful (Wp)

/-! ## What hooks return -/

/-- From `s` to `t` the events were recorded, and none of them is a promotion. -/
structure Answered (s : VLLMIntentAdapter) (events : List MemoryIntentEvent) (t : VLLMIntentAdapter) :
    Prop where
  log : t.recorder.events = s.recorder.events ++ events
  plain : ∀ event ∈ events, ¬IsPromotion event

section Answers

variable {s t u : VLLMIntentAdapter} {events events' : List MemoryIntentEvent} {step blockId : ℤ}
  {requestId : String} {tiers : Finset Tier}

theorem Answered.nothing (h : t.recorder = s.recorder) : Answered s [] t :=
  ⟨by rw [h, List.append_nil], by simp⟩

theorem Answered.trans (h : Answered s events t) (h' : Answered t events' u) :
    Answered s (events ++ events') u := by
  refine ⟨by rw [h'.log, h.log, List.append_assoc], fun event hevent => ?_⟩
  rcases List.mem_append.mp hevent with hevent | hevent
  · exact h.plain event hevent
  · exact h'.plain event hevent

theorem Answered.recorded {event : MemoryIntentEvent} {reason : String} (h : event.reason = some reason)
    (hreason : reason ≠ promotionReason) : Answered s [event] (s.recorded event) := by
  refine ⟨rfl, fun e he hpromotion => hreason ?_⟩
  rw [List.mem_singleton.mp he] at hpromotion
  exact Option.some.inj (h.symm.trans hpromotion)

theorem emit_answered {intent : ValidIntent} {eventType : EventType} {reason : String}
    (h : t.recorder = s.recorder) (hreason : reason ≠ promotionReason) :
    Wp (emit step eventType intent reason) (fun event u => Answered s [event] u) (fun _ _ => True) t := by
  refine wp_emit_reason (fun _ event _ _ _ hevent => ?_) fun _ _ => trivial
  exact (Answered.nothing h).trans (.recorded hevent hreason)

/-- Warnings do not read like promotions. -/
theorem getOrCreateBlock_answered {options : BlockOptions}
    (hplain : options.reasonPrefix = "" ∨ ∀ text, options.reasonPrefix ++ text ≠ promotionReason) :
    Wp (getOrCreateBlock step requestId blockId options)
      (fun made u => u.recorder = s.recorder ∧
        ∀ reason, reason ≠ promotionReason → made.2.getD reason ≠ promotionReason)
      (fun _ _ => True) s := by
  rw [getOrCreateBlock, Stateful.wp_bind, Stateful.wp_get]
  cases hget : s.blocks.get? (requestId, blockId) with
  | some cached =>
    simp only [hget]
    rw [Stateful.wp_bind]
    exact Stateful.wp_lift (fun block _ => ⟨rfl, fun _ h => h⟩) fun _ _ => trivial
  | none =>
    simp only [hget]
    rw [Stateful.wp_bind]
    refine wp_makeIntent (fun block _ => ?_) fun _ => trivial
    rw [Stateful.wp_bind, Stateful.wp_modify]
    split
    · rename_i hsome
      refine ⟨knowing_recorder s requestId, fun _ _ => ?_⟩
      have hwarning := hplain.resolve_left hsome ("; " ++ lazyCreationWarning)
      rw [← String.append_assoc] at hwarning
      exact hwarning
    · refine ⟨knowing_recorder s requestId, fun _ _ => ?_⟩
      show lazyCreationWarning ≠ promotionReason
      decide

theorem touch_answered {options : BlockOptions} {change : MemoryIntent → MemoryIntent}
    {eventType : EventType} {reason : String} (hplain : options.reasonPrefix = "")
    (hreason : reason ≠ promotionReason) :
    Wp (touch step requestId blockId options change eventType reason)
      (fun event u => Answered s [event] u) (fun _ _ => True) s := by
  refine (getOrCreateBlock_answered (.inl hplain)).bind fun made t hmade => ?_
  rw [Stateful.wp_bind]
  refine Stateful.wp_lift (fun intent _ => ?_) fun _ _ => trivial
  exact emit_answered hmade.1 (hmade.2 reason hreason)

theorem onBlockFreed_answered :
    Wp (onBlockFreed step requestId blockId) (fun event u => Answered s [event] u) (fun _ _ => True) s := by
  rw [onBlockFreed_eq]
  exact touch_answered rfl (by decide)

/-- The access right after a mark. -/
theorem accessed_after {marked : ValidIntent} (hget : t.blocks.get? (requestId, blockId) = some marked) :
    Wp (onBlockAccessed step requestId blockId .decode true)
      (fun accessed u => Answered t [accessed] u ∧ accessed.eventType = .accessed ∧ accessed.step = step ∧
        accessed.intent.objectId = marked.1.objectId ∧ accessed.intent.priority = .decodeCritical ∧
        accessed.intent.requestPriority = marked.1.requestPriority ∧ accessed.intent.recencyScore = 1)
      (fun _ _ => True) t := by
  rw [onBlockAccessed_eq, touch, Stateful.wp_bind]
  refine wp_getOrCreateBlock_fields (fun cached hcached block hblock => ?_) (fun hnone => ?_)
    (fun _ _ => trivial) fun _ _ => trivial
  · rw [hget] at hcached
    cases hcached
    have hfields := (MemoryIntent.postInit_ok hblock).1
    dsimp only
    rw [Stateful.wp_bind]
    refine wp_validated (fun v hv => ?_) fun _ => trivial
    refine wp_emit_reason (fun _ event hat htype hintent hreason => ?_) fun _ _ => trivial
    have hsilent : Answered t [] (t.caching (requestId, blockId) block) := .nothing rfl
    refine ⟨hsilent.trans (.recorded hreason (by decide)), htype, hat, ?_, ?_, ?_, ?_⟩
    all_goals rw [hintent, hv, hfields] <;> rfl
  · rw [hget] at hnone
    cases hnone

theorem decode_prefix_ne (requestId text : String) :
    s!"decode step for {requestId}" ++ text ≠ promotionReason := by
  intro h
  have hchar := congrArg (fun reason => reason.toList[7]?) h
  have hstart : (toString "decode step for ").toList = "decode step for ".toList := rfl
  simp [promotionReason, hstart] at hchar

theorem Tracks.decodeBlock_answered (h : s.Tracks tiers) (deadlineUs requestPriority : Option ℤ)
    (entry : ℤ × ℕ) :
    Wp (VLLMIntentAdapter.decodeBlock step requestId deadlineUs requestPriority entry)
      (fun events u => Answered s events u ∧ KVMemorySimulator.DecodeRound step events)
      (fun _ _ => True) s := by
  refine ((((tracks_actions tiers).getOrCreateBlock h trivial).and
    (getOrCreateBlock_answered (.inr fun text => ?_))).mono
    (fun _ _ hmade => hmade) fun _ _ _ => trivial).bind fun made u hmade => ?_
  · exact decode_prefix_ne requestId text
  obtain ⟨⟨-, hnamed⟩, hrecorder, hwarning⟩ := hmade
  rw [Stateful.wp_bind, wp_requestDefaults, Stateful.wp_bind]
  refine wp_validated (fun intent hintent => ?_) fun _ => trivial
  rw [Stateful.wp_bind]
  refine wp_emit_reason (fun _ marked hat htype hmarked hreason => ?_) fun _ _ => trivial
  have hkey : (requestId, entry.1) = (marked.intent.requestId, marked.intent.blockId) := by
    rw [hmarked, hintent]
    exact Prod.ext hnamed.filed.requestId.symm hnamed.filed.blockId.symm
  have hcached : ((u.knowing requestId).recorded marked).blocks.get? (requestId, entry.1) =
      some ⟨marked.intent, marked.intent_valid⟩ := by
    rw [hkey]
    exact OrderedDict.get?_set_self _ _ _
  have hpriority : marked.intent.priority = .decodeCritical := by
    rw [hmarked, hintent]
  have hsilent : Answered s [] (u.knowing requestId) :=
    .nothing ((knowing_recorder u requestId).trans hrecorder)
  have hlogged : Answered s [marked] ((u.knowing requestId).recorded marked) :=
    hsilent.trans (.recorded hreason (hwarning _ (by decide)))
  refine (accessed_after hcached).bind fun accessed v haccessed => ?_
  obtain ⟨hanswered, htype', hat', hid, hpriority', hrequest, hrecency⟩ := haccessed
  have hpair : KVMemorySimulator.MarkedAccess step marked accessed :=
    ⟨htype, htype', hpriority, hat, hat', hid, hpriority', hrequest, hrecency⟩
  exact ⟨hlogged.trans hanswered, .snoc .nil hpair⟩

theorem prefillBlock_answered :
    Wp (prefillBlock step requestId blockId) (fun events u => Answered s events u) (fun _ _ => True) s := by
  refine (getOrCreateBlock_answered (.inl rfl)).bind fun made t hmade => ?_
  rw [Stateful.wp_bind]
  refine Stateful.wp_lift (fun intent _ => ?_) fun _ _ => trivial
  exact (emit_answered hmade.1 (hmade.2 _ (by decide))).bind fun event u hevent => hevent

theorem finishBlock_answered :
    Wp (finishBlock step requestId blockId) (fun events u => Answered s events u) (fun _ _ => True) s := by
  refine (getOrCreateBlock_answered (.inl rfl)).bind fun made t hmade => ?_
  rw [Stateful.wp_bind]
  refine Stateful.wp_lift (fun intent _ => ?_) fun _ _ => trivial
  refine (emit_answered hmade.1 (hmade.2 _ (by decide))).bind fun cold u hcold => ?_
  refine onBlockFreed_answered.bind fun freed v hfreed => ?_
  rw [Stateful.wp_bind, Stateful.wp_modify]
  have hboth := hcold.trans hfreed
  exact ⟨hboth.log, hboth.plain⟩

theorem spillBlock_answered :
    Wp (spillBlock step requestId blockId) (fun events u => Answered s events u) (fun _ _ => True) s := by
  rw [spillBlock, Stateful.wp_bind, Stateful.wp_get]
  cases s.blocks.get? (requestId, blockId) with
  | none => exact Answered.nothing rfl
  | some block =>
    dsimp only
    rw [Stateful.wp_bind]
    refine Stateful.wp_lift (fun intent _ => ?_) fun _ _ => trivial
    exact (emit_answered rfl (by decide)).bind fun event u hevent => hevent

theorem forEach_answered {β : Type} {body : β → Hook (List MemoryIntentEvent)} (bs : List β)
    (hbody : ∀ b t, Wp (body b) (fun events u => Answered t events u) (fun _ _ => True) t) :
    Wp (Stateful.forEach body bs) (fun events u => Answered s events u) (fun _ _ => True) s := by
  refine Stateful.wp_forEach (I := fun _ collected t => Answered s collected t) (.nothing rfl) ?_
  intro done b rest collected t _ ht
  exact (hbody b t).mono (fun events u hu => ht.trans hu) fun _ _ _ => trivial

theorem Tracks.onDecodeStep_answered (h : s.Tracks tiers) (blockIds : List ℤ)
    (deadlineUs requestPriority : Option ℤ) :
    Wp (VLLMIntentAdapter.onDecodeStep step requestId blockIds deadlineUs requestPriority)
      (fun events u => Answered s events u ∧ KVMemorySimulator.DecodeRound step events)
      (fun _ _ => True) s := by
  rw [VLLMIntentAdapter.onDecodeStep, Stateful.wp_bind, wp_requestDefaults, Stateful.wp_bind,
    Stateful.wp_modify]
  have hloop : ∀ t : VLLMIntentAdapter, t.Tracks tiers → Answered s [] t →
      Wp (Stateful.forEach (VLLMIntentAdapter.decodeBlock step requestId deadlineUs requestPriority)
          blockIds.zipIdx)
        (fun events u => u.Tracks tiers ∧ Answered s events u ∧ KVMemorySimulator.DecodeRound step events)
        (fun _ _ => True) t := by
    intro t ht hsilent
    refine Stateful.wp_forEach (I := fun _ collected u => u.Tracks tiers ∧ Answered s collected u ∧
      KVMemorySimulator.DecodeRound step collected) ⟨ht, hsilent, .nil⟩ ?_
    rintro done entry rest collected u - ⟨hu, hanswered, hround⟩
    refine (((tracks_actions tiers).decodeBlock hu deadlineUs trivial entry).and
      (hu.decodeBlock_answered deadlineUs requestPriority entry)).mono ?_ fun _ _ _ => trivial
    rintro events v ⟨hv, hanswered', hround'⟩
    exact ⟨hv, hanswered.trans hanswered', hround.append hround'⟩
  refine Wp.mono (hloop _ ?_ ?_) (fun _ _ hu => hu.2) fun _ _ _ => trivial
  · exact ((tracks_actions tiers).knowing h requestId).noting _
  · exact .nothing (knowing_recorder s requestId)

/-- A sequence that decodes is answered with a decode round. -/
theorem Tracks.emitSequenceAccesses_answered (h : s.Tracks tiers) (sequence : Sequence) :
    Wp (VLLMIntentAdapter.emitSequenceAccesses sequence)
      (fun events u => Answered s events u ∧
        (0 < sequence.decodeDepth.getD 0 → ∃ step, KVMemorySimulator.DecodeRound step events))
      (fun _ _ => True) s := by
  have hsteps : ∀ (requestId : String) (t : VLLMIntentAdapter), t.Tracks tiers → t.recorder = s.recorder →
      Wp (if 0 < sequence.decodeDepth.getD 0 then
          VLLMIntentAdapter.onDecodeStep (sequence.step.getD 0) requestId (sequenceBlockIds sequence)
            sequence.deadlineUs sequence.requestPriority
        else VLLMIntentAdapter.onPrefillStep (sequence.step.getD 0) requestId
          (sequenceBlockIds sequence))
        (fun events u => Answered s events u ∧
          (0 < sequence.decodeDepth.getD 0 → ∃ step, KVMemorySimulator.DecodeRound step events))
        (fun _ _ => True) t := by
    intro requestId t ht hrecorder
    have hsilent : Answered s [] t := .nothing hrecorder
    refine Stateful.wp_ite (fun _ => ?_) fun hdepth => ?_
    · refine (ht.onDecodeStep_answered _ _ _).mono (fun events u hu => ?_) fun _ _ _ => trivial
      exact ⟨hsilent.trans hu.1, fun _ => ⟨_, hu.2⟩⟩
    · refine (forEach_answered _ fun _ _ => prefillBlock_answered).mono (fun events u hu => ?_)
        fun _ _ _ => trivial
      exact ⟨hsilent.trans hu, fun h => absurd h hdepth⟩
  rw [VLLMIntentAdapter.emitSequenceAccesses, Stateful.wp_bind]
  refine Stateful.wp_lift (fun requestId _ => ?_) fun _ _ => trivial
  rw [Stateful.wp_bind, Stateful.wp_get]
  dsimp only
  refine Stateful.wp_ite (fun _ => ?_) fun _ => hsteps requestId s h rfl
  rw [Stateful.wp_bind]
  exact hsteps requestId _ (h.noting _) rfl

theorem emitSequenceSpill_answered (sequence : Sequence) :
    Wp (emitSequenceSpill sequence) (fun events u => Answered s events u) (fun _ _ => True) s := by
  rw [emitSequenceSpill, Stateful.wp_bind]
  refine Stateful.wp_lift (fun requestId _ => ?_) fun _ _ => trivial
  exact forEach_answered _ fun _ _ => spillBlock_answered

theorem emitSequenceFree_answered (sequence : Sequence) :
    Wp (emitSequenceFree sequence) (fun events u => Answered s events u) (fun _ _ => True) s := by
  rw [emitSequenceFree, Stateful.wp_bind]
  refine Stateful.wp_lift (fun requestId _ => ?_) fun _ _ => trivial
  refine (forEach_answered _ fun _ _ => finishBlock_answered).bind fun events u hu => ?_
  exact ⟨hu.log, hu.plain⟩

theorem HookCall.Records.extends_log {call : HookCall} (h : call.Records s t) :
    s.recorder.events <+: t.recorder.events := by
  unfold HookCall.Records at h
  split at h
  · obtain ⟨steps, -, new, hnew, -⟩ := h
    exact ⟨new, hnew.symm⟩
  · obtain ⟨new, hnew, -⟩ := h
    exact ⟨new, hnew.symm⟩

end Answers

end VLLMIntentAdapter

namespace KVIntentPlugin

open VLLMIntentAdapter (Answered)
open KVMemorySimulator (WithRepeats Repeats DecodeRound asMark)
open Stateful (Wp)

/-! ## Promotions -/

theorem unpromoted_append (events events' : List MemoryIntentEvent) :
    unpromoted (events ++ events') = unpromoted events ++ unpromoted events' :=
  List.filter_append _ _

theorem unpromoted_of_plain {events : List MemoryIntentEvent} (h : ∀ e ∈ events, ¬IsPromotion e) :
    unpromoted events = events :=
  List.filter_eq_self.mpr fun e he => by simpa using h e he

theorem unpromoted_marks (events : List MemoryIntentEvent) :
    unpromoted (events.map (asMark promotionReason)) = [] := by
  refine List.filter_eq_nil_iff.mpr fun m hm => ?_
  obtain ⟨e, -, rfl⟩ := List.mem_map.mp hm
  simp [IsPromotion, asMark]

/-- A pinned event is promoted to a mark with its own intent. -/
theorem promote_eq {event : MemoryIntentEvent} (hpinned : event.intent.pinRequested = true) :
    promote event = .ok (asMark promotionReason event) := by
  have hintent : ({ event.intent with pinRequested := true } : MemoryIntent) = event.intent := by
    rw [← hpinned]
  unfold promote
  rw [hintent, event.intent_valid.validated]
  exact MemoryIntentEvent.postInit_eq (asMark promotionReason event)

theorem promote_all {events : List MemoryIntentEvent} (hpinned : ∀ e ∈ events, e.intent.pinRequested = true) :
    events.mapM promote = .ok (events.map (asMark promotionReason)) := by
  induction events with
  | nil => rfl
  | cons e events ih =>
    rw [List.mapM_cons, promote_eq (hpinned e List.mem_cons_self),
      ih fun x hx => hpinned x (List.mem_cons_of_mem _ hx)]
    rfl

theorem lastFour_suffix (events : List MemoryIntentEvent) : lastFour events <:+ events :=
  List.drop_suffix _ _

/-! ## What callbacks write -/

/-- From `s` to `t` the adapter has recorded the events but the promotions, which repeat what is before
them. -/
structure Wrote (s : VLLMIntentAdapter) (events : List MemoryIntentEvent) (t : VLLMIntentAdapter) : Prop where
  log : t.recorder.events = s.recorder.events ++ unpromoted events
  repeats : WithRepeats promotionReason (unpromoted events) events

section Callbacks

variable {s t u : VLLMIntentAdapter} {plugin : KVIntentPlugin} {events events' : List MemoryIntentEvent}
  {tiers : Finset Tier}

theorem Wrote.nil (s : VLLMIntentAdapter) : Wrote s [] s :=
  ⟨(List.append_nil _).symm, .nil⟩

theorem Wrote.append (h : Wrote s events t) (h' : Wrote t events' u) : Wrote s (events ++ events') u := by
  refine ⟨?_, ?_⟩
  · rw [h'.log, h.log, unpromoted_append, List.append_assoc]
  · rw [unpromoted_append]
    exact h.repeats.append h'.repeats

theorem Wrote.of_answered (h : Answered s events t) : Wrote s events t := by
  have hplain := unpromoted_of_plain h.plain
  refine ⟨by rw [h.log, hplain], ?_⟩
  rw [hplain]
  exact .of_events events

/-- The promotions of a decode round. -/
theorem Wrote.promoted {step : ℤ} (h : Answered s events t) (hround : DecodeRound step events) :
    Wrote s (events ++ (lastFour events).map (asMark promotionReason)) t := by
  have hplain := unpromoted_of_plain h.plain
  have hrepeats : Repeats promotionReason events ((lastFour events).map (asMark promotionReason)) :=
    ⟨⟨[], events, step, rfl, hround, _, lastFour_suffix events, rfl⟩⟩
  refine ⟨?_, ?_⟩
  · rw [h.log, unpromoted_append, unpromoted_marks, hplain, List.append_nil]
  · rw [unpromoted_append, unpromoted_marks, hplain, List.append_nil]
    exact (WithRepeats.of_events events).marks hrepeats

/-- The file of `plugin` is as it was, and the adapter has recorded more events at most. -/
structure Pending (tiers : Finset Tier) (plugin plugin' : KVIntentPlugin) : Prop where
  out : plugin'.out = plugin.out
  tracks : plugin'.adapter.Tracks tiers
  log : plugin.adapter.recorder.events <+: plugin'.adapter.recorder.events

theorem Pending.trans {plugin₁ plugin₂ plugin₃ : KVIntentPlugin} (h : Pending tiers plugin₁ plugin₂)
    (h' : Pending tiers plugin₂ plugin₃) : Pending tiers plugin₁ plugin₃ :=
  ⟨h'.out.trans h.out, h'.tracks, h.log.trans h'.log⟩

theorem wp_calling {α : Type} {hook : Hook α} {Q : α → KVIntentPlugin → Prop}
    {E : CallbackFailure → KVIntentPlugin → Prop} :
    Wp (calling hook) Q E plugin ↔
      Wp hook (fun a t => Q a { plugin with adapter := t })
        (fun e t => E (.refused e) { plugin with adapter := t }) plugin.adapter := by
  rw [calling, Stateful.wp_zoom, Stateful.wp_mapError]

/-- A call of the adapter, with what is known of its answer. -/
theorem wp_call (call : HookCall) (h : plugin.adapter.Tracks tiers)
    {P : List MemoryIntentEvent → VLLMIntentAdapter → Prop}
    (hanswer : Wp call.run P (fun _ _ => True) plugin.adapter) :
    Wp (calling call.run) (fun events plugin' => Pending tiers plugin plugin' ∧ P events plugin'.adapter)
      (fun _ plugin' => Pending tiers plugin plugin') plugin := by
  rw [wp_calling]
  refine ((((VLLMIntentAdapter.tracks_actions tiers).run call call.permitted_all h).and (call.run_records plugin.adapter)).and
    hanswer).mono (fun events t ht => ?_) fun _ t ht => ?_
  · exact ⟨⟨rfl, ht.1.1, ht.1.2.extends_log⟩, ht.2⟩
  · exact ⟨rfl, ht.1.1, ht.1.2.extends_log⟩

theorem sequenceEvents_wrote (h : plugin.adapter.Tracks tiers) (running : RunningSequence) :
    Wp (sequenceEvents running)
      (fun events plugin' => Pending tiers plugin plugin' ∧ Wrote plugin.adapter events plugin'.adapter)
      (fun _ plugin' => Pending tiers plugin plugin') plugin := by
  refine (wp_call (.sequenceAccesses running.sequence) h
    (h.emitSequenceAccesses_answered running.sequence)).bind fun events plugin' hcall => ?_
  obtain ⟨hpending, hanswered, hround⟩ := hcall
  rw [Stateful.wp_bind]
  refine Stateful.wp_lift (fun decodes hdecodes => ?_) fun _ _ => hpending
  cases decodes with
  | false => exact ⟨hpending, .of_answered hanswered⟩
  | true =>
    -- the adapter has read the same depth, so it has answered with a decode round
    have hdepth : 0 < running.sequence.decodeDepth.getD 0 := by
      unfold RunningSequence.decodes at hdecodes
      cases hd : running.sequence.decodeDepth with
      | some depth => simpa [hd] using hdecodes
      | none =>
        rw [hd] at hdecodes
        dsimp only at hdecodes
        split at hdecodes <;> cases hdecodes
    obtain ⟨step, hround⟩ := hround hdepth
    have hpinned : ∀ e ∈ lastFour events, e.intent.pinRequested = true := fun e he =>
      hround.pinned e ((lastFour_suffix events).subset he)
    rw [promote_all hpinned]
    exact ⟨hpending, .promoted hanswered hround⟩

/-- What a callback appends to the file at its end. -/
theorem wp_append {x : Callback (List MemoryIntentEvent)}
    (hx : Wp x
      (fun events plugin' => Pending tiers plugin plugin' ∧ Wrote plugin.adapter events plugin'.adapter)
      (fun _ plugin' => Pending tiers plugin plugin') plugin) :
    Wp (x >>= append)
      (fun _ plugin' => plugin'.adapter.Tracks tiers ∧
        ∃ events, plugin'.out = plugin.out ++ events ∧ Wrote plugin.adapter events plugin'.adapter)
      (fun _ plugin' => Pending tiers plugin plugin') plugin := by
  refine hx.bind fun events t ht => ?_
  exact ⟨ht.1.tracks, events, congrArg (· ++ events) ht.1.out, ht.2⟩

/-- A callback that returns has written events that the adapter has recorded, and promotions. One that
raises has written nothing. -/
theorem PluginCall.run_wrote (call : PluginCall) (h : plugin.adapter.Tracks tiers) :
    Wp call.run
      (fun _ plugin' => plugin'.adapter.Tracks tiers ∧
        ((call.IsCallback → ∃ events, plugin'.out = plugin.out ++ events ∧
            Wrote plugin.adapter events plugin'.adapter) ∧
          (¬call.IsCallback → Pending tiers plugin plugin')))
      (fun _ plugin' => Pending tiers plugin plugin') plugin := by
  cases call with
  | schedulerStep runningSequences =>
    have hloop : Wp (Stateful.forEach sequenceEvents runningSequences)
        (fun events plugin' => Pending tiers plugin plugin' ∧ Wrote plugin.adapter events plugin'.adapter)
        (fun _ plugin' => Pending tiers plugin plugin') plugin := by
      refine Stateful.wp_forEach (I := fun _ collected t => Pending tiers plugin t ∧
        Wrote plugin.adapter collected t.adapter) ⟨⟨rfl, h, List.prefix_refl _⟩, .nil _⟩ ?_
      rintro done running rest collected t - ⟨ht, hwrote⟩
      refine (sequenceEvents_wrote ht.tracks running).mono (fun events u hu => ?_) fun _ u hu => ht.trans hu
      exact ⟨ht.trans hu.1, hwrote.append hu.2⟩
    refine (wp_append hloop).mono (fun _ t ht => ?_) fun _ _ ht => ht
    exact ⟨ht.1, fun _ => ht.2, fun hno => absurd trivial hno⟩
  | sequencePreempted sequence =>
    have hspill := wp_call (.sequenceSpill sequence) h
      (VLLMIntentAdapter.emitSequenceSpill_answered sequence)
    refine (wp_append (hspill.mono (fun _ _ ht => ⟨ht.1, .of_answered ht.2⟩) fun _ _ ht => ht)).mono
      (fun _ t ht => ?_) fun _ _ ht => ht
    exact ⟨ht.1, fun _ => ht.2, fun hno => absurd trivial hno⟩
  | sequenceFinished sequence =>
    have hfree := wp_call (.sequenceFree sequence) h
      (VLLMIntentAdapter.emitSequenceFree_answered sequence)
    refine (wp_append (hfree.mono (fun _ _ ht => ⟨ht.1, .of_answered ht.2⟩) fun _ _ ht => ht)).mono
      (fun _ t ht => ?_) fun _ _ ht => ht
    exact ⟨ht.1, fun _ => ht.2, fun hno => absurd trivial hno⟩
  | hook call =>
    refine (wp_call call h (P := fun _ _ => True) ?_).bind fun events t ht => ?_
    · exact (call.run_records plugin.adapter).mono (fun _ _ _ => trivial) fun _ _ _ => trivial
    · exact ⟨ht.1.tracks, fun hcallback => hcallback.elim, fun _ => ht.1⟩

/-! ## Any calls -/

/-- The file but the promotions is part of the log, and the promotions repeat what is before them. -/
structure Filed (tiers : Finset Tier) (plugin : KVIntentPlugin) : Prop where
  tracks : plugin.adapter.Tracks tiers
  repeats : WithRepeats promotionReason (unpromoted plugin.out) plugin.out
  sublist : (unpromoted plugin.out).Sublist plugin.adapter.recorder.events

theorem Filed.pending {plugin' : KVIntentPlugin} (h : Filed tiers plugin)
    (hp : Pending tiers plugin plugin') : Filed tiers plugin' := by
  refine ⟨hp.tracks, ?_, ?_⟩
  · rw [hp.out]
    exact h.repeats
  · rw [hp.out]
    exact h.sublist.trans hp.log.sublist

theorem Filed.wrote {plugin' : KVIntentPlugin} (h : Filed tiers plugin)
    (htracks : plugin'.adapter.Tracks tiers) (hout : plugin'.out = plugin.out ++ events)
    (hw : Wrote plugin.adapter events plugin'.adapter) :
    Filed tiers plugin' := by
  refine ⟨htracks, ?_, ?_⟩
  · rw [hout, unpromoted_append]
    exact h.repeats.append hw.repeats
  · rw [hout, unpromoted_append, hw.log]
    exact h.sublist.append (List.Sublist.refl _)

theorem PluginCall.run_filed (call : PluginCall) (h : Filed tiers plugin) :
    Wp call.run (fun _ plugin' => Filed tiers plugin') (fun _ plugin' => Filed tiers plugin') plugin := by
  refine (call.run_wrote h.tracks).mono (fun _ plugin' hp => ?_) fun _ plugin' hp => h.pending hp
  obtain ⟨htracks, hcallback, hother⟩ := hp
  by_cases hc : call.IsCallback
  · obtain ⟨events, hout, hw⟩ := hcallback hc
    exact h.wrote htracks hout hw
  · exact h.pending (hother hc)

theorem filed_afterCalls (h : Filed tiers plugin) (calls : List PluginCall) :
    Filed tiers (plugin.afterCalls calls) := by
  induction calls generalizing plugin with
  | nil => exact h
  | cons call calls ih => exact ih (call.run_filed h).after

/-- A plugin around a new adapter, before a file is there. -/
def start (defaultBlockSizeBytes : ℤ) (defaultAllowedTiers : Option (Finset Tier)) : KVIntentPlugin where
  adapter := VLLMIntentAdapter.init none defaultBlockSizeBytes defaultAllowedTiers

theorem filed_start (defaultBlockSizeBytes : ℤ) (defaultAllowedTiers : Option (Finset Tier)) :
    Filed (start defaultBlockSizeBytes defaultAllowedTiers).adapter.defaultAllowedTiers
      (start defaultBlockSizeBytes defaultAllowedTiers) :=
  ⟨VLLMIntentAdapter.tracks_init defaultBlockSizeBytes defaultAllowedTiers, .nil, .slnil⟩

end Callbacks

/-! ## Simulations of the file -/

section Simulations

open KVMemorySimulator (OnlyTimeDiffers)
open SimulatorState (SameButTime)

variable {plugin : KVIntentPlugin} {tiers : Finset Tier}

theorem Filed.allowedTiers (h : Filed tiers plugin) : ∀ e ∈ plugin.out, e.intent.allowedTiers = tiers := by
  intro f hf
  obtain ⟨e, he, -, hintent⟩ := h.repeats.mem f hf
  rw [hintent]
  exact (h.tracks.logged e (h.sublist.subset he)).1.filed.allowedTiers

theorem length_unpromoted (events : List MemoryIntentEvent) :
    (events.length : ℤ) - (unpromoted events).length = events.countP fun e => IsPromotion e := by
  have hplain : (unpromoted events).length = events.countP fun e => ¬IsPromotion e :=
    List.countP_eq_length_filter.symm
  have hsplit : events.length = (events.countP fun e => IsPromotion e) +
      events.countP fun e => ¬IsPromotion e := by
    simpa using List.length_eq_countP_add_countP (fun e => decide (IsPromotion e))
  rw [hplain, hsplit]
  push_cast
  ring

/-- The simulations of a file with and without its promotions. -/
theorem Filed.runs (h : Filed tiers plugin) {sim : KVMemorySimulator}
    (hp : sim.policy.AccessBased ∨ sim.policy.IntentAware) (order order' : SetOrder) (hhbm : .hbm ∈ tiers)
    (hone : (tiers.erase .hbm).card = 1) :
    ∃ s r s' r', sim.run order .initial plugin.out = .ok (s, r) ∧
      sim.run order' .initial (unpromoted plugin.out) = .ok (s', r') ∧
      SameButTime s s' ∧ OnlyTimeDiffers r r' ∧
      r.totalLatencyUs =
        r'.totalLatencyUs + sim.baseStepLatencyUs * plugin.out.countP fun e => IsPromotion e := by
  obtain ⟨tier, htier⟩ := Finset.card_pos.mp (hone ▸ Nat.one_pos)
  obtain ⟨hne, hmem⟩ := Finset.mem_erase.mp htier
  obtain ⟨s, r, hrun⟩ :=
    KVMemorySimulator.run_total_of_everywhere sim order hhbm ⟨tier, hmem, hne⟩ h.allowedTiers
  obtain ⟨hreplay, rfl⟩ := KVMemorySimulator.run_ok hrun
  obtain ⟨s', hreplay', hsame, hsum⟩ := h.repeats.replay (KVMemorySimulator.policy_orderIndependent hp) order'
    hone.le h.allowedTiers hreplay
  rw [length_unpromoted] at hsum
  exact ⟨s, _, s', _, hrun, KVMemorySimulator.run_of_replay hreplay', hsame, h.repeats.report hsame, hsum⟩

/-- The same in floats, when no number in the file is too large for one. -/
theorem Filed.runsInFloats (h : Filed tiers plugin) {sim : KVMemorySimulator}
    (hp : sim.policy.AccessBased ∨ sim.policy.IntentAware) (order order' : SetOrder)
    (hrange : ∀ e ∈ plugin.out, e.InFloatRange) (hhbm : .hbm ∈ tiers) (hone : (tiers.erase .hbm).card = 1) :
    ∃ s r s' r', sim.runInFloats order .initial plugin.out = .ok (s, r) ∧
      sim.runInFloats order' .initial (unpromoted plugin.out) = .ok (s', r') ∧
      SameButTime s s' ∧ OnlyTimeDiffers r r' ∧
      r.totalLatencyUs =
        r'.totalLatencyUs + sim.baseStepLatencyUs * plugin.out.countP fun e => IsPromotion e := by
  have hfloats := PlacementPolicy.floatsFit_of_cases hp
  have hplain : ∀ e ∈ unpromoted plugin.out, e.InFloatRange :=
    fun e he => hrange e (List.mem_of_mem_filter he)
  obtain ⟨s, r, s', r', hrun, hrun', hagree⟩ := h.runs hp order order' hhbm hone
  exact ⟨s, r, s', r', KVMemorySimulator.runInFloats_of_ok hfloats hrange hrun,
    KVMemorySimulator.runInFloats_of_ok hfloats hplain hrun', hagree⟩

/-- Whatever the runtime calls, and whatever raises: if no number in the file is too large for a float,
simulations of the file with and without its promotions agree in all but the time, and each promotion
takes a base step. -/
theorem promotions_only_take_time (sim : KVMemorySimulator)
    (hp : sim.policy.AccessBased ∨ sim.policy.IntentAware) (order order' : SetOrder)
    (defaultBlockSizeBytes : ℤ) (defaultAllowedTiers : Option (Finset Tier)) (calls : List PluginCall)
    {plugin : KVIntentPlugin}
    (hplugin : plugin = (start defaultBlockSizeBytes defaultAllowedTiers).afterCalls calls)
    (hrange : ∀ e ∈ plugin.out, e.InFloatRange)
    (hhbm : .hbm ∈ plugin.adapter.defaultAllowedTiers)
    (hone : (plugin.adapter.defaultAllowedTiers.erase .hbm).card = 1) :
    ∃ s r s' r', sim.runInFloats order .initial plugin.out = .ok (s, r) ∧
      sim.runInFloats order' .initial (unpromoted plugin.out) = .ok (s', r') ∧
      SameButTime s s' ∧ OnlyTimeDiffers r r' ∧
      r.totalLatencyUs =
        r'.totalLatencyUs + sim.baseStepLatencyUs * plugin.out.countP fun e => IsPromotion e := by
  have hfiled := filed_afterCalls (filed_start defaultBlockSizeBytes defaultAllowedTiers) calls
  rw [← hplugin] at hfiled
  rw [hfiled.tracks.defaults] at hhbm hone
  exact hfiled.runsInFloats hp order order' hrange hhbm hone

/-- A sequence of two blocks that decodes. -/
def decodingSequence : Sequence where
  requestId := some (.str "req")
  blockIds := some [0, 1]
  decodeDepth := some 1
  requestPriority := some 90
  step := some 10

/-- The second step raises, since the depth of its sequence is null. -/
def smokeCalls : List PluginCall :=
  [.hook (.blockAllocated 0 "req" 0 .prefill none none none false),
    .schedulerStep [{ sequence := decodingSequence }],
    .schedulerStep [{ sequence := { decodingSequence with decodeDepth := none } }],
    .sequencePreempted decodingSequence]

theorem promotions_only_take_time_smoke :
    ∃ plugin s r s' r', plugin = (start 16384 none).afterCalls smokeCalls ∧
      KVMemorySimulator.oneBlockHbm.runInFloats .fastestFirst .initial plugin.out = .ok (s, r) ∧
      KVMemorySimulator.oneBlockHbm.runInFloats .slowestFirst .initial (unpromoted plugin.out) = .ok (s', r') ∧
      SameButTime s s' ∧ OnlyTimeDiffers r r' ∧ r.totalLatencyUs = r'.totalLatencyUs + 200 := by
  have hname : policyFromName "lru" = .ok KVMemorySimulator.oneBlockHbm.policy := rfl
  obtain ⟨s, r, s', r', hrun, hrun', hsame, htime, htotal⟩ := promotions_only_take_time
    KVMemorySimulator.oneBlockHbm (policyFromName_cases hname) .fastestFirst .slowestFirst 16384 none
    smokeCalls rfl (by decide +kernel) (by decide +kernel) (by decide +kernel)
  have hcount : (((start 16384 none).afterCalls smokeCalls).out.countP fun e => IsPromotion e) = 4 := by
    decide +kernel
  rw [hcount] at htotal
  exact ⟨_, s, r, s', r', rfl, hrun, hrun', hsame, htime, htotal⟩

/-! ## What the file leaves behind -/

theorem callAll_filed {calls : List PluginCall} (h : Filed tiers plugin)
    (hlog : unpromoted plugin.out = plugin.adapter.recorder.events)
    (hcallbacks : ∀ call ∈ calls, call.IsCallback) :
    Wp (callAll calls)
      (fun _ plugin' => Filed tiers plugin' ∧ unpromoted plugin'.out = plugin'.adapter.recorder.events)
      (fun _ _ => True) plugin := by
  refine Stateful.wp_foldlM (I := fun _ _ t => Filed tiers t ∧ unpromoted t.out = t.adapter.recorder.events)
    ⟨h, hlog⟩ ?_
  rintro done call rest - t hsplit ⟨ht, htlog⟩
  have hcallback := hcallbacks call (by simp [hsplit])
  refine (call.run_wrote ht.tracks).mono (fun _ u hu => ?_) fun _ _ _ => trivial
  obtain ⟨events, hout, hwrote⟩ := hu.2.1 hcallback
  refine ⟨ht.wrote hu.1 hout hwrote, ?_⟩
  rw [hout, unpromoted_append, hwrote.log, htlog]

/-- After callbacks that all return, the file but its promotions is the log of the adapter. If no number
in the file is too large for a float, it is simulated to the end: what the simulator then holds, the
adapter has cached, and if its cache is empty, so is the simulator. -/
theorem file_replays_to_cached (sim : KVMemorySimulator)
    (hp : sim.policy.AccessBased ∨ sim.policy.IntentAware) (order : SetOrder) (defaultBlockSizeBytes : ℤ)
    (defaultAllowedTiers : Option (Finset Tier)) {calls : List PluginCall}
    (hcallbacks : ∀ call ∈ calls, call.IsCallback) {plugin : KVIntentPlugin}
    (hreturn : (callAll calls).run (start defaultBlockSizeBytes defaultAllowedTiers) = (.ok (), plugin))
    (hhbm : .hbm ∈ plugin.adapter.defaultAllowedTiers)
    (hone : (plugin.adapter.defaultAllowedTiers.erase .hbm).card = 1) :
    unpromoted plugin.out = plugin.adapter.recorder.events ∧
    ((∀ e ∈ plugin.out, e.InFloatRange) →
      ∃ s r, sim.runInFloats order .initial plugin.out = .ok (s, r) ∧
        (∀ id, (s.liveBlocks.get? id).isSome →
          ∃ key block, plugin.adapter.blocks.get? key = some block ∧ block.1.objectId = id) ∧
        (plugin.adapter.blocks.keys = [] →
          s.liveBlocks.keys = [] ∧ s.hbmBlocks = ∅ ∧ s.dramBlocks = ∅)) := by
  have hcalls := callAll_filed (filed_start defaultBlockSizeBytes defaultAllowedTiers) rfl hcallbacks
  obtain ⟨hfiled, hlog⟩ := hcalls.of_ok hreturn
  rw [hfiled.tracks.defaults] at hhbm hone
  obtain ⟨s, r, s', r', hrun, hrun', ⟨t, latencies, ⟨log, rfl, -⟩, rfl⟩, -⟩ :=
    hfiled.runs hp order order hhbm hone
  obtain ⟨tier, htier⟩ := Finset.card_pos.mp (hone ▸ Nat.one_pos)
  obtain ⟨hne, hmem⟩ := Finset.mem_erase.mp htier
  obtain ⟨u, r'', hlogged, hcached, hempty⟩ := hfiled.tracks.replays hhbm ⟨tier, hmem, hne⟩ sim order
  rw [hlog, hlogged] at hrun'
  cases hrun'
  have hfloats := PlacementPolicy.floatsFit_of_cases hp
  refine ⟨hlog, fun hrange => ⟨s, r, ?_, hcached, hempty⟩⟩
  exact KVMemorySimulator.runInFloats_of_ok hfloats hrange hrun

/-- A request decodes, is preempted and finishes. -/
theorem file_replays_to_cached_finished :
    ∃ plugin s r,
      (callAll [.schedulerStep [{ sequence := decodingSequence }], .sequencePreempted decodingSequence,
        .sequenceFinished decodingSequence]).run (start 16384 none) = (.ok (), plugin) ∧
      plugin.out.length = 14 ∧ plugin.adapter.recorder.events.length = 10 ∧
      KVMemorySimulator.oneBlockHbm.runInFloats .fastestFirst .initial plugin.out = .ok (s, r) ∧
      s.liveBlocks.keys = [] ∧ s.hbmBlocks = ∅ ∧ s.dramBlocks = ∅ := by
  have hname : policyFromName "lru" = .ok KVMemorySimulator.oneBlockHbm.policy := rfl
  obtain ⟨⟨⟩, plugin, hreturn, hcheck⟩ := Stateful.exists_of_check
    (x := callAll [.schedulerStep [{ sequence := decodingSequence }], .sequencePreempted decodingSequence,
      .sequenceFinished decodingSequence]) (s := start 16384 none)
    (p := fun _ plugin => decide (plugin.out.length = 14 ∧ plugin.adapter.recorder.events.length = 10 ∧
      plugin.adapter.blocks.keys = [] ∧ plugin.adapter.defaultAllowedTiers = {.hbm, .dram} ∧
      ∀ e ∈ plugin.out, e.InFloatRange))
    (by decide +kernel)
  obtain ⟨hlength, hevents, hkeys, htiers, hrange⟩ := of_decide_eq_true hcheck
  obtain ⟨-, hruns⟩ := file_replays_to_cached KVMemorySimulator.oneBlockHbm
    (policyFromName_cases hname) .fastestFirst 16384 none (by simp [PluginCall.IsCallback]) hreturn
    (by rw [htiers]; decide) (by rw [htiers]; decide)
  obtain ⟨s, r, hrun, -, hempty⟩ := hruns hrange
  exact ⟨plugin, s, r, hreturn, hlength, hevents, hrun, hempty hkeys⟩

end Simulations

end KVIntentPlugin

end KVMemoryIntent
