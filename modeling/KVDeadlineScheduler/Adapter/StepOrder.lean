-- SUMMARY: The steps of the recorded events: every call but a finishing one records at its own step, so only finishing calls can disorder the log.
import KVDeadlineScheduler.Adapter.Failures

/-!
# The order of the log

A hook is put together from parts that record nothing and parts that record one
event at the step of the call. Only the end of a request uses two steps: it marks
each block at its own step and frees it at the next one, block after block.
-/

namespace KVMemoryIntent

namespace VLLMIntentAdapter

open Stateful (Wp)

/-- From `s` to `t` events at the given steps were recorded, in this order. -/
def Logged (s t : VLLMIntentAdapter) (steps : List ℤ) : Prop :=
  ∃ new, t.recorder.events = s.recorder.events ++ new ∧ new.map (·.step) = steps

/-- From `s` to `t` events were recorded at one step only. -/
def LoggedAt (step : ℤ) (s t : VLLMIntentAdapter) : Prop :=
  ∃ new, t.recorder.events = s.recorder.events ++ new ∧ ∀ event ∈ new, event.step = step

section Logs

variable {s t u : VLLMIntentAdapter} {step : ℤ} {steps steps' : List ℤ}

theorem Logged.nothing (h : t.recorder = s.recorder) : Logged s t [] :=
  ⟨[], by rw [h, List.append_nil], rfl⟩

theorem Logged.trans (h : Logged s t steps) (h' : Logged t u steps') :
    Logged s u (steps ++ steps') := by
  obtain ⟨new, hnew, hsteps⟩ := h
  obtain ⟨new', hnew', hsteps'⟩ := h'
  exact ⟨new ++ new', by rw [hnew', hnew, List.append_assoc], by rw [List.map_append, hsteps, hsteps']⟩

theorem Logged.recorded (s : VLLMIntentAdapter) (event : MemoryIntentEvent) :
    Logged s (s.recorded event) [event.step] :=
  ⟨[event], rfl, rfl⟩

theorem LoggedAt.nothing (h : t.recorder = s.recorder) : LoggedAt step s t :=
  ⟨[], by rw [h, List.append_nil], by simp⟩

theorem LoggedAt.trans (h : LoggedAt step s t) (h' : LoggedAt step t u) : LoggedAt step s u := by
  obtain ⟨new, hnew, hat⟩ := h
  obtain ⟨new', hnew', hat'⟩ := h'
  refine ⟨new ++ new', by rw [hnew', hnew, List.append_assoc], fun event hevent => ?_⟩
  rcases List.mem_append.mp hevent with hevent | hevent
  · exact hat event hevent
  · exact hat' event hevent

end Logs

/-! ## Parts of hooks -/

/-- `x` records nothing, whether it returns or raises. -/
def Silent {α : Type} (x : Hook α) : Prop :=
  ∀ s, Wp x (fun _ t => t.recorder = s.recorder) (fun _ t => t.recorder = s.recorder) s

/-- `x` records one event at `step` if it returns, and nothing if it raises. -/
def RecordsOnce (step : ℤ) {α : Type} (x : Hook α) : Prop :=
  ∀ s, Wp x (fun _ t => Logged s t [step]) (fun _ t => t.recorder = s.recorder) s

/-- What `x` records, it records at `step`. -/
def RecordsAt (step : ℤ) {α : Type} (x : Hook α) : Prop :=
  ∀ s, Wp x (fun _ t => LoggedAt step s t) (fun _ t => LoggedAt step s t) s

section Parts

variable {α β : Type} {x : Hook α} {f : α → Hook β} {step : ℤ}

theorem silent_lift (r : Except Failure α) : Silent (Stateful.lift r : Hook α) :=
  fun _ => Stateful.wp_lift (fun _ _ => rfl) fun _ _ => rfl

theorem silent_requestDefaults (requestId : String) : Silent (requestDefaults requestId) := by
  intro s
  rw [wp_requestDefaults]
  exact knowing_recorder s requestId

theorem silent_makeIntent (requestId : String) (blockId : ℤ) (options : IntentOptions) :
    Silent (makeIntent requestId blockId options) :=
  fun s => wp_makeIntent (fun _ _ => knowing_recorder s requestId)
    fun _ => knowing_recorder s requestId

theorem silent_getOrCreateBlock (requestId : String) (blockId : ℤ) (options : BlockOptions) :
    Silent (getOrCreateBlock step requestId blockId options) :=
  fun s => wp_getOrCreateBlock (fun _ _ _ _ => rfl)
    (fun _ _ _ _ _ _ => knowing_recorder s requestId) (fun _ _ => rfl)
    fun _ _ => knowing_recorder s requestId

theorem recordsOnce_emit (eventType : EventType) (intent : ValidIntent) (reason : String) :
    RecordsOnce step (emit step eventType intent reason) := by
  intro s
  refine wp_emit (fun _ event hat _ _ => ?_) fun _ _ => rfl
  rw [← hat]
  exact .recorded s event

theorem Silent.thenOnce (hx : Silent x) (hf : ∀ a, RecordsOnce step (f a)) :
    RecordsOnce step (x >>= f) := by
  intro s
  refine (hx s).bind fun a t ht => ?_
  refine (hf a t).mono (fun _ u hu => ?_) fun _ u hu => hu.trans ht
  exact (Logged.nothing ht).trans hu

theorem Silent.recordsAt (hx : Silent x) : RecordsAt step x :=
  fun s => (hx s).mono (fun _ _ ht => .nothing ht) fun _ _ ht => .nothing ht

theorem RecordsOnce.recordsAt (hx : RecordsOnce step x) : RecordsAt step x := by
  intro s
  refine (hx s).mono (fun _ t ht => ?_) fun _ _ ht => .nothing ht
  obtain ⟨new, hnew, hsteps⟩ := ht
  refine ⟨new, hnew, fun event hevent => ?_⟩
  have hmem : event.step ∈ new.map (·.step) := List.mem_map_of_mem hevent
  rw [hsteps] at hmem
  exact List.mem_singleton.mp hmem

theorem recordsAt_pure (a : α) : RecordsAt step (pure a : Hook α) :=
  fun _ => LoggedAt.nothing rfl

theorem RecordsAt.bind (hx : RecordsAt step x) (hf : ∀ a, RecordsAt step (f a)) :
    RecordsAt step (x >>= f) := by
  intro s
  refine (hx s).bind fun a t ht => ?_
  exact (hf a t).mono (fun _ _ hu => ht.trans hu) fun _ _ hu => ht.trans hu

theorem RecordsAt.forEach {body : β → Hook (List α)} (hbody : ∀ b, RecordsAt step (body b))
    (bs : List β) : RecordsAt step (Stateful.forEach body bs) :=
  fun s => Wp.forEach (I := fun t => LoggedAt step s t) (.nothing rfl) fun b _ t ht =>
    (hbody b t).mono (fun _ _ hu => ht.trans hu) fun _ _ hu => ht.trans hu

theorem recordsOnce_touch (requestId : String) (blockId : ℤ) (options : BlockOptions)
    (change : MemoryIntent → MemoryIntent) (eventType : EventType) (reason : String) :
    RecordsOnce step (touch step requestId blockId options change eventType reason) :=
  (silent_getOrCreateBlock requestId blockId options).thenOnce fun _ =>
    (silent_lift _).thenOnce fun _ => recordsOnce_emit _ _ _

end Parts

/-! ## The hooks -/

section Hooks

variable {step : ℤ} {requestId : String} {blockId : ℤ}

theorem recordsOnce_onBlockAllocated (phase : Phase) (requestPriority deadlineUs sizeBytes : Option ℤ)
    (isDraft : Bool) :
    RecordsOnce step (onBlockAllocated step requestId blockId phase requestPriority deadlineUs
      sizeBytes isDraft) :=
  (silent_makeIntent _ _ _).thenOnce fun _ => recordsOnce_emit _ _ _

theorem recordsAt_decodeBlock (deadlineUs requestPriority : Option ℤ) (entry : ℤ × ℕ) :
    RecordsAt step (decodeBlock step requestId deadlineUs requestPriority entry) := by
  refine (silent_getOrCreateBlock _ _ _).recordsAt.bind fun made => ?_
  refine (silent_requestDefaults _).recordsAt.bind fun requestMeta => ?_
  refine (silent_lift _).recordsAt.bind fun intent => ?_
  refine (recordsOnce_emit _ _ _).recordsAt.bind fun marked => ?_
  rw [onBlockAccessed_eq]
  exact (recordsOnce_touch _ _ _ _ _ _).recordsAt.bind fun accessed => recordsAt_pure _

theorem recordsAt_onDecodeStep (activeBlockIds : List ℤ) (deadlineUs requestPriority : Option ℤ) :
    RecordsAt step (onDecodeStep step requestId activeBlockIds deadlineUs requestPriority) := by
  refine (silent_requestDefaults _).recordsAt.bind fun requestMeta => ?_
  refine RecordsAt.bind (fun s => ?_) fun _ => ?_
  · rw [Stateful.wp_modify]
    exact .nothing rfl
  · exact RecordsAt.forEach (recordsAt_decodeBlock _ _) _

theorem recordsAt_onPrefillStep (blockIds : List ℤ) :
    RecordsAt step (onPrefillStep step requestId blockIds) := by
  refine RecordsAt.forEach (fun blockId => ?_) blockIds
  refine (silent_getOrCreateBlock _ _ _).recordsAt.bind fun made => ?_
  refine (silent_lift _).recordsAt.bind fun intent => ?_
  exact (recordsOnce_emit _ _ _).recordsAt.bind fun event => recordsAt_pure _

theorem recordsAt_spillBlock : RecordsAt step (spillBlock step requestId blockId) := by
  intro s
  rw [spillBlock, Stateful.wp_bind, Stateful.wp_get]
  cases s.blocks.get? (requestId, blockId) with
  | none => exact LoggedAt.nothing rfl
  | some block =>
    refine RecordsAt.bind (silent_lift _).recordsAt (fun intent => ?_) s
    exact (recordsOnce_emit _ _ _).recordsAt.bind fun event => recordsAt_pure _

theorem recordsAt_emitSequenceAccesses (sequence : Sequence) :
    RecordsAt (sequence.step.getD 0) (emitSequenceAccesses sequence) := by
  have hsteps : ∀ requestId : String, RecordsAt (sequence.step.getD 0)
      (if 0 < sequence.decodeDepth.getD 0 then
        onDecodeStep (sequence.step.getD 0) requestId (sequenceBlockIds sequence)
          sequence.deadlineUs sequence.requestPriority
      else onPrefillStep (sequence.step.getD 0) requestId (sequenceBlockIds sequence)) := by
    intro requestId
    split
    · exact recordsAt_onDecodeStep _ _ _
    · exact recordsAt_onPrefillStep _
  refine (silent_lift _).recordsAt.bind fun requestId => ?_
  refine RecordsAt.bind (fun s => LoggedAt.nothing rfl) fun adapter => ?_
  dsimp only
  split
  · refine RecordsAt.bind (fun s => LoggedAt.nothing rfl) fun _ => hsteps requestId
  · exact hsteps requestId

/-- Finishing a block records at two steps, one after the other. -/
theorem finishBlock_logs (s : VLLMIntentAdapter) :
    Wp (finishBlock step requestId blockId) (fun _ t => Logged s t [step, step + 1])
      (fun _ t => ∃ steps, steps <+: [step, step + 1] ∧ Logged s t steps) s := by
  have hsilent {α : Type} {x : Hook α} (hx : Silent x) {t : VLLMIntentAdapter}
      (ht : t.recorder = s.recorder) :
      Wp x (fun _ u => u.recorder = s.recorder)
        (fun _ u => ∃ steps, steps <+: [step, step + 1] ∧ Logged s u steps) t :=
    (hx t).mono (fun _ _ hu => hu.trans ht)
      fun _ _ hu => ⟨[], List.nil_prefix, .nothing (hu.trans ht)⟩
  refine (hsilent (silent_getOrCreateBlock _ _ _) rfl).bind fun made t ht => ?_
  refine (hsilent (silent_lift _) ht).bind fun intent u hu => ?_
  refine ((recordsOnce_emit _ _ _ u).mono (fun _ v hv => (Logged.nothing hu).trans hv)
    fun _ v hv => ⟨[], List.nil_prefix, .nothing (hv.trans hu)⟩).bind fun cold v hv => ?_
  rw [onBlockFreed_eq]
  refine ((recordsOnce_touch _ _ _ _ _ _ v).mono (fun _ w hw => hv.trans hw)
    fun _ w hw => ⟨[step], ⟨[step + 1], rfl⟩, hv.trans (.nothing hw)⟩).bind fun freed w hw => ?_
  rw [Stateful.wp_bind, Stateful.wp_modify]
  exact hw

/-- The steps at which the end of a request records for its blocks. -/
def finishSteps (step : ℤ) (blockIds : List ℤ) : List ℤ :=
  blockIds.flatMap fun _ => [step, step + 1]

theorem onRequestFinished_logs (blockIds : List ℤ) (s : VLLMIntentAdapter) :
    Wp (onRequestFinished step requestId blockIds)
      (fun _ t => Logged s t (finishSteps step blockIds))
      (fun _ t => ∃ steps, steps <+: finishSteps step blockIds ∧ Logged s t steps) s := by
  have hloop : Wp (Stateful.forEach (finishBlock step requestId) blockIds)
      (fun _ t => Logged s t (finishSteps step blockIds))
      (fun _ t => ∃ steps, steps <+: finishSteps step blockIds ∧ Logged s t steps) s := by
    refine Stateful.wp_forEach (I := fun done _ t => Logged s t (finishSteps step done))
      (.nothing rfl) fun done blockId rest _ t hsplit ht => ?_
    refine (finishBlock_logs t).mono (fun _ u hu => ?_) fun _ u hu => ?_
    · have hsteps := ht.trans hu
      simpa [finishSteps] using hsteps
    · obtain ⟨steps, hinit, hlogged⟩ := hu
      refine ⟨finishSteps step done ++ steps, ?_, ht.trans hlogged⟩
      have hlonger : steps <+: [step, step + 1] ++ finishSteps step rest :=
        hinit.trans (List.prefix_append _ _)
      rw [hsplit]
      simpa [finishSteps] using (List.prefix_append_right_inj (finishSteps step done)).mpr hlonger
  exact hloop.bind fun _ _ hu => hu

end Hooks

/-! ## Calls -/

/-- The step a call is made at. -/
def HookCall.step : HookCall → ℤ
  | .requestScheduled step _ _ _ => step
  | .blockAllocated step _ _ _ _ _ _ _ => step
  | .blockAccessed step _ _ _ _ => step
  | .decodeStep step _ _ _ _ => step
  | .prefillStep step _ _ => step
  | .blockCommitted step _ _ => step
  | .blockMarkedCold step _ _ _ => step
  | .blockFreed step _ _ => step
  | .requestFinished step _ _ => step
  | .sequenceAccesses sequence => sequence.step.getD 0
  | .sequenceSpill sequence => sequence.step.getD 0
  | .sequenceFree sequence => sequence.step.getD 0

/-- The calls that end a request. -/
def HookCall.finishes : HookCall → Bool
  | .requestFinished _ _ _ | .sequenceFree _ => true
  | _ => false

/-- The last step a call may record at. -/
def HookCall.lastStep (call : HookCall) : ℤ := if call.finishes then call.step + 1 else call.step

/-- The events that a call has recorded from `s` to `t`, by their steps. -/
def HookCall.Records (call : HookCall) (s t : VLLMIntentAdapter) : Prop :=
  if call.finishes then ∃ steps, steps <+: finishSteps call.step call.blockIds ∧ Logged s t steps
  else LoggedAt call.step s t

theorem HookCall.records_of_recordsAt {call : HookCall} (hfinishes : call.finishes = false)
    (h : RecordsAt call.step call.run) (s : VLLMIntentAdapter) :
    Wp call.run (fun _ t => call.Records s t) (fun _ t => call.Records s t) s := by
  have hrecords : ∀ t, LoggedAt call.step s t → call.Records s t := by
    intro t ht
    simpa only [HookCall.Records, hfinishes, Bool.false_eq_true, if_false] using ht
  exact (h s).mono (fun _ t ht => hrecords t ht) fun _ t ht => hrecords t ht

theorem RecordsOnce.call {step : ℤ} {x : Hook MemoryIntentEvent} (h : RecordsOnce step x) :
    RecordsAt step (do return [← x]) :=
  h.recordsAt.bind fun _ => recordsAt_pure _

theorem HookCall.run_records (call : HookCall) (s : VLLMIntentAdapter) :
    Wp call.run (fun _ t => call.Records s t) (fun _ t => call.Records s t) s := by
  cases call with
  | requestScheduled =>
    refine records_of_recordsAt rfl ?_ s
    exact fun _ => LoggedAt.nothing rfl
  | blockAllocated =>
    exact records_of_recordsAt rfl (recordsOnce_onBlockAllocated _ _ _ _ _).call s
  | blockAccessed =>
    refine records_of_recordsAt rfl ?_ s
    rw [HookCall.run, onBlockAccessed_eq]
    exact (recordsOnce_touch _ _ _ _ _ _).call
  | decodeStep => exact records_of_recordsAt rfl (recordsAt_onDecodeStep _ _ _) s
  | prefillStep => exact records_of_recordsAt rfl (recordsAt_onPrefillStep _) s
  | blockCommitted =>
    refine records_of_recordsAt rfl ?_ s
    rw [HookCall.run, onBlockCommitted_eq]
    exact (recordsOnce_touch _ _ _ _ _ _).call
  | blockMarkedCold =>
    refine records_of_recordsAt rfl ?_ s
    rw [HookCall.run, onBlockMarkedCold_eq]
    exact (recordsOnce_touch _ _ _ _ _ _).call
  | blockFreed =>
    refine records_of_recordsAt rfl ?_ s
    rw [HookCall.run, onBlockFreed_eq]
    exact (recordsOnce_touch _ _ _ _ _ _).call
  | requestFinished step requestId blockIds =>
    exact (onRequestFinished_logs blockIds s).mono (fun _ _ ht => ⟨_, List.prefix_rfl, ht⟩)
      fun _ _ ht => ht
  | sequenceAccesses sequence =>
    refine records_of_recordsAt rfl ?_ s
    exact recordsAt_emitSequenceAccesses sequence
  | sequenceSpill sequence =>
    refine records_of_recordsAt rfl ?_ s
    refine (silent_lift _).recordsAt.bind fun requestId => ?_
    exact RecordsAt.forEach (fun _ => recordsAt_spillBlock) _
  | sequenceFree sequence =>
    rw [HookCall.run, emitSequenceFree, Stateful.wp_bind]
    refine Stateful.wp_lift (fun requestId _ => ?_) fun _ _ => ⟨[], List.nil_prefix, .nothing rfl⟩
    exact (onRequestFinished_logs _ s).mono (fun _ _ ht => ⟨_, List.prefix_rfl, ht⟩)
      fun _ _ ht => ht

/-- A call that ends a request and returns has marked and freed every block it names. -/
theorem HookCall.run_finishes (call : HookCall) (hfinishes : call.finishes = true)
    (s : VLLMIntentAdapter) :
    Wp call.run (fun _ t => Logged s t (finishSteps call.step call.blockIds)) (fun _ _ => True) s := by
  cases call with
  | requestFinished step requestId blockIds =>
    exact (onRequestFinished_logs blockIds s).mono (fun _ _ ht => ht) fun _ _ _ => trivial
  | sequenceFree sequence =>
    rw [HookCall.run, emitSequenceFree, Stateful.wp_bind]
    refine Stateful.wp_lift (fun requestId _ => ?_) fun _ _ => trivial
    exact (onRequestFinished_logs _ s).mono (fun _ _ ht => ht) fun _ _ _ => trivial
  | _ => cases hfinishes

/-! ## Order -/

/-- The events recorded from `s` to `t` are in the order of their steps. -/
def InOrder (s t : VLLMIntentAdapter) : Prop :=
  ∃ new, t.recorder.events = s.recorder.events ++ new ∧
    new.Pairwise fun earlier later => earlier.step ≤ later.step

/-- `later` may follow `earlier`: steps do not fall, and the step after the end of a request is
left to it. -/
def HookCall.Before (earlier later : HookCall) : Prop := earlier.lastStep ≤ later.step

/-- If the call ends a request, it names one block at most. -/
def HookCall.EndsOneBlock (call : HookCall) : Prop :=
  call.finishes = true → call.blockIds.length ≤ 1

section Order

variable {call : HookCall} {calls : List HookCall} {s t : VLLMIntentAdapter}

theorem pairwise_finishSteps_iff (step : ℤ) (blockIds : List ℤ) :
    (finishSteps step blockIds).Pairwise (· ≤ ·) ↔ blockIds.length ≤ 1 := by
  match blockIds with
  | [] => simp [finishSteps]
  | [_] => simp [finishSteps]
  | _ :: _ :: _ => simp [finishSteps]

theorem mem_finishSteps {step k : ℤ} {blockIds : List ℤ} (h : k ∈ finishSteps step blockIds) :
    step ≤ k ∧ k ≤ step + 1 := by
  simp only [finishSteps, List.mem_flatMap, List.mem_cons, List.not_mem_nil, or_false] at h
  obtain ⟨-, -, rfl | rfl⟩ := h <;> omega

/-- What one call records. -/
theorem HookCall.Records.ordered (h : call.Records s t) (hone : call.EndsOneBlock) :
    ∃ new, t.recorder.events = s.recorder.events ++ new ∧
      (∀ event ∈ new, call.step ≤ event.step ∧ event.step ≤ call.lastStep) ∧
      new.Pairwise fun earlier later => earlier.step ≤ later.step := by
  unfold HookCall.Records at h
  unfold HookCall.lastStep
  split at h
  next hfinishes =>
    obtain ⟨steps, hinit, new, hnew, hsteps⟩ := h
    rw [if_pos hfinishes]
    refine ⟨new, hnew, fun event hevent => ?_, ?_⟩
    · have hmem : event.step ∈ new.map (·.step) := List.mem_map_of_mem hevent
      rw [hsteps] at hmem
      exact mem_finishSteps (hinit.subset hmem)
    · have hordered := (pairwise_finishSteps_iff call.step call.blockIds).mpr (hone hfinishes)
      have hnewSteps : (new.map (·.step)).Pairwise (· ≤ ·) := by
        rw [hsteps]
        exact hordered.sublist hinit.sublist
      exact List.pairwise_map.mp hnewSteps
  next hfinishes =>
    obtain ⟨new, hnew, hat⟩ := h
    rw [if_neg hfinishes]
    refine ⟨new, hnew, fun event hevent => ?_, ?_⟩
    · rw [hat event hevent]
      exact ⟨le_rfl, le_rfl⟩
    · exact List.pairwise_of_forall_mem_list fun a ha b hb => by rw [hat a ha, hat b hb]

/-- The events of a run are in order, and none is before the calls of the run. -/
theorem afterCalls_ordered (hbefore : calls.Pairwise HookCall.Before)
    (hone : ∀ call ∈ calls, call.EndsOneBlock) (s : VLLMIntentAdapter) :
    ∃ new, (s.afterCalls calls).recorder.events = s.recorder.events ++ new ∧
      (∀ event ∈ new, ∃ call ∈ calls, call.step ≤ event.step) ∧
      new.Pairwise fun earlier later => earlier.step ≤ later.step := by
  induction calls generalizing s with
  | nil => exact ⟨[], by simp [afterCalls], by simp, .nil⟩
  | cons call calls ih =>
    obtain ⟨hfirst, hrest⟩ := List.pairwise_cons.mp hbefore
    obtain ⟨new, hnew, hbounds, hordered⟩ :=
      (call.run_records s).after.ordered (hone call List.mem_cons_self)
    obtain ⟨later, hlater, hafter, horderedLater⟩ :=
      ih hrest (fun c hc => hone c (List.mem_cons_of_mem _ hc)) (call.run.run s).2
    refine ⟨new ++ later, ?_, fun event hevent => ?_, ?_⟩
    · have hstep : s.afterCalls (call :: calls) = (call.run.run s).2.afterCalls calls := rfl
      rw [hstep, hlater, hnew, List.append_assoc]
    · rcases List.mem_append.mp hevent with hevent | hevent
      · exact ⟨call, List.mem_cons_self, (hbounds event hevent).1⟩
      · obtain ⟨c, hc, hle⟩ := hafter event hevent
        exact ⟨c, List.mem_cons_of_mem _ hc, hle⟩
    · refine List.pairwise_append.mpr ⟨hordered, horderedLater, fun a ha b hb => ?_⟩
      obtain ⟨c, hc, hle⟩ := hafter b hb
      exact ((hbounds a ha).2.trans (hfirst c hc)).trans hle

/-- The log since `s` has the steps of each of the calls that ends a request. -/
def FinishesLogged (calls : List HookCall) (s t : VLLMIntentAdapter) : Prop :=
  ∃ new, t.recorder.events = s.recorder.events ++ new ∧ ∀ call ∈ calls, call.finishes = true →
    (finishSteps call.step call.blockIds).Sublist (new.map (·.step))

theorem FinishesLogged.snoc (h : FinishesLogged calls s t) (call : HookCall) :
    Wp call.run (fun _ u => FinishesLogged (calls ++ [call]) s u) (fun _ _ => True) t := by
  obtain ⟨new, hnew, hdone⟩ := h
  have hmore : Wp call.run
      (fun _ u => ∃ more, u.recorder.events = t.recorder.events ++ more ∧
        (call.finishes = true → more.map (·.step) = finishSteps call.step call.blockIds))
      (fun _ _ => True) t := by
    by_cases hfinishes : call.finishes = true
    · refine (call.run_finishes hfinishes t).mono (fun _ u hu => ?_) fun _ _ _ => trivial
      obtain ⟨more, hmore, hsteps⟩ := hu
      exact ⟨more, hmore, fun _ => hsteps⟩
    · refine (call.run_records t).mono (fun _ u hu => ?_) fun _ _ _ => trivial
      obtain ⟨more, hmore, -, -⟩ := hu.ordered fun h => absurd h hfinishes
      exact ⟨more, hmore, fun h => absurd h hfinishes⟩
  refine hmore.mono (fun _ u hu => ?_) fun _ _ _ => trivial
  obtain ⟨more, hmore, hsteps⟩ := hu
  refine ⟨new ++ more, by rw [hmore, hnew, List.append_assoc], fun c hc hfinishes => ?_⟩
  rw [List.map_append]
  rcases List.mem_append.mp hc with hc | hc
  · exact (hdone c hc hfinishes).trans (List.sublist_append_left _ _)
  · rw [List.mem_singleton] at hc
    subst hc
    rw [hsteps hfinishes]
    exact List.sublist_append_right _ _

theorem forEach_finishesLogged (calls : List HookCall) (s : VLLMIntentAdapter) :
    Wp (Stateful.forEach HookCall.run calls) (fun _ t => FinishesLogged calls s t)
      (fun _ _ => True) s := by
  refine Stateful.wp_forEach (I := fun done _ t => FinishesLogged done s t) ⟨[], by simp, by simp⟩
    fun done call rest _ t _ ht => ?_
  exact ht.snoc call

/-- A run whose calls all return ends where any run of these calls ends. -/
theorem afterCalls_of_forEach (calls : List HookCall) (s : VLLMIntentAdapter) :
    Wp (Stateful.forEach HookCall.run calls) (fun _ t => t = s.afterCalls calls)
      (fun _ _ => True) s := by
  refine Stateful.wp_forEach (I := fun done _ t => t = s.afterCalls done) rfl
    fun done call rest _ t _ ht => ?_
  have hend : s.afterCalls (done ++ [call]) = (call.run.run t).2 := by
    rw [ht, afterCalls, List.foldl_append]
    rfl
  unfold Wp
  split
  next hrun => rw [hend, hrun]
  next => trivial

/-- Steps in order leave no room for the second block of a call that ends a request. -/
theorem FinishesLogged.endsOneBlock (h : FinishesLogged calls s t) (horder : InOrder s t) :
    ∀ call ∈ calls, call.EndsOneBlock := by
  intro call hcall hfinishes
  obtain ⟨new, hnew, hsteps⟩ := h
  obtain ⟨new', hnew', hordered⟩ := horder
  rw [hnew, List.append_cancel_left_eq] at hnew'
  subst hnew'
  have hsorted : (new.map (·.step)).Pairwise (· ≤ ·) := List.pairwise_map.mpr hordered
  exact (pairwise_finishSteps_iff call.step call.blockIds).mp
    (hsorted.sublist (hsteps call hcall hfinishes))

theorem afterCalls_inOrder (hbefore : calls.Pairwise HookCall.Before)
    (hone : ∀ call ∈ calls, call.EndsOneBlock) (s : VLLMIntentAdapter) :
    InOrder s (s.afterCalls calls) := by
  obtain ⟨new, hnew, -, hordered⟩ := afterCalls_ordered hbefore hone s
  exact ⟨new, hnew, hordered⟩

end Order

/-- Calls in the order of their steps record in the order of their steps if none ends a request with two
blocks or more. If all of them return, only then. -/
theorem recorder_inOrder (recorder : Option IntentTraceRecorder) (defaultBlockSizeBytes : ℤ)
    (defaultAllowedTiers : Option (Finset Tier)) {calls : List HookCall}
    (hbefore : calls.Pairwise HookCall.Before) :
    ((∀ call ∈ calls, call.EndsOneBlock) → ∀ done, done <+: calls →
      InOrder (init recorder defaultBlockSizeBytes defaultAllowedTiers)
        ((init recorder defaultBlockSizeBytes defaultAllowedTiers).afterCalls done)) ∧
    ∀ events after,
      (Stateful.forEach HookCall.run calls).run
        (init recorder defaultBlockSizeBytes defaultAllowedTiers) = (.ok events, after) →
      (InOrder (init recorder defaultBlockSizeBytes defaultAllowedTiers) after ↔
        ∀ call ∈ calls, call.EndsOneBlock) := by
  generalize init recorder defaultBlockSizeBytes defaultAllowedTiers = s
  refine ⟨fun hone done hdone => ?_, fun events after hrun => ⟨fun horder => ?_, fun hone => ?_⟩⟩
  · exact afterCalls_inOrder (hbefore.sublist hdone.sublist)
      (fun call hcall => hone call (hdone.subset hcall)) s
  · exact ((forEach_finishesLogged calls s).of_ok hrun).endsOneBlock horder
  · rw [(afterCalls_of_forEach calls s).of_ok hrun]
    exact afterCalls_inOrder hbefore hone s

/-- Two blocks are prefilled and decoded, and the request ends with one of them. -/
def orderedCalls : List HookCall :=
  [.prefillStep 0 "req" [0, 1], .decodeStep 1 "req" [0, 1] none none, .requestFinished 1 "req" [0],
    .blockAllocated 2 "other" 0 .prefill none none none false]

theorem recorder_inOrder_sample :
    orderedCalls.Pairwise HookCall.Before ∧ (∀ call ∈ orderedCalls, call.EndsOneBlock) ∧
    InOrder (init none 16384 none) ((init none 16384 none).afterCalls orderedCalls) := by
  have hbefore : orderedCalls.Pairwise HookCall.Before := by
    simp [orderedCalls, HookCall.Before, HookCall.lastStep, HookCall.finishes, HookCall.step]
  have hone : ∀ call ∈ orderedCalls, call.EndsOneBlock := by
    simp [orderedCalls, HookCall.EndsOneBlock, HookCall.finishes, HookCall.blockIds]
  exact ⟨hbefore, hone, (recorder_inOrder none 16384 none hbefore).1 hone orderedCalls List.prefix_rfl⟩

/-- The end of a request with two blocks frees the first at step 1 and then marks the second at step 0. -/
theorem finish_disorders_log :
    [HookCall.requestFinished 0 "req" [0, 1]].Pairwise HookCall.Before ∧
    ¬ InOrder (init none 16384 none)
      ((init none 16384 none).afterCalls [.requestFinished 0 "req" [0, 1]]) := by
  refine ⟨List.pairwise_singleton _ _, fun ⟨new, hnew, hordered⟩ => ?_⟩
  have hsteps : ((init none 16384 none).afterCalls
      [.requestFinished 0 "req" [0, 1]]).recorder.events.map (·.step) = [0, 1, 0, 1] := by
    decide +kernel
  have hsorted : (new.map (·.step)).Pairwise (· ≤ ·) := List.pairwise_map.mpr hordered
  have hevents : new.map (·.step) = [0, 1, 0, 1] := by
    rw [hnew] at hsteps
    exact hsteps
  rw [hevents] at hsorted
  simp at hsorted

end VLLMIntentAdapter

end KVMemoryIntent
