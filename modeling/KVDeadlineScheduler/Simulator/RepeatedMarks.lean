-- SUMMARY: Marks that repeat what the last accesses of a step have written: they take time, and change nothing else.
import KVDeadlineScheduler.Library.Journal
import KVDeadlineScheduler.Simulator.ElapsedTime
import KVDeadlineScheduler.Simulator.Frame
import KVDeadlineScheduler.Simulator.Hints

/-!
# Repeated marks

In a decode step each block is marked decode-critical and accessed. The access writes
what the mark has written and the pin, so the block is as a mark with the intent of the
access would leave it. Later events of the step do not change that, since the recency
has decayed already. Marks that repeat these intents are therefore spent in vain.
-/

namespace KVMemoryIntent

namespace KVMemorySimulator

open SimulatorState

variable {sim : KVMemorySimulator} {order : SetOrder} {s s' t : SimulatorState}
  {e : MemoryIntentEvent} {latency step : ℤ} {C : SimulatorState → MemoryIntent → Prop}
  {b : MemoryIntent} {id : String}

/-! ## Events of the step that decayed last -/

theorem runEvent_lastDecayStep (hs : s.Consistent) (h : sim.runEvent order s e = .ok s') :
    s'.lastDecayStep = e.step := by
  obtain ⟨t, latency, -, -, hsettled⟩ := runEvent_ok hs victimsMeet_true h
  rw [hsettled.eq]

/-- They dispatch, and nothing decays. -/
theorem runEvent_in_step (hs : s.Consistent) (hstep : e.step = s.lastDecayStep)
    (h : sim.runEvent order s e = .ok s') :
    ∃ t latency, Dispatched sim order (fun _ _ => True) s e t latency ∧
      s' = { t with latencies := t.latencies ++ [sim.baseStepLatencyUs + latency] } := by
  obtain ⟨t, latency, u, hd, hdecay, heq⟩ := runEvent_dispatched hs victimsMeet_true h
  have hlast : ¬e.step ≠ t.lastDecayStep := by
    rw [hd.lastDecayStep hs, not_not]
    exact hstep
  rw [decayRecency, if_neg hlast] at hdecay
  cases hdecay
  exact ⟨t, latency, hd, heq⟩

/-- Other blocks stay as they are, or change their tier. -/
theorem runEvent_in_step_other (hs : s.Consistent) (hstep : e.step = s.lastDecayStep)
    (h : sim.runEvent order s e = .ok s') (hne : id ≠ e.objectId)
    (hget : s.liveBlocks.get? id = some b) :
    ∃ b', s'.liveBlocks.get? id = some b' ∧ Retiered b b' := by
  obtain ⟨t, latency, hd, rfl⟩ := runEvent_in_step hs hstep h
  cases hd.spared hne hs hget with
  | same hsame => exact ⟨b, hsame.live.trans hget, .refl b⟩
  | displaced _ hget₁ hget' hretiered =>
    rw [hget] at hget₁
    cases hget₁
    exact ⟨_, hget', hretiered⟩

/-- A mark on a live block rewrites it and takes a base step. -/
theorem runEvent_mark (hs : s.Consistent) (htype : e.eventType = .markedDecodeCritical)
    (hstep : e.step = s.lastDecayStep) (hget : s.liveBlocks.get? e.objectId = some b)
    (h : sim.runEvent order s e = .ok s') :
    s' = { s with
      liveBlocks := s.liveBlocks.set e.objectId (markDecodeCritical b e.intent)
      latencies := s.latencies ++ [sim.baseStepLatencyUs] } := by
  obtain ⟨t, latency, hd, rfl⟩ := runEvent_in_step hs hstep h
  obtain ⟨rfl, hhinted⟩ := hd.hinted (.inl htype)
  cases hhinted with
  | annotated hexisting =>
    rw [hget] at hexisting
    cases hexisting
    simp only [storeBlock, annotate, htype, add_zero]
  | unknown _ hnone =>
    rw [hget] at hnone
    cases hnone
  | ignored hignored =>
    rcases hignored with hmiss | hnone
    · rw [htype] at hmiss
      cases hmiss
    · rw [hget] at hnone
      cases hnone

/-! ## Blocks as marks leave them -/

/-- A mark with this intent would leave the block as it is. -/
def MarkedAs (b intent : MemoryIntent) : Prop := markDecodeCritical b intent = b

theorem MarkedAs.retiered {b b' intent : MemoryIntent} (h : MarkedAs b intent) (hretiered : Retiered b b') :
    MarkedAs b' intent := by
  obtain ⟨tier, rfl⟩ := hretiered
  have hmark : markDecodeCritical { b with currentTier := tier } intent =
      { markDecodeCritical b intent with currentTier := tier } := rfl
  unfold MarkedAs at h ⊢
  rw [hmark, h]

/-- Every object that the events name is as the last of its events marks it. -/
def MarkedLast (s : SimulatorState) (events : List MemoryIntentEvent) : Prop :=
  ∀ id e, Journal.last MemoryIntentEvent.objectId events id = some e →
    ∃ b, s.liveBlocks.get? id = some b ∧ MarkedAs b e.intent

/-- One more mark overwrites what the marks before it have left of its block. -/
theorem get?_set_mark {before live : OrderedDict String MemoryIntent} {marks : List MemoryIntentEvent}
    {c : MemoryIntent}
    (hget : ∀ id, live.get? id = (before.get? id).map fun b =>
      (Journal.last MemoryIntentEvent.objectId marks id).elim b fun m => markDecodeCritical b m.intent)
    (hc : live.get? e.objectId = some c) (id : String) :
    (live.set e.objectId (markDecodeCritical c e.intent)).get? id = (before.get? id).map fun b =>
      (Journal.last MemoryIntentEvent.objectId (marks ++ [e]) id).elim b fun m =>
        markDecodeCritical b m.intent := by
  by_cases hid : id = e.objectId
  · subst hid
    obtain ⟨b, hb, rfl⟩ := Option.map_eq_some_iff.mp ((hget e.objectId).symm.trans hc)
    rw [OrderedDict.get?_set_self, hb, Option.map_some, Journal.last_append_self]
    cases Journal.last MemoryIntentEvent.objectId marks e.objectId <;> rfl
  · rw [OrderedDict.get?_set_of_ne _ _ hid, Journal.last_append_of_ne hid]
    exact hget id

/-- Each block is as its last mark leaves it, or as before if no mark names it. -/
theorem replay_marks {marks : List MemoryIntentEvent} (hs : s.Consistent)
    (htype : ∀ e ∈ marks, e.eventType = .markedDecodeCritical)
    (hstep : ∀ e ∈ marks, e.step = s.lastDecayStep)
    (hlive : ∀ e ∈ marks, e.objectId ∈ s.liveBlocks.keys) (h : sim.replay order s marks = .ok s') :
    s' = { s with
      liveBlocks := s'.liveBlocks
      latencies := s.latencies ++ List.replicate marks.length sim.baseStepLatencyUs } ∧
    s'.liveBlocks.keys = s.liveBlocks.keys ∧
    ∀ id, s'.liveBlocks.get? id = (s.liveBlocks.get? id).map fun b =>
      (Journal.last MemoryIntentEvent.objectId marks id).elim b fun e => markDecodeCritical b e.intent := by
  induction marks using List.reverseRecOn generalizing s' with
  | nil =>
    cases h
    simp [Journal.last]
  | append_singleton marks e ih =>
    obtain ⟨t, ht, h⟩ := Replay.run_append_ok.mp h
    obtain ⟨u, he, hu⟩ := Replay.run_cons_ok.mp h
    cases hu
    obtain ⟨heq, hkeys, hget⟩ := ih (fun x hx => htype x (List.mem_append_left _ hx))
      (fun x hx => hstep x (List.mem_append_left _ hx)) (fun x hx => hlive x (List.mem_append_left _ hx)) ht
    have hmem : e.objectId ∈ t.liveBlocks.keys := by
      rw [hkeys]
      exact hlive e (by simp)
    obtain ⟨c, hc⟩ := OrderedDict.mem_keys_iff.mp hmem
    have hlast : e.step = t.lastDecayStep := by
      rw [heq]
      exact hstep e (by simp)
    have hmark := runEvent_mark (replay_consistent hs ht) (htype e (by simp)) hlast hc he
    rw [hmark]
    refine ⟨?_, ?_, get?_set_mark hget hc⟩
    · rw [heq]
      simp [List.replicate_add]
    · exact (OrderedDict.keys_set_of_mem _ hmem).trans hkeys

/-- Marks that leave every block as it is only take time. -/
theorem replay_marks_again {marks : List MemoryIntentEvent} (hs : s.Consistent)
    (htype : ∀ e ∈ marks, e.eventType = .markedDecodeCritical)
    (hstep : ∀ e ∈ marks, e.step = s.lastDecayStep) (hmarked : MarkedLast s marks)
    (h : sim.replay order s marks = .ok s') :
    s' = s.withLatencies (s.latencies ++ List.replicate marks.length sim.baseStepLatencyUs) := by
  have hlive : ∀ e ∈ marks, e.objectId ∈ s.liveBlocks.keys := by
    intro e he
    have hsome : (Journal.last MemoryIntentEvent.objectId marks e.objectId).isSome :=
      Journal.last_isSome_of_mem he
    obtain ⟨last, hlast⟩ := Option.isSome_iff_exists.mp hsome
    obtain ⟨b, hb, -⟩ := hmarked _ last hlast
    exact OrderedDict.mem_keys_iff.mpr ⟨b, hb⟩
  obtain ⟨heq, hkeys, hget⟩ := replay_marks hs htype hstep hlive h
  have hsame : s'.liveBlocks = s.liveBlocks := by
    refine OrderedDict.ext_of_keys hkeys fun id => (hget id).trans ?_
    cases hlast : Journal.last MemoryIntentEvent.objectId marks id with
    | none => simp
    | some e =>
      obtain ⟨b, hb, hmark⟩ := hmarked id e hlast
      rw [hb, Option.map_some, Option.elim_some, hmark]
  rw [hsame] at heq
  exact heq

/-! ## Decode rounds -/

/-- A mark and the access to the same block after it. -/
structure MarkedAccess (step : ℤ) (marked accessed : MemoryIntentEvent) : Prop where
  marked_type : marked.eventType = .markedDecodeCritical
  accessed_type : accessed.eventType = .accessed
  marked_priority : marked.intent.priority = .decodeCritical
  marked_step : marked.step = step
  accessed_step : accessed.step = step
  objectId : accessed.objectId = marked.objectId
  accessed_priority : accessed.intent.priority = .decodeCritical
  requestPriority : accessed.intent.requestPriority = marked.intent.requestPriority
  recencyScore : accessed.intent.recencyScore = 1

/-- Blocks that are marked and accessed one after the other, in one step. -/
inductive DecodeRound (step : ℤ) : List MemoryIntentEvent → Prop where
  | nil : DecodeRound step []
  | snoc {events : List MemoryIntentEvent} {marked accessed : MemoryIntentEvent}
      (h : DecodeRound step events) (hpair : MarkedAccess step marked accessed) :
      DecodeRound step (events ++ [marked, accessed])

theorem DecodeRound.step_eq {events : List MemoryIntentEvent} (h : DecodeRound step events) :
    ∀ e ∈ events, e.step = step := by
  induction h with
  | nil => simp
  | snoc _ hpair ih =>
    intro e he
    simp only [List.mem_append, List.mem_cons, List.not_mem_nil, or_false] at he
    rcases he with he | rfl | rfl
    · exact ih e he
    · exact hpair.marked_step
    · exact hpair.accessed_step

theorem DecodeRound.pinned {events : List MemoryIntentEvent} (h : DecodeRound step events) :
    ∀ e ∈ events, e.intent.pinRequested = true := by
  induction h with
  | nil => simp
  | snoc _ hpair ih =>
    intro e he
    simp only [List.mem_append, List.mem_cons, List.not_mem_nil, or_false] at he
    rcases he with he | rfl | rfl
    · exact ih e he
    · exact e.intent_valid.pinned hpair.marked_priority
    · exact e.intent_valid.pinned hpair.accessed_priority

theorem DecodeRound.append {events events' : List MemoryIntentEvent} (h : DecodeRound step events)
    (h' : DecodeRound step events') : DecodeRound step (events ++ events') := by
  induction h' with
  | nil => simpa using h
  | snoc _ hpair ih =>
    rw [← List.append_assoc]
    exact ih.snoc hpair

theorem accessed_block (hs : s.Consistent) (htype : e.eventType = .accessed)
    (hd : Dispatched sim order C s e t latency) :
    ∃ b, t.liveBlocks.get? e.objectId = some b ∧ Retiered (accessedBlock s e) b := by
  cases hd with
  | hit => exact ⟨_, OrderedDict.get?_set_self _ _ _, .refl _⟩
  | miss _ _ _ hrun =>
    have hmissed : (missedInHbm s e).liveBlocks.get? e.objectId =
        some { accessedBlock s e with currentTier := .hbm } := by
      rw [(stored_missedInHbm hs).liveBlocks, OrderedDict.get?_set_self]
    obtain ⟨b, hb, hretiered⟩ := ((hrun.frame ((stored_missedInHbm hs).consistent hs)).retiered _).2 _ hmissed
    exact ⟨b, hb, Retiered.trans _ _ _ ⟨.hbm, rfl⟩ hretiered⟩
  | allocatedHbm hother => simp [htype] at hother
  | allocatedDram hother => simp [htype] at hother
  | allocatedOther hother => simp [htype] at hother
  | markedUnknown hother => simp [htype] at hother
  | annotated hother => rcases hother with hother | hother | hother <;> simp [htype] at hother
  | spilled hother => simp [htype] at hother
  | prefetchDeclined hother => simp [htype] at hother
  | prefetched haccepted =>
    have hother := haccepted.1
    simp [htype] at hother
  | evicted hother => simp [htype] at hother
  | freed hother => simp [htype] at hother
  | unchanged hignored => exact absurd htype hignored.not_accessed

theorem marked_block (htype : e.eventType = .markedDecodeCritical)
    (hd : Dispatched sim order C s e t latency) :
    ∃ b, t.liveBlocks.get? e.objectId = some b ∧ b.requestPriority = e.intent.requestPriority := by
  cases hd with
  | markedUnknown => exact ⟨_, OrderedDict.get?_set_self _ _ _, rfl⟩
  | annotated =>
    refine ⟨_, OrderedDict.get?_set_self _ _ _, ?_⟩
    simp only [annotate, htype]
    rfl
  | unchanged hignored =>
    cases hignored with
    | miss hother => simp [htype] at hother
    | unknown hother =>
      rcases hother with hother | hother | hother | hother | hother <;> simp [htype] at hother
    | spillDenied hother => simp [htype] at hother
    | resident hother => simp [htype] at hother
  | allocatedHbm hother => simp [htype] at hother
  | allocatedDram hother => simp [htype] at hother
  | allocatedOther hother => simp [htype] at hother
  | hit hother => simp [htype] at hother
  | miss hother => simp [htype] at hother
  | spilled hother => simp [htype] at hother
  | prefetchDeclined hother => simp [htype] at hother
  | prefetched haccepted =>
    have hother := haccepted.1
    simp [htype] at hother
  | evicted hother => simp [htype] at hother
  | freed hother => simp [htype] at hother

/-- A block that is marked and accessed is as a mark with the intent of the access leaves it. -/
theorem MarkedAccess.markedAs {marked accessed : MemoryIntentEvent}
    (hpair : MarkedAccess step marked accessed) (hs : s.Consistent) (hmark : sim.runEvent order s marked = .ok t)
    (haccess : sim.runEvent order t accessed = .ok s') :
    ∃ b, s'.liveBlocks.get? accessed.objectId = some b ∧ MarkedAs b accessed.intent := by
  have ht := runEvent_consistent hs hmark
  have hstored : ∃ b, t.liveBlocks.get? accessed.objectId = some b ∧
      b.requestPriority = accessed.intent.requestPriority := by
    obtain ⟨u, latency, hd, -, hsettled⟩ := runEvent_ok hs victimsMeet_true hmark
    obtain ⟨b, hb, hpriority⟩ := marked_block hpair.marked_type hd
    obtain ⟨b', hb', r, -, rfl⟩ := (hsettled.aged _).2 b hb
    rw [hpair.objectId, hpair.requestPriority]
    exact ⟨_, hb', hpriority⟩
  obtain ⟨stored, hstored, hpriority⟩ := hstored
  have hstep : accessed.step = t.lastDecayStep := by
    rw [runEvent_lastDecayStep hs hmark, hpair.accessed_step, hpair.marked_step]
  obtain ⟨u, latency, hd, rfl⟩ := runEvent_in_step ht hstep haccess
  obtain ⟨b, hb, hretiered⟩ := accessed_block ht hpair.accessed_type hd
  refine ⟨b, hb, MarkedAs.retiered ?_ hretiered⟩
  -- the access has written all that the mark would write but the priority of the request
  have hpinned : accessed.intent.pinRequested = true := accessed.intent_valid.pinned hpair.accessed_priority
  have hrecency : max accessed.intent.recencyScore 1 = accessed.intent.recencyScore := by
    rw [hpair.recencyScore, max_self]
  simp only [MarkedAs, markDecodeCritical, accessedBlock, touch, hstored, Option.getD_some, hrecency,
    hpinned, hpair.accessed_priority, ← hpriority]

/-- After a decode round every object of it is as its last access marks it. -/
theorem DecodeRound.markedLast {events : List MemoryIntentEvent} (hround : DecodeRound step events)
    (hs : s.Consistent) (h : sim.replay order s events = .ok s') :
    MarkedLast s' events ∧ (events ≠ [] → s'.lastDecayStep = step) := by
  induction hround generalizing s' with
  | nil => exact ⟨fun id e hlast => by simp [Journal.last] at hlast, fun hne => absurd rfl hne⟩
  | @snoc events marked accessed hround hpair ih =>
    obtain ⟨t, ht, h⟩ := Replay.run_append_ok.mp h
    obtain ⟨u, hmark, h⟩ := Replay.run_cons_ok.mp h
    obtain ⟨v, haccess, h⟩ := Replay.run_cons_ok.mp h
    cases h
    obtain ⟨hmarked, hlast⟩ := ih ht
    have hconsistent := replay_consistent hs ht
    have hu := runEvent_consistent hconsistent hmark
    have hsplit : events ++ [marked, accessed] = events ++ [marked] ++ [accessed] := by simp
    refine ⟨fun id e he => ?_, fun _ => ?_⟩
    · rw [hsplit] at he
      by_cases hid : id = accessed.objectId
      · subst hid
        rw [Journal.last_append_self] at he
        cases he
        exact hpair.markedAs hconsistent hmark haccess
      · have hid' : id ≠ marked.objectId := hpair.objectId ▸ hid
        rw [Journal.last_append_of_ne hid, Journal.last_append_of_ne hid'] at he
        -- the round has begun before, so neither event of the pair decays
        have hstep := hlast (List.ne_nil_of_mem (Journal.mem_of_last he))
        obtain ⟨b, hb, hmarks⟩ := hmarked id e he
        obtain ⟨c, hc, hbc⟩ := runEvent_in_step_other hconsistent (hpair.marked_step.trans hstep.symm)
          hmark hid' hb
        have hstep' : accessed.step = u.lastDecayStep := by
          rw [runEvent_lastDecayStep hconsistent hmark, hpair.accessed_step, hpair.marked_step]
        obtain ⟨d, hd, hcd⟩ := runEvent_in_step_other hu hstep' haccess hid hc
        exact ⟨d, hd, (hmarks.retiered hbc).retiered hcd⟩
    · rw [runEvent_lastDecayStep hu haccess, hpair.accessed_step]

/-! ## Traces with repeated marks -/

theorem nonneg_of_mem_none (l : ℤ) (h : l ∈ (none : Option ℤ)) : 0 ≤ l := absurd h (Option.not_mem_none l)

/-- The event as a mark: with the same intent, in the same step. -/
def asMark (reason : String) (e : MemoryIntentEvent) : MemoryIntentEvent where
  step := e.step
  eventType := .markedDecodeCritical
  intent := e.intent
  reason := some reason
  step_nonneg := e.step_nonneg
  latencyUs_nonneg := nonneg_of_mem_none
  intent_valid := e.intent_valid

/-- The marks repeat the end of a decode round that the trace has just gone through. -/
structure Repeats (reason : String) (trace marks : List MemoryIntentEvent) : Prop where
  round : ∃ before events step, trace = before ++ events ∧ DecodeRound step events ∧
    ∃ tail, tail <:+ events ∧ marks = tail.map (asMark reason)

/-- `full` is `plain` with marks in between that repeat what was done just before. -/
inductive WithRepeats (reason : String) : List MemoryIntentEvent → List MemoryIntentEvent → Prop where
  | nil : WithRepeats reason [] []
  | event {plain full : List MemoryIntentEvent} (h : WithRepeats reason plain full) (e : MemoryIntentEvent) :
      WithRepeats reason (plain ++ [e]) (full ++ [e])
  | marks {plain full marks : List MemoryIntentEvent} (h : WithRepeats reason plain full)
      (hrepeats : Repeats reason full marks) : WithRepeats reason plain (full ++ marks)

section Traces

variable {reason : String} {plain full marks : List MemoryIntentEvent}

theorem Repeats.mem (h : Repeats reason full marks) {m : MemoryIntentEvent} (hm : m ∈ marks) :
    ∃ e ∈ full, m = asMark reason e := by
  obtain ⟨before, events, step, rfl, -, tail, htail, rfl⟩ := h.round
  obtain ⟨e, he, rfl⟩ := List.mem_map.mp hm
  exact ⟨e, List.mem_append_right _ (htail.subset he), rfl⟩

theorem Repeats.append_left (h : Repeats reason full marks) (before : List MemoryIntentEvent) :
    Repeats reason (before ++ full) marks := by
  obtain ⟨before', events, step, rfl, hround, hmarks⟩ := h.round
  exact ⟨⟨before ++ before', events, step, by simp, hround, hmarks⟩⟩

/-- The marks only take time. -/
theorem Repeats.replay (h : Repeats reason full marks)
    (ht : sim.replay order SimulatorState.initial full = .ok t) (hs : sim.replay order t marks = .ok s) :
    s = t.withLatencies (t.latencies ++ List.replicate marks.length sim.baseStepLatencyUs) := by
  obtain ⟨before, events, step, rfl, hround, tail, ⟨front, hfront⟩, rfl⟩ := h.round
  have htconsistent := replay_consistent SimulatorState.consistent_initial ht
  obtain ⟨u, hu, hevents⟩ := Replay.run_append_ok.mp ht
  have huconsistent := replay_consistent SimulatorState.consistent_initial hu
  obtain ⟨hmarked, hlast⟩ := hround.markedLast huconsistent hevents
  refine replay_marks_again htconsistent (fun m hm => ?_) (fun m hm => ?_) (fun id m hm => ?_) hs
  · obtain ⟨e, -, rfl⟩ := List.mem_map.mp hm
    rfl
  · obtain ⟨e, he, rfl⟩ := List.mem_map.mp hm
    have hmem : e ∈ events := hfront ▸ List.mem_append_right front he
    exact (hround.step_eq e hmem).trans (hlast (List.ne_nil_of_mem hmem)).symm
  · have hmap : Journal.last MemoryIntentEvent.objectId (tail.map (asMark reason)) id =
        (Journal.last MemoryIntentEvent.objectId tail id).map (asMark reason) := Journal.last_map fun _ => rfl
    rw [hmap] at hm
    obtain ⟨e, he, rfl⟩ := Option.map_eq_some_iff.mp hm
    have hevents : Journal.last MemoryIntentEvent.objectId events id = some e :=
      hfront ▸ Journal.last_append_of_some he
    exact hmarked id e hevents

theorem WithRepeats.append {plain' full' : List MemoryIntentEvent} (h : WithRepeats reason plain full)
    (h' : WithRepeats reason plain' full') : WithRepeats reason (plain ++ plain') (full ++ full') := by
  induction h' with
  | nil => simpa using h
  | event _ e ih =>
    rw [← List.append_assoc, ← List.append_assoc]
    exact ih.event e
  | marks _ hrepeats ih =>
    rw [← List.append_assoc]
    exact ih.marks (hrepeats.append_left _)

/-- A trace without repetitions. -/
theorem WithRepeats.of_events (events : List MemoryIntentEvent) : WithRepeats reason events events := by
  induction events using List.reverseRecOn with
  | nil => exact .nil
  | append_singleton events e ih => exact ih.event e

/-- Every event of `full` has the intent and the step of one of `plain`. -/
theorem WithRepeats.mem (h : WithRepeats reason plain full) :
    ∀ f ∈ full, ∃ e ∈ plain, f.step = e.step ∧ f.intent = e.intent := by
  induction h with
  | nil => simp
  | event _ e ih =>
    intro f hf
    rcases List.mem_append.mp hf with hf | hf
    · obtain ⟨e', he', hsame⟩ := ih f hf
      exact ⟨e', List.mem_append_left _ he', hsame⟩
    · exact ⟨f, List.mem_append_right _ hf, rfl, rfl⟩
  | marks _ hrepeats ih =>
    intro f hf
    rcases List.mem_append.mp hf with hf | hf
    · exact ih f hf
    · obtain ⟨e, he, rfl⟩ := hrepeats.mem hf
      exact ih e he

theorem WithRepeats.subset (h : WithRepeats reason plain full) : plain ⊆ full := by
  induction h with
  | nil => exact fun _ he => he
  | event _ e ih => exact List.append_subset.mpr ⟨fun x hx => List.mem_append_left _ (ih hx), by simp⟩
  | marks _ _ ih => exact fun x hx => List.mem_append_left _ (ih hx)

/-- An event after two replays that differ in the time they have taken. -/
theorem runEvent_after_replay {tiers : Finset Tier} (hp : sim.policy.OrderIndependent) (order' : SetOrder)
    (hone : (tiers.erase .hbm).card ≤ 1) (htiers : ∀ f ∈ full, f.intent.allowedTiers = tiers)
    (he : e.intent.allowedTiers = tiers) (ht : sim.replay order SimulatorState.initial full = .ok t)
    {t' : SimulatorState} (hsame : SameButTime t t') (h : sim.runEvent order t e = .ok s) :
    ∃ s', sim.runEvent order' t' e = .ok s' ∧ SameButTime s s' ∧
      ∃ latency, s.latencies = t.latencies ++ [latency] ∧ s'.latencies = t'.latencies ++ [latency] := by
  have hall : AllowsEverywhere tiers t := replay_eachBlock (fun f hf => keptBy_allowedTiers (htiers f hf)) ht
  have hconsistent := replay_consistent SimulatorState.consistent_initial ht
  have hvictims : VictimsMeet sim order OneFallback t e :=
    victimsMeet_oneFallback hone hconsistent hall he
  exact (runEvent_sameButTime hp hconsistent hvictims hsame).of_ok h

/-- The replays with and without the marks end in states that differ in what they report of the time,
and the marks take a base step each. -/
theorem WithRepeats.replay {tiers : Finset Tier} (h : WithRepeats reason plain full)
    (hp : sim.policy.OrderIndependent) (order' : SetOrder) (hone : (tiers.erase .hbm).card ≤ 1)
    (htiers : ∀ e ∈ full, e.intent.allowedTiers = tiers)
    (hs : sim.replay order SimulatorState.initial full = .ok s) :
    ∃ s', sim.replay order' SimulatorState.initial plain = .ok s' ∧ SameButTime s s' ∧
      s.latencies.sum = s'.latencies.sum + sim.baseStepLatencyUs * ((full.length : ℤ) - plain.length) := by
  induction h generalizing s with
  | nil =>
    cases hs
    exact ⟨_, rfl, .refl _, by simp⟩
  | @event plain full h e ih =>
    obtain ⟨t, ht, hs⟩ := Replay.run_append_ok.mp hs
    obtain ⟨u, he, hu⟩ := Replay.run_cons_ok.mp hs
    cases hu
    have hfull : ∀ f ∈ full, f.intent.allowedTiers = tiers := fun f hf => htiers f (List.mem_append_left _ hf)
    obtain ⟨t', ht', hsame, hsum⟩ := ih hfull ht
    obtain ⟨s', hs', hsame', latency, hl, hl'⟩ :=
      runEvent_after_replay hp order' hone hfull (htiers e (by simp)) ht hsame he
    refine ⟨s', Replay.run_append_ok.mpr ⟨t', ht', Replay.run_cons_ok.mpr ⟨s', hs', rfl⟩⟩, hsame', ?_⟩
    rw [hl, hl', List.sum_append, List.sum_append, hsum]
    simp only [List.length_append, List.length_singleton]
    push_cast
    ring
  | @marks plain full marks h hrepeats ih =>
    obtain ⟨t, ht, hs⟩ := Replay.run_append_ok.mp hs
    obtain ⟨t', ht', hsame, hsum⟩ := ih (fun f hf => htiers f (List.mem_append_left _ hf)) ht
    rw [hrepeats.replay ht hs]
    refine ⟨t', ht', hsame.withLatencies _, ?_⟩
    simp only [SimulatorState.withLatencies, List.sum_append, List.sum_replicate, List.length_append, hsum]
    push_cast
    ring

theorem foldl_max_le_iff {steps : List ℤ} {first bound : ℤ} :
    steps.foldl max first ≤ bound ↔ first ≤ bound ∧ ∀ step ∈ steps, step ≤ bound := by
  induction steps generalizing first with
  | nil => simp
  | cons step steps ih => simp [ih, and_assoc]

theorem WithRepeats.totalSteps (h : WithRepeats reason plain full) :
    (full.map MemoryIntentEvent.step).foldl max (-1) = (plain.map MemoryIntentEvent.step).foldl max (-1) := by
  refine le_antisymm (foldl_max_le_iff.mpr ⟨?_, ?_⟩) (foldl_max_le_iff.mpr ⟨?_, ?_⟩)
  · exact (foldl_max_le_iff.mp le_rfl).1
  · intro step hstep
    obtain ⟨f, hf, rfl⟩ := List.mem_map.mp hstep
    obtain ⟨e, he, hsame, -⟩ := h.mem f hf
    rw [hsame]
    exact (foldl_max_le_iff.mp le_rfl).2 _ (List.mem_map_of_mem he)
  · exact (foldl_max_le_iff.mp le_rfl).1
  · intro step hstep
    obtain ⟨e, he, rfl⟩ := List.mem_map.mp hstep
    exact (foldl_max_le_iff.mp le_rfl).2 _ (List.mem_map_of_mem (h.subset he))

theorem WithRepeats.blocks (h : WithRepeats reason plain full) :
    (full.map MemoryIntentEvent.objectId).toFinset = (plain.map MemoryIntentEvent.objectId).toFinset := by
  ext id
  simp only [List.mem_toFinset, List.mem_map]
  constructor
  · rintro ⟨f, hf, rfl⟩
    obtain ⟨e, he, -, hintent⟩ := h.mem f hf
    exact ⟨e, he, congrArg MemoryIntent.objectId hintent.symm⟩
  · rintro ⟨e, he, rfl⟩
    exact ⟨e, h.subset he, rfl⟩

/-- The results differ at most in what they report of the time. -/
def OnlyTimeDiffers (r r' : SimulationResult) : Prop :=
  r' = { r with
    totalLatencyUs := r'.totalLatencyUs
    p50LatencyUs := r'.p50LatencyUs
    p95LatencyUs := r'.p95LatencyUs
    p99LatencyUs := r'.p99LatencyUs }

theorem WithRepeats.report (h : WithRepeats reason plain full) (hsame : SameButTime s s') :
    OnlyTimeDiffers (sim.report s full) (sim.report s' plain) := by
  obtain ⟨-, latencies, ⟨log, rfl, -⟩, rfl⟩ := hsame
  unfold OnlyTimeDiffers report
  rw [h.totalSteps, h.blocks]
  rfl

end Traces

end KVMemorySimulator

end KVMemoryIntent
