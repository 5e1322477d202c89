-- SUMMARY: A decode step marks each block and accesses it right after: when the two events carry the same deadline, slack, target and priority.
import KVDeadlineScheduler.Adapter.Failures

/-!
# One story per block

The mark of a decode step computes the slack from the block's position and the
request's priority. The access that follows computes it again from position 0 and
the block's priority. The other fields of the access are those of the mark.
-/

namespace KVMemoryIntent

namespace VLLMIntentAdapter

open Stateful (Wp)

/-- The access carries what the mark carries. -/
structure SameStory (marked accessed : MemoryIntent) : Prop where
  deadlineUs : accessed.deadlineUs = marked.deadlineUs
  slackUs : accessed.slackUs = marked.slackUs
  targetDecodeStep : accessed.targetDecodeStep = marked.targetDecodeStep
  expectedReuseWindowTokens : accessed.expectedReuseWindowTokens = marked.expectedReuseWindowTokens
  requestPriority : accessed.requestPriority = marked.requestPriority

/-- Every mark and access of the same block tell the same story. -/
def OneStory (events : List MemoryIntentEvent) : Prop :=
  ∀ marked ∈ events, marked.eventType = .markedDecodeCritical →
    ∀ accessed ∈ events, accessed.eventType = .accessed →
      accessed.intent.blockId = marked.intent.blockId →
      SameStory marked.intent accessed.intent

/-! ## When the two slacks agree -/

/-- The priority that the mark uses: the one passed, or the request's. -/
def markPriority (adapter : VLLMIntentAdapter) (requestId : String) (requestPriority : Option ℤ) : ℤ :=
  { adapter.metadataOf requestId with
    requestPriority :=
      requestPriority.getD (adapter.metadataOf requestId).requestPriority : RequestMetadata
  }.priorityOrDefault

/-- The priority that the access uses: the one passed, or the block's, which a new block has from its
request. -/
def accessPriority (adapter : VLLMIntentAdapter) (requestId : String) (blockId : ℤ)
    (requestPriority : Option ℤ) : ℤ :=
  requestPriority.getD ((adapter.blocks.get? (requestId, blockId)).elim
    (adapter.markPriority requestId requestPriority) (·.1.requestPriority))

/-- The mark of the block at a position takes 40 us off for each position and adds 10 us for each ten
points of its priority, down to 50 us. The access only adds those of its own priority. -/
def SlacksAgree (deadlineUs : ℤ) (position : ℕ) (markPriority accessPriority : ℤ) : Prop :=
  markPriority / 10 = accessPriority / 10 + 4 * position ∨
  deadlineUs / 5 ≤ 50 ∧ accessPriority < 10 ∧ markPriority / 10 ≤ 4 * position

/-- A decode step without a deadline, or one in which the slacks agree at each position. -/
def StoriesAgree (adapter : VLLMIntentAdapter) (requestId : String) (activeBlockIds : List ℤ)
    (deadlineUs requestPriority : Option ℤ) : Prop :=
  ∀ d ∈ deadlineUs, ∀ entry ∈ activeBlockIds.zipIdx,
    SlacksAgree d entry.2 (adapter.markPriority requestId requestPriority)
      (adapter.accessPriority requestId entry.1 requestPriority)

theorem computeSlack_eq_iff {deadlineUs p q : ℤ} {position : ℕ} (hq : 0 ≤ q) :
    computeSlack deadlineUs position p = computeSlack deadlineUs 0 q ↔
      SlacksAgree deadlineUs position p q := by
  simp only [computeSlack, SlacksAgree]
  omega

/-! ## Fetching a block -/

/-- What a decode step knows of the block it has fetched. -/
structure FetchedFor (deadlineUs : Option ℤ) (priority : ℤ) (block : MemoryIntent) : Prop where
  requestPriority : block.requestPriority = priority
  deadlineUs : ∀ d ∈ deadlineUs, block.deadlineUs = some d
  slackUs : ∀ d, block.deadlineUs = some d → block.slackUs = some (computeSlack d 0 priority)

section Blocks

variable {s t : VLLMIntentAdapter} {requestId : String} {blockId step : ℤ} {options : BlockOptions}
  {block : MemoryIntent}

theorem fetchedFor_refreshed {cached : MemoryIntent}
    (h : (refreshedFields cached step options).postInit = .ok block) :
    FetchedFor options.deadlineUs (options.requestPriority.getD cached.requestPriority) block := by
  rw [(MemoryIntent.postInit_ok h).1]
  refine ⟨rfl, fun d hd => ?_, fun d hd => ?_⟩
  · simp [refreshedFields, Option.mem_def.mp hd]
  · have hdeadline : (options.deadlineUs <|> cached.deadlineUs) = some d := hd
    simp [refreshedFields, hdeadline]

theorem fetchedFor_created
    (h : (s.intentFields (s.metadataOf requestId) requestId blockId
      (creationOptions step options)).postInit = .ok block) :
    FetchedFor options.deadlineUs
      (options.requestPriority.getD (s.metadataOf requestId).priorityOrDefault) block := by
  rw [(MemoryIntent.postInit_ok h).1]
  refine ⟨rfl, fun d hd => ?_, fun d hd => ?_⟩
  · simp [intentFields, creationOptions, Option.mem_def.mp hd]
  · have hdeadline : (options.deadlineUs <|> (s.metadataOf requestId).deadlineUs) = some d := hd
    simp [intentFields, creationOptions, hdeadline]

/-- The access right after a mark. Only the slack is computed anew. -/
theorem onBlockAccessed_after {marked : ValidIntent}
    (hget : t.blocks.get? (requestId, blockId) = some marked) :
    Wp (onBlockAccessed step requestId blockId .decode true)
      (fun accessed u => u.recorder.events = t.recorder.events ++ [accessed] ∧
        accessed.eventType = .accessed ∧ accessed.intent.blockId = marked.1.blockId ∧
        (SameStory marked.1 accessed.intent ↔ ∀ d, marked.1.deadlineUs = some d →
          marked.1.slackUs = some (computeSlack d 0 marked.1.requestPriority)))
      (fun _ u => u.recorder = t.recorder) t := by
  rw [onBlockAccessed_eq, touch, Stateful.wp_bind]
  refine wp_getOrCreateBlock_fields (fun cached hcached block hblock => ?_) (fun hnone => ?_)
    (fun _ _ => rfl) fun _ _ => knowing_recorder t requestId
  · rw [hget] at hcached
    cases hcached
    have hfields := (MemoryIntent.postInit_ok hblock).1
    dsimp only
    rw [Stateful.wp_bind]
    refine wp_validated (fun v hv => ?_) fun _ => rfl
    refine wp_emit (fun _ event _ htype hintent => ?_) fun _ _ => rfl
    have hslack : event.intent.slackUs = marked.1.deadlineUs.elim marked.1.slackUs
        fun d => some (computeSlack d 0 marked.1.requestPriority) := by
      rw [hintent, hv, hfields]
      rfl
    refine ⟨rfl, htype, by rw [hintent, hv, hfields]; rfl, fun h d hd => ?_, fun h => ?_⟩
    · rw [← h.slackUs, hslack, hd]
      rfl
    · refine ⟨?_, ?_, ?_, ?_, ?_⟩
      · rw [hintent, hv, hfields]
        rfl
      · rw [hslack]
        cases hd : marked.1.deadlineUs with
        | none => rfl
        | some d => exact (h d hd).symm
      all_goals
        rw [hintent, hv, hfields]
        rfl
  · rw [hget] at hnone
    cases hnone

end Blocks

/-! ## One block of a step -/

section Step

variable {s t : VLLMIntentAdapter} {requestId : String} {blockId step : ℤ} {position : ℕ}
  {deadlineUs requestPriority : Option ℤ}

/-- The events of one block: a mark, and the access after it unless the hook raises before. -/
structure MarkedThenAccessed (blockId : ℤ) (marked accessed : MemoryIntentEvent) : Prop where
  marked_type : marked.eventType = .markedDecodeCritical
  accessed_type : accessed.eventType = .accessed
  marked_blockId : marked.intent.blockId = blockId
  accessed_blockId : accessed.intent.blockId = blockId

/-- The fields of the block at a position as `on_decode_step` marks it. -/
def markedFields (block : MemoryIntent) (step : ℤ) (position : ℕ) (deadlineUs : Option ℤ)
    (priority : ℤ) : MemoryIntent :=
  { block with
    phase := .decode
    priority := .decodeCritical
    pinRequested := true
    prefetchOk := true
    deadlineUs := deadlineUs <|> block.deadlineUs
    slackUs := deadlineUs.elim block.slackUs fun d => some (computeSlack d position priority)
    targetDecodeStep := some (step + position)
    expectedReuseWindowTokens := some (1 + position)
    recencyScore := max (4 / 5) (1 - ((position : ℤ) : ℚ) / 10)
    lastAccessStep := step }

/-- A mark has the slack that its access computes, unless a deadline was passed. -/
theorem markedFields_slack_iff {block : MemoryIntent} {priority accessPriority : ℤ}
    (hfetched : FetchedFor deadlineUs accessPriority block) (hpriority : 0 ≤ accessPriority) :
    (∀ d, (markedFields block step position deadlineUs priority).deadlineUs = some d →
      (markedFields block step position deadlineUs priority).slackUs =
        some (computeSlack d 0 block.requestPriority)) ↔
    ∀ d ∈ deadlineUs, SlacksAgree d position priority accessPriority := by
  rw [hfetched.requestPriority]
  cases deadlineUs with
  | none => exact ⟨fun _ d hd => (by cases hd), fun _ d hd => hfetched.slackUs d hd⟩
  | some deadline =>
    have hiff : computeSlack deadline position priority = computeSlack deadline 0 accessPriority ↔
        SlacksAgree deadline position priority accessPriority := computeSlack_eq_iff hpriority
    constructor
    · intro h d hd
      cases hd
      exact hiff.mp (Option.some.inj (h deadline rfl))
    · intro h d hd
      cases hd
      exact congrArg some (hiff.mpr (h deadline rfl))

/-- The mark of a fetched block and the access after it agree exactly when their slacks do. -/
theorem mark_then_access {block intent : ValidIntent} {priority accessPriority : ℤ} {reason : String}
    (hfetched : FetchedFor deadlineUs accessPriority block.1)
    (hrequest : block.1.requestId = requestId) (hid : block.1.blockId = blockId)
    (hintent : intent.1 = markedFields block.1 step position deadlineUs priority) :
    Wp (do
        let marked ← emit step .markedDecodeCritical intent reason
        let accessed ← onBlockAccessed step requestId blockId .decode true
        return [marked, accessed])
      (fun events u => ∃ marked accessed, events = [marked, accessed] ∧
        u.recorder.events = t.recorder.events ++ [marked, accessed] ∧
        MarkedThenAccessed blockId marked accessed ∧
        (SameStory marked.intent accessed.intent ↔
          ∀ d ∈ deadlineUs, SlacksAgree d position priority accessPriority))
      (fun _ u => ∃ new, u.recorder.events = t.recorder.events ++ new ∧
        ∀ event ∈ new, event.eventType = .markedDecodeCritical ∧ event.intent.blockId = blockId) t := by
  have hpriority : 0 ≤ accessPriority := by
    rw [← hfetched.requestPriority]
    exact block.2.requestPriority_range.1
  rw [Stateful.wp_bind]
  refine wp_emit (fun _ marked _ htype hmarked => ?_) fun _ _ => ⟨[], by simp, by simp⟩
  rw [hintent] at hmarked
  have hkey : (requestId, blockId) = (marked.intent.requestId, marked.intent.blockId) := by
    rw [hmarked]
    exact Prod.ext hrequest.symm hid.symm
  have hcached : (t.recorded marked).blocks.get? (requestId, blockId) =
      some ⟨marked.intent, marked.intent_valid⟩ := by
    rw [hkey]
    exact OrderedDict.get?_set_self _ _ _
  have hblock : marked.intent.blockId = blockId := by
    rw [hmarked]
    exact hid
  have hlogged : (t.recorded marked).recorder.events = t.recorder.events ++ [marked] := rfl
  refine ((onBlockAccessed_after hcached).mono (fun accessed u hu => ?_) fun _ u hu => ?_).bind
    (R := fun accessed u => u.recorder.events = t.recorder.events ++ [marked, accessed] ∧
      MarkedThenAccessed blockId marked accessed ∧
      (SameStory marked.intent accessed.intent ↔
        ∀ d ∈ deadlineUs, SlacksAgree d position priority accessPriority))
    fun accessed u hu => ⟨marked, accessed, rfl, hu⟩
  · obtain ⟨hevents, haccess, haccessed, hsame⟩ := hu
    refine ⟨by rw [hevents, hlogged, List.append_assoc]; rfl,
      ⟨htype, haccess, hblock, haccessed.trans hblock⟩, hsame.trans ?_⟩
    dsimp only
    rw [hmarked]
    exact markedFields_slack_iff hfetched hpriority
  · refine ⟨[marked], by rw [hu, hlogged], fun event hevent => ?_⟩
    rw [List.mem_singleton.mp hevent]
    exact ⟨htype, hblock⟩

/-- What the slacks of a block at a position depend on, once the step has written the metadata. -/
def EntryAgrees (s : VLLMIntentAdapter) (requestId : String) (deadlineUs requestPriority : Option ℤ)
    (entry : ℤ × ℕ) : Prop :=
  ∀ d ∈ deadlineUs, SlacksAgree d entry.2 (s.metadataOf requestId).priorityOrDefault
    (requestPriority.getD ((s.blocks.get? (requestId, entry.1)).elim
      (s.metadataOf requestId).priorityOrDefault (·.1.requestPriority)))

/-- One round of the loop, for a request whose metadata is known. -/
theorem decodeBlock_story (h : t.Coherent)
    (hknown : (t.requestMetadata.get? requestId).isSome) (entry : ℤ × ℕ) :
    Wp (decodeBlock step requestId deadlineUs requestPriority entry)
      (fun events u => ∃ marked accessed, events = [marked, accessed] ∧
        u.recorder.events = t.recorder.events ++ [marked, accessed] ∧
        MarkedThenAccessed entry.1 marked accessed ∧
        (SameStory marked.intent accessed.intent ↔
          EntryAgrees t requestId deadlineUs requestPriority entry))
      (fun _ u => ∃ new, u.recorder.events = t.recorder.events ++ new ∧
        ∀ event ∈ new, event.eventType = .markedDecodeCritical ∧ event.intent.blockId = entry.1) t := by
  have hknowing : t.knowing requestId = t := knowing_of_known hknown
  have hmeta (key : String × ℤ) (block : ValidIntent) :
      (t.caching key block).metadataOf requestId = t.metadataOf requestId := rfl
  have hknowing' (key : String × ℤ) (block : ValidIntent) :
      (t.caching key block).knowing requestId = t.caching key block := knowing_of_known hknown
  unfold EntryAgrees
  rw [decodeBlock, Stateful.wp_bind]
  refine wp_getOrCreateBlock_fields (fun cached hget block hblock => ?_)
    (fun hget block warning hblock => ?_) (fun _ _ => ⟨[], by simp, by simp⟩)
    fun _ _ => ⟨[], by simp, by simp⟩
  · have hfiled := h _ cached hget
    have hfields := (MemoryIntent.postInit_ok hblock).1
    dsimp only
    rw [Stateful.wp_bind, wp_requestDefaults, Stateful.wp_bind, hmeta, hknowing', hget,
      Option.elim_some]
    refine wp_validated (fun intent hintent => ?_) fun _ => ⟨[], by simp [caching], by simp⟩
    refine mark_then_access (fetchedFor_refreshed hblock) ?_ ?_ hintent
    · rw [hfields]
      exact hfiled.requestId
    · rw [hfields]
      exact hfiled.blockId
  · have hfields := (MemoryIntent.postInit_ok hblock).1
    dsimp only
    rw [hknowing, Stateful.wp_bind, wp_requestDefaults, Stateful.wp_bind, hmeta, hknowing', hget,
      Option.elim_none]
    refine wp_validated (fun intent hintent => ?_) fun _ => ⟨[], by simp [caching], by simp⟩
    refine mark_then_access (fetchedFor_created hblock) ?_ ?_ hintent
    · rw [hfields]
      rfl
    · rw [hfields]
      rfl

end Step

/-! ## The whole step -/

section Loop

variable {s t : VLLMIntentAdapter} {requestId : String} {step : ℤ} {blockId : ℤ}
  {deadlineUs requestPriority : Option ℤ} {new more : List MemoryIntentEvent}
  {marked accessed : MemoryIntentEvent}

theorem oneStory_nil : OneStory [] := by
  intro marked hmarked
  cases hmarked

/-- The events of one more block. -/
theorem oneStory_append_iff (hfresh : ∀ event ∈ new, event.intent.blockId ≠ blockId)
    (h : MarkedThenAccessed blockId marked accessed) :
    OneStory (new ++ [marked, accessed]) ↔
      OneStory new ∧ SameStory marked.intent accessed.intent := by
  have hmarked : marked.eventType ≠ .accessed := by rw [h.marked_type]; decide
  have haccessed : accessed.eventType ≠ .markedDecodeCritical := by rw [h.accessed_type]; decide
  constructor
  · intro hstory
    refine ⟨fun m hm htype a ha htype' hid => ?_, ?_⟩
    · exact hstory m (List.mem_append_left _ hm) htype a (List.mem_append_left _ ha) htype' hid
    · exact hstory marked (by simp) h.marked_type accessed (by simp) h.accessed_type
        (h.accessed_blockId.trans h.marked_blockId.symm)
  · rintro ⟨hstory, hsame⟩ m hm htype a ha htype' hid
    simp only [List.mem_append, List.mem_cons, List.not_mem_nil, or_false] at hm ha
    rcases hm with hm | rfl | rfl
    · rcases ha with ha | rfl | rfl
      · exact hstory m hm htype a ha htype' hid
      · exact absurd htype' hmarked
      · exact absurd (hid.symm.trans h.accessed_blockId) (hfresh m hm)
    · rcases ha with ha | rfl | rfl
      · exact absurd (hid.trans h.marked_blockId) (hfresh a ha)
      · exact absurd htype' hmarked
      · exact hsame
    · exact absurd htype haccessed

/-- A mark alone adds nothing to compare. -/
theorem OneStory.append_marks (h : OneStory new)
    (hfresh : ∀ event ∈ new, event.intent.blockId ≠ blockId)
    (hmarks : ∀ event ∈ more, event.eventType = .markedDecodeCritical ∧
      event.intent.blockId = blockId) : OneStory (new ++ more) := by
  intro m hm htype a ha htype' hid
  rcases List.mem_append.mp ha with ha | ha
  · rcases List.mem_append.mp hm with hm | hm
    · exact h m hm htype a ha htype' hid
    · exact absurd (hid.trans (hmarks m hm).2) (hfresh a ha)
  · rw [(hmarks a ha).1] at htype'
    cases htype'

theorem Within.mono {blockIds blockIds' : List ℤ} (h : Within requestId blockIds s t)
    (hsub : ∀ b ∈ blockIds, b ∈ blockIds') : Within requestId blockIds' s t := by
  obtain ⟨new, hnew, hnamed⟩ := h.events
  refine ⟨h.tiers, ⟨new, hnew, fun event hevent => ?_⟩, fun key hkey => ?_, h.metadata, h.coherent⟩
  · exact ⟨(hnamed event hevent).1, hsub _ (hnamed event hevent).2⟩
  · exact h.blocks key fun hin => hkey ⟨hin.1, hsub _ hin.2⟩

theorem decodeBlocks_story (h : s.Coherent) (hknown : (s.requestMetadata.get? requestId).isSome)
    {activeBlockIds : List ℤ} (hnodup : activeBlockIds.Nodup) :
    Wp (Stateful.forEach (decodeBlock step requestId deadlineUs requestPriority)
        activeBlockIds.zipIdx)
      (fun events t => t.recorder.events = s.recorder.events ++ events ∧
        (OneStory events ↔ ∀ entry ∈ activeBlockIds.zipIdx,
          EntryAgrees s requestId deadlineUs requestPriority entry))
      (fun _ t => ∃ new, t.recorder.events = s.recorder.events ++ new ∧
        ((∀ entry ∈ activeBlockIds.zipIdx,
          EntryAgrees s requestId deadlineUs requestPriority entry) → OneStory new)) s := by
  refine (Stateful.wp_forEach
    (I := fun done collected t => Within requestId (done.map Prod.fst) s t ∧
      (∀ event ∈ collected, event.intent.blockId ∈ done.map Prod.fst) ∧
      t.recorder.events = s.recorder.events ++ collected ∧
      (OneStory collected ↔ ∀ entry ∈ done,
        EntryAgrees s requestId deadlineUs requestPriority entry))
    ⟨.refl h, by simp, by simp, by simp [oneStory_nil]⟩
    fun done entry rest collected t hsplit ht => ?_).mono (fun _ _ hu => hu.2.2) fun _ _ hu => hu
  obtain ⟨hwithin, hids, hevents, hstory⟩ := ht
  have hsplitIds : activeBlockIds = done.map Prod.fst ++ entry.1 :: rest.map Prod.fst := by
    have := congrArg (List.map Prod.fst) hsplit
    simpa using this
  have hnew : entry.1 ∉ done.map Prod.fst := by
    rw [hsplitIds] at hnodup
    exact fun hmem => (List.nodup_append.mp hnodup).2.2 _ hmem _ List.mem_cons_self rfl
  have hfresh : ∀ event ∈ collected, event.intent.blockId ≠ entry.1 :=
    fun event hevent heq => hnew (heq ▸ hids event hevent)
  have hmeta : t.requestMetadata.get? requestId = s.requestMetadata.get? requestId := by
    rcases hwithin.metadata requestId with hsame | ⟨-, hnone, -⟩
    · exact hsame
    · rw [hnone] at hknown
      cases hknown
  -- The block has not been touched yet, so its entry is judged as before the step.
  have hentry : EntryAgrees t requestId deadlineUs requestPriority entry ↔
      EntryAgrees s requestId deadlineUs requestPriority entry := by
    unfold EntryAgrees metadataOf
    rw [hmeta, hwithin.blocks _ fun hin => hnew hin.2]
  have hin : entry.1 ∈ (done ++ [entry]).map Prod.fst := by simp
  have hgrown : Within requestId ((done ++ [entry]).map Prod.fst) s t :=
    hwithin.mono fun b hb => by simp [List.mem_map.mp hb]
  refine ((hgrown.decodeBlock hin deadlineUs requestPriority).and (decodeBlock_story hwithin.coherent
    (by rwa [hmeta]) entry)).mono (fun events u hu => ?_) fun _ u hu => ?_
  · obtain ⟨hwithin', marked, accessed, rfl, hrecorded, hpair, hsame⟩ := hu
    refine ⟨hwithin', fun event hevent => ?_, by rw [hrecorded, hevents, List.append_assoc], ?_⟩
    · simp only [List.mem_append, List.mem_cons, List.not_mem_nil, or_false] at hevent
      rcases hevent with hevent | rfl | rfl
      · simp [List.mem_map.mp (hids event hevent)]
      · rw [hpair.marked_blockId]
        exact hin
      · rw [hpair.accessed_blockId]
        exact hin
    · rw [oneStory_append_iff hfresh hpair, hstory, hsame, hentry]
      simp [or_imp, forall_and]
  · obtain ⟨-, more, hmore, hmarks⟩ := hu
    refine ⟨collected ++ more, by rw [hmore, hevents, List.append_assoc], fun hagree => ?_⟩
    refine (hstory.mpr fun e he => hagree e ?_).append_marks hfresh hmarks
    rw [hsplit]
    exact List.mem_append_left _ he

/-- The entries are judged after the step has written the request's metadata. -/
theorem storiesAgree_iff {requestMeta : RequestMetadata} (activeBlockIds : List ℤ)
    (hpriority : requestMeta.priorityOrDefault = s.markPriority requestId requestPriority) :
    (∀ entry ∈ activeBlockIds.zipIdx, EntryAgrees { s.knowing requestId with
        requestMetadata := (s.knowing requestId).requestMetadata.set requestId requestMeta }
      requestId deadlineUs requestPriority entry) ↔
    StoriesAgree s requestId activeBlockIds deadlineUs requestPriority := by
  have hmeta : ({ s.knowing requestId with
      requestMetadata := (s.knowing requestId).requestMetadata.set requestId requestMeta } :
        VLLMIntentAdapter).metadataOf requestId = requestMeta := by
    simp [metadataOf]
  unfold EntryAgrees StoriesAgree accessPriority
  rw [hmeta, hpriority, knowing_blocks]
  exact ⟨fun h d hd entry hentry => h entry hentry d hd, fun h entry hentry d hd => h d hd entry hentry⟩

theorem onDecodeStep_story (h : s.Coherent) {activeBlockIds : List ℤ} (hnodup : activeBlockIds.Nodup) :
    Wp (onDecodeStep step requestId activeBlockIds deadlineUs requestPriority)
      (fun events t => t.recorder.events = s.recorder.events ++ events ∧
        (OneStory events ↔ StoriesAgree s requestId activeBlockIds deadlineUs requestPriority))
      (fun _ t => ∃ new, t.recorder.events = s.recorder.events ++ new ∧
        (StoriesAgree s requestId activeBlockIds deadlineUs requestPriority → OneStory new)) s := by
  have hcoherent : (s.knowing requestId).Coherent := by
    have hwithin : Within requestId [] s (s.knowing requestId) := (Within.refl h).knowing
    exact hwithin.coherent
  rw [onDecodeStep, Stateful.wp_bind, wp_requestDefaults, Stateful.wp_bind, Stateful.wp_modify]
  refine (decodeBlocks_story ?_ ?_ hnodup).mono (fun events t ht => ?_) fun _ t ht => ?_
  · exact hcoherent
  · simp
  · exact ⟨by simpa using ht.1, ht.2.trans (storiesAgree_iff activeBlockIds rfl)⟩
  · obtain ⟨new, hnew, hstory⟩ := ht
    refine ⟨new, by simpa using hnew, fun hagree => hstory ?_⟩
    exact (storiesAgree_iff activeBlockIds (by rfl)).mpr hagree

end Loop

/-- A decode step over distinct blocks, after any calls: the events it records tell one story for each
block if the slacks agree, and when it returns, only then. -/
theorem decodeStep_tells_one_story (recorder : Option IntentTraceRecorder)
    (defaultBlockSizeBytes : ℤ) (defaultAllowedTiers : Option (Finset Tier)) (calls : List HookCall)
    (step : ℤ) (requestId : String) {activeBlockIds : List ℤ} (deadlineUs requestPriority : Option ℤ)
    (hnodup : activeBlockIds.Nodup) {result : Except Failure (List MemoryIntentEvent)}
    {after : VLLMIntentAdapter}
    (hrun : (onDecodeStep step requestId activeBlockIds deadlineUs requestPriority).run
      ((init recorder defaultBlockSizeBytes defaultAllowedTiers).afterCalls calls) =
        (result, after)) :
    (∃ new, after.recorder.events =
        ((init recorder defaultBlockSizeBytes defaultAllowedTiers).afterCalls calls).recorder.events ++
          new ∧
      (StoriesAgree ((init recorder defaultBlockSizeBytes defaultAllowedTiers).afterCalls calls)
        requestId activeBlockIds deadlineUs requestPriority → OneStory new)) ∧
    ∀ events, result = .ok events →
      (OneStory events ↔
        StoriesAgree ((init recorder defaultBlockSizeBytes defaultAllowedTiers).afterCalls calls)
          requestId activeBlockIds deadlineUs requestPriority) := by
  have hcoherent := coherent_afterCalls
    (coherent_init recorder defaultBlockSizeBytes defaultAllowedTiers) calls
  cases result with
  | ok events =>
    obtain ⟨hevents, hiff⟩ := (onDecodeStep_story hcoherent hnodup).of_ok hrun
    refine ⟨⟨events, hevents, hiff.mpr⟩, fun events' heq => ?_⟩
    cases heq
    exact hiff
  | error failure =>
    refine ⟨(onDecodeStep_story hcoherent hnodup).of_error hrun, fun events heq => ?_⟩
    cases heq

/-- A new adapter decodes one block of a request. -/
theorem decodeStep_tells_one_story_first :
    ∃ events after,
      (onDecodeStep 0 "req" [0] (some 5000) none).run ((init none 16384 none).afterCalls []) =
        (.ok events, after) ∧
      (OneStory events ↔
        StoriesAgree ((init none 16384 none).afterCalls []) "req" [0] (some 5000) none) := by
  obtain ⟨events, after, hrun, -⟩ := Stateful.exists_of_check
    (x := onDecodeStep 0 "req" [0] (some 5000) none) (s := (init none 16384 none).afterCalls [])
    (p := fun _ _ => true) (by decide +kernel)
  exact ⟨events, after, hrun, (decodeStep_tells_one_story none 16384 none [] 0 "req" (some 5000) none
    (by decide) hrun).2 events rfl⟩

/-- The second of two blocks is marked with 1010 us of slack and accessed with 1050 us. -/
theorem decodeStep_tells_two_stories :
    ∃ events after,
      (onDecodeStep 0 "req" [0, 1] (some 5000) none).run ((init none 16384 none).afterCalls []) =
        (.ok events, after) ∧ ¬ OneStory events := by
  obtain ⟨events, after, hrun, hcheck⟩ := Stateful.exists_of_check
    (x := onDecodeStep 0 "req" [0, 1] (some 5000) none) (s := (init none 16384 none).afterCalls [])
    (p := fun events _ => events.any fun m => events.any fun a =>
      m.eventType = .markedDecodeCritical && a.eventType = .accessed &&
        a.intent.blockId = m.intent.blockId && m.intent.slackUs = some 1010 &&
        a.intent.slackUs = some 1050) (by decide +kernel)
  refine ⟨events, after, hrun, fun hstory => ?_⟩
  simp only [List.any_eq_true, Bool.and_eq_true, decide_eq_true_eq] at hcheck
  obtain ⟨m, hm, a, ha, ⟨⟨⟨htype, htype'⟩, hid⟩, hslack⟩, hslack'⟩ := hcheck
  have hsame := (hstory m hm htype a ha htype' hid).slackUs
  rw [hslack, hslack'] at hsame
  cases hsame

end VLLMIntentAdapter

end KVMemoryIntent
