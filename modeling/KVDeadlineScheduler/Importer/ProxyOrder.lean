-- SUMMARY: The order of an imported proxy log: a segment spans the steps of its entry, and the next one starts one step later.
import KVDeadlineScheduler.Importer.ProxySegments

/-!
# Order of an imported proxy log

The segment of an entry starts at its index and ends when its completion is taken to
end. The next segment starts one step after it in any case, so the events are in order
as long as no entry but the last takes more than one step.
-/

namespace KVMemoryIntent

/-- The events are in order, from the step `first` to the step `last`. -/
structure Spans (first last : ℤ) (events : List MemoryIntentEvent) : Prop where
  sorted : events.Pairwise fun a b => a.step ≤ b.step
  within : ∀ e ∈ events, first ≤ e.step ∧ e.step ≤ last
  first_mem : ∃ e ∈ events, e.step = first
  last_mem : ∃ e ∈ events, e.step = last

/-- The test is exact, although the quotient is rounded. -/
theorem ProxyLogEntry.duration_le_one_iff (entry : ProxyLogEntry) :
    entry.duration ≤ 1 ↔ entry.completionTokens ≤ 64 := by
  have hparts : ∀ n : ℤ, ((max entry.completionTokens 1 : ℤ) : ℚ) ≤ n ↔ max entry.completionTokens 1 ≤ n := by
    intro n
    exact_mod_cast Iff.rfl
  have hnonneg : (0 : ℚ) ≤ ((max entry.completionTokens 1 : ℤ) : ℚ) / 64 := by
    have : (0 : ℤ) ≤ max entry.completionTokens 1 := le_max_of_le_right zero_le_one
    positivity
  have hgap : ((max entry.completionTokens 1 : ℤ) : ℚ) / 64 ≤ 1 ∨
      65 / 64 ≤ ((max entry.completionTokens 1 : ℤ) : ℚ) / 64 := by
    rw [div_le_one (by norm_num), div_le_div_iff_of_pos_right (by norm_num)]
    rcases le_or_gt (max entry.completionTokens 1) 64 with hle | hlt
    · exact .inl (by exact_mod_cast hle)
    · exact .inr (by exact_mod_cast hlt)
  rw [ProxyLogEntry.duration, Double.ceil_nearest_le_one_iff hnonneg hgap, div_le_one (by norm_num)]
  have hsixtyfour := hparts 64
  rw [Int.cast_ofNat] at hsixtyfour
  rw [hsixtyfour]
  omega

namespace ProxyRequest

variable {request : ProxyRequest}

theorem step_of_mem_stamps {stamp : ℤ × EventType × ℤ} (h : stamp ∈ request.stamps) :
    stamp.1 = request.step ∨ stamp.1 = request.markStep ∨ stamp.1 = request.freeStep := by
  simp only [stamps, List.mem_append, List.mem_map] at h
  rcases h with ⟨b, -, rfl⟩ | ⟨b, -, rfl⟩ | ⟨b, -, rfl⟩
  · exact .inl rfl
  · exact .inr (.inl rfl)
  · exact .inr (.inr rfl)

theorem Sound.markStep_le_freeStep (hsound : request.Sound) : request.markStep ≤ request.freeStep :=
  hsound.step_lt_freeStep

/-- The three loops come one after the other. -/
theorem Sound.stamps_sorted (hsound : request.Sound) : request.stamps.Pairwise fun a b => a.1 ≤ b.1 := by
  have hmark := request.step_le_markStep
  have hfree := hsound.markStep_le_freeStep
  have hloop (step : ℤ) (eventType : EventType) (blocks : List ℕ) :
      (blocks.map fun b : ℕ => (step, eventType, (b : ℤ))).Pairwise fun a b => a.1 ≤ b.1 := by
    rw [List.pairwise_map]
    exact List.pairwise_of_forall fun _ _ => le_refl step
  refine List.pairwise_append.mpr ⟨hloop _ _ _, List.pairwise_append.mpr ⟨hloop _ _ _, hloop _ _ _, ?_⟩, ?_⟩
  · intro a ha b hb
    obtain ⟨_, -, rfl⟩ := List.mem_map.mp ha
    obtain ⟨_, -, rfl⟩ := List.mem_map.mp hb
    exact hfree
  · intro a ha b hb
    obtain ⟨_, -, rfl⟩ := List.mem_map.mp ha
    rcases List.mem_append.mp hb with hb | hb
    · obtain ⟨_, -, rfl⟩ := List.mem_map.mp hb
      exact hmark
    · obtain ⟨_, -, rfl⟩ := List.mem_map.mp hb
      exact hmark.trans hfree

/-- The events of a request go from its step to the one at which it is freed. -/
theorem Stamped.spans {events : List MemoryIntentEvent} (h : Stamped request request.stamps events)
    (hsound : request.Sound) : Spans request.step request.freeStep events := by
  have hfirst : 0 ∈ request.blocks := by
    have := hsound.numBlocks_pos
    rw [blocks, List.mem_range]
    omega
  have hevent (stamp : ℤ × EventType × ℤ) (hstamp : stamp ∈ request.stamps) :
      ∃ e ∈ events, e.step = stamp.1 := by
    rw [← h.stamps, List.mem_map] at hstamp
    obtain ⟨e, he, rfl⟩ := hstamp
    exact ⟨e, he, rfl⟩
  have hsorted := hsound.stamps_sorted
  rw [← h.stamps, List.pairwise_map] at hsorted
  refine ⟨hsorted, fun e he => ?_, ?_, ?_⟩
  · have hstamp : e.stamp ∈ request.stamps := h.stamps ▸ List.mem_map_of_mem he
    have hmark := request.step_le_markStep
    have hfree := hsound.markStep_le_freeStep
    have hstep : e.step = e.stamp.1 := rfl
    rcases step_of_mem_stamps hstamp with heq | heq | heq <;> omega
  · exact hevent (request.step, .allocated, ((0 : ℕ) : ℤ))
      (List.mem_append_left _ (List.mem_map_of_mem hfirst))
  · exact hevent (request.freeStep, .freed, ((0 : ℕ) : ℤ))
      (List.mem_append_right _ (List.mem_append_right _ (List.mem_map_of_mem hfirst)))

end ProxyRequest

/-- Segments that start one step after the other are in order if none but the last takes more than
one step. -/
theorem flatten_sorted_iff {entries : List ProxyLogEntry} {segments : List (List MemoryIntentEvent)}
    (hlength : entries.length = segments.length)
    (h : ∀ (i : ℕ) (hentry : i < entries.length) (hsegment : i < segments.length),
      Spans i (i + (entries[i]).duration) segments[i]) :
    segments.flatten.Pairwise (fun a b => a.step ≤ b.step) ↔
      ∀ entry ∈ entries.dropLast, entry.duration ≤ 1 := by
  rw [List.pairwise_flatten]
  constructor
  · rintro ⟨-, hcross⟩ entry hentry
    obtain ⟨i, hi, rfl⟩ := List.mem_iff_getElem.mp hentry
    rw [List.length_dropLast] at hi
    rw [List.getElem_dropLast]
    obtain ⟨last, hlast, hstep⟩ := (h i (by omega) (by omega)).last_mem
    obtain ⟨first, hfirst, hstep'⟩ := (h (i + 1) (by omega) (by omega)).first_mem
    have hle := List.pairwise_iff_getElem.mp hcross i (i + 1) (by omega) (by omega) (by omega) last hlast
      first hfirst
    rw [hstep, hstep'] at hle
    push_cast at hle
    omega
  · intro hshort
    refine ⟨fun segment hsegment => ?_, List.pairwise_iff_getElem.mpr fun i j hi hj hlt a ha b hb => ?_⟩
    · obtain ⟨i, hi, rfl⟩ := List.mem_iff_getElem.mp hsegment
      exact (h i (by omega) hi).sorted
    · have hin : entries[i] ∈ entries.dropLast := by
        rw [List.mem_iff_getElem]
        exact ⟨i, by rw [List.length_dropLast]; omega, List.getElem_dropLast _⟩
      have hduration := hshort _ hin
      have hlast := ((h i (by omega) hi).within a ha).2
      have hfirst := ((h j (by omega) hj).within b hb).1
      omega

/-- The events that the import of a proxy log returns are in order exactly if no entry but the last of
the sorted log completes more than 64 tokens. -/
theorem openaiProxyLogsToIntentEvents_sorted_iff {logicalBlockTokens : ℤ} {entries : List ProxyLogEntry}
    {modelNameOverride : Option String} {events : List MemoryIntentEvent} (htokens : 0 < logicalBlockTokens)
    (h : openaiProxyLogsToIntentEvents entries logicalBlockTokens modelNameOverride = .ok events) :
    events.Pairwise (fun a b => a.step ≤ b.step) ↔
      ∀ entry ∈ (ProxyLogEntry.sortedByKey entries).dropLast, entry.completionTokens ≤ 64 := by
  obtain ⟨segments, himport, hsegments⟩ :=
    openaiProxyLogsToIntentEvents_segments modelNameOverride htokens (fitsDoubles_of_import htokens h)
  rw [h] at himport
  cases himport
  have hlength : (ProxyLogEntry.sortedByKey entries).length = segments.length := by
    rw [← hsegments.length_eq, List.length_zipIdx]
  rw [flatten_sorted_iff hlength fun i hentry hsegment => ?_]
  · simp only [ProxyLogEntry.duration_le_one_iff]
  · have hstamped := hsegments.get (by rwa [List.length_zipIdx]) hsegment
    have hspans := hstamped.spans (ProxyRequest.rounded_sound _ htokens _ _)
    simpa [ProxyRequest.rounded, ProxyRequest.freeStep] using hspans

/-- A second entry, created while the first one is completed. -/
def laterEntry : ProxyLogEntry :=
  { chatEntry with
    id := some "chatcmpl-2"
    created := some 3 }

theorem sortedByKey_chat : ProxyLogEntry.sortedByKey [chatEntry, laterEntry] = [chatEntry, laterEntry] := by
  apply List.mergeSort_of_pairwise
  simp +decide

theorem openaiProxyLogsToIntentEvents_sorted_chat :
    ∃ events, openaiProxyLogsToIntentEvents [chatEntry, laterEntry] 256 none = .ok events ∧
      (events.Pairwise (fun a b => a.step ≤ b.step) ↔
        ∀ entry ∈ (ProxyLogEntry.sortedByKey [chatEntry, laterEntry]).dropLast,
          entry.completionTokens ≤ 64) := by
  have hfits : ∀ entry ∈ [chatEntry, laterEntry], entry.FitsDoubles 256 := by
    intro entry hentry
    have hcounts : entry.usage = chatEntry.usage := by
      rcases List.mem_pair.mp hentry with rfl | rfl <;> rfl
    refine ProxyLogEntry.fitsDoubles_of_lt ?_ ?_ ?_ (by decide) <;>
      simp only [ProxyLogEntry.promptTokens, ProxyLogEntry.completionTokens, hcounts] <;> decide
  obtain ⟨segments, himport, -⟩ := openaiProxyLogsToIntentEvents_segments none (by decide) hfits
  exact ⟨_, himport, openaiProxyLogsToIntentEvents_sorted_iff (by decide) himport⟩

/-- The first entry is freed eight steps after it was allocated, before the second is allocated in the
trace and after it in time. -/
theorem openaiProxyLogsToIntentEvents_unsorted :
    ∃ events, openaiProxyLogsToIntentEvents [chatEntry, laterEntry] 256 none = .ok events ∧
      ¬events.Pairwise fun a b => a.step ≤ b.step := by
  obtain ⟨events, himport, hcheck⟩ := Replay.exists_of_check
    (x := [chatEntry, laterEntry].zipIdx.foldlM (importProxyEntry 256 none) [])
    (p := fun events => decide ¬events.Pairwise fun a b : MemoryIntentEvent => a.step ≤ b.step)
    (by decide +kernel)
  refine ⟨events, ?_, of_decide_eq_true hcheck⟩
  rw [openaiProxyLogsToIntentEvents, if_neg (by decide), sortedByKey_chat]
  exact himport

end KVMemoryIntent
