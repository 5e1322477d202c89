-- SUMMARY: Runs of the bucket table under grace periods: they never fault, and what a reader that walked through one answers.
import KVDeadlineScheduler.Library.RcuSafety

/-!
# Readers across a run

A reader sees the bucket of the moment it entered, less some of the entries that
were removed while it walked, and nothing that was added. Its answer is the first
wanted entry of what it sees.
-/

namespace RcuTable

open BucketTable (Write)

variable {α β ρ : Type} [DecidableEq β] {s s' : State α β ρ}

/-! ## Runs -/

section Runs

variable [DecidableEq ρ] {actions : List (Action α β ρ)}

theorem Inv.step_ok {order : β → List ℕ} (h : Inv s order) {action : Action α β ρ}
    (hstep : step s action = .ok s') : Kept action s s' := by
  rcases h.safe action with hblocked | ⟨t, ht, hkept⟩
  · rw [hblocked] at hstep
    cases hstep
  · obtain rfl : t = s' := Except.ok.inj (ht.symm.trans hstep)
    exact hkept

theorem inv_run (h : ∃ order, Inv s order) (hrun : Replay.run step s actions = .ok s') :
    ∃ order, Inv s' order := by
  induction actions generalizing s with
  | nil =>
    cases hrun
    exact h
  | cons action actions ih =>
    obtain ⟨t, hstep, hrest⟩ := Replay.run_cons_ok.mp hrun
    obtain ⟨order, h⟩ := h
    exact ih (h.step_ok hstep).inv hrest

/-- No run reads or writes through a dangling pointer. -/
theorem run_ne_fault (h : ∃ order, Inv s order) (actions : List (Action α β ρ)) :
    Replay.run step s actions ≠ .error .fault := by
  induction actions generalizing s with
  | nil => exact fun hrun => nomatch hrun
  | cons action actions ih =>
    obtain ⟨order, h⟩ := h
    rw [Replay.run_cons]
    rcases h.safe action with hblocked | ⟨t, ht, hkept⟩
    · rw [hblocked]
      exact fun hrun => nomatch hrun
    · rw [ht]
      exact ih hkept.inv

/-- What holds of every task that takes the lock holds of every write on record. -/
theorem tasks_run {P : Write β α → Prop} (hinv : ∃ order, Inv s order)
    (hrun : Replay.run step s actions = .ok s') (hlock : ∀ task, .lock task ∈ actions → P task)
    (hwriter : ∀ writer, s.writer = some writer → P writer.task)
    (hlog : ∀ entry ∈ s.log, P entry.1) : ∀ entry ∈ s'.log, P entry.1 := by
  induction actions generalizing s with
  | nil =>
    cases hrun
    exact hlog
  | cons action actions ih =>
    obtain ⟨t, hstep, hrest⟩ := Replay.run_cons_ok.mp hrun
    obtain ⟨order, hinv⟩ := hinv
    have hkept := hinv.step_ok hstep
    have htail : ∀ task, .lock task ∈ actions → P task :=
      fun task hin => hlock task (List.mem_cons_of_mem action hin)
    rcases hkept.records with ⟨hsame, htask⟩ | ⟨writer, x, hholder, hfree, hadded⟩
    · refine ih hkept.inv hrest htail ?_ (hsame ▸ hlog)
      intro writer hw
      rcases htask writer hw with rfl | ⟨writer₀, hw₀, htask₀⟩
      · exact hlock writer.task List.mem_cons_self
      · exact htask₀ ▸ hwriter writer₀ hw₀
    · refine ih hkept.inv hrest htail (fun other hother => by simp [hfree] at hother) ?_
      intro entry hentry
      rw [hadded, List.mem_append, List.mem_singleton] at hentry
      rcases hentry with hentry | rfl
      · exact hlog entry hentry
      · exact hwriter writer hholder

end Runs

/-! ## One walk -/

/-- The entries that the writes on record since `s` removed. -/
def removedSince (s s' : State α β ρ) : List α :=
  (s'.log.drop s.log.length).filterMap fun
    | (.removeFirst .., found) => found
    | (.addUnless .., _) => none

/-- A reader entered when its bucket held the nodes `start`. It has passed over `visited` since,
and has `path` still to walk. -/
structure Walking (s₀ s : State α β ρ) (r : ρ) (wanted : α → Bool) (start visited path : List ℕ) :
    Prop where
  active : r ∈ s.active
  wants : (s.reader r).wanted = wanted
  ahead : Path s.heap r (s.reader r).cursor path
  sublist : (visited ++ path).Sublist start
  passed : ∀ i ∈ visited, ∀ x, valueAt s₀.heap i = some x → wanted x = false
  held : ∀ i ∈ start, ∃ node, s.heap i = some node ∧ node.phase.HeldFor r ∧
    valueAt s₀.heap i = some node.value ∧
    (node.phase.IsLinked ∨ node.value ∈ removedSince s₀ s) ∧ (node.phase.IsLinked → i ∈ visited ++ path)
  log : s₀.log <+: s.log

section Removals

omit [DecidableEq β]

variable {s₀ : State α β ρ}

theorem removedSince_mono (h₀ : s₀.log <+: s.log) (h : s.log <+: s'.log) {x : α}
    (hx : x ∈ removedSince s₀ s) : x ∈ removedSince s₀ s' := by
  obtain ⟨l, hl⟩ := h₀
  obtain ⟨l', hl'⟩ := h
  unfold removedSince at hx ⊢
  rw [← hl', ← hl, List.append_assoc, List.drop_left, List.filterMap_append]
  rw [← hl, List.drop_left] at hx
  exact List.mem_append_left _ hx

theorem Removed.mem_removedSince (h₀ : s₀.log <+: s.log) {node : Node α β ρ} (h : Removed s s' node) :
    node.value ∈ removedSince s₀ s' := by
  obtain ⟨l, hl⟩ := h₀
  obtain ⟨bucket, wanted, hlog⟩ := h
  rw [removedSince, hlog, ← hl]
  simp

end Removals

variable {s₀ : State α β ρ} {r : ρ} {wanted : α → Bool} {start visited path : List ℕ}

/-- A step of anyone, or the next step of the reader's own walk. -/
theorem Walking.step (h : Walking s₀ s r wanted start visited path) {action : Action α β ρ}
    (hkept : Kept action s s') (hstay : action ≠ .leave r) :
    ∃ visited' path', Walking s₀ s' r wanted start visited' path' := by
  obtain ⟨hevolves, hactive, hreader⟩ := hkept.readers r h.active hstay
  have hheld : ∀ i ∈ start, ∃ node node', s.heap i = some node ∧ s'.heap i = some node' ∧
      node'.phase.HeldFor r ∧ valueAt s₀.heap i = some node'.value ∧
      (node'.phase.IsLinked ∨ node'.value ∈ removedSince s₀ s') ∧
      (node'.phase.IsLinked → i ∈ visited ++ path) := by
    intro i hi
    obtain ⟨node, hnode, hheld, hvalue, hfate, hseen⟩ := h.held i hi
    obtain ⟨node', hnode', hvalue', hheld', hlinked, -⟩ := hevolves i node hnode hheld
    refine ⟨node, node', hnode, hnode', hheld', hvalue'.symm ▸ hvalue, ?_, fun h => hseen (hlinked h)⟩
    rw [hvalue']
    rcases hfate with hfate | hfate
    · rcases hkept.unlinks i node hnode hfate with ⟨other, hother, hlinked'⟩ | hremoved
      · obtain rfl : other = node' := Option.some.inj (hother.symm.trans hnode')
        exact .inl hlinked'
      · exact .inr (hremoved.mem_removedSince h.log)
    · exact .inr (removedSince_mono h.log hkept.records.log_grows hfate)
  have hlog : s₀.log <+: s'.log := h.log.trans hkept.records.log_grows
  rcases hreader with hreader | ⟨hheap, i, node, hcursor, hi, hwanted, hreader⟩
  · -- the reader stands where it stood; what lies ahead may have lost removed nodes
    obtain ⟨path', hpath', hsub, hkeep⟩ := h.ahead.evolve hevolves
    refine ⟨visited, path', hactive, hreader ▸ h.wants, hreader ▸ hpath',
      (hsub.append_left visited).trans h.sublist, h.passed, ?_, hlog⟩
    intro i hi
    obtain ⟨node, node', -, hnode', hheld', hvalue, hfate, hseen⟩ := hheld i hi
    refine ⟨node', hnode', hheld', hvalue, hfate, fun hlinked => ?_⟩
    rcases List.mem_append.mp (hseen hlinked) with hin | hin
    · exact List.mem_append_left _ hin
    · exact List.mem_append_right _ (hkeep i hin node' hnode' hlinked)
  · -- the first node ahead is passed
    have hahead := h.ahead
    rw [hcursor] at hahead
    cases hahead with
    | @cons _ node' rest hi' _ hrest =>
      obtain rfl : node = node' := Option.some.inj (hi.symm.trans hi')
      have happend : visited ++ i :: rest = (visited ++ [i]) ++ rest := by simp
      refine ⟨visited ++ [i], rest, hactive, hreader ▸ h.wants, ?_, happend ▸ h.sublist, ?_, ?_, hlog⟩
      · rw [hreader, hheap]
        exact hrest
      · intro j hj x hx
        rcases List.mem_append.mp hj with hj | hj
        · exact h.passed j hj x hx
        · obtain rfl := List.mem_singleton.mp hj
          have hin : j ∈ start := h.sublist.subset (by simp)
          obtain ⟨other, hother, -, hvalue, -⟩ := h.held j hin
          obtain rfl : node = other := Option.some.inj (hi.symm.trans hother)
          obtain rfl : node.value = x := Option.some.inj (hvalue.symm.trans hx)
          exact h.wants ▸ hwanted
      · intro j hj
        obtain ⟨-, node', -, hnode', hheld', hvalue, hfate, hseen⟩ := hheld j hj
        exact ⟨node', hnode', hheld', hvalue, hfate, fun hlinked => happend ▸ hseen hlinked⟩

variable [DecidableEq ρ] {actions : List (Action α β ρ)}

theorem Walking.run (hinv : ∃ order, Inv s order) (h : Walking s₀ s r wanted start visited path)
    (hrun : Replay.run RcuTable.step s actions = .ok s') (hstay : .leave r ∉ actions) :
    ∃ visited' path', Walking s₀ s' r wanted start visited' path' := by
  induction actions generalizing s visited path with
  | nil =>
    cases hrun
    exact ⟨visited, path, h⟩
  | cons action actions ih =>
    obtain ⟨t, hstep, hrest⟩ := Replay.run_cons_ok.mp hrun
    obtain ⟨order, hinv⟩ := hinv
    have hkept := hinv.step_ok hstep
    obtain ⟨hfirst, hstay⟩ : action ≠ .leave r ∧ .leave r ∉ actions := by
      simpa [eq_comm] using hstay
    obtain ⟨visited', path', hwalking⟩ := h.step hkept hfirst
    exact ih hkept.inv hwalking hrest hstay

theorem Walking.enter {order : β → List ℕ} (hinv : Inv s₀ order) {bucket : β}
    (henter : RcuTable.step s₀ (.enter r bucket wanted) = .ok s) :
    Walking s₀ s r wanted (order bucket) [] (order bucket) := by
  simp only [RcuTable.step] at henter
  split at henter
  · cases henter
  cases henter
  have hchain := hinv.chain bucket
  constructor
  case active => exact List.mem_cons_self
  case wants => simp
  case ahead =>
    simp only [Function.update_self]
    exact hchain.path
  case sublist => exact List.Sublist.refl _
  case passed => exact fun i hi => absurd hi List.not_mem_nil
  case held =>
    intro i hi
    obtain ⟨node, hnode, hphase⟩ := hchain.linked hi
    exact ⟨node, hnode, by simp [hphase, Phase.HeldFor], by simp [valueAt, hnode],
      .inl (by simp [hphase, Phase.IsLinked]), fun _ => hi⟩
  case log => exact List.prefix_refl _

/-- What a walk that comes to its end answers, from the nodes it has seen. -/
theorem Walking.leave (h : Walking s₀ s r wanted start visited path)
    (hleave : RcuTable.step s (.leave r) = .ok s') :
    (s'.reader r).answer = ((visited ++ path).filterMap (valueAt s₀.heap)).find? wanted := by
  have hvisited : (visited.filterMap (valueAt s₀.heap)).find? wanted = none := by
    rw [List.find?_eq_none]
    intro x hx
    obtain ⟨i, hi, hvalue⟩ := List.mem_filterMap.mp hx
    simp [h.passed i hi x hvalue]
  rw [List.filterMap_append, List.find?_append, hvisited, Option.none_or]
  simp only [RcuTable.step, h.active, not_true, if_false, h.wants, bind, Except.bind] at hleave
  rcases h.ahead.stops wanted with ⟨-, rfl, hstop⟩ | ⟨i, node, rest, -, rfl, hi, -, hstop⟩
  · simp only [hstop] at hleave
    cases hleave
    simp
  · obtain ⟨other, hother, -, hvalue, -⟩ := h.held i (h.sublist.subset (by simp))
    obtain rfl : node = other := Option.some.inj (hi.symm.trans hother)
    rw [List.filterMap_cons_some hvalue]
    cases hwanted : wanted node.value with
    | false => simp [hstop, hwanted] at hleave
    | true =>
      simp only [hstop, hwanted, if_true] at hleave
      cases hleave
      simp [hwanted]

/-- The entries of `start` that pass `q` are among those of a sublist that misses none of them. -/
theorem filter_sublist_of_sublist {f : ℕ → Option α} {q : α → Bool} {l start : List ℕ}
    (hsub : l.Sublist start) (hnodup : start.Nodup)
    (hkeep : ∀ i ∈ start, ∀ x, f i = some x → q x = true → i ∈ l) :
    ((start.filterMap f).filter q).Sublist (l.filterMap f) := by
  induction hsub with
  | slnil => exact .slnil
  | @cons l start i hsub ih =>
    obtain ⟨hout, hnodup⟩ := List.nodup_cons.mp hnodup
    have hrest := ih hnodup fun j hj => hkeep j (List.mem_cons_of_mem i hj)
    cases hf : f i with
    | none => rwa [List.filterMap_cons_none hf]
    | some x =>
      cases hq : q x with
      | false => rwa [List.filterMap_cons_some hf, List.filter_cons_of_neg (by simp [hq])]
      | true => exact absurd (hsub.subset (hkeep i List.mem_cons_self x hf hq)) hout
  | @cons_cons l start i hsub ih =>
    obtain ⟨hout, hnodup⟩ := List.nodup_cons.mp hnodup
    have hrest := ih hnodup fun j hj x hx hq => by
      refine (List.mem_cons.mp (hkeep j (List.mem_cons_of_mem i hj) x hx hq)).resolve_left ?_
      rintro rfl
      exact hout hj
    cases hf : f i with
    | none => rwa [List.filterMap_cons_none hf, List.filterMap_cons_none hf]
    | some x =>
      rw [List.filterMap_cons_some hf, List.filterMap_cons_some hf, List.filter_cons]
      split
      · exact hrest.cons_cons x
      · exact hrest.cons x

/-- A reader that enters, walks through any steps of others and leaves answers from a part of the
bucket it entered: nothing added since is in it, and only what was removed since may be missing. -/
theorem answer_of_walk [DecidableEq α] {s₁ s₂ s₃ : State α β ρ} (hinv : ∃ order, Inv s₀ order)
    {bucket : β} (henter : step s₀ (.enter r bucket wanted) = .ok s₁)
    (hrun : Replay.run step s₁ actions = .ok s₂) (hstay : .leave r ∉ actions)
    (hleave : step s₂ (.leave r) = .ok s₃) :
    ∃ seen : List α, seen.Sublist (s₀.table bucket) ∧
      ((s₀.table bucket).filter fun x => x ∉ removedSince s₀ s₂).Sublist seen ∧
      (s₃.reader r).answer = seen.find? wanted := by
  obtain ⟨order, hinv⟩ := hinv
  obtain ⟨visited, path, hwalking⟩ :=
    (Walking.enter hinv henter).run (hinv.step_ok henter).inv hrun hstay
  have hstart : (order bucket).filterMap (valueAt s₀.heap) = s₀.table bucket := by
    have hcontents := congrArg (List.filterMap id) (hinv.contents bucket)
    simpa [List.filterMap_map] using hcontents
  refine ⟨_, hstart ▸ hwalking.sublist.filterMap _, ?_, hwalking.leave hleave⟩
  rw [← hstart]
  refine filter_sublist_of_sublist hwalking.sublist (hinv.nodup bucket) ?_
  intro i hi x hx hkept
  obtain ⟨node, -, -, hvalue, hfate, hseen⟩ := hwalking.held i hi
  obtain rfl : node.value = x := Option.some.inj (hvalue.symm.trans hx)
  exact hseen (hfate.resolve_right (by simpa using hkept))

/-- A part of a list that lacks only removed entries answers as the whole does, unless the answer of
the whole was removed. -/
theorem find_of_between [DecidableEq α] {p : α → Bool} {seen l removed : List α} (hsub : seen.Sublist l)
    (hkept : (l.filter fun x => x ∉ removed).Sublist seen) :
    seen.find? p = l.find? p ∨ ∃ x ∈ removed, l.find? p = some x := by
  cases hfind : l.find? p with
  | none =>
    left
    rw [List.find?_eq_none] at hfind ⊢
    exact fun x hx => hfind x (hsub.subset hx)
  | some x =>
    by_cases hx : x ∈ removed
    · exact .inr ⟨x, hx, rfl⟩
    obtain ⟨hpx, front, back, rfl, hfront⟩ := List.find?_eq_some_iff_append.mp hfind
    obtain ⟨seen₁, seen₂, rfl, hseen₁, hseen₂⟩ := List.sublist_append_iff.mp hsub
    have hnone : seen₁.find? p = none := by
      rw [List.find?_eq_none]
      intro y hy
      simpa using hfront y (hseen₁.subset hy)
    left
    rw [List.find?_append, hnone, Option.none_or]
    rcases List.sublist_cons_iff.mp hseen₂ with hseen₂ | ⟨rest, rfl, -⟩
    · -- then the entry would occur once less in what was seen, though it was not removed
      have hin : x ∉ seen₁ := fun h => by simpa [hpx] using hfront x (hseen₁.subset h)
      have hcount := hkept.count_le x
      rw [List.count_filter (by simpa using hx), List.count_append, List.count_append,
        List.count_cons_self, List.count_eq_zero_of_not_mem hin] at hcount
      have := hseen₂.count_le x
      omega
    · rw [List.find?_cons_of_pos hpx]

end RcuTable
