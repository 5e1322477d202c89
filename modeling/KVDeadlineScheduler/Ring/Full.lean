-- SUMMARY: The answer of the test for a full ring while both sides advance: right as long as the tail does not pass the loaded head.
import KVDeadlineScheduler.Ring.Spsc

/-!
# Testing for a full ring while it is in use

`mi_ring_full` loads the head and then the tail. If entries are pushed and popped
in between, the tail may pass the loaded head, the unsigned difference wraps
around, and the call returns true on a ring with few entries. As long as the tail
stays behind the loaded head, the ring holds at least the difference when the tail
is loaded.
-/

namespace MemoryIntentRing

namespace System

variable {ι β : Type} {s s' : System ι β} {start : BitVec 64} {pending : List (ι → β)}

/-- What the observer may rely on while the tail stays behind the loaded head. -/
def ObserverInv (start : BitVec 64) (s : System ι β) : Prop :=
  match s.observer with
  | .idle | .returned _ => True
  | .loadedHead head => ∃ n, head = counter start n ∧ s.popped.length ≤ n ∧ n ≤ s.pushed.length

/-- The step does not move the tail past the head that the observer has loaded. -/
def TailStaysBehind (s : System ι β) (a : Action ι β) : Prop :=
  a = .consumer .storeTail → s.observer ≠ .loadedHead s.ring.header.tail

instance (s : System ι β) : DecidablePred (TailStaysBehind s)
  | .consumer .storeTail => decidable_of_iff (s.observer ≠ .loadedHead s.ring.header.tail)
      ⟨fun h _ => h, fun h => h rfl⟩
  | .consumer (.call _) | .consumer .checkHeader | .consumer .loadHead | .consumer .loadTail
  | .consumer .reloadTail | .consumer (.copyWord _) | .producer _ | .observer _ => .isTrue nofun

/-- The step is not one of the consumer's while the observer is in a call. -/
def ConsumerWaits (s : System ι β) (a : Action ι β) : Prop :=
  ∀ step, a = .consumer step → ∀ head, s.observer ≠ .loadedHead head

theorem ConsumerWaits.tailStaysBehind {a : Action ι β} (h : ConsumerWaits s a) : TailStaysBehind s a :=
  fun ha => h _ ha _

/-- The observer's knowledge outlives steps that leave the tail behind the loaded
head. -/
theorem ObserverInv.frame (h : ObserverInv start s) (hpc : s'.observer = s.observer)
    (hpushed : s.pushed.length ≤ s'.pushed.length)
    (hpopped : ∀ n, s.observer = .loadedHead (counter start n) → s.popped.length ≤ n →
      s'.popped.length ≤ n) :
    ObserverInv start s' := by
  unfold ObserverInv at h ⊢
  rw [hpc]
  cases hcase : s.observer with
  | idle => trivial
  | returned => trivial
  | loadedHead head =>
    rw [hcase] at h
    obtain ⟨n, rfl, hle, hle'⟩ := h
    exact ⟨n, rfl, hpopped n hcase hle, hle'.trans hpushed⟩

/-- The observer loads a head, or answers from the head it has loaded. -/
theorem Inv.fullStep_observerInv (h : Inv start s pending) {a : FullStep}
    (hstep : s.fullStep a = .ok s') : ObserverInv start s' := by
  unfold fullStep at hstep
  split at hstep
  · cases hstep
    trivial
  · cases hstep
  · cases hstep
    exact ⟨_, h.counted.head, h.counted.le, le_rfl⟩
  · cases hstep

/-- An answer of true is right at the moment the tail is loaded. -/
theorem Inv.held_of_full (h : Inv start s pending) (hobserver : ObserverInv start s)
    (hstep : s.fullStep .loadTail = .ok s') (hfull : s'.observer = .returned true) :
    s.ring.header.capacity.toNat ≤ s.held := by
  unfold ObserverInv at hobserver
  unfold fullStep at hstep
  split at hstep
  · rename_i head hpc _
    cases hstep
    rw [hpc] at hobserver
    obtain ⟨n, rfl, hle, hle'⟩ := hobserver
    have hfar := (MiRingHeader.fullAt_iff _ _).mp (ObserverPc.returned.inj hfull)
    rw [h.counted.tail, toNat_counter_sub hle (Nat.lt_of_le_of_lt hle' h.counted.lt_turn)] at hfar
    exact hfar.trans (Nat.sub_le_sub_right hle' _)
  · cases hstep
  · rename_i hload _
    cases hload
  · cases hstep

section Steps

variable [DecidableEq ι] [Fintype ι]

/-- The producer pops nothing, and the observer stays where it is. -/
theorem pushStep_frame {a : PushStep ι β} (hstep : s.pushStep a = .ok s') :
    s'.observer = s.observer ∧ s.pushed.length ≤ s'.pushed.length ∧ s'.popped = s.popped := by
  unfold System.pushStep at hstep
  split at hstep
  iterate 6
    cases hstep
    exact ⟨rfl, le_rfl, rfl⟩
  · split at hstep
    · cases hstep
      simp
    · cases hstep
  · cases hstep

/-- The consumer pushes nothing, pops when it stores the tail, and the observer
stays where it is. -/
theorem popStep_frame {a : PopStep ι β} (hstep : s.popStep a = .ok s') :
    s'.observer = s.observer ∧ s'.pushed = s.pushed ∧
      (s'.popped = s.popped ∨ a = .storeTail ∧ s'.popped.length = s.popped.length + 1) := by
  unfold System.popStep at hstep
  split at hstep
  iterate 8
    cases hstep
    exact ⟨rfl, rfl, .inl rfl⟩
  · split at hstep
    · cases hstep
      simp
    · cases hstep
  · cases hstep

theorem Inv.step_observerInv (h : Inv start s pending) (hobserver : ObserverInv start s)
    {a : Action ι β} (hbehind : TailStaysBehind s a) (hstep : s.step a = .ok s') :
    ObserverInv start s' := by
  cases a with
  | producer a =>
    obtain ⟨hpc, hpushed, hpopped⟩ := pushStep_frame hstep
    refine hobserver.frame hpc hpushed fun n _ hle => ?_
    rw [hpopped]
    exact hle
  | consumer a =>
    obtain ⟨hpc, hpushed, hpopped⟩ := popStep_frame hstep
    refine hobserver.frame hpc (congrArg List.length hpushed).ge fun n hloaded hle => ?_
    rcases hpopped with hsame | ⟨rfl, hnext⟩
    · rw [hsame]
      exact hle
    · -- the tail is not at the loaded head, so it is before it
      have hne : n ≠ s.popped.length := by
        rintro rfl
        exact hbehind rfl (by rw [hloaded, h.counted.tail])
      omega
  | observer a => exact h.fullStep_observerInv hstep

end Steps

/-- Once the tail has passed the loaded head, the call returns true, however few
entries the ring holds. -/
theorem Inv.full_of_passed (h : Inv start s pending) {n : ℕ}
    (hloaded : s.observer = .loadedHead (counter start n)) (hpassed : n < s.popped.length)
    (hturn : s.popped.length + s.ring.header.capacity.toNat ≤ n + 2 ^ 64) :
    s.fullStep .loadTail = .ok { s with observer := .returned true } := by
  have hfull : s.ring.header.fullAt (counter start n) s.ring.header.tail = true := by
    have hpos := MiRingHeader.capacity_pos h.counted.accepted.2.2
    rw [MiRingHeader.fullAt_iff, h.counted.tail, BitVec.toNat_sub, toNat_counter, toNat_counter]
    omega
  simp only [fullStep, hloaded, hfull]

section Runs

variable [DecidableEq ι] [Fintype ι]

/-! ## Runs -/

/-- A call that returns true does so because at some moment after its load of the
head, and before that of the tail, the ring held `capacity` entries. -/
def FullMeansHeld (s₀ : System ι β) (actions : List (Action ι β)) : Prop :=
  ∀ before mid s,
    before ++ .observer .loadHead :: (mid ++ [.observer .loadTail]) <+: actions →
    (∀ a, .observer a ∉ mid) →
    Replay.run step s₀ (before ++ .observer .loadHead :: (mid ++ [.observer .loadTail])) = .ok s →
    s.observer = .returned true →
    ∃ during t, during <+: mid ∧
      Replay.run step s₀ (before ++ .observer .loadHead :: during) = .ok t ∧
      t.ring.header.capacity.toNat ≤ t.held

theorem run_observerInv {ring : MiRing (ι → β)} {actions : List (Action ι β)}
    (hbehind : Replay.Meets step TailStaysBehind (initial ring start) actions)
    (h : Replay.run step (initial ring start) actions = .ok s) :
    ∃ pending, Inv start s pending ∧ ObserverInv start s := by
  refine Replay.run_invariant (P := fun s => ∃ pending, Inv start s pending ∧ ObserverInv start s)
    ?_ ⟨[], inv_initial ring start, trivial⟩ hbehind h
  rintro s a t ⟨pending, hinv, hobserver⟩ ha hstep
  obtain ⟨pending', hinv'⟩ := hinv.step hstep
  exact ⟨pending', hinv', hinv.step_observerInv hobserver ha hstep⟩

/-- In a run in which no pop moves the tail past the head that a call has loaded,
the calls that return true have met a full ring. -/
theorem fullMeansHeld_of_tailStaysBehind (ring : MiRing (ι → β)) (start : BitVec 64)
    (actions : List (Action ι β))
    (hbehind : Replay.Meets step TailStaysBehind (initial ring start) actions) :
    FullMeansHeld (initial ring start) actions := by
  intro before mid s hpre _ hrun hfull
  have hcall : before ++ .observer .loadHead :: (mid ++ [.observer .loadTail]) =
      before ++ .observer .loadHead :: mid ++ [.observer .loadTail] := by simp
  rw [hcall] at hpre hrun
  obtain ⟨t, ht, hlast⟩ := Replay.run_append_ok.mp hrun
  obtain ⟨u, hstep, hu⟩ := Replay.run_cons_ok.mp hlast
  cases hu
  have hmeets := (hbehind.restrict hpre).restrict (List.prefix_append _ _)
  obtain ⟨pending, hinv, hobserver⟩ := run_observerInv hmeets ht
  exact ⟨mid, t, List.prefix_rfl, ht, hinv.held_of_full hobserver hstep hfull⟩

/-- So have those made by the consumer itself. -/
theorem fullMeansHeld_of_consumerWaits (ring : MiRing (ι → β)) (start : BitVec 64)
    (actions : List (Action ι β))
    (hwaits : Replay.Meets step ConsumerWaits (initial ring start) actions) :
    FullMeansHeld (initial ring start) actions :=
  fullMeansHeld_of_tailStaysBehind ring start actions
    (hwaits.mono fun _ _ ha => ha.tailStaysBehind)

/-- One entry is pushed. -/
def pushActions : List (Action Unit Bool) :=
  [.producer (.call fun _ => true), .producer .checkHeader, .producer .loadHead, .producer .loadTail,
    .producer .reloadHead, .producer (.copyWord ()), .producer .storeHead]

/-- One entry is popped. -/
def popActions : List (Action Unit Bool) :=
  [.consumer (.call fun _ => false), .consumer .checkHeader, .consumer .loadHead, .consumer .loadTail,
    .consumer .reloadTail, .consumer (.copyWord ()), .consumer .storeTail]

/-- An empty ring on which no thread has started. -/
def unused : System Unit Bool := initial ⟨⟨0, 0, 0, 0, 0, 0⟩, fun _ _ => false⟩ 0

theorem fullMeansHeld_pushed :
    FullMeansHeld unused (pushActions ++ .observer .loadHead :: (pushActions ++ [.observer .loadTail])) :=
  fullMeansHeld_of_tailStaysBehind _ _ _ (by decide)

/-- An empty ring is reported full, if an entry is pushed and popped between the
loads. -/
theorem empty_reported_full :
    ¬∀ (ring : MiRing (Unit → Bool)) (start : BitVec 64) (actions : List (Action Unit Bool)),
      FullMeansHeld (initial ring start) actions := by
  intro h
  obtain ⟨s, hs, hfull⟩ := Replay.exists_of_check
    (x := Replay.run step unused
      ([] ++ .observer .loadHead :: (pushActions ++ popActions ++ [.observer .loadTail])))
    (p := fun s => s.observer = .returned true) (by decide)
  obtain ⟨during, t, hpre, ht, hheld⟩ := h _ 0 _ [] (pushActions ++ popActions) s List.prefix_rfl
    (by simp [pushActions, popActions]) hs (of_decide_eq_true hfull)
  have hfew : Replay.Meets step (fun s _ => s.held < s.ring.header.capacity.toNat) unused
      (.observer .loadHead :: (pushActions ++ popActions) ++ [.observer .loadTail]) := by decide
  exact absurd hheld (hfew.of_prefix (List.cons_prefix_cons.mpr ⟨rfl, hpre⟩) ht).not_ge

end Runs

end System

end MemoryIntentRing
