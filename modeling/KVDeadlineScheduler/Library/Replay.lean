-- SUMMARY: Runs of a fallible step function over a list of inputs: invariants, conditions on the steps, lockstep comparison.
import Mathlib.Data.List.Basic
import Mathlib.Tactic.Ring

/-!
# Replays

A replay folds a step function that may fail over a list of inputs and stops at
the first failure. A property of the states is proved for one step and lifted
here to every run, possibly under a condition that each step of the run meets.
Two replays of the same inputs are compared step by step.
-/

namespace Replay

variable {σ τ α β ε : Type}

theorem bind_eq_ok {x : Except ε α} {f : α → Except ε β} {b : β} :
    x >>= f = .ok b ↔ ∃ a, x = .ok a ∧ f a = .ok b := by
  cases x with
  | error e => simp [bind, Except.bind]
  | ok a => simp [bind, Except.bind]

theorem mapError_eq_ok {δ : Type} {x : Except ε α} {f : ε → δ} {a : α} :
    x.mapError f = .ok a ↔ x = .ok a := by
  cases x with
  | error e => simp [Except.mapError]
  | ok b => simp [Except.mapError]

/-! ## Runs -/

def run (step : σ → α → Except ε σ) (s : σ) (xs : List α) : Except ε σ := xs.foldlM step s

section Runs

variable {step : σ → α → Except ε σ}

@[simp] theorem run_nil (s : σ) : run step s [] = .ok s := rfl

theorem run_cons (s : σ) (x : α) (xs : List α) :
    run step s (x :: xs) = step s x >>= fun t => run step t xs := List.foldlM_cons

theorem run_cons_ok {s u : σ} {x : α} {xs : List α} :
    run step s (x :: xs) = .ok u ↔ ∃ t, step s x = .ok t ∧ run step t xs = .ok u := by
  rw [run_cons, bind_eq_ok]

theorem run_append_ok {s u : σ} {xs ys : List α} :
    run step s (xs ++ ys) = .ok u ↔ ∃ t, run step s xs = .ok t ∧ run step t ys = .ok u := by
  induction xs generalizing s with
  | nil => simp
  | cons x xs ih =>
    simp only [List.cons_append, run_cons_ok, ih]
    constructor
    · rintro ⟨t, hx, v, hxs, hys⟩
      exact ⟨v, ⟨t, hx, hxs⟩, hys⟩
    · rintro ⟨v, ⟨t, hx, hxs⟩, hys⟩
      exact ⟨t, hx, v, hxs, hys⟩

/-- A run that ends in a state satisfying a check that evaluates to true. -/
theorem exists_of_check {x : Except ε σ} {p : σ → Bool}
    (h : (match x with | .ok s => p s | .error _ => false) = true) :
    ∃ s, x = .ok s ∧ p s = true := by
  cases x with
  | error e => cases h
  | ok s => exact ⟨s, rfl, h⟩

/-- A run that fails with an error satisfying a check that evaluates to true. -/
theorem error_of_check {x : Except ε σ} {p : ε → Bool}
    (h : (match x with | .ok _ => false | .error e => p e) = true) :
    ∃ e, x = .error e ∧ p e = true := by
  cases x with
  | error e => exact ⟨e, rfl, h⟩
  | ok s => cases h

end Runs

/-! ## Conditions met by every step of a run -/

section Conditions

variable (step : σ → α → Except ε σ)

/-- Every step taken from `s` along `xs` meets `C`, which is asked of the state
before the step and the input. Steps after a failure are not taken. -/
def Meets (C : σ → α → Prop) : σ → List α → Prop
  | _, [] => True
  | s, x :: xs => C s x ∧ match step s x with
    | .ok t => Meets C t xs
    | .error _ => True

instance Meets.decidable (C : σ → α → Prop) [∀ s x, Decidable (C s x)] :
    ∀ s xs, Decidable (Meets step C s xs)
  | _, [] => .isTrue trivial
  | s, x :: xs =>
    have : Decidable (match step s x with | .ok t => Meets step C t xs | .error _ => True) :=
      match step s x with
      | .ok t => Meets.decidable C t xs
      | .error _ => .isTrue trivial
    inferInstanceAs (Decidable (_ ∧ _))

variable {step}

theorem Meets.head {C : σ → α → Prop} {s : σ} {x : α} {xs : List α} (h : Meets step C s (x :: xs)) :
    C s x := h.1

theorem Meets.tail {C : σ → α → Prop} {s t : σ} {x : α} {xs : List α}
    (h : Meets step C s (x :: xs)) (hx : step s x = .ok t) : Meets step C t xs := by
  have := h.2
  rwa [hx] at this

theorem Meets.cons {C : σ → α → Prop} {s : σ} {x : α} {xs : List α} (hC : C s x)
    (h : ∀ t, step s x = .ok t → Meets step C t xs) : Meets step C s (x :: xs) := by
  refine ⟨hC, ?_⟩
  cases hx : step s x with
  | error e => trivial
  | ok t => exact h t hx

theorem Meets.restrict {C : σ → α → Prop} {s : σ} {xs ys : List α} (hpre : xs <+: ys)
    (h : Meets step C s ys) : Meets step C s xs := by
  obtain ⟨zs, rfl⟩ := hpre
  induction xs generalizing s with
  | nil => trivial
  | cons x xs ih => exact .cons h.head fun t hx => ih (h.tail hx)

theorem Meets.after {C : σ → α → Prop} {s t : σ} {xs ys : List α} (h : Meets step C s (xs ++ ys))
    (hxs : run step s xs = .ok t) : Meets step C t ys := by
  induction xs generalizing s with
  | nil =>
    cases hxs
    exact h
  | cons x xs ih =>
    obtain ⟨u, hx, hxs⟩ := run_cons_ok.mp hxs
    exact ih (h.tail hx) hxs

/-- A condition on the state before each step holds after any part of the run. -/
theorem Meets.of_prefix {P : σ → Prop} {s t : σ} {x : α} {xs ys : List α}
    (h : Meets step (fun s _ => P s) s (xs ++ [x])) (hpre : ys <+: xs) (hys : run step s ys = .ok t) :
    P t := by
  obtain ⟨zs, rfl⟩ := hpre
  rw [List.append_assoc] at h
  cases zs with
  | nil => exact (h.after hys).head
  | cons z zs => exact (h.after hys).head

theorem Meets.mono {C D : σ → α → Prop} (himp : ∀ s x, C s x → D s x) {s : σ} {xs : List α}
    (h : Meets step C s xs) : Meets step D s xs := by
  induction xs generalizing s with
  | nil => trivial
  | cons x xs ih => exact .cons (himp s x h.head) fun t hx => ih (h.tail hx)

theorem Meets.and {C D : σ → α → Prop} {s : σ} {xs : List α} (h : Meets step C s xs)
    (h' : Meets step D s xs) : Meets step (fun s x => C s x ∧ D s x) s xs := by
  induction xs generalizing s with
  | nil => trivial
  | cons x xs ih => exact .cons ⟨h.head, h'.head⟩ fun t hx => ih (h.tail hx) (h'.tail hx)

/-- A condition is met by every step of a run that holds where each step is taken. -/
theorem Meets.of_forall_before {C : σ → α → Prop} {s : σ} {xs : List α}
    (h : ∀ ys x zs t, xs = ys ++ x :: zs → run step s ys = .ok t → C t x) :
    Meets step C s xs := by
  induction xs generalizing s with
  | nil => trivial
  | cons x xs ih =>
    refine .cons (h [] x xs s rfl rfl) fun t hx => ih fun ys y zs u hxs hys => ?_
    exact h (x :: ys) y zs u (by rw [hxs]; rfl) (run_cons_ok.mpr ⟨t, hx, hys⟩)

/-- A condition on the inputs alone. -/
theorem Meets.of_forall_mem {D : α → Prop} {s : σ} {xs : List α} (h : ∀ x ∈ xs, D x) :
    Meets step (fun _ x => D x) s xs := by
  refine .of_forall_before fun ys x zs t hxs _ => h x ?_
  rw [hxs]
  simp

/-- A condition that an invariant implies is met by every step of a run. -/
theorem Meets.of_invariant {P : σ → Prop} {C : σ → α → Prop}
    (hstep : ∀ s x t, P s → step s x = .ok t → P t) (himp : ∀ s x, P s → C s x) {s : σ} (hP : P s)
    (xs : List α) : Meets step C s xs := by
  induction xs generalizing s with
  | nil => trivial
  | cons x xs ih => exact .cons (himp s x hP) fun t hx => ih (hstep s x t hP hx)

/-- The invariant rule: what every step keeps under `C` holds at the end of a
run whose steps all meet `C`. -/
theorem run_invariant {P : σ → Prop} {C : σ → α → Prop}
    (hstep : ∀ s x t, P s → C s x → step s x = .ok t → P t) {s t : σ} {xs : List α}
    (hP : P s) (hC : Meets step C s xs) (h : run step s xs = .ok t) : P t := by
  induction xs generalizing s with
  | nil => cases h; exact hP
  | cons x xs ih =>
    obtain ⟨u, hx, hxs⟩ := run_cons_ok.mp h
    exact ih (hstep s x u hP hC.head hx) (hC.tail hx) hxs

/-- The invariant rule for steps that keep `P` unconditionally. -/
theorem run_always {P : σ → Prop} (hstep : ∀ s x t, P s → step s x = .ok t → P t) {s t : σ}
    {xs : List α} (hP : P s) (h : run step s xs = .ok t) : P t := by
  induction xs generalizing s with
  | nil => cases h; exact hP
  | cons x xs ih =>
    obtain ⟨u, hx, hxs⟩ := run_cons_ok.mp h
    exact ih (hstep s x u hP hx) hxs

/-- The rule for counted loops: the invariant knows how many rounds are done. -/
theorem run_range {step : σ → ℕ → Except ε σ} {P : ℕ → σ → Prop}
    (hstep : ∀ i s t, P i s → step s i = .ok t → P (i + 1) t) {s t : σ} {n : ℕ} (hP : P 0 s)
    (h : run step s (List.range n) = .ok t) : P n t := by
  induction n generalizing t with
  | zero => cases h; exact hP
  | succ n ih =>
    rw [List.range_succ] at h
    obtain ⟨u, hu, hlast⟩ := run_append_ok.mp h
    obtain ⟨v, hv, hnil⟩ := run_cons_ok.mp hlast
    cases hnil
    exact hstep n u t (ih hu) hv

/-- The progress rule: a run does not fail when no step fails from a state that
satisfies `P`, and every step keeps `P`. -/
theorem run_progress {P : σ → Prop} {C : σ → α → Prop}
    (hstep : ∀ s x, P s → C s x → ∃ t, step s x = .ok t ∧ P t) {s : σ} {xs : List α}
    (hP : P s) (hC : Meets step C s xs) : ∃ t, run step s xs = .ok t ∧ P t := by
  induction xs generalizing s with
  | nil => exact ⟨s, rfl, hP⟩
  | cons x xs ih =>
    obtain ⟨u, hx, hu⟩ := hstep s x hP hC.head
    obtain ⟨t, ht, hPt⟩ := ih hu (hC.tail hx)
    exact ⟨t, run_cons_ok.mpr ⟨u, hx, ht⟩, hPt⟩

end Conditions

/-! ## Relations that every step of a run satisfies -/

section Transitions

variable (step : σ → α → Except ε σ)

/-- Every step taken from `s` along `xs` satisfies `P`, which is asked of the state
before the step, the input and the state after it. -/
def EachStep (P : σ → α → σ → Prop) : σ → List α → Prop
  | _, [] => True
  | s, x :: xs => match step s x with
    | .ok t => P s x t ∧ EachStep P t xs
    | .error _ => True

variable {step}

theorem eachStep_cons {P : σ → α → σ → Prop} {s t : σ} {x : α} {xs : List α} (hx : step s x = .ok t) :
    EachStep step P s (x :: xs) ↔ P s x t ∧ EachStep step P t xs := by
  rw [EachStep, hx]

/-- Two relations that agree on the steps from states of an invariant hold along
the same runs. -/
theorem eachStep_congr {I : σ → Prop} {P Q : σ → α → σ → Prop}
    (hkeep : ∀ s x t, I s → step s x = .ok t → I t)
    (hPQ : ∀ s x t, I s → step s x = .ok t → (P s x t ↔ Q s x t)) {s : σ} (hI : I s) (xs : List α) :
    EachStep step P s xs ↔ EachStep step Q s xs := by
  induction xs generalizing s with
  | nil => exact Iff.rfl
  | cons x xs ih =>
    cases hx : step s x with
    | error e => simp only [EachStep, hx]
    | ok t => rw [eachStep_cons hx, eachStep_cons hx, hPQ s x t hI hx, ih (hkeep s x t hI hx)]

/-- The relation holds of the last step of a run. -/
theorem EachStep.last {P : σ → α → σ → Prop} {s t u : σ} {x : α} {xs : List α}
    (h : EachStep step P s (xs ++ [x])) (hxs : run step s xs = .ok t) (hx : step t x = .ok u) :
    P t x u := by
  induction xs generalizing s with
  | nil =>
    cases hxs
    exact ((eachStep_cons hx).mp h).1
  | cons y xs ih =>
    obtain ⟨v, hy, hxs⟩ := run_cons_ok.mp hxs
    exact ih ((eachStep_cons hy).mp h).2 hxs

end Transitions

/-! ## Counting along a run -/

section Tallies

variable (step : σ → α → Except ε σ)

/-- The number of inputs of a run that `p` picks, which is asked of the state
before the step and the input. Inputs after a failure do not count. -/
def tally (p : σ → α → Bool) : σ → List α → ℕ
  | _, [] => 0
  | s, x :: xs => (if p s x then 1 else 0) + match step s x with
    | .ok t => tally p t xs
    | .error _ => 0

variable {step}

theorem tally_false (s : σ) (xs : List α) : tally step (fun _ _ => false) s xs = 0 := by
  induction xs generalizing s with
  | nil => rfl
  | cons x xs ih =>
    unfold tally
    cases step s x with
    | ok t => simp [ih]
    | error e => simp

/-- The accounting rule: a quantity that each step raises by one on the inputs
`p` picks is raised by a run as often as `p` picks one. -/
theorem run_tally {P : σ → Prop} {f : σ → ℤ} {p : σ → α → Bool}
    (hkeep : ∀ s x t, P s → step s x = .ok t → P t)
    (hstep : ∀ s x t, P s → step s x = .ok t → f t = f s + if p s x then 1 else 0) {s t : σ}
    {xs : List α} (hP : P s) (h : run step s xs = .ok t) : f t = f s + tally step p s xs := by
  induction xs generalizing s with
  | nil =>
    cases h
    simp [tally]
  | cons x xs ih =>
    obtain ⟨u, hx, hxs⟩ := run_cons_ok.mp h
    have htally : tally step p s (x :: xs) = (if p s x then 1 else 0) + tally step p u xs := by
      simp only [tally, hx]
    rw [ih (hkeep s x u hP hx) hxs, hstep s x u hP hx, htally]
    push_cast
    ring

end Tallies

/-! ## Two replays in lockstep -/

/-- Both computations fail with the same error, or both succeed with related
results. -/
inductive Agree (R : σ → τ → Prop) : Except ε σ → Except ε τ → Prop where
  | ok {s : σ} {t : τ} (h : R s t) : Agree R (.ok s) (.ok t)
  | error (e : ε) : Agree R (.error e) (.error e)

theorem Agree.bind {σ' τ' : Type} {R : σ → τ → Prop} {S : σ' → τ' → Prop} {x : Except ε σ}
    {y : Except ε τ} {f : σ → Except ε σ'} {g : τ → Except ε τ'} (h : Agree R x y)
    (hfg : ∀ s t, R s t → Agree S (f s) (g t)) : Agree S (x >>= f) (y >>= g) := by
  cases h with
  | ok h => exact hfg _ _ h
  | error e => exact .error e

theorem Agree.of_ok {R : σ → τ → Prop} {x : Except ε σ} {y : Except ε τ} {s : σ} (h : Agree R x y)
    (hx : x = .ok s) : ∃ t, y = .ok t ∧ R s t := by
  cases h with
  | ok h =>
    cases hx
    exact ⟨_, rfl, h⟩
  | error e => cases hx

/-- Two computations that start alike agree when their continuations do. -/
theorem Agree.bind_same {R : σ → τ → Prop} {x : Except ε α} {f : α → Except ε σ} {g : α → Except ε τ}
    (hfg : ∀ a, x = .ok a → Agree R (f a) (g a)) : Agree R (x >>= f) (x >>= g) := by
  cases x with
  | error e => exact .error e
  | ok a => exact hfg a rfl

/-- One computation gives the mapped result of the other. -/
theorem Agree.bind_map {δ : Type} {R : σ → τ → Prop} {x : Except ε α} {h : α → δ} {f : α → Except ε σ}
    {g : δ → Except ε τ} (hfg : ∀ a, x = .ok a → Agree R (f a) (g (h a))) :
    Agree R (x >>= f) (x.map h >>= g) := by
  cases x with
  | error e => exact .error e
  | ok a => exact hfg a rfl

/-- A computation that agrees, mapped. -/
theorem Agree.map_right {δ : Type} {R : σ → τ → Prop} {x : Except ε σ} {y : Except ε τ} (h : Agree R x y)
    (g : τ → δ) : Agree (fun s d => ∃ t, R s t ∧ d = g t) x (y.map g) := by
  cases h with
  | ok h => exact .ok ⟨_, h, rfl⟩
  | error e => exact .error e

theorem Agree.imp_left {R S : σ → τ → Prop} {x : Except ε σ} {y : Except ε τ} (h : Agree R x y)
    (himp : ∀ s t, x = .ok s → R s t → S s t) : Agree S x y := by
  cases h with
  | ok h => exact .ok (himp _ _ rfl h)
  | error e => exact .error e

/-- The lockstep rule: related states stay related along two replays of the same
inputs, when each step meeting `C` on the left takes related states to agreeing
results. -/
theorem lockstep {step₁ : σ → α → Except ε σ} {step₂ : τ → α → Except ε τ} {R : σ → τ → Prop}
    {C : σ → α → Prop} (hstep : ∀ s t x, R s t → C s x → Agree R (step₁ s x) (step₂ t x))
    {s : σ} {t : τ} {xs : List α} (hR : R s t) (hC : Meets step₁ C s xs) :
    Agree R (run step₁ s xs) (run step₂ t xs) := by
  induction xs generalizing s t with
  | nil => exact .ok hR
  | cons x xs ih =>
    rw [run_cons, run_cons]
    have hx := hstep s t x hR hC.head
    generalize step₂ t x = y at hx
    cases hs : step₁ s x with
    | error e =>
      rw [hs] at hx
      cases hx with
      | error => exact .error e
    | ok u =>
      rw [hs] at hx
      cases hx with
      | ok h => exact ih h (hC.tail hs)

/-- The lockstep rule for steps that do not fail from related states. -/
theorem lockstep_progress {step₁ : σ → α → Except ε σ} {step₂ : τ → α → Except ε τ} {R : σ → τ → Prop}
    {C : σ → α → Prop}
    (hstep : ∀ s t x, R s t → C s x → ∃ s' t', step₁ s x = .ok s' ∧ step₂ t x = .ok t' ∧ R s' t')
    {s : σ} {t : τ} {xs : List α} (hR : R s t) (hC : Meets step₁ C s xs) :
    ∃ s' t', run step₁ s xs = .ok s' ∧ run step₂ t xs = .ok t' ∧ R s' t' := by
  induction xs generalizing s t with
  | nil => exact ⟨s, t, rfl, rfl, hR⟩
  | cons x xs ih =>
    obtain ⟨u, v, hu, hv, huv⟩ := hstep s t x hR hC.head
    obtain ⟨s', t', hs', ht', hR'⟩ := ih huv (hC.tail hu)
    exact ⟨s', t', run_cons_ok.mpr ⟨u, hu, hs'⟩, run_cons_ok.mpr ⟨v, hv, ht'⟩, hR'⟩

end Replay
