-- SUMMARY: Computations that may fail and keep the state they have changed, with weakest preconditions for both outcomes.
import Mathlib.Data.List.Basic

/-!
# Stateful computations

A computation acts on a state and returns or raises. What it has changed before
it raises stays changed. Its weakest precondition takes one postcondition for
each of the two outcomes, and is computed along the computation.
-/

/-- A computation on a state `σ` that returns an `α` or raises an `ε`. -/
structure Stateful (σ ε α : Type) where
  run : σ → Except ε α × σ

namespace Stateful

variable {σ ε α β : Type}

instance : Monad (Stateful σ ε) where
  pure a := ⟨fun s => (.ok a, s)⟩
  bind x f := ⟨fun s =>
    match x.run s with
    | (.ok a, t) => (f a).run t
    | (.error e, t) => (.error e, t)⟩

def get : Stateful σ ε σ := ⟨fun s => (.ok s, s)⟩

def modify (f : σ → σ) : Stateful σ ε Unit := ⟨fun s => (.ok (), f s)⟩

def raise (e : ε) : Stateful σ ε α := ⟨fun s => (.error e, s)⟩

/-- A computation without effects on the state. -/
def lift (x : Except ε α) : Stateful σ ε α := ⟨fun s => (x, s)⟩

/-- Run the body on each element in turn and collect what the runs return. -/
def forEach (body : β → Stateful σ ε (List α)) : List β → Stateful σ ε (List α)
  | [] => pure []
  | b :: bs => do
    let first ← body b
    let rest ← forEach body bs
    return first ++ rest

/-! ## Weakest preconditions -/

/-- From `s` the computation returns with `Q` or raises with `E`. -/
def Wp (x : Stateful σ ε α) (Q : α → σ → Prop) (E : ε → σ → Prop) (s : σ) : Prop :=
  match x.run s with
  | (.ok a, t) => Q a t
  | (.error e, t) => E e t

variable {x : Stateful σ ε α} {Q Q' : α → σ → Prop} {E E' : ε → σ → Prop} {s : σ}

@[simp] theorem wp_pure (a : α) : Wp (pure a : Stateful σ ε α) Q E s = Q a s := rfl

@[simp] theorem wp_get {Q : σ → σ → Prop} : Wp (get : Stateful σ ε σ) Q E s = Q s s := rfl

@[simp] theorem wp_modify (f : σ → σ) {Q : Unit → σ → Prop} :
    Wp (modify f : Stateful σ ε Unit) Q E s = Q () (f s) := rfl

@[simp] theorem wp_raise (e : ε) : Wp (raise e : Stateful σ ε α) Q E s = E e s := rfl

@[simp] theorem wp_bind (f : α → Stateful σ ε β) {Q : β → σ → Prop} :
    Wp (x >>= f) Q E s = Wp x (fun a => Wp (f a) Q E) E s := by
  simp only [Wp, bind]
  rcases x.run s with ⟨r, t⟩
  cases r <;> rfl

theorem wp_lift {r : Except ε α} (hok : ∀ a, r = .ok a → Q a s) (herror : ∀ e, r = .error e → E e s) :
    Wp (lift r) Q E s := by
  cases r with
  | ok a => exact hok a rfl
  | error e => exact herror e rfl

theorem wp_ite {p : Prop} [Decidable p] {y : Stateful σ ε α} (hx : p → Wp x Q E s)
    (hy : ¬p → Wp y Q E s) : Wp (if p then x else y) Q E s := by
  split
  next h => exact hx h
  next h => exact hy h

theorem Wp.mono (h : Wp x Q E s) (hQ : ∀ a t, Q a t → Q' a t) (hE : ∀ e t, E e t → E' e t) :
    Wp x Q' E' s := by
  unfold Wp at h ⊢
  split at h
  next a t hx => exact hQ a t h
  next e t hx => exact hE e t h

/-- The rule of sequence: the rest runs from whatever the first computation returns. -/
theorem Wp.bind {R : α → σ → Prop} {Q : β → σ → Prop} {f : α → Stateful σ ε β} (h : Wp x R E s)
    (hf : ∀ a t, R a t → Wp (f a) Q E t) : Wp (x >>= f) Q E s := by
  rw [wp_bind]
  exact h.mono hf fun _ _ he => he

theorem Wp.and (h : Wp x Q E s) (h' : Wp x Q' E' s) :
    Wp x (fun a t => Q a t ∧ Q' a t) (fun e t => E e t ∧ E' e t) s := by
  unfold Wp at h h' ⊢
  split at h
  next a t hx =>
    rw [hx] at h'
    exact ⟨h, h'⟩
  next e t hx =>
    rw [hx] at h'
    exact ⟨h, h'⟩

theorem Wp.of_ok (h : Wp x Q E s) {a : α} {t : σ} (hx : x.run s = (.ok a, t)) : Q a t := by
  rwa [Wp, hx] at h

theorem Wp.of_error (h : Wp x Q E s) {e : ε} {t : σ} (hx : x.run s = (.error e, t)) : E e t := by
  rwa [Wp, hx] at h

/-- What both outcomes guarantee holds of the state that is left. -/
theorem Wp.after {I : σ → Prop} (h : Wp x (fun _ t => I t) (fun _ t => I t) s) : I (x.run s).2 := by
  unfold Wp at h
  split at h
  next hx =>
    rw [hx]
    exact h
  next hx =>
    rw [hx]
    exact h

/-- From `s` the computation returns, with `Q`. -/
abbrev Returns (x : Stateful σ ε α) (Q : α → σ → Prop) (s : σ) : Prop := Wp x Q (fun _ _ => False) s

theorem returns_lift {r : Except ε α} {a : α} (h : r = .ok a) (hQ : Q a s) : Returns (lift r) Q s := by
  subst h
  exact hQ

theorem Returns.exists (h : Returns x Q s) : ∃ a t, x.run s = (.ok a, t) ∧ Q a t := by
  unfold Returns Wp at h
  split at h
  next a t hx => exact ⟨a, t, hx, h⟩
  next => exact h.elim

/-- A computation that returns something a check accepts, by evaluation. -/
theorem exists_of_check {p : α → σ → Bool}
    (h : (match x.run s with | (.ok a, t) => p a t | (.error _, _) => false) = true) :
    ∃ a t, x.run s = (.ok a, t) ∧ p a t = true := by
  split at h
  next a t hx => exact ⟨a, t, hx, h⟩
  next => cases h

/-- A computation that raises in a state a check accepts, by evaluation. -/
theorem error_of_check {p : σ → Bool}
    (h : (match x.run s with | (.ok _, _) => false | (.error _, t) => p t) = true) :
    ∃ e t, x.run s = (.error e, t) ∧ p t = true := by
  split at h
  next => cases h
  next e t hx => exact ⟨e, t, hx, h⟩

/-- The loop rule: `I` relates what was collected to the state after the elements done, and each run
of the body extends it. -/
theorem wp_forEach {body : β → Stateful σ ε (List α)} {bs : List β} {I : List β → List α → σ → Prop}
    (hI : I [] [] s)
    (hbody : ∀ done b rest collected t, bs = done ++ b :: rest → I done collected t →
      Wp (body b) (fun as u => I (done ++ [b]) (collected ++ as) u) E t) :
    Wp (forEach body bs) (fun as t => I bs as t) E s := by
  have hloop : ∀ rest done collected t, bs = done ++ rest → I done collected t →
      Wp (forEach body rest) (fun as u => I bs (collected ++ as) u) E t := by
    intro rest
    induction rest with
    | nil =>
      intro done collected t hsplit hinv
      simp only [forEach, wp_pure, List.append_nil] at hsplit ⊢
      rwa [hsplit]
    | cons b rest ih =>
      intro done collected t hsplit hinv
      rw [forEach, wp_bind]
      refine (hbody done b rest collected t hsplit hinv).mono (fun as u hu => ?_) fun _ _ h => h
      rw [wp_bind]
      refine (ih (done ++ [b]) (collected ++ as) u (by simp [hsplit]) hu).mono
        (fun as' v hv => ?_) fun _ _ h => h
      rwa [wp_pure, ← List.append_assoc]
  simpa using hloop bs [] [] s rfl hI

/-- The loop rule for an invariant of the state alone. -/
theorem Wp.forEach {body : β → Stateful σ ε (List α)} {bs : List β} {I : σ → Prop} (hI : I s)
    (hbody : ∀ b ∈ bs, ∀ t, I t → Wp (body b) (fun _ u => I u) E t) :
    Wp (forEach body bs) (fun _ t => I t) E s :=
  wp_forEach (I := fun _ _ t => I t) hI fun done b rest _ t hsplit ht =>
    hbody b (by simp [hsplit]) t ht

/-- The rule for loops that carry a value: `I` relates what is carried to the state after the elements
done. -/
theorem wp_foldlM {γ : Type} {body : γ → β → Stateful σ ε γ} {bs : List β} {c : γ}
    {I : List β → γ → σ → Prop} (hI : I [] c s)
    (hbody : ∀ done b rest c t, bs = done ++ b :: rest → I done c t →
      Wp (body c b) (fun c' u => I (done ++ [b]) c' u) E t) :
    Wp (bs.foldlM body c) (fun c' t => I bs c' t) E s := by
  have hloop : ∀ rest done c t, bs = done ++ rest → I done c t →
      Wp (rest.foldlM body c) (fun c' u => I bs c' u) E t := by
    intro rest
    induction rest with
    | nil =>
      intro done c t hsplit hinv
      rw [hsplit, List.append_nil]
      exact hinv
    | cons b rest ih =>
      intro done c t hsplit hinv
      rw [List.foldlM_cons]
      refine (hbody done b rest c t hsplit hinv).bind fun c' u hu => ?_
      exact ih (done ++ [b]) c' u (by simp [hsplit]) hu
  exact hloop bs [] c s rfl hI

/-- The rule for loops over a range, with the invariant indexed by the number of rounds done. -/
theorem wp_foldlM_range {γ : Type} {body : γ → ℕ → Stateful σ ε γ} {n : ℕ} {c : γ}
    {I : ℕ → γ → σ → Prop} (hI : I 0 c s)
    (hbody : ∀ i < n, ∀ c t, I i c t → Wp (body c i) (fun c' u => I (i + 1) c' u) E t) :
    Wp ((List.range n).foldlM body c) (fun c' t => I n c' t) E s := by
  have hloop : Wp ((List.range n).foldlM body c) (fun c' t => I (List.range n).length c' t) E s := by
    refine wp_foldlM (I := fun done c t => I done.length c t) hI fun done b rest c t hsplit hinv => ?_
    have hlength := congrArg List.length hsplit
    have hget := congrArg (fun bs => bs[done.length]?) hsplit
    simp only [List.length_range, List.length_append, List.length_cons] at hlength
    have hlt : done.length < n := by omega
    simp only [List.getElem?_range hlt, List.getElem?_append_right (Nat.le_refl _), Nat.sub_self,
      List.getElem?_cons_zero, Option.some.injEq] at hget
    rw [← hget, List.length_append]
    exact hbody done.length hlt c t hinv
  rwa [List.length_range] at hloop

/-! ## Computations within larger ones -/

/-- The same computation, with its failures renamed. -/
def mapError {ε' : Type} (f : ε → ε') (x : Stateful σ ε α) : Stateful σ ε' α :=
  ⟨fun s => ((x.run s).1.mapError f, (x.run s).2)⟩

theorem wp_mapError {ε' : Type} (f : ε → ε') {E' : ε' → σ → Prop} :
    Wp (mapError f x) Q E' s ↔ Wp x Q (fun e t => E' (f e) t) s := by
  simp only [Wp, mapError]
  rcases x.run s with ⟨r, t⟩
  cases r <;> rfl

/-- The same computation on a part of a larger state. -/
def zoom {τ : Type} (view : τ → σ) (put : σ → τ → τ) (x : Stateful σ ε α) : Stateful τ ε α :=
  ⟨fun t => ((x.run (view t)).1, put (x.run (view t)).2 t)⟩

theorem wp_zoom {τ : Type} {view : τ → σ} {put : σ → τ → τ} {Q : α → τ → Prop} {E : ε → τ → Prop} {t : τ} :
    Wp (zoom view put x) Q E t ↔ Wp x (fun a s => Q a (put s t)) (fun e s => E e (put s t)) (view t) := by
  simp only [Wp, zoom]
  rcases x.run (view t) with ⟨r, s⟩
  cases r <;> rfl

end Stateful
