-- SUMMARY: Selecting the extremal element of a list: under a key that separates the elements, and by one pass over eligible elements.
import Mathlib.Data.List.MinMax
import Mathlib.Data.List.Perm.Basic
import Mathlib.Order.OrderDual

/-!
# Selection

`List.argmin` and `List.argmax` break ties by position. When the key tells the
elements of the list apart there are no ties, and the choice depends only on
which elements the list has. A pass that keeps the best eligible element so far
and replaces it only for a higher score ends at the first of the best.
-/

namespace Selection

variable {α β : Type} [LinearOrder β] {f : α → β} {l l' : List α}

theorem argmin_eq_some_of_le {m : α} (hm : m ∈ l) (hle : ∀ a ∈ l, f m ≤ f a)
    (hinj : ∀ a ∈ l, ∀ b ∈ l, f a = f b → a = b) : l.argmin f = some m := by
  cases h : l.argmin f with
  | none => rw [List.argmin_eq_none.mp h] at hm; cases hm
  | some n =>
    have hn : n ∈ l := List.argmin_mem h
    have hnm : f n ≤ f m := List.le_of_mem_argmin hm h
    exact congrArg some (hinj n hn m hm (le_antisymm hnm (hle n hn)))

theorem argmin_eq_of_perm (hperm : l.Perm l') (hinj : ∀ a ∈ l, ∀ b ∈ l, f a = f b → a = b) :
    l.argmin f = l'.argmin f := by
  cases h : l'.argmin f with
  | none =>
    rw [List.argmin_eq_none] at h ⊢
    rwa [h, List.perm_nil] at hperm
  | some m =>
    apply argmin_eq_some_of_le (hperm.mem_iff.mpr (List.argmin_mem h)) _ hinj
    exact fun a ha => List.le_of_mem_argmin (hperm.mem_iff.mp ha) h

theorem argmax_eq_of_perm (hperm : l.Perm l') (hinj : ∀ a ∈ l, ∀ b ∈ l, f a = f b → a = b) :
    l.argmax f = l'.argmax f :=
  argmin_eq_of_perm (f := fun a => OrderDual.toDual (f a)) hperm hinj

/-! ## Selecting from mapped elements -/

/-- A map that keeps the order of the keys commutes with the choice. -/
theorem argmax_map {α' γ : Type} [LinearOrder γ] {g : α → α'} {k : α' → γ}
    (h : ∀ a b, k (g a) < k (g b) ↔ f a < f b) (l : List α) :
    (l.map g).argmax k = (l.argmax f).map g := by
  induction l with
  | nil => rfl
  | cons a l ih =>
    rw [List.map_cons, List.argmax_cons, List.argmax_cons, ih]
    cases l.argmax f with
    | none => rfl
    | some b => simp only [Option.map_some, h, apply_ite (Option.map g)]

theorem argmin_map {α' γ : Type} [LinearOrder γ] {g : α → α'} {k : α' → γ}
    (h : ∀ a b, k (g a) < k (g b) ↔ f a < f b) (l : List α) :
    (l.map g).argmin k = (l.argmin f).map g :=
  argmax_map (f := fun a => OrderDual.toDual (f a)) (k := fun a => OrderDual.toDual (k a))
    (fun a b => h b a) l

/-! ## The first of the best eligible elements -/

section Scan

variable (eligible : α → Bool) (score : α → β)

/-- `l` split at the first of its eligible elements with the highest score. -/
structure FirstBest (l pre : List α) (x : α) (post : List α) : Prop where
  split : l = pre ++ x :: post
  admitted : eligible x = true
  before : ∀ y ∈ pre, eligible y = true → score y < score x
  after : ∀ y ∈ post, eligible y = true → score y ≤ score x

/-- One element of the pass: `best` is the position and the score kept so far. -/
def scanStep (best : Option (ℕ × β)) (i : ℕ) (y : α) : Option (ℕ × β) :=
  if eligible y then
    match best with
    | none => some (i, score y)
    | some (j, s) => if s < score y then some (i, score y) else some (j, s)
  else best

/-- The pass over `l`, whose first element stands at position `i`. -/
def scanBest : List α → ℕ → Option (ℕ × β) → Option (ℕ × β)
  | [], _, best => best
  | y :: l, i, best => scanBest l (i + 1) (scanStep eligible score best i y)

/-- Remove the element the pass ends at. -/
def takeBest (l : List α) : Option (α × List α) :=
  (scanBest eligible score l 0 none).bind fun best =>
    l[best.1]?.map fun x => (x, l.eraseIdx best.1)

variable {eligible score}

/-- What the pass has kept after the elements `l`. -/
def Kept (eligible : α → Bool) (score : α → β) (l : List α) : Option (ℕ × β) → Prop
  | none => ∀ y ∈ l, eligible y = false
  | some (i, s) => ∃ pre x post,
      FirstBest eligible score l pre x post ∧ i = pre.length ∧ s = score x

theorem FirstBest.snoc {pre post : List α} {x y : α} (h : FirstBest eligible score l pre x post)
    (hy : eligible y = true → score y ≤ score x) :
    FirstBest eligible score (l ++ [y]) pre x (post ++ [y]) := by
  refine ⟨by rw [h.split]; simp, h.admitted, h.before, fun z hz hze => ?_⟩
  rcases List.mem_append.mp hz with hz | hz
  · exact h.after z hz hze
  · rw [List.mem_singleton.mp hz] at hze ⊢
    exact hy hze

/-- Every eligible element scores at most what the split element scores. -/
theorem FirstBest.le {pre post : List α} {x : α} (h : FirstBest eligible score l pre x post) {y : α}
    (hy : y ∈ l) (hye : eligible y = true) : score y ≤ score x := by
  rw [h.split, List.mem_append, List.mem_cons] at hy
  rcases hy with hy | rfl | hy
  · exact (h.before y hy hye).le
  · exact le_rfl
  · exact h.after y hy hye

theorem FirstBest.mem {pre post : List α} {x : α} (h : FirstBest eligible score l pre x post) :
    x ∈ l := by
  rw [h.split]
  simp

theorem kept_scanStep {best : Option (ℕ × β)} (h : Kept eligible score l best) (y : α) :
    Kept eligible score (l ++ [y]) (scanStep eligible score best l.length y) := by
  by_cases hy : eligible y = true
  · cases best with
    | none =>
      simp only [scanStep, hy, if_true]
      refine ⟨l, y, [], ⟨rfl, hy, fun z hz hze => ?_, by simp⟩, rfl, rfl⟩
      rw [h z hz] at hze
      cases hze
    | some b =>
      obtain ⟨pre, x, post, hbest, hi, hs⟩ := h
      simp only [scanStep, hy, if_true]
      split
      next hlt =>
        rw [hs] at hlt
        exact ⟨l, y, [], ⟨rfl, hy, fun z hz hze => (hbest.le hz hze).trans_lt hlt, by simp⟩, rfl, rfl⟩
      next hle =>
        rw [hs, not_lt] at hle
        exact ⟨pre, x, post ++ [y], hbest.snoc fun _ => hle, hi, hs⟩
  · have hfalse : eligible y = false := by simpa using hy
    simp only [scanStep, hfalse, Bool.false_eq_true, if_false]
    cases best with
    | none =>
      intro z hz
      rcases List.mem_append.mp hz with hz | hz
      · exact h z hz
      · rw [List.mem_singleton.mp hz]
        exact hfalse
    | some b =>
      obtain ⟨pre, x, post, hbest, hi, hs⟩ := h
      exact ⟨pre, x, post ++ [y], hbest.snoc fun he => absurd he hy, hi, hs⟩

theorem kept_scanBest {done : List α} {best : Option (ℕ × β)} (h : Kept eligible score done best)
    (l : List α) :
    Kept eligible score (done ++ l) (scanBest eligible score l done.length best) := by
  induction l generalizing done best with
  | nil => simpa [scanBest] using h
  | cons y l ih =>
    have := ih (kept_scanStep h y)
    simpa [scanBest] using this

variable (eligible score) in
theorem kept_pass (l : List α) : Kept eligible score l (scanBest eligible score l 0 none) := by
  have hstart : Kept eligible score [] none := by simp [Kept]
  exact kept_scanBest hstart l

variable (eligible score) in
/-- What removing the best element does to a list. -/
theorem takeBest_cases (l : List α) :
    (takeBest eligible score l = none ∧ ∀ y ∈ l, eligible y = false) ∨
    ∃ pre x post, FirstBest eligible score l pre x post ∧
      takeBest eligible score l = some (x, pre ++ post) := by
  have hkept := kept_pass eligible score l
  cases hbest : scanBest eligible score l 0 none with
  | none =>
    rw [hbest] at hkept
    exact .inl ⟨by simp [takeBest, hbest], hkept⟩
  | some b =>
    rw [hbest] at hkept
    obtain ⟨pre, x, post, hfirst, hi, -⟩ := hkept
    refine .inr ⟨pre, x, post, hfirst, ?_⟩
    have hget : l[b.1]? = some x := by rw [hfirst.split, hi]; simp
    have herase : l.eraseIdx b.1 = pre ++ post := by
      rw [hfirst.split, hi, List.eraseIdx_append_of_length_le le_rfl]
      simp
    simp [takeBest, hbest, hget, herase]

theorem takeBest_eq_some {x : α} {rest : List α} (h : takeBest eligible score l = some (x, rest)) :
    ∃ pre post, FirstBest eligible score l pre x post ∧ rest = pre ++ post := by
  rcases takeBest_cases eligible score l with
    ⟨hnone, -⟩ | ⟨pre, y, post, hfirst, htake⟩
  · rw [hnone] at h
    cases h
  · rw [htake] at h
    cases h
    exact ⟨pre, post, hfirst, rfl⟩

theorem FirstBest.length_le {pre pre' post post' : List α} {x x' : α}
    (h : FirstBest eligible score l pre x post) (h' : FirstBest eligible score l pre' x' post') :
    pre.length ≤ pre'.length := by
  by_contra hlt
  rw [not_le] at hlt
  have hsplit : pre' ++ x' :: post' = pre ++ x :: post := h'.split.symm.trans h.split
  have hx' : x' ∈ pre := by
    have hget : (pre ++ x :: post)[pre'.length]? = some x' := by rw [← hsplit]; simp
    rw [List.getElem?_append_left hlt] at hget
    exact List.mem_of_getElem? hget
  exact absurd (h'.le h.mem h.admitted) (not_le.mpr (h.before x' hx' h'.admitted))

/-- A list splits at its first best element in one way only. -/
theorem FirstBest.takeBest_eq {pre post : List α} {x : α}
    (h : FirstBest eligible score l pre x post) :
    takeBest eligible score l = some (x, pre ++ post) := by
  rcases takeBest_cases eligible score l with
    ⟨-, hall⟩ | ⟨pre', x', post', h', htake⟩
  · have := h.admitted
    rw [hall x h.mem] at this
    cases this
  · have hlen : pre.length = pre'.length := le_antisymm (h.length_le h') (h'.length_le h)
    obtain ⟨hpre, htail⟩ := List.append_inj (h.split.symm.trans h'.split) hlen
    rw [List.cons.injEq] at htail
    rw [htake, hpre, htail.1, htail.2]

end Scan

end Selection
