-- SUMMARY: Fallible computations that append to a journal: what they append, for sequences and loops.
import Mathlib.Data.List.Forall2
import Mathlib.Data.List.Induction

/-!
# Journals

A computation appends to the journal of its state if it succeeds, keeps the
invariant of the state, and leaves the entries that were there in place. What is
appended is described by a predicate on the new entries. A sequence appends two
parts one after the other, and a loop appends one part for each of its inputs.
Where entries have keys, the last entry for a key is the current one.
-/

namespace Journal

variable {σ α β ε : Type} {journal : σ → List α} {I : σ → Prop}

/-- From `s`, the computation succeeds and appends entries that satisfy `Q`. -/
def Appends (journal : σ → List α) (I : σ → Prop) (Q : List α → Prop) (s : σ) (x : Except ε σ) : Prop :=
  ∃ t new, x = .ok t ∧ I t ∧ journal t = journal s ++ new ∧ Q new

section Rules

variable {P Q : List α → Prop} {s : σ} {x : Except ε σ}

theorem Appends.mono (h : Appends journal I P s x) (himp : ∀ new, P new → Q new) :
    Appends journal I Q s x := by
  obtain ⟨t, new, hx, ht, hnew, hP⟩ := h
  exact ⟨t, new, hx, ht, hnew, himp new hP⟩

/-- A computation that leaves the state alone. -/
theorem Appends.nothing (hs : I s) (hQ : Q []) : Appends journal I Q s (.ok s : Except ε σ) :=
  ⟨s, [], rfl, hs, (List.append_nil _).symm, hQ⟩

/-- The rule for sequences: the entries of the second part follow those of the
first. -/
theorem Appends.bind {f : σ → Except ε σ} (h : Appends journal I P s x)
    (hf : ∀ t, I t → Appends journal I Q t (f t)) :
    Appends journal I (fun new => ∃ a b, new = a ++ b ∧ P a ∧ Q b) s (x >>= f) := by
  obtain ⟨t, a, hx, ht, ha, hP⟩ := h
  obtain ⟨u, b, hfx, hu, hb, hQ⟩ := hf t ht
  subst hx
  refine ⟨u, a ++ b, hfx, hu, ?_, a, b, rfl, hP, hQ⟩
  rw [hb, ha, List.append_assoc]

/-- A computation that only looks at the state first. -/
theorem Appends.let {f : β → Except ε σ} {y : Except ε β} {b : β} (hy : y = .ok b)
    (h : Appends journal I Q s (f b)) : Appends journal I Q s (y >>= f) := by
  subst hy
  exact h

/-- The rule for loops: each round appends a part of its own. -/
theorem Appends.loop {R : β → List α → Prop} {body : σ → β → Except ε σ} {xs : List β}
    (hbody : ∀ x ∈ xs, ∀ s, I s → Appends journal I (R x) s (body s x)) (hs : I s) :
    Appends journal I (fun new => ∃ parts, new = parts.flatten ∧ List.Forall₂ R xs parts) s
      (xs.foldlM body s) := by
  induction xs generalizing s with
  | nil => exact .nothing hs ⟨[], rfl, .nil⟩
  | cons x xs ih =>
    rw [List.foldlM_cons]
    have hx := hbody x List.mem_cons_self s hs
    have hxs := hx.bind fun t ht => ih (fun y hy => hbody y (List.mem_cons_of_mem x hy)) ht
    refine hxs.mono ?_
    rintro new ⟨a, b, rfl, ha, parts, rfl, hparts⟩
    exact ⟨a :: parts, rfl, .cons ha hparts⟩

end Rules

/-! ## Descriptions that compose -/

section Composes

variable {γ : Type} {P : List γ → List α → Prop} {s : σ}

/-- Entries are described by a list, those of a sequence by the list of both. -/
structure Composes (P : List γ → List α → Prop) : Prop where
  nil : P [] []
  append {l l' : List γ} {a b : List α} : P l a → P l' b → P (l ++ l') (a ++ b)

theorem Composes.flatten {labels : β → List γ} (hP : Composes P) {xs : List β} {parts : List (List α)}
    (h : List.Forall₂ (fun x part => P (labels x) part) xs parts) :
    P (xs.flatMap labels) parts.flatten := by
  induction h with
  | nil => exact hP.nil
  | cons hpart _ ih =>
    rw [List.flatMap_cons, List.flatten_cons]
    exact hP.append hpart ih

/-- The rule for sequences. -/
theorem Composes.bind {l l' : List γ} {x : Except ε σ} {f : σ → Except ε σ} (hP : Composes P)
    (h : Appends journal I (P l) s x) (hf : ∀ t, I t → Appends journal I (P l') t (f t)) :
    Appends journal I (P (l ++ l')) s (x >>= f) := by
  refine (h.bind hf).mono ?_
  rintro _ ⟨a, b, rfl, ha, hb⟩
  exact hP.append ha hb

/-- The rule for loops. -/
theorem Composes.loop {labels : β → List γ} {body : σ → β → Except ε σ} {xs : List β} (hP : Composes P)
    (hbody : ∀ x ∈ xs, ∀ s, I s → Appends journal I (P (labels x)) s (body s x)) (hs : I s) :
    Appends journal I (P (xs.flatMap labels)) s (xs.foldlM body s) := by
  refine (Appends.loop hbody hs).mono ?_
  rintro _ ⟨parts, rfl, hparts⟩
  exact hP.flatten hparts

end Composes

/-! ## The last entry for a key -/

section Last

variable {κ : Type} [DecidableEq κ] {key : α → κ} {entries : List α} {a : α} {k : κ}

/-- The last of the entries with a key. -/
def last (key : α → κ) (entries : List α) (k : κ) : Option α :=
  (entries.filter fun a => key a = k).getLast?

@[simp] theorem last_append_self : last key (entries ++ [a]) (key a) = some a := by
  simp [last, List.filter_append]

@[simp] theorem last_append_of_ne (h : k ≠ key a) :
    last key (entries ++ [a]) k = last key entries k := by
  simp [last, List.filter_append, h.symm]

/-- The last entry for a key is also the last one for a coarser key, if that has no other entries. -/
theorem last_of_coarser {ι : Type} [DecidableEq ι] {coarse : α → ι}
    (h : last coarse entries (coarse a) = some a)
    (hsame : ∀ b ∈ entries, key b = key a → coarse b = coarse a) : last key entries (key a) = some a := by
  induction entries using List.reverseRecOn with
  | nil => cases h
  | append_singleton entries b ih =>
    have hprior : ∀ b ∈ entries, key b = key a → coarse b = coarse a := fun c hc =>
      hsame c (List.mem_append_left _ hc)
    by_cases hb : coarse b = coarse a
    · rw [← hb, last_append_self] at h
      cases h
      exact last_append_self
    · have hne : key a ≠ key b := fun hkey => hb (hsame b (by simp) hkey.symm)
      rw [last_append_of_ne (Ne.symm hb)] at h
      rw [last_append_of_ne hne]
      exact ih h hprior

theorem mem_of_last (h : last key entries k = some a) : a ∈ entries :=
  List.mem_of_mem_filter (List.mem_of_getLast? h)

theorem key_of_last (h : last key entries k = some a) : key a = k := by
  have hmem := List.mem_of_getLast? h
  simpa using (List.mem_filter.mp hmem).2

/-- The last entry for a key of the entries at the end. -/
theorem last_append_of_some {entries' : List α} (h : last key entries' k = some a) :
    last key (entries ++ entries') k = some a := by
  rw [last, List.filter_append, List.getLast?_append]
  rw [last] at h
  rw [h]
  rfl

theorem last_isSome_of_mem (h : a ∈ entries) : (last key entries (key a)).isSome := by
  rw [last, List.getLast?_isSome]
  exact List.ne_nil_of_mem (List.mem_filter.mpr ⟨h, by simp⟩)

/-- Entries are rewritten one by one and keep their keys. -/
theorem last_map {β : Type} {key' : β → κ} {f : α → β} (hkey : ∀ a, key' (f a) = key a) :
    last key' (entries.map f) k = (last key entries k).map f := by
  have hfilter : (entries.map f).filter (fun b => key' b = k) =
      (entries.filter fun a => key a = k).map f := by
    simp [List.filter_map, Function.comp_def, hkey]
  rw [last, hfilter, List.getLast?_map]
  rfl

end Last

end Journal
