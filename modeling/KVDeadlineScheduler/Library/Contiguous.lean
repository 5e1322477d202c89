-- SUMMARY: Lists in which equal elements stand next to each other, and the number of their maximal blocks.
import Mathlib.Data.Finset.Card
import Mathlib.Data.List.Destutter

/-!
# Contiguous lists

Dropping every element that equals its predecessor leaves one element for each
maximal block of equal ones. A list is contiguous when no value comes back after
another one, and exactly then there are as many blocks as distinct values.
-/

/-- No value comes back after another one. -/
def Contiguous {α : Type} (l : List α) : Prop := ∀ a b, [a, b, a].Sublist l → a = b

namespace Contiguous

variable {α : Type} {a b x : α} {l l' : List α}

theorem sublist (h : Contiguous l) (hsub : l'.Sublist l) : Contiguous l' :=
  fun a b hab => h a b (hab.trans hsub)

theorem singleton (a : α) : Contiguous [a] := by
  intro x y hsub
  have := hsub.length_le
  simp at this

/-- A value that another one follows may not occur again. -/
theorem cons_cons_iff : Contiguous (a :: b :: l) ↔ (a ≠ b → a ∉ l) ∧ Contiguous (b :: l) := by
  constructor
  · intro h
    refine ⟨fun hne hmem => hne (h a b ?_), h.sublist (List.sublist_cons_self _ _)⟩
    exact ((List.singleton_sublist.mpr hmem).cons_cons b).cons_cons a
  · rintro ⟨hfresh, htail⟩ x y hsub
    rcases List.sublist_cons_iff.mp hsub with hsub | ⟨r, hr, hsub⟩
    · exact htail x y hsub
    · cases hr
      -- the first of the three is the head, and the last one occurs after it
      by_cases hab : a = b
      · subst hab
        rcases List.sublist_cons_iff.mp hsub with hsub | ⟨r, hr, -⟩
        · exact htail a y (hsub.cons_cons a)
        · cases hr
          rfl
      · have hmem : a ∈ b :: l := hsub.subset (by simp)
        rcases List.mem_cons.mp hmem with heq | hmem
        · exact absurd heq hab
        · exact absurd hmem (hfresh hab)

variable [DecidableEq α]

/-! ## Blocks of equal elements -/

theorem mem_destutter' : x ∈ l.destutter' (· ≠ ·) a ↔ x = a ∨ x ∈ l := by
  induction l generalizing a with
  | nil => simp
  | cons b l ih =>
    by_cases hab : a = b
    · subst hab
      rw [List.destutter'_cons_neg l (by simp), ih]
      simp
    · rw [List.destutter'_cons_pos l hab, List.mem_cons, ih, List.mem_cons]

theorem nodup_destutter'_iff : (l.destutter' (· ≠ ·) a).Nodup ↔ Contiguous (a :: l) := by
  induction l generalizing a with
  | nil => simp [singleton]
  | cons b l ih =>
    rw [cons_cons_iff]
    by_cases hab : a = b
    · subst hab
      rw [List.destutter'_cons_neg l (by simp), ih]
      simp
    · rw [List.destutter'_cons_pos l hab, List.nodup_cons, ih, mem_destutter']
      simp [hab]

/-- A list has at least as many blocks as distinct elements, and as many exactly if
it is contiguous. -/
theorem length_destutter_eq_iff : (l.destutter (· ≠ ·)).length = l.toFinset.card ↔ Contiguous l := by
  cases l with
  | nil => simp [Contiguous]
  | cons a l =>
    have hset : (a :: l).toFinset = (l.destutter' (· ≠ ·) a).toFinset := by
      ext x
      simp [mem_destutter']
    rw [List.destutter_cons', hset, ← nodup_destutter'_iff, eq_comm]
    exact Multiset.toFinset_card_eq_card_iff_nodup

end Contiguous
