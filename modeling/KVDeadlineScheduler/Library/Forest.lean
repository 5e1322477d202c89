-- SUMMARY: Forests given by parent pointers: subtrees, the worklist that collects the descendants of a vertex, and when it is done.
import Mathlib.Data.List.Nodup
import Mathlib.Data.List.Perm.Subperm
import Mathlib.Logic.Relation
import Mathlib.Order.Basic

/-!
# Forests

A forest is a list of labelled vertices with distinct names, and every label may
point to a parent. The subtrees of siblings have no vertex in common. A worklist
that starts with one vertex and replaces a vertex by its children finds every
descendant once, and is done after as many rounds as there are vertices. On a
circle it is never done.
-/

namespace Forest

variable {α β : Type} (entries : List (α × β)) (parentOf : β → Option α)

/-! ## Subtrees -/

def Child (a b : α) : Prop := ∃ label, (b, label) ∈ entries ∧ parentOf label = some a

/-- `b` is in the subtree of `a`. -/
def Below : α → α → Prop := Relation.ReflTransGen (Child entries parentOf)

def Acyclic : Prop := ∀ a, ¬Relation.TransGen (Child entries parentOf) a a

section Subtrees

variable {entries parentOf} {a b c : α}

/-- The subtree of a vertex is the vertex and the subtrees of its children. -/
theorem below_iff : Below entries parentOf a b ↔ a = b ∨ ∃ c, Child entries parentOf a c ∧ Below entries parentOf c b :=
  Relation.ReflTransGen.cases_head_iff

/-- There are no circles if names grow from parent to child. -/
theorem acyclic_of_lt [Preorder α] (h : ∀ a b, Child entries parentOf a b → a < b) : Acyclic entries parentOf := by
  intro a hcircle
  have hlt : ∀ b, Relation.TransGen (Child entries parentOf) a b → a < b := by
    intro b hb
    induction hb with
    | single hchild => exact h _ _ hchild
    | tail _ hchild ih => exact ih.trans (h _ _ hchild)
  exact lt_irrefl a (hlt a hcircle)

variable (hnodup : (entries.map Prod.fst).Nodup)
include hnodup

theorem label_unique {label label' : β} (h : (a, label) ∈ entries) (h' : (a, label') ∈ entries) :
    label = label' := by
  have heq := List.inj_on_of_nodup_map hnodup h h' rfl
  exact congrArg Prod.snd heq

theorem parent_unique (h : Child entries parentOf a c) (h' : Child entries parentOf b c) : a = b := by
  obtain ⟨label, hin, hparent⟩ := h
  obtain ⟨label', hin', hparent'⟩ := h'
  rw [label_unique hnodup hin hin'] at hparent
  exact Option.some.inj (hparent.symm.trans hparent')

/-- Two subtrees with a common vertex are one within the other. -/
theorem below_total (h : Below entries parentOf a c) (h' : Below entries parentOf b c) :
    Below entries parentOf a b ∨ Below entries parentOf b a := by
  have hunique : Relator.RightUnique (Function.swap (Child entries parentOf)) :=
    fun _ _ _ hb hc => parent_unique hnodup hb hc
  rcases Relation.ReflTransGen.total_of_right_unique hunique h.swap h'.swap with hab | hba
  · exact .inr (Relation.reflTransGen_swap.mp hab)
  · exact .inl (Relation.reflTransGen_swap.mp hba)

/-- The subtrees of siblings have no vertex in common, nor do those of roots. -/
theorem siblings_disjoint (hacyclic : Acyclic entries parentOf)
    (hsiblings : ∀ p, Child entries parentOf p a ↔ Child entries parentOf p b)
    (ha : Below entries parentOf a c) (hb : Below entries parentOf b c) : a = b := by
  have hwithin : ∀ x y, (∀ p, Child entries parentOf p y → Child entries parentOf p x) →
      Below entries parentOf x y → x = y := by
    intro x y hparents hbelow
    rcases Relation.ReflTransGen.cases_tail hbelow with heq | ⟨p, hp, hchild⟩
    · exact heq.symm
    · exact absurd (Relation.TransGen.head' (hparents p hchild) hp) (hacyclic p)
  rcases below_total hnodup ha hb with hab | hba
  · exact hwithin a b (fun p => (hsiblings p).mpr) hab
  · exact (hwithin b a (fun p => (hsiblings p).mp) hba).symm

end Subtrees

/-! ## The worklist -/

section Worklist

variable [DecidableEq α]

/-- The vertices that point to `a`, in their order. -/
def children (a : α) : List (α × β) := entries.filter fun entry => parentOf entry.2 = some a

/-- `while pending`: take the last vertex off the list, and add its children to
what is found and to the list. -/
def collect (expand : α → List (α × β)) : ℕ → List β → List α → Option (List β)
  | 0, _, _ => none
  | fuel + 1, found, pending =>
    match pending.getLast? with
    | none => some found
    | some current =>
      collect expand fuel (found ++ (expand current).map Prod.snd)
        (pending.dropLast ++ (expand current).map Prod.fst)

/-- Every vertex found has been taken off the list or is on it, and what is found
are the children of those taken off. -/
structure Frontier (a : α) (popped pending : List α) (reached : List (α × β)) : Prop where
  visited : (popped ++ pending).Perm (a :: reached.map Prod.fst)
  expanded : reached.Perm (popped.flatMap (children entries parentOf))
  nodup : (a :: reached.map Prod.fst).Nodup
  below : ∀ b ∈ a :: reached.map Prod.fst, Below entries parentOf a b

variable {entries parentOf} {a b : α} {popped pending : List α} {reached : List (α × β)}

theorem mem_children {entry : α × β} :
    entry ∈ children entries parentOf a ↔ entry ∈ entries ∧ parentOf entry.2 = some a := by
  simp [children]

theorem mem_names_children : b ∈ (children entries parentOf a).map Prod.fst ↔ Child entries parentOf a b := by
  simp only [List.mem_map, mem_children, Child]
  constructor
  · rintro ⟨⟨_, label⟩, ⟨hin, hparent⟩, rfl⟩
    exact ⟨label, hin, hparent⟩
  · rintro ⟨label, hin, hparent⟩
    exact ⟨(b, label), ⟨hin, hparent⟩, rfl⟩

theorem Frontier.start : Frontier entries parentOf a [] [a] [] where
  visited := .refl _
  expanded := .refl _
  nodup := by simp
  below := by simp [Below, Relation.ReflTransGen.refl]

theorem Frontier.mem_reached (h : Frontier entries parentOf a popped pending reached) {entry : α × β} :
    entry ∈ reached ↔ ∃ b ∈ popped, entry ∈ children entries parentOf b := by
  rw [h.expanded.mem_iff, List.mem_flatMap]

/-- No more vertices have been taken off the list than there are. -/
theorem Frontier.length_le (h : Frontier entries parentOf a popped pending reached) :
    popped.length + pending.length ≤ entries.length + 1 := by
  have hsub : reached.map Prod.fst ⊆ entries.map Prod.fst := by
    intro x hx
    obtain ⟨entry, hentry, rfl⟩ := List.mem_map.mp hx
    obtain ⟨b, -, hin⟩ := h.mem_reached.mp hentry
    exact List.mem_map_of_mem (mem_children.mp hin).1
  have hle := (List.subperm_of_subset h.nodup.of_cons hsub).length_le
  have hlength := h.visited.length_eq
  simp only [List.length_append, List.length_cons, List.length_map] at hle hlength
  omega

/-- A vertex of a circle on the list is followed by its child on the circle. -/
theorem collect_eq_none {fuel : ℕ} {found : List β}
    (hcircle : ∃ b ∈ pending, Relation.TransGen (Child entries parentOf) b b) :
    collect (children entries parentOf) fuel found pending = none := by
  induction fuel generalizing found pending with
  | zero => rfl
  | succ fuel ih =>
    obtain ⟨b, hb, hcircle⟩ := hcircle
    rcases List.eq_nil_or_concat pending with rfl | ⟨rest, current, rfl⟩
    · cases hb
    rw [List.concat_eq_append] at hb ⊢
    rw [collect, List.getLast?_concat, List.dropLast_concat]
    apply ih
    rcases List.mem_append.mp hb with hb | hb
    · exact ⟨b, List.mem_append_left _ hb, hcircle⟩
    · rw [List.mem_singleton.mp hb] at hcircle
      obtain ⟨c, hchild, hback⟩ := Relation.TransGen.head'_iff.mp hcircle
      refine ⟨c, List.mem_append_right _ (mem_names_children.mpr hchild), ?_⟩
      exact Relation.TransGen.tail' hback hchild

variable (hnodup : (entries.map Prod.fst).Nodup)
include hnodup

theorem Frontier.step (hcircle : ¬Relation.TransGen (Child entries parentOf) a a) {current : α}
    (h : Frontier entries parentOf a popped (pending ++ [current]) reached) :
    Frontier entries parentOf a (current :: popped)
      (pending ++ (children entries parentOf current).map Prod.fst)
      (reached ++ children entries parentOf current) := by
  have hcurrent : Below entries parentOf a current :=
    h.below current (h.visited.mem_iff.mp (by simp))
  have hfresh : current ∉ popped := by
    have hvisited := h.visited.nodup_iff.mpr h.nodup
    intro hin
    exact (List.nodup_append.mp hvisited).2.2 current hin current (by simp) rfl
  refine ⟨?_, ?_, ?_, ?_⟩
  · rw [List.map_append, ← List.cons_append]
    refine List.Perm.trans ?_ (h.visited.append_right _)
    rw [← List.append_assoc, ← List.append_assoc]
    refine List.Perm.append_right _ ?_
    exact (List.perm_append_singleton current (popped ++ pending)).symm
  · rw [List.flatMap_cons]
    exact List.perm_append_comm.trans (h.expanded.append_left _)
  · have hkids : ((children entries parentOf current).map Prod.fst).Nodup :=
      (List.filter_sublist.map Prod.fst).nodup hnodup
    rw [List.map_append, ← List.cons_append, List.nodup_append]
    refine ⟨h.nodup, hkids, ?_⟩
    rintro x hx _ hy rfl
    have hchild := mem_names_children.mp hy
    rcases List.mem_cons.mp hx with rfl | hx
    · exact hcircle (Relation.TransGen.tail' hcurrent hchild)
    · -- found before, as a child of another vertex
      obtain ⟨entry, hentry, rfl⟩ := List.mem_map.mp hx
      obtain ⟨b, hb, hin⟩ := h.mem_reached.mp hentry
      have hother : Child entries parentOf b entry.1 :=
        mem_names_children.mp (List.mem_map_of_mem hin)
      rw [parent_unique hnodup hother hchild] at hb
      exact hfresh hb
  · intro b hb
    rw [List.map_append, ← List.cons_append, List.mem_append] at hb
    rcases hb with hb | hb
    · exact h.below b hb
    · exact Relation.ReflTransGen.tail hcurrent (mem_names_children.mp hb)

theorem Frontier.collect (hcircle : ¬Relation.TransGen (Child entries parentOf) a a) {fuel : ℕ}
    (h : Frontier entries parentOf a popped pending reached)
    (hfuel : entries.length + 2 ≤ fuel + popped.length) :
    ∃ popped' reached', Frontier entries parentOf a popped' [] reached' ∧
      collect (children entries parentOf) fuel (reached.map Prod.snd) pending =
        some (reached'.map Prod.snd) := by
  induction fuel generalizing popped pending reached with
  | zero =>
    have hle := h.length_le
    omega
  | succ fuel ih =>
    rcases List.eq_nil_or_concat pending with rfl | ⟨rest, current, rfl⟩
    · exact ⟨popped, reached, h, rfl⟩
    · have hround : entries.length + 2 ≤ fuel + (current :: popped).length := by
        rw [List.length_cons]
        omega
      rw [List.concat_eq_append] at h ⊢
      obtain ⟨popped', reached', hdone, hcollect⟩ := ih (h.step hnodup hcircle) hround
      refine ⟨popped', reached', hdone, ?_⟩
      rw [List.map_append] at hcollect
      rw [Forest.collect, List.getLast?_concat, List.dropLast_concat]
      exact hcollect

/-- An empty list leaves nothing of the subtree to be found. -/
theorem Frontier.mem_of_done (h : Frontier entries parentOf a popped [] reached) {entry : α × β} :
    entry ∈ reached ↔ entry ∈ entries ∧ Relation.TransGen (Child entries parentOf) a entry.1 := by
  have hpopped : ∀ b, b ∈ popped ↔ b ∈ a :: reached.map Prod.fst := fun b => by
    rw [← h.visited.mem_iff, List.append_nil]
  constructor
  · intro hin
    obtain ⟨b, hb, hchild⟩ := h.mem_reached.mp hin
    refine ⟨(mem_children.mp hchild).1, ?_⟩
    exact Relation.TransGen.tail' (h.below b ((hpopped b).mp hb))
      (mem_names_children.mp (List.mem_map_of_mem hchild))
  · rintro ⟨hin, hbelow⟩
    have hall : ∀ b, Below entries parentOf a b → b ∈ popped := by
      intro b hb
      induction hb with
      | refl => exact (hpopped a).mpr List.mem_cons_self
      | tail _ hchild ih =>
        obtain ⟨label, hentry, hparent⟩ := hchild
        refine (hpopped _).mpr (List.mem_cons_of_mem a ?_)
        exact List.mem_map_of_mem (h.mem_reached.mpr ⟨_, ih, mem_children.mpr ⟨hentry, hparent⟩⟩)
    obtain ⟨b, hb, label, hentry, hparent⟩ := Relation.TransGen.tail'_iff.mp hbelow
    rw [label_unique hnodup hentry hin] at hparent
    exact h.mem_reached.mpr ⟨b, hall b hb, mem_children.mpr ⟨hin, hparent⟩⟩

/-- From a vertex on no circle the worklist finds its proper descendants, each once. -/
theorem collect_eq (hcircle : ¬Relation.TransGen (Child entries parentOf) a a) :
    ∃ reached : List (α × β), Forest.collect (children entries parentOf) (entries.length + 2) [] [a] =
        some (reached.map Prod.snd) ∧
      (reached.map Prod.fst).Nodup ∧
      ∀ entry, entry ∈ reached ↔ entry ∈ entries ∧ Relation.TransGen (Child entries parentOf) a entry.1 := by
  have hstart : Frontier entries parentOf a [] [a] [] := .start
  obtain ⟨popped, reached, hdone, hcollect⟩ := hstart.collect hnodup hcircle (Nat.le_add_right _ _)
  exact ⟨reached, hcollect, hdone.nodup.of_cons, fun entry => hdone.mem_of_done hnodup⟩

end Worklist

end Forest
