-- SUMMARY: Tables of buckets with insertion at the front, and the flat list of entries they stand for.
import KVDeadlineScheduler.Library.BoundedQueue
import Mathlib.Logic.Function.Basic

/-!
# Bucket tables

A table keeps a list of entries in each bucket. A write looks for an entry in one
bucket and then adds a new one at the front when it found none, or removes the
first one it found. A table whose entries know their bucket stands for one flat
list, newest first, and every operation on the table is one on that list.
-/

abbrev BucketTable (β α : Type) := β → List α

namespace BucketTable

variable {α β : Type}

def empty : BucketTable β α := fun _ => []

def find (table : BucketTable β α) (bucket : β) (wanted : α → Bool) : Option α :=
  (table bucket).find? wanted

/-- A compound write: what it looks for, and what it does then. -/
inductive Write (β α : Type) where
  | addUnless (bucket : β) (wanted : α → Bool) (x : α)
  | removeFirst (bucket : β) (wanted : α → Bool)

namespace Write

def bucket : Write β α → β
  | addUnless bucket _ _ => bucket
  | removeFirst bucket _ => bucket

def wanted : Write β α → α → Bool
  | addUnless _ wanted _ => wanted
  | removeFirst _ wanted => wanted

end Write

section Writes

variable [DecidableEq β]

def add (table : BucketTable β α) (bucket : β) (x : α) : BucketTable β α :=
  Function.update table bucket (x :: table bucket)

def remove (table : BucketTable β α) (bucket : β) (wanted : α → Bool) : BucketTable β α :=
  Function.update table bucket ((table bucket).eraseP wanted)

/-- What a write finds, and the table it leaves. -/
def write (table : BucketTable β α) : Write β α → Option α × BucketTable β α
  | .addUnless bucket wanted x =>
    match table.find bucket wanted with
    | some found => (some found, table)
    | none => (none, table.add bucket x)
  | .removeFirst bucket wanted => (table.find bucket wanted, table.remove bucket wanted)

theorem write_snd_of_ne (table : BucketTable β α) {w : Write β α} {bucket : β}
    (h : bucket ≠ w.bucket) : (table.write w).2 bucket = table bucket := by
  cases w with
  | addUnless bucket' wanted x =>
    simp only [write]
    cases table.find bucket' wanted with
    | none => exact Function.update_of_ne h _ _
    | some found => rfl
  | removeFirst bucket' wanted => exact Function.update_of_ne h _ _

section Split

variable {table : BucketTable β α} {bucket : β} {wanted : α → Bool} {x : α} {front back : List α}

omit [DecidableEq β] in
theorem find_of_split (htable : table bucket = front ++ x :: back)
    (hfront : ∀ y ∈ front, wanted y = false) (hx : wanted x = true) :
    table.find bucket wanted = some x := by
  rw [find, htable, List.find?_append, List.find?_eq_none.mpr fun y hy => by simp [hfront y hy],
    Option.none_or, List.find?_cons_of_pos hx]

theorem addUnless_of_none (h : table.find bucket wanted = none) (x : α) :
    (table.write (.addUnless bucket wanted x)).2 = table.add bucket x := by
  simp only [write, h]

theorem addUnless_of_some {y : α} (h : table.find bucket wanted = some y) (x : α) :
    (table.write (.addUnless bucket wanted x)).2 = table := by
  simp only [write, h]

theorem remove_of_none (h : table.find bucket wanted = none) : table.remove bucket wanted = table := by
  rw [remove, List.eraseP_of_forall_not fun x hx => List.find?_eq_none.mp h x hx,
    Function.update_eq_self]

theorem remove_of_split (htable : table bucket = front ++ x :: back)
    (hfront : ∀ y ∈ front, wanted y = false) (hx : wanted x = true) :
    table.remove bucket wanted bucket = front ++ back := by
  rw [remove, Function.update_self, htable,
    List.eraseP_append_right _ fun y hy => by simp [hfront y hy], List.eraseP_cons_of_pos hx]

end Split

/-- The table after a sequence of writes. -/
def afterWrites (table : BucketTable β α) (writes : List (Write β α)) : BucketTable β α :=
  Machine.after write table writes

end Writes

/-! ## The flat list -/

/-- The bucket of each entry is `place` of it, and the buckets are the flat list sorted by it. -/
def Flat [DecidableEq β] (place : α → β) (table : BucketTable β α) (l : List α) : Prop :=
  ∀ bucket, table bucket = l.filter fun x => place x = bucket

section Flat

variable [DecidableEq β] {place : α → β} {table : BucketTable β α} {l : List α}

theorem flat_empty : Flat place (empty : BucketTable β α) [] := fun _ => rfl

theorem Flat.find (h : Flat place table l) (bucket : β) (wanted : α → Bool) :
    table.find bucket wanted = l.find? fun x => decide (place x = bucket) && wanted x := by
  rw [BucketTable.find, h bucket, List.find?_filter]
  congr 1
  funext x
  simp

theorem Flat.mem_iff (h : Flat place table l) {x : α} : x ∈ l ↔ x ∈ table (place x) := by
  rw [h (place x)]
  simp

theorem Flat.add (h : Flat place table l) (x : α) : Flat place (table.add (place x) x) (x :: l) := by
  intro bucket
  by_cases hb : bucket = place x
  · subst hb
    rw [BucketTable.add, Function.update_self, h (place x), List.filter_cons_of_pos (by simp)]
  · rw [BucketTable.add, Function.update_of_ne hb, h bucket,
      List.filter_cons_of_neg (by simpa using Ne.symm hb)]

/-- Erasing from the part of a list that passes a filter is erasing from the list. -/
theorem filter_eraseP_and (p q : α → Bool) (l : List α) :
    (l.eraseP fun x => p x && q x).filter p = (l.filter p).eraseP q := by
  induction l with
  | nil => rfl
  | cons x l ih =>
    cases hp : p x with
    | false => simp [hp, ih]
    | true =>
      cases hq : q x with
      | false => simp [hp, hq, ih]
      | true => simp [hp, hq]

theorem filter_eraseP_disjoint {p q : α → Bool} (hpq : ∀ x, p x = true → q x = false) (l : List α) :
    (l.eraseP p).filter q = l.filter q := by
  induction l with
  | nil => rfl
  | cons x l ih =>
    cases hp : p x with
    | true => simp [hp, hpq x hp]
    | false => simp [hp, List.filter_cons, ih]

theorem Flat.remove (h : Flat place table l) (bucket : β) (wanted : α → Bool) :
    Flat place (table.remove bucket wanted)
      (l.eraseP fun x => decide (place x = bucket) && wanted x) := by
  intro other
  by_cases hb : other = bucket
  · subst hb
    rw [BucketTable.remove, Function.update_self, h other, filter_eraseP_and]
  · rw [BucketTable.remove, Function.update_of_ne hb, h other, filter_eraseP_disjoint]
    intro x hx
    have hplace : place x = bucket := by simp_all
    simpa [hplace] using Ne.symm hb

end Flat

end BucketTable
