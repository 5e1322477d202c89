-- SUMMARY: Bounded queues, and machines that give the same answers to every sequence of calls.
import Mathlib.Data.List.Basic

/-!
# Bounded queues

A queue carries the bound on its length. A machine takes calls and gives an
answer to each. Two machines are interchangeable when they give the same answer
to any call after any sequence of calls, which follows from a relation between
their states that every call keeps.
-/

/-! ## Queues -/

structure BoundedQueue (α : Type) (c : ℕ) where
  items : List α
  length_le : items.length ≤ c

namespace BoundedQueue

variable {α : Type} {c : ℕ}

def empty : BoundedQueue α c := ⟨[], Nat.zero_le c⟩

theorem length_append_le {q : BoundedQueue α c} {x : α} (h : q.items.length < c) :
    (q.items ++ [x]).length ≤ c := by
  rw [List.length_append]
  exact h

/-- None when the queue is full. -/
def push (q : BoundedQueue α c) (x : α) : Option (BoundedQueue α c) :=
  if h : q.items.length < c then some ⟨q.items ++ [x], length_append_le h⟩ else none

theorem length_tail_le (q : BoundedQueue α c) : q.items.tail.length ≤ c := by
  rw [List.length_tail]
  exact Nat.le_trans (Nat.sub_le _ _) q.length_le

/-- The first item and the rest, if there is one. -/
def pop (q : BoundedQueue α c) : Option (α × BoundedQueue α c) :=
  q.items.head?.map fun x => (x, ⟨q.items.tail, length_tail_le q⟩)

theorem push_of_lt {q : BoundedQueue α c} {x : α} (h : q.items.length < c) :
    q.push x = some ⟨q.items ++ [x], length_append_le h⟩ := dif_pos h

theorem push_of_full {q : BoundedQueue α c} {x : α} (h : q.items.length = c) : q.push x = none :=
  dif_neg (by omega)

end BoundedQueue

/-! ## Machines -/

namespace Machine

variable {σ τ ω ο : Type}

/-- The state after a sequence of calls. -/
def after (call : σ → ω → ο × σ) (s : σ) (calls : List ω) : σ := calls.foldl (fun s c => (call s c).2) s

section After

variable {call : σ → ω → ο × σ} {s : σ}

@[simp] theorem after_nil : after call s [] = s := rfl

@[simp] theorem after_cons (c : ω) (calls : List ω) :
    after call s (c :: calls) = after call (call s c).2 calls := rfl

theorem after_append (calls calls' : List ω) :
    after call s (calls ++ calls') = after call (after call s calls) calls' := List.foldl_append

end After

/-- The machines answer any call alike after any sequence of calls. -/
def SameAnswers (call₁ : σ → ω → ο × σ) (call₂ : τ → ω → ο × τ) (s : σ) (t : τ) : Prop :=
  ∀ calls c, (call₁ (after call₁ s calls) c).1 = (call₂ (after call₂ t calls) c).1

/-- A relation under which calls are answered alike, and that every call keeps. -/
def Simulates (R : σ → τ → Prop) (call₁ : σ → ω → ο × σ) (call₂ : τ → ω → ο × τ) : Prop :=
  ∀ s t c, R s t → (call₁ s c).1 = (call₂ t c).1 ∧ R (call₁ s c).2 (call₂ t c).2

variable {R : σ → τ → Prop} {call₁ : σ → ω → ο × σ} {call₂ : τ → ω → ο × τ}

theorem Simulates.after (h : Simulates R call₁ call₂) {s : σ} {t : τ} (hR : R s t) (calls : List ω) :
    R (Machine.after call₁ s calls) (Machine.after call₂ t calls) := by
  induction calls generalizing s t with
  | nil => exact hR
  | cons c calls ih => exact ih (h s t c hR).2

theorem Simulates.sameAnswers (h : Simulates R call₁ call₂) {s : σ} {t : τ} (hR : R s t) :
    SameAnswers call₁ call₂ s t :=
  fun calls c => (h _ _ c (h.after hR calls)).1

end Machine
