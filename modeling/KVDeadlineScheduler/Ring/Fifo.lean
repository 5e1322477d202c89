-- SUMMARY: The ring as a bounded queue: pushes and pops answer like one exactly when the capacity is a power of two.
import KVDeadlineScheduler.Library.BoundedQueue
import KVDeadlineScheduler.Ring.Header

/-!
# The ring is a bounded queue for powers of two

The header check admits any capacity but 0, while a slot is the counter masked
with `capacity - 1`. For a power of two the entries outstanding have slots of
their own, and the ring holds the items of a queue. For any other capacity two of
the first `capacity` counters share a slot, and the later push overwrites the
earlier entry.
-/

namespace MemoryIntentRing

variable {α : Type}

/-! ## Contents -/

/-- The slots from the `n`-th counter on hold the items. -/
def Stores (h : MiRingHeader) (entries : ℕ → α) (start : BitVec 64) (n : ℕ) (items : List α) : Prop :=
  ∀ i x, items[i]? = some x → entries (h.slot (counter start (n + i))) = x

section Stores

variable {h : MiRingHeader} {entries : ℕ → α} {start : BitVec 64} {n : ℕ} {items : List α}

theorem Stores.congr {h' : MiRingHeader} (hc : h'.capacity = h.capacity)
    (hs : Stores h entries start n items) : Stores h' entries start n items := by
  intro i x hx
  rw [MiRingHeader.slot_congr hc]
  exact hs i x hx

theorem Stores.tail (hs : Stores h entries start n items) :
    Stores h entries start (n + 1) items.tail := by
  intro i x hx
  rw [List.getElem?_tail] at hx
  rw [← hs (i + 1) x hx, Nat.add_right_comm, Nat.add_assoc]

/-- A write past the items, within one turn of the first, leaves them alone. -/
theorem Stores.update (hpow : h.PowerOfTwo) (hs : Stores h entries start n items) {m : ℕ}
    (hm : n + items.length ≤ m) (hm' : m < n + h.capacity.toNat) (entry : α) :
    Stores h (Function.update entries (h.slot (counter start m)) entry) start n items := by
  intro i x hx
  have hi : i < items.length := (List.getElem?_eq_some_iff.mp hx).1
  have hne : h.slot (counter start (n + i)) ≠ h.slot (counter start m) :=
    MiRingHeader.slot_counter_ne hpow (by omega) (by omega)
  rw [Function.update_of_ne hne]
  exact hs i x hx

/-- The next slot holds one more item. -/
theorem Stores.snoc (hs : Stores h entries start n items) {x : α}
    (hx : entries (h.slot (counter start (n + items.length))) = x) :
    Stores h entries start n (items ++ [x]) := by
  intro i y hy
  rcases Nat.lt_or_ge i items.length with hi | hi
  · rw [List.getElem?_append_left hi] at hy
    exact hs i y hy
  · rw [List.getElem?_append_right hi] at hy
    obtain ⟨hzero, heq⟩ := List.getElem?_eq_some_iff.mp hy
    have hlast : i = items.length := by
      rw [List.length_singleton] at hzero
      omega
    subst hlast
    rw [hx]
    simpa using heq

theorem Stores.append (hpow : h.PowerOfTwo) (hs : Stores h entries start n items)
    (hlen : items.length < h.capacity.toNat) (entry : α) :
    Stores h (Function.update entries (h.slot (counter start (n + items.length))) entry) start n
      (items ++ [entry]) :=
  (hs.update hpow le_rfl (by omega) entry).snoc (Function.update_self ..)

end Stores

/-! ## Calls -/

inductive RingCall (α : Type) where
  | push (entry : α)
  | pop

/-- The return code of a call and the entry it writes to its output. -/
def MiRing.call (ring : MiRing α) : RingCall α → (Errno × Option α) × MiRing α
  | .push entry => (((miRingPush ring entry).1, none), (miRingPush ring entry).2)
  | .pop => (((miRingPop ring).1, (miRingPop ring).2.1), (miRingPop ring).2.2)

/-- The calls on a bounded queue, with the codes of the ring. -/
def queueCall {c : ℕ} (q : BoundedQueue α c) : RingCall α → (Errno × Option α) × BoundedQueue α c
  | .push entry =>
    match q.push entry with
    | none => ((.enospc, none), q)
    | some q' => ((.ok, none), q')
  | .pop =>
    match q.pop with
    | none => ((.enodata, none), q)
    | some (entry, q') => ((.ok, some entry), q')

/-- Pushes and pops are answered like those of an empty queue bounded by the
capacity, and a call that fails changes nothing. -/
structure IsBoundedFifo (ring : MiRing α) : Prop where
  answers : Machine.SameAnswers MiRing.call queueCall ring
    (BoundedQueue.empty : BoundedQueue α ring.header.capacity.toNat)
  failed_unchanged : ∀ (calls : List (RingCall α)) (call : RingCall α),
    ((Machine.after MiRing.call ring calls).call call).1.1 ≠ .ok →
      ((Machine.after MiRing.call ring calls).call call).2 = Machine.after MiRing.call ring calls

theorem miRingPush_failed {ring : MiRing α} {entry : α} (h : (miRingPush ring entry).1 ≠ .ok) :
    (miRingPush ring entry).2 = ring := by
  unfold miRingPush at h ⊢
  split
  · rfl
  · split
    · rfl
    · rename_i haccepted hfull
      rw [if_neg haccepted, if_neg hfull] at h
      exact absurd rfl h

theorem miRingPop_failed {ring : MiRing α} (h : (miRingPop ring).1 ≠ .ok) :
    (miRingPop ring).2.2 = ring := by
  unfold miRingPop at h ⊢
  split
  · rfl
  · split
    · rfl
    · rename_i haccepted hempty
      rw [if_neg haccepted, if_neg hempty] at h
      exact absurd rfl h

/-- No call writes before its checks have passed. -/
theorem call_failed {ring : MiRing α} {call : RingCall α} (h : (ring.call call).1.1 ≠ .ok) :
    (ring.call call).2 = ring := by
  cases call with
  | push entry => exact miRingPush_failed h
  | pop => exact miRingPop_failed h

/-! ## Counters -/

/-- `n` entries were pushed and `m` of them popped. -/
structure Counted (start : BitVec 64) (ring : MiRing α) (m n : ℕ) : Prop where
  accepted : ring.header.Accepted
  head : ring.header.head = counter start n
  tail : ring.header.tail = counter start m
  le : m ≤ n
  le_add : n ≤ m + ring.header.capacity.toNat

section Counted

variable {start : BitVec 64} {ring : MiRing α} {m n : ℕ}

theorem Counted.congr {ring' : MiRing α} (hheader : ring'.header = ring.header)
    (h : Counted start ring m n) : Counted start ring' m n :=
  ⟨hheader ▸ h.accepted, hheader ▸ h.head, hheader ▸ h.tail, h.le, hheader ▸ h.le_add⟩

theorem Counted.lt_turn (h : Counted start ring m n) : n < m + 2 ^ 64 := by
  have hlt := ring.header.capacity.isLt
  have hle := h.le_add
  omega

theorem Counted.full_iff (h : Counted start ring m n) :
    miRingFull ring = true ↔ n = m + ring.header.capacity.toNat := by
  have hle := h.le
  have hle' := h.le_add
  rw [miRingFull, MiRingHeader.fullAt_iff, h.head, h.tail, toNat_counter_sub hle h.lt_turn]
  omega

theorem Counted.empty_iff (h : Counted start ring m n) : miRingEmpty ring = true ↔ n = m := by
  rw [miRingEmpty, decide_eq_true_iff, h.head, h.tail, counter_inj h.le h.lt_turn]

theorem Counted.push_of_full (h : Counted start ring m n)
    (hfull : n = m + ring.header.capacity.toNat) (entry : α) :
    miRingPush ring entry = (.enospc, ring) := by
  rw [miRingPush, if_neg (not_not.mpr h.accepted), if_pos (h.full_iff.mpr hfull)]

/-- A push with room writes the slot of the `n`-th counter. -/
theorem Counted.push (h : Counted start ring m n) (hroom : n < m + ring.header.capacity.toNat)
    (entry : α) :
    ∃ ring', miRingPush ring entry = (.ok, ring') ∧ Counted start ring' m (n + 1) ∧
      ring'.header.capacity = ring.header.capacity ∧
      ring'.entries = Function.update ring.entries (ring.header.slot (counter start n)) entry := by
  have hfull : ¬miRingFull ring = true := fun hc => hroom.ne (h.full_iff.mp hc)
  rw [miRingPush, if_neg (not_not.mpr h.accepted), if_neg hfull, h.head]
  exact ⟨_, rfl, ⟨h.accepted, (counter_succ start n).symm, h.tail, Nat.le_succ_of_le h.le, hroom⟩, rfl, rfl⟩

theorem Counted.pop_of_empty (h : Counted start ring m m) :
    miRingPop ring = (.enodata, none, ring) := by
  rw [miRingPop, if_neg (not_not.mpr h.accepted), if_pos (h.empty_iff.mpr rfl)]

/-- A pop reads the slot of the `m`-th counter. -/
theorem Counted.pop (h : Counted start ring m n) (hlt : m < n) :
    ∃ ring', miRingPop ring = (.ok, some (ring.entries (ring.header.slot (counter start m))), ring') ∧
      Counted start ring' (m + 1) n ∧ ring'.header.capacity = ring.header.capacity ∧
      ring'.entries = ring.entries := by
  have hempty : ¬miRingEmpty ring = true := fun hc => hlt.ne' (h.empty_iff.mp hc)
  have hle : n ≤ m + 1 + ring.header.capacity.toNat := h.le_add.trans (by omega)
  rw [miRingPop, if_neg (not_not.mpr h.accepted), if_neg hempty, h.tail]
  exact ⟨_, rfl, ⟨h.accepted, h.head, (counter_succ start m).symm, hlt, hle⟩, rfl, rfl⟩

end Counted

theorem counted_of_empty {ring : MiRing α} (haccepted : ring.header.Accepted)
    (hempty : ring.header.head = ring.header.tail) : Counted ring.header.tail ring 0 0 :=
  ⟨haccepted, hempty.trans (counter_zero _).symm, (counter_zero _).symm, le_rfl, Nat.zero_le _⟩

/-! ## Powers of two -/

/-- The ring holds the items of the queue, of which the first was pushed as the
`m`-th, and the queue is bounded by the capacity. -/
def Represents {c : ℕ} (start : BitVec 64) (ring : MiRing α) (q : BoundedQueue α c) : Prop :=
  ring.header.capacity.toNat = c ∧ ring.header.PowerOfTwo ∧
    ∃ m, Counted start ring m (m + q.items.length) ∧
      Stores ring.header ring.entries start m q.items

section Represents

variable {c : ℕ} {start : BitVec 64} {ring : MiRing α} {q : BoundedQueue α c}

/-- A push is answered as by the queue. -/
theorem Represents.push (h : Represents start ring q) (entry : α) :
    (ring.call (.push entry)).1 = (queueCall q (.push entry)).1 ∧
      Represents start (ring.call (.push entry)).2 (queueCall q (.push entry)).2 := by
  obtain ⟨hcapacity, hpow, m, hcounted, hstores⟩ := h
  by_cases hroom : q.items.length < c
  · obtain ⟨ring', hpush, hcounted', hsame, hentries⟩ := hcounted.push (by omega) entry
    simp only [MiRing.call, queueCall, BoundedQueue.push_of_lt hroom, hpush]
    refine ⟨trivial, hsame ▸ hcapacity, hpow.congr hsame, m, ?_, ?_⟩
    · rw [List.length_append]
      exact hcounted'
    · rw [hentries]
      exact (hstores.append hpow (by omega) entry).congr hsame
  · have hfull : q.items.length = c := le_antisymm q.length_le (not_lt.mp hroom)
    simp only [MiRing.call, queueCall, BoundedQueue.push_of_full hfull,
      hcounted.push_of_full (by omega) entry]
    exact ⟨trivial, hcapacity, hpow, m, hcounted, hstores⟩

/-- So is a pop. -/
theorem Represents.pop (h : Represents start ring q) :
    (ring.call .pop).1 = (queueCall q .pop).1 ∧
      Represents start (ring.call .pop).2 (queueCall q .pop).2 := by
  obtain ⟨hcapacity, hpow, m, hcounted, hstores⟩ := h
  obtain ⟨items, hlen⟩ := q
  cases items with
  | nil =>
    simp only [MiRing.call, queueCall, BoundedQueue.pop, hcounted.pop_of_empty]
    exact ⟨rfl, hcapacity, hpow, m, hcounted, hstores⟩
  | cons entry items =>
    obtain ⟨ring', hpop, hcounted', hsame, hentries⟩ := hcounted.pop (by simp)
    have hfirst : ring.entries (ring.header.slot (counter start m)) = entry := hstores 0 entry rfl
    simp only [MiRing.call, queueCall, BoundedQueue.pop, hpop, hfirst]
    refine ⟨rfl, hsame ▸ hcapacity, hpow.congr hsame, m + 1, ?_, ?_⟩
    · rw [List.length_cons, Nat.add_comm items.length, ← Nat.add_assoc] at hcounted'
      exact hcounted'
    · rw [hentries]
      exact hstores.tail.congr hsame

end Represents

theorem simulates_queue {c : ℕ} (start : BitVec 64) :
    Machine.Simulates (Represents start : MiRing α → BoundedQueue α c → Prop) MiRing.call queueCall := by
  intro ring q call h
  cases call with
  | push entry => exact h.push entry
  | pop => exact h.pop

theorem isBoundedFifo_of_powerOfTwo {ring : MiRing α} (haccepted : ring.header.Accepted)
    (hempty : ring.header.head = ring.header.tail) (hpow : ring.header.PowerOfTwo) :
    IsBoundedFifo ring := by
  refine ⟨(simulates_queue ring.header.tail).sameAnswers ⟨rfl, hpow, 0, ?_, ?_⟩, fun _ _ => call_failed⟩
  · exact counted_of_empty haccepted hempty
  · intro i x hx
    simp [BoundedQueue.empty] at hx

/-! ## Other capacities -/

section Histories

variable {start : BitVec 64} {m n : ℕ}

/-- Pushes that fit raise the counter and keep the capacity. -/
theorem Counted.pushes {ring : MiRing α} (h : Counted start ring m n) (items : List α)
    (hroom : n + items.length ≤ m + ring.header.capacity.toNat) :
    Counted start (Machine.after MiRing.call ring (items.map .push)) m (n + items.length) ∧
      (Machine.after MiRing.call ring (items.map .push)).header.capacity = ring.header.capacity := by
  induction items generalizing ring n with
  | nil => exact ⟨h, rfl⟩
  | cons entry items ih =>
    rw [List.length_cons] at hroom ⊢
    obtain ⟨ring', hpush, hcounted, hsame, -⟩ := h.push (by omega) entry
    have hnext : (ring.call (.push entry)).2 = ring' := by simp only [MiRing.call, hpush]
    rw [List.map_cons, Machine.after_cons, hnext]
    have hrest := ih hcounted (by rw [hsame]; omega)
    rw [hsame, Nat.add_right_comm] at hrest
    exact hrest

/-- Pops of entries that are there leave the slots alone. -/
theorem Counted.pops {ring : MiRing α} (h : Counted start ring m n) (k : ℕ) (hk : m + k ≤ n) :
    Counted start (Machine.after MiRing.call ring (List.replicate k .pop)) (m + k) n ∧
      (Machine.after MiRing.call ring (List.replicate k .pop)).header.capacity = ring.header.capacity ∧
      (Machine.after MiRing.call ring (List.replicate k .pop)).entries = ring.entries := by
  induction k generalizing ring m with
  | zero => exact ⟨h, rfl, rfl⟩
  | succ k ih =>
    obtain ⟨ring', hpop, hcounted, hsame, hentries⟩ := h.pop (by omega)
    have hnext : (ring.call .pop).2 = ring' := by simp only [MiRing.call, hpop]
    rw [List.replicate_succ, Machine.after_cons, hnext]
    have hrest := ih hcounted (by omega)
    rw [hsame, hentries, Nat.add_right_comm] at hrest
    exact hrest

variable {c : ℕ}

theorem queue_pushes {q : BoundedQueue α c} (items : List α)
    (hroom : q.items.length + items.length ≤ c) :
    (Machine.after queueCall q (items.map .push)).items = q.items ++ items := by
  induction items generalizing q with
  | nil => simp
  | cons entry items ih =>
    rw [List.length_cons] at hroom
    have hlt : q.items.length < c := by omega
    simp only [List.map_cons, Machine.after_cons, queueCall, BoundedQueue.push_of_lt hlt]
    rw [ih (by simp only [List.length_append, List.length_singleton]; omega)]
    simp

theorem queue_pops {q : BoundedQueue α c} (k : ℕ) :
    (Machine.after queueCall q (List.replicate k .pop)).items = q.items.drop k := by
  induction k generalizing q with
  | zero => rfl
  | succ k ih =>
    obtain ⟨items, hlen⟩ := q
    rw [List.replicate_succ, Machine.after_cons, ih]
    cases items <;> simp [queueCall, BoundedQueue.pop]

end Histories

/-- `j` pushes of `x` and one of `y`, then `i` pops. -/
def overwriteHistory (x y : α) (i j : ℕ) : List (RingCall α) :=
  (List.replicate j x).map .push ++ (.push y :: List.replicate i .pop)

/-- If the last push has the slot of the `i`-th entry, the next pop returns it. -/
theorem ring_overwriteHistory {ring : MiRing α} (haccepted : ring.header.Accepted)
    (hempty : ring.header.head = ring.header.tail) {i j : ℕ} (hij : i < j)
    (hj : j < ring.header.capacity.toNat)
    (hslot : ring.header.slot (counter ring.header.tail i) =
      ring.header.slot (counter ring.header.tail j)) (x y : α) :
    ((Machine.after MiRing.call ring (overwriteHistory x y i j)).call .pop).1 = (.ok, some y) := by
  obtain ⟨hfilled, hcap₁⟩ := (counted_of_empty haccepted hempty).pushes (List.replicate j x)
    (by rw [List.length_replicate]; omega)
  rw [List.length_replicate, zero_add] at hfilled
  rw [overwriteHistory, Machine.after_append]
  generalize Machine.after MiRing.call ring ((List.replicate j x).map .push) = ring₁ at *
  obtain ⟨ring₂, hpush, hlast, hcap₂, hentries₂⟩ := hfilled.push (by rw [hcap₁]; omega) y
  have hnext : (ring₁.call (.push y)).2 = ring₂ := by simp only [MiRing.call, hpush]
  rw [Machine.after_cons, hnext]
  obtain ⟨hpopped, hcap₃, hentries₃⟩ := hlast.pops i (by omega)
  rw [zero_add] at hpopped
  generalize Machine.after MiRing.call ring₂ (List.replicate i .pop) = ring₃ at *
  obtain ⟨ring₄, hpop, -⟩ := hpopped.pop (by omega)
  rw [hentries₃, hentries₂, MiRingHeader.slot_congr (hcap₃.trans hcap₂), MiRingHeader.slot_congr hcap₁,
    hslot, Function.update_self] at hpop
  simp only [MiRing.call, hpop]

/-- The queue returns the `i`-th item instead. -/
theorem queue_overwriteHistory {c i j : ℕ} (hij : i < j) (hj : j < c) (x y : α) :
    (queueCall (Machine.after queueCall (BoundedQueue.empty : BoundedQueue α c)
      (overwriteHistory x y i j)) .pop).1 = (.ok, some x) := by
  have hpushes : (.push y :: List.replicate i .pop : List (RingCall α)) =
      [y].map .push ++ List.replicate i .pop := rfl
  have hitems : (Machine.after queueCall (BoundedQueue.empty : BoundedQueue α c)
      (overwriteHistory x y i j)).items = (List.replicate j x ++ [y]).drop i := by
    rw [overwriteHistory, hpushes, ← List.append_assoc, ← List.map_append, Machine.after_append,
      queue_pops, queue_pushes]
    · rfl
    · simp only [BoundedQueue.empty, List.length_nil, List.length_append, List.length_replicate,
        List.length_singleton]
      omega
  have hhead : ((List.replicate j x ++ [y]).drop i).head? = some x := by
    rw [List.head?_drop, List.getElem?_append_left (by rw [List.length_replicate]; exact hij),
      List.getElem?_replicate, if_pos hij]
  simp only [queueCall, BoundedQueue.pop, hitems, hhead, Option.map_some]

/-- For another capacity a pop returns the entry of a later push. -/
theorem powerOfTwo_of_isBoundedFifo [Nontrivial α] {ring : MiRing α}
    (haccepted : ring.header.Accepted) (hempty : ring.header.head = ring.header.tail)
    (hfifo : IsBoundedFifo ring) : ring.header.PowerOfTwo := by
  by_contra hpow
  obtain ⟨x, y, hne⟩ := exists_pair_ne α
  have hc := haccepted.2.2
  obtain ⟨i, j, hij, hj, hslot⟩ := MaskedIndex.exists_collision (MiRingHeader.capacity_pos hc) hpow
    fun n => (counter ring.header.tail n).toNat
  rw [← MiRingHeader.slot_eq hc, ← MiRingHeader.slot_eq hc] at hslot
  have hanswer := hfifo.answers (overwriteHistory x y i j) .pop
  rw [ring_overwriteHistory haccepted hempty hij hj hslot, queue_overwriteHistory hij hj] at hanswer
  simp only [Prod.mk.injEq, Option.some.injEq] at hanswer
  exact hne hanswer.2.symm

/-- A ring that starts empty is a bounded queue exactly when its capacity is a
power of two. -/
theorem isBoundedFifo_iff [Nontrivial α] {ring : MiRing α} (haccepted : ring.header.Accepted)
    (hempty : ring.header.head = ring.header.tail) :
    IsBoundedFifo ring ↔ ∃ k, ring.header.capacity.toNat = 2 ^ k :=
  ⟨powerOfTwo_of_isBoundedFifo haccepted hempty, isBoundedFifo_of_powerOfTwo haccepted hempty⟩

/-- An empty ring whose counters are about to wrap around. -/
def wrappingRing : MiRing Bool where
  header := { (miRingInit ⟨⟨0, 0, 0, 0, 0, 0⟩, fun _ => false⟩).header with head := -1, tail := -1 }
  entries _ := false

theorem isBoundedFifo_iff_wrapping :
    IsBoundedFifo wrappingRing ↔ ∃ k, wrappingRing.header.capacity.toNat = 2 ^ k :=
  isBoundedFifo_iff (by decide) rfl

/-- An empty ring with three slots, of which the mask reaches two. -/
def ringOfThree : MiRing Bool where
  header := { wrappingRing.header with capacity := 3, head := 0, tail := 0 }
  entries _ := false

/-- The second of two pushes overwrites the first. -/
theorem capacity_three_overwrites :
    ¬∀ ring : MiRing Bool, ring.header.Accepted → ring.header.head = ring.header.tail →
      IsBoundedFifo ring := by
  intro h
  have hanswer := (h ringOfThree (by decide) rfl).answers [.push false, .push true] .pop
  revert hanswer
  decide

end MemoryIntentRing
