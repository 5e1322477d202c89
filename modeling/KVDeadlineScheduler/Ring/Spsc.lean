-- SUMMARY: One producer and one consumer on the ring: popped entries are a prefix of the pushed ones, and no slot is written while it is taken.
import KVDeadlineScheduler.Ring.Fifo
import KVDeadlineScheduler.Ring.Threads

/-!
# Safety of the ring with one producer and one consumer

The counters are `start` plus the numbers of entries pushed and popped. What a
thread knows from its loads may be out of date, but only on the safe side: the
producer's room and the consumer's entries can only grow while it is on its way.
The entries pending sit in the slots from the tail on, and the slot being written
lies past them and less than a full turn away from the tail.
-/

namespace MemoryIntentRing

namespace System

variable {ι β : Type} {s s' : System ι β} {start : BitVec 64} {pending : List (ι → β)}

/-! ## The invariant -/

/-- What the producer may rely on. -/
def ProducerInv (start : BitVec 64) (s : System ι β) : Prop :=
  match s.producer with
  | .idle | .called _ | .accepted _ => True
  | .loadedHead _ head => head = counter start s.pushed.length
  | .notFull _ => s.pushed.length < s.popped.length + s.ring.header.capacity.toNat
  | .copying entry head done =>
    head = counter start s.pushed.length ∧
      s.pushed.length < s.popped.length + s.ring.header.capacity.toNat ∧
      ∀ w ∈ done, s.ring.entries (s.ring.header.slot head) w = entry w

/-- What the consumer may rely on. -/
def ConsumerInv (start : BitVec 64) (s : System ι β) : Prop :=
  match s.consumer with
  | .idle | .called _ | .accepted _ => True
  | .loadedHead _ head =>
    ∃ n, head = counter start n ∧ s.popped.length ≤ n ∧ n ≤ s.pushed.length
  | .loadedTail _ tail => tail = counter start s.popped.length
  | .notEmpty _ => s.popped.length < s.pushed.length
  | .copying out tail done =>
    tail = counter start s.popped.length ∧ s.popped.length < s.pushed.length ∧
      ∀ w ∈ done, out w = s.ring.entries (s.ring.header.slot tail) w

structure Inv (start : BitVec 64) (s : System ι β) (pending : List (ι → β)) : Prop where
  powerOfTwo : s.ring.header.PowerOfTwo
  pushed_eq : s.pushed = s.popped ++ pending
  counted : Counted start s.ring s.popped.length s.pushed.length
  stores : Stores s.ring.header s.ring.entries start s.popped.length pending
  producer : ProducerInv start s
  consumer : ConsumerInv start s

theorem Inv.length_eq (h : Inv start s pending) :
    s.pushed.length = s.popped.length + pending.length := by
  rw [h.pushed_eq, List.length_append]

/-- The slot behind the last entry is not the slot of the first one. -/
theorem Inv.slot_ne (h : Inv start s pending) (hsome : s.popped.length < s.pushed.length)
    (hroom : s.pushed.length < s.popped.length + s.ring.header.capacity.toNat) :
    s.ring.header.slot (counter start s.popped.length) ≠
      s.ring.header.slot (counter start s.pushed.length) :=
  MiRingHeader.slot_counter_ne h.powerOfTwo hsome hroom

/-- The consumer's slot is the slot of the first entry pending. -/
theorem Inv.takenSlot_eq (h : Inv start s pending) {slot : ℕ} (htaken : s.takenSlot = some slot) :
    s.popped.length < s.pushed.length ∧
      slot = s.ring.header.slot (counter start s.popped.length) := by
  have hconsumer := h.consumer
  unfold ConsumerInv at hconsumer
  unfold takenSlot at htaken
  rw [h.counted.tail] at htaken
  split at htaken
  · rename_i hpc
    rw [hpc] at hconsumer
    exact ⟨hconsumer, (Option.some.inj htaken).symm⟩
  · rename_i hpc
    rw [hpc] at hconsumer
    exact ⟨hconsumer.2.1, (Option.some.inj htaken).symm⟩
  · cases htaken

/-- The producer's slot is the one behind the last entry pending. -/
theorem Inv.writtenSlot_eq (h : Inv start s pending) {a : Action ι β} {slot : ℕ}
    (hwritten : s.writtenSlot a = some slot) :
    s.pushed.length < s.popped.length + s.ring.header.capacity.toNat ∧
      slot = s.ring.header.slot (counter start s.pushed.length) := by
  have hproducer := h.producer
  unfold ProducerInv at hproducer
  unfold writtenSlot at hwritten
  split at hwritten
  · split at hwritten
    · rename_i hpc
      rw [hpc] at hproducer
      obtain ⟨rfl, hroom, -⟩ := hproducer
      exact ⟨hroom, (Option.some.inj hwritten).symm⟩
    · cases hwritten
  · cases hwritten

/-- No slot is written while the consumer takes its entry. -/
theorem Inv.writtenSlot_ne (h : Inv start s pending) {slot : ℕ} (htaken : s.takenSlot = some slot)
    (a : Action ι β) : s.writtenSlot a ≠ some slot := by
  intro hwritten
  obtain ⟨hsome, htail⟩ := h.takenSlot_eq htaken
  obtain ⟨hroom, hhead⟩ := h.writtenSlot_eq hwritten
  exact h.slot_ne hsome hroom (htail.symm.trans hhead)

theorem Inv.sub_le (h : Inv start s pending) :
    (s.ring.header.head - s.ring.header.tail).toNat ≤ s.ring.header.capacity.toNat := by
  rw [h.counted.head, h.counted.tail, toNat_counter_sub h.counted.le h.counted.lt_turn]
  have hle := h.counted.le_add
  omega

/-- The producer's knowledge outlives steps of the consumer. -/
theorem ProducerInv.frame (h : ProducerInv start s) (hpc : s'.producer = s.producer)
    (hcap : s'.ring.header.capacity = s.ring.header.capacity) (hpushed : s'.pushed = s.pushed)
    (hpopped : s.popped.length ≤ s'.popped.length) (hentries : s'.ring.entries = s.ring.entries) :
    ProducerInv start s' := by
  unfold ProducerInv at h ⊢
  rw [hpc, hcap, hpushed, hentries, MiRingHeader.slot_congr hcap]
  cases hcase : s.producer with
  | idle => trivial
  | called => trivial
  | accepted => trivial
  | loadedHead =>
    rw [hcase] at h
    exact h
  | notFull =>
    rw [hcase] at h
    exact Nat.lt_of_lt_of_le h (by omega)
  | copying =>
    rw [hcase] at h
    exact ⟨h.1, Nat.lt_of_lt_of_le h.2.1 (by omega), h.2.2⟩

/-- The consumer's knowledge outlives steps of the producer that leave the slot of
the first entry alone. -/
theorem ConsumerInv.frame (h : ConsumerInv start s) (hpc : s'.consumer = s.consumer)
    (hcap : s'.ring.header.capacity = s.ring.header.capacity) (hpopped : s'.popped = s.popped)
    (hpushed : s.pushed.length ≤ s'.pushed.length)
    (hentry : s.popped.length < s.pushed.length →
      s'.ring.entries (s.ring.header.slot (counter start s.popped.length)) =
        s.ring.entries (s.ring.header.slot (counter start s.popped.length))) :
    ConsumerInv start s' := by
  unfold ConsumerInv at h ⊢
  rw [hpc, hpopped, MiRingHeader.slot_congr hcap]
  cases hcase : s.consumer with
  | idle => trivial
  | called => trivial
  | accepted => trivial
  | loadedHead =>
    rw [hcase] at h
    obtain ⟨n, hn, hle, hle'⟩ := h
    exact ⟨n, hn, hle, hle'.trans hpushed⟩
  | loadedTail =>
    rw [hcase] at h
    exact h
  | notEmpty =>
    rw [hcase] at h
    exact Nat.lt_of_lt_of_le h hpushed
  | copying =>
    rw [hcase] at h
    obtain ⟨rfl, hlt, hdone⟩ := h
    refine ⟨rfl, Nat.lt_of_lt_of_le hlt hpushed, fun w hw => ?_⟩
    rw [hentry hlt]
    exact hdone w hw

theorem Inv.withProducer (h : Inv start s pending) {pc : ProducerPc ι β}
    (hpc : ProducerInv start { s with producer := pc }) : Inv start { s with producer := pc } pending :=
  ⟨h.powerOfTwo, h.pushed_eq, h.counted, h.stores, hpc, h.consumer⟩

theorem Inv.withConsumer (h : Inv start s pending) {pc : ConsumerPc ι β}
    (hpc : ConsumerInv start { s with consumer := pc }) : Inv start { s with consumer := pc } pending :=
  ⟨h.powerOfTwo, h.pushed_eq, h.counted, h.stores, h.producer, hpc⟩

/-! ## Steps of the producer -/

section Steps

variable [DecidableEq ι]

/-- The producer copies a word of its entry. -/
theorem Inv.copyWord (h : Inv start s pending) {entry : ι → β} {head : BitVec 64} {done : Finset ι}
    (hpc : s.producer = .copying entry head done) (word : ι) :
    Inv start
      { s with
        producer := .copying entry head (insert word done)
        ring := { s.ring with
          entries := Function.update s.ring.entries (s.ring.header.slot head)
            (Function.update (s.ring.entries (s.ring.header.slot head)) word (entry word)) } }
      pending := by
  have hproducer := h.producer
  unfold ProducerInv at hproducer
  rw [hpc] at hproducer
  obtain ⟨rfl, hroom, hdone⟩ := hproducer
  have hlen := h.length_eq
  refine ⟨h.powerOfTwo, h.pushed_eq, ?_, ?_, ⟨rfl, hroom, fun w hw => ?_⟩, ?_⟩
  · apply Counted.congr _ h.counted
    rfl
  · exact h.stores.update h.powerOfTwo hlen.ge hroom _
  · dsimp only
    rw [Function.update_self]
    rcases eq_or_ne w word with rfl | hne
    · rw [Function.update_self]
    · rw [Function.update_of_ne hne]
      exact hdone w (Finset.mem_of_mem_insert_of_ne hw hne)
  · refine h.consumer.frame rfl rfl rfl le_rfl fun hsome => ?_
    exact Function.update_of_ne (h.slot_ne hsome hroom) _ _

variable [Fintype ι]

omit [DecidableEq ι] in
/-- The producer publishes its entry. -/
theorem Inv.storeHead (h : Inv start s pending) {entry : ι → β} {head : BitVec 64}
    (hpc : s.producer = .copying entry head Finset.univ) :
    Inv start
      { s with
        producer := .idle
        ring := { s.ring with header := { s.ring.header with head := head + 1 } }
        pushed := s.pushed ++ [entry] }
      (pending ++ [entry]) := by
  have hproducer := h.producer
  unfold ProducerInv at hproducer
  rw [hpc] at hproducer
  obtain ⟨rfl, hroom, hdone⟩ := hproducer
  have hcopied : s.ring.entries (s.ring.header.slot (counter start s.pushed.length)) = entry :=
    funext fun w => hdone w (Finset.mem_univ w)
  refine ⟨h.powerOfTwo.congr rfl, ?_, ?_, ?_, trivial, ?_⟩
  · rw [h.pushed_eq, List.append_assoc]
  · rw [List.length_append]
    exact ⟨h.counted.accepted, (counter_succ start _).symm, h.counted.tail,
      Nat.le_succ_of_le h.counted.le, hroom⟩
  · rw [h.length_eq] at hcopied
    exact (h.stores.snoc hcopied).congr rfl
  · refine h.consumer.frame rfl rfl rfl ?_ fun _ => rfl
    rw [List.length_append]
    exact Nat.le_add_right _ _

theorem Inv.pushStep (h : Inv start s pending) {a : PushStep ι β} (hstep : s.pushStep a = .ok s') :
    ∃ pending', Inv start s' pending' := by
  have hproducer := h.producer
  unfold ProducerInv at hproducer
  unfold System.pushStep at hstep
  split at hstep
  · cases hstep
    exact ⟨pending, h.withProducer trivial⟩
  · cases hstep
    refine ⟨pending, h.withProducer ?_⟩
    split <;> trivial
  · cases hstep
    exact ⟨pending, h.withProducer h.counted.head⟩
  · -- the tail is loaded after the head, which only the producer moves
    rename_i entry head hpc
    cases hstep
    rw [hpc] at hproducer
    obtain rfl : head = counter start s.pushed.length := hproducer
    refine ⟨pending, h.withProducer ?_⟩
    split
    · trivial
    · rename_i hnotFull
      rw [← h.counted.head] at hnotFull
      exact Nat.lt_of_le_of_ne h.counted.le_add fun heq => hnotFull (h.counted.full_iff.mpr heq)
  · rename_i entry hpc
    cases hstep
    rw [hpc] at hproducer
    exact ⟨pending, h.withProducer ⟨h.counted.head, hproducer, fun w hw => absurd hw (Finset.notMem_empty w)⟩⟩
  · rename_i hpc
    cases hstep
    exact ⟨pending, h.copyWord hpc _⟩
  · rename_i hpc
    split at hstep
    · rename_i hdone
      subst hdone
      cases hstep
      exact ⟨_, h.storeHead hpc⟩
    · cases hstep
  · cases hstep

/-! ## Steps of the consumer -/

omit [Fintype ι] in
/-- The consumer copies a word of the first entry. -/
theorem Inv.takeWord (h : Inv start s pending) {out : ι → β} {tail : BitVec 64} {done : Finset ι}
    (hpc : s.consumer = .copying out tail done) (word : ι) :
    Inv start
      { s with
        consumer := .copying
          (Function.update out word (s.ring.entries (s.ring.header.slot tail) word)) tail
          (insert word done) }
      pending := by
  have hconsumer := h.consumer
  unfold ConsumerInv at hconsumer
  rw [hpc] at hconsumer
  obtain ⟨rfl, hsome, hdone⟩ := hconsumer
  refine h.withConsumer ⟨rfl, hsome, fun w hw => ?_⟩
  rcases eq_or_ne w word with rfl | hne
  · rw [Function.update_self]
  · rw [Function.update_of_ne hne]
    exact hdone w (Finset.mem_of_mem_insert_of_ne hw hne)

omit [DecidableEq ι] in
/-- The consumer takes the first entry off the ring. -/
theorem Inv.storeTail (h : Inv start s pending) {out : ι → β} {tail : BitVec 64}
    (hpc : s.consumer = .copying out tail Finset.univ) :
    Inv start
      { s with
        consumer := .idle
        ring := { s.ring with header := { s.ring.header with tail := tail + 1 } }
        popped := s.popped ++ [out] }
      pending.tail := by
  have hconsumer := h.consumer
  unfold ConsumerInv at hconsumer
  rw [hpc] at hconsumer
  obtain ⟨rfl, hsome, hdone⟩ := hconsumer
  have hlen := h.length_eq
  obtain ⟨entry, rest, rfl⟩ : ∃ entry rest, pending = entry :: rest := by
    cases pending with
    | nil => simp only [List.length_nil] at hlen; omega
    | cons entry rest => exact ⟨entry, rest, rfl⟩
  have hfirst : out = entry := by
    rw [← h.stores 0 entry rfl]
    exact funext fun w => hdone w (Finset.mem_univ w)
  subst hfirst
  refine ⟨h.powerOfTwo.congr rfl, ?_, ?_, ?_, ?_, trivial⟩
  · rw [h.pushed_eq, List.tail_cons, List.append_assoc, List.singleton_append]
  · have hle : s.pushed.length ≤ s.popped.length + 1 + s.ring.header.capacity.toNat :=
      h.counted.le_add.trans (by omega)
    rw [List.length_append]
    exact ⟨h.counted.accepted, h.counted.head, (counter_succ start _).symm, hsome, hle⟩
  · rw [List.length_append]
    exact h.stores.tail.congr rfl
  · refine h.producer.frame rfl rfl rfl ?_ rfl
    rw [List.length_append]
    exact Nat.le_add_right _ _

theorem Inv.popStep (h : Inv start s pending) {a : PopStep ι β} (hstep : s.popStep a = .ok s') :
    ∃ pending', Inv start s' pending' := by
  have hconsumer := h.consumer
  unfold ConsumerInv at hconsumer
  unfold System.popStep at hstep
  split at hstep
  · cases hstep
    exact ⟨pending, h.withConsumer trivial⟩
  · cases hstep
    refine ⟨pending, h.withConsumer ?_⟩
    split <;> trivial
  · cases hstep
    exact ⟨pending, h.withConsumer ⟨_, h.counted.head, h.counted.le, le_rfl⟩⟩
  · cases hstep
    exact ⟨pending, h.withConsumer h.counted.tail⟩
  · -- the head is out of date at most, and the tail is the consumer's own
    rename_i out head hpc
    cases hstep
    rw [hpc] at hconsumer
    obtain ⟨n, rfl, hle, hle'⟩ := hconsumer
    refine ⟨pending, h.withConsumer ?_⟩
    split
    · trivial
    · rename_i hne
      rw [h.counted.tail] at hne
      have hn : n ≠ s.popped.length := by
        rintro rfl
        exact hne rfl
      exact Nat.lt_of_lt_of_le (Nat.lt_of_le_of_ne hle hn.symm) hle'
  · rename_i out tail hpc
    cases hstep
    rw [hpc] at hconsumer
    obtain rfl : tail = counter start s.popped.length := hconsumer
    refine ⟨pending, h.withConsumer ?_⟩
    split
    · trivial
    · rename_i hne
      rw [h.counted.head] at hne
      refine Nat.lt_of_le_of_ne h.counted.le fun heq => hne ?_
      rw [heq]
  · rename_i out hpc
    cases hstep
    rw [hpc] at hconsumer
    exact ⟨pending, h.withConsumer ⟨h.counted.tail, hconsumer, fun w hw => absurd hw (Finset.notMem_empty w)⟩⟩
  · rename_i hpc
    cases hstep
    exact ⟨pending, h.takeWord hpc _⟩
  · rename_i hpc
    split at hstep
    · rename_i hdone
      subst hdone
      cases hstep
      exact ⟨_, h.storeTail hpc⟩
    · cases hstep
  · cases hstep

/-! ## Runs -/

omit [DecidableEq ι] [Fintype ι] in
/-- The observer writes nothing. -/
theorem fullStep_ok {a : FullStep} (hstep : s.fullStep a = .ok s') :
    ∃ pc, s' = { s with observer := pc } := by
  unfold fullStep at hstep
  split at hstep
  · exact ⟨_, (Except.ok.inj hstep).symm⟩
  · cases hstep
  · exact ⟨_, (Except.ok.inj hstep).symm⟩
  · cases hstep

theorem Inv.step (h : Inv start s pending) {a : Action ι β} (hstep : s.step a = .ok s') :
    ∃ pending', Inv start s' pending' := by
  cases a with
  | producer a => exact h.pushStep hstep
  | consumer a => exact h.popStep hstep
  | observer a =>
    obtain ⟨pc, rfl⟩ := fullStep_ok hstep
    exact ⟨pending, h.powerOfTwo, h.pushed_eq, h.counted, h.stores, h.producer, h.consumer⟩

omit [DecidableEq ι] [Fintype ι] in
theorem inv_initial (ring : MiRing (ι → β)) (start : BitVec 64) : Inv start (initial ring start) [] where
  powerOfTwo := ⟨12, rfl⟩
  pushed_eq := rfl
  counted :=
    ⟨miRingInit_accepted ring, (counter_zero start).symm, (counter_zero start).symm, le_rfl,
      Nat.zero_le _⟩
  stores i x hx := by simp at hx
  producer := trivial
  consumer := trivial

theorem run_inv {ring : MiRing (ι → β)} {actions : List (Action ι β)}
    (h : Replay.run System.step (initial ring start) actions = .ok s) : ∃ pending, Inv start s pending :=
  Replay.run_always (P := fun s => ∃ pending, Inv start s pending)
    (fun _ _ _ ⟨_, hinv⟩ hstep => hinv.step hstep) ⟨[], inv_initial ring start⟩ h

/-- Whatever the interleaving, the popped entries are the first ones pushed, no
slot is written while its entry is taken, and the counters stay within the
capacity of each other. -/
theorem spsc_fifo (ring : MiRing (ι → β)) (start : BitVec 64) (actions : List (Action ι β))
    (s : System ι β) (h : Replay.run System.step (initial ring start) actions = .ok s) :
    s.popped <+: s.pushed ∧
      (∀ slot, s.takenSlot = some slot → ∀ a, s.writtenSlot a ≠ some slot) ∧
      (s.ring.header.head - s.ring.header.tail).toNat ≤ s.ring.header.capacity.toNat := by
  obtain ⟨pending, hinv⟩ := run_inv h
  exact ⟨⟨pending, hinv.pushed_eq.symm⟩, fun _ htaken a => hinv.writtenSlot_ne htaken a, hinv.sub_le⟩

/-- An entry is pushed across the wrap of the head, and the consumer is on its way
to it. -/
def wrappingActions : List (Action Unit Bool) :=
  [.consumer (.call fun _ => false), .producer (.call fun _ => true), .producer .checkHeader,
    .consumer .checkHeader, .producer .loadHead, .producer .loadTail, .consumer .loadTail,
    .producer .reloadHead, .producer (.copyWord ()), .producer .storeHead, .consumer .loadHead,
    .consumer .reloadTail]

theorem spsc_fifo_wrapping :
    ∃ s : System Unit Bool, s.takenSlot = some 4095 ∧
      (s.popped <+: s.pushed ∧
        (∀ slot, s.takenSlot = some slot → ∀ a, s.writtenSlot a ≠ some slot) ∧
        (s.ring.header.head - s.ring.header.tail).toNat ≤ s.ring.header.capacity.toNat) := by
  obtain ⟨s, hs, htaken⟩ := Replay.exists_of_check
    (x := Replay.run System.step (initial ⟨⟨0, 0, 0, 0, 0, 0⟩, fun _ _ => false⟩ (-1)) wrappingActions)
    (p := fun s => s.takenSlot = some 4095) (by decide)
  exact ⟨s, of_decide_eq_true htaken, spsc_fifo _ _ _ _ hs⟩

/-! ## What is written -/

/-- The consumer writes no slot. -/
theorem popStep_entries {a : PopStep ι β} (hstep : s.popStep a = .ok s') :
    s'.ring.entries = s.ring.entries := by
  unfold System.popStep at hstep
  split at hstep
  iterate 8
    cases hstep
    rfl
  · split at hstep
    · cases hstep
      rfl
    · cases hstep
  · cases hstep

/-- A step writes the slot that `writtenSlot` names, if any, and no other. -/
theorem step_entries {a : Action ι β} (hstep : s.step a = .ok s') {slot : ℕ}
    (hne : s.writtenSlot a ≠ some slot) : s'.ring.entries slot = s.ring.entries slot := by
  cases a with
  | consumer a => rw [popStep_entries hstep]
  | observer a =>
    obtain ⟨pc, rfl⟩ := fullStep_ok hstep
    rfl
  | producer a =>
    change s.pushStep a = .ok s' at hstep
    unfold System.pushStep at hstep
    split at hstep
    iterate 5
      cases hstep
      rfl
    · rename_i entry head done word hpc
      cases hstep
      refine Function.update_of_ne ?_ _ _
      rintro rfl
      exact hne (by simp only [writtenSlot, hpc])
    · split at hstep
      · cases hstep
        rfl
      · cases hstep
    · cases hstep

end Steps

end System

end MemoryIntentRing
