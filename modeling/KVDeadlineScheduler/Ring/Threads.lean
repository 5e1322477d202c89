-- SUMMARY: The ring shared by a producer, a consumer and an observer thread, each taking one atomic step at a time.
import Mathlib.Data.Fintype.Basic
import KVDeadlineScheduler.Library.Replay
import KVDeadlineScheduler.Ring.Header

/-!
# Threads on a shared ring

One thread calls `mi_ring_push` repeatedly, one calls `mi_ring_pop`, and one calls
`mi_ring_full`. Loads and stores are sequentially consistent. An entry is a vector
of words, which the assignment of the struct copies one at a time in any order.
Every step of a thread does at most one load or store of a counter or of a word.
The other header fields are written by no thread, so a step may read them along
with it. `pushed` and `popped` record what the calls that succeeded have moved.
-/

namespace MemoryIntentRing

variable {ι β : Type}

/-! ## Program counters -/

/-- Where the producer is in `mi_ring_push`. -/
inductive ProducerPc (ι β : Type) where
  | idle
  | called (entry : ι → β)
  | accepted (entry : ι → β)
  | loadedHead (entry : ι → β) (head : BitVec 64)
  | notFull (entry : ι → β)
  | copying (entry : ι → β) (head : BitVec 64) (done : Finset ι)

/-- Where the consumer is in `mi_ring_pop`, with the contents of its output. -/
inductive ConsumerPc (ι β : Type) where
  | idle
  | called (out : ι → β)
  | accepted (out : ι → β)
  | loadedHead (out : ι → β) (head : BitVec 64)
  | loadedTail (out : ι → β) (tail : BitVec 64)
  | notEmpty (out : ι → β)
  | copying (out : ι → β) (tail : BitVec 64) (done : Finset ι)

/-- Where the observer is in `mi_ring_full`, with the result of its last call. -/
inductive ObserverPc where
  | idle
  | loadedHead (head : BitVec 64)
  | returned (full : Bool)
  deriving DecidableEq

structure System (ι β : Type) where
  ring : MiRing (ι → β)
  producer : ProducerPc ι β := .idle
  consumer : ConsumerPc ι β := .idle
  observer : ObserverPc := .idle
  pushed : List (ι → β) := []
  popped : List (ι → β) := []

/-! ## Steps -/

inductive PushStep (ι β : Type) where
  | call (entry : ι → β)
  | checkHeader
  | loadHead
  | loadTail
  | reloadHead
  | copyWord (word : ι)
  | storeHead

inductive PopStep (ι β : Type) where
  | call (out : ι → β)
  | checkHeader
  | loadHead
  | loadTail
  | reloadTail
  | copyWord (word : ι)
  | storeTail

inductive FullStep where
  | loadHead
  | loadTail
  deriving DecidableEq

inductive Action (ι β : Type) where
  | producer (step : PushStep ι β)
  | consumer (step : PopStep ι β)
  | observer (step : FullStep)

/-- The step is not the next one of its thread. -/
inductive Blocked where
  | blocked
  deriving DecidableEq

namespace System

variable [DecidableEq ι] [Fintype ι]

def pushStep (s : System ι β) (step : PushStep ι β) : Except Blocked (System ι β) :=
  match s.producer, step with
  | .idle, .call entry => .ok { s with producer := .called entry }
  | .called entry, .checkHeader =>
    .ok { s with producer := if s.ring.header.Accepted then .accepted entry else .idle }
  | .accepted entry, .loadHead => .ok { s with producer := .loadedHead entry s.ring.header.head }
  | .loadedHead entry head, .loadTail =>
    .ok { s with
      producer := if s.ring.header.fullAt head s.ring.header.tail then .idle else .notFull entry }
  | .notFull entry, .reloadHead => .ok { s with producer := .copying entry s.ring.header.head ∅ }
  | .copying entry head done, .copyWord word =>
    let slot := s.ring.header.slot head
    .ok { s with
      producer := .copying entry head (insert word done)
      ring := { s.ring with
        entries := Function.update s.ring.entries slot
          (Function.update (s.ring.entries slot) word (entry word)) } }
  | .copying entry head done, .storeHead =>
    if done = Finset.univ then
      .ok { s with
        producer := .idle
        ring := { s.ring with header := { s.ring.header with head := head + 1 } }
        pushed := s.pushed ++ [entry] }
    else
      .error .blocked
  | _, _ => .error .blocked

/-- The operands of the comparison in `mi_ring_empty` may be loaded in either
order. -/
def popStep (s : System ι β) (step : PopStep ι β) : Except Blocked (System ι β) :=
  match s.consumer, step with
  | .idle, .call out => .ok { s with consumer := .called out }
  | .called out, .checkHeader =>
    .ok { s with consumer := if s.ring.header.Accepted then .accepted out else .idle }
  | .accepted out, .loadHead => .ok { s with consumer := .loadedHead out s.ring.header.head }
  | .accepted out, .loadTail => .ok { s with consumer := .loadedTail out s.ring.header.tail }
  | .loadedHead out head, .loadTail =>
    .ok { s with consumer := if head = s.ring.header.tail then .idle else .notEmpty out }
  | .loadedTail out tail, .loadHead =>
    .ok { s with consumer := if s.ring.header.head = tail then .idle else .notEmpty out }
  | .notEmpty out, .reloadTail => .ok { s with consumer := .copying out s.ring.header.tail ∅ }
  | .copying out tail done, .copyWord word =>
    .ok { s with
      consumer := .copying
        (Function.update out word (s.ring.entries (s.ring.header.slot tail) word)) tail
        (insert word done) }
  | .copying out tail done, .storeTail =>
    if done = Finset.univ then
      .ok { s with
        consumer := .idle
        ring := { s.ring with header := { s.ring.header with tail := tail + 1 } }
        popped := s.popped ++ [out] }
    else
      .error .blocked
  | _, _ => .error .blocked

def fullStep (s : System ι β) (step : FullStep) : Except Blocked (System ι β) :=
  match s.observer, step with
  | .loadedHead head, .loadTail =>
    .ok { s with observer := .returned (s.ring.header.fullAt head s.ring.header.tail) }
  | .loadedHead _, .loadHead => .error .blocked
  | _, .loadHead => .ok { s with observer := .loadedHead s.ring.header.head }
  | _, .loadTail => .error .blocked

def step (s : System ι β) : Action ι β → Except Blocked (System ι β)
  | .producer a => s.pushStep a
  | .consumer a => s.popStep a
  | .observer a => s.fullStep a

/-- No thread has started, on a ring that `mi_ring_init` has set up and whose
counters have run to `start`. -/
def initial (ring : MiRing (ι → β)) (start : BitVec 64) : System ι β where
  ring :=
    { miRingInit ring with header := { (miRingInit ring).header with head := start, tail := start } }

/-! ## Slots in use -/

/-- The slot whose entry the consumer is about to take: it has passed the check
for an empty ring, and the store of the tail is still to come. -/
def takenSlot (s : System ι β) : Option ℕ :=
  match s.consumer with
  | .notEmpty _ | .copying .. => some (s.ring.header.slot s.ring.header.tail)
  | _ => none

/-- The slot that the action writes a word of. -/
def writtenSlot (s : System ι β) : Action ι β → Option ℕ
  | .producer (.copyWord _) =>
    match s.producer with
    | .copying _ head _ => some (s.ring.header.slot head)
    | _ => none
  | _ => none

/-- The number of entries the ring holds. -/
def held (s : System ι β) : ℕ := s.pushed.length - s.popped.length

/-! ## Calls that run alone -/

variable {s : System ι β}

/-- A loop over the words copies them from the entry. -/
theorem run_copyWords {entry : ι → β} {head : BitVec 64} {done : Finset ι} (words : List ι)
    (hpc : s.producer = .copying entry head done) :
    Replay.run pushStep s (words.map .copyWord) = .ok { s with
      producer := .copying entry head (done ∪ words.toFinset)
      ring := { s.ring with
        entries := Function.update s.ring.entries (s.ring.header.slot head) fun w =>
          if w ∈ words then entry w else s.ring.entries (s.ring.header.slot head) w } } := by
  induction words generalizing s done with
  | nil =>
    cases s
    cases hpc
    simp
  | cons word words ih =>
    obtain ⟨ring, _, consumer, observer, pushed, popped⟩ := s
    cases hpc
    refine Replay.run_cons_ok.mpr ⟨_, rfl, ?_⟩
    rw [ih rfl]
    dsimp only
    have hcopied : (fun w => if w ∈ words then entry w else
        Function.update (ring.entries (ring.header.slot head)) word (entry word) w) =
        fun w => if w ∈ word :: words then entry w else ring.entries (ring.header.slot head) w := by
      funext w
      by_cases hw : w = word
      · simp [hw]
      · simp [hw]
    rw [Function.update_self, Function.update_idem, hcopied, List.toFinset_cons, Finset.insert_union,
      Finset.union_insert]

/-- A loop over the words copies them to the output. -/
theorem run_takeWords {out : ι → β} {tail : BitVec 64} {done : Finset ι} (words : List ι)
    (hpc : s.consumer = .copying out tail done) :
    Replay.run popStep s (words.map .copyWord) = .ok { s with
      consumer := .copying
        (fun w => if w ∈ words then s.ring.entries (s.ring.header.slot tail) w else out w) tail
        (done ∪ words.toFinset) } := by
  induction words generalizing s out done with
  | nil =>
    cases s
    cases hpc
    simp
  | cons word words ih =>
    obtain ⟨ring, producer, _, observer, pushed, popped⟩ := s
    cases hpc
    refine Replay.run_cons_ok.mpr ⟨_, rfl, ?_⟩
    rw [ih rfl]
    dsimp only
    have hcopied : (fun w => if w ∈ words then ring.entries (ring.header.slot tail) w else
        Function.update out word (ring.entries (ring.header.slot tail) word) w) =
        fun w => if w ∈ word :: words then ring.entries (ring.header.slot tail) w else out w := by
      funext w
      by_cases hw : w = word
      · simp [hw]
      · simp [hw]
    rw [hcopied, List.toFinset_cons, Finset.insert_union, Finset.union_insert]

/-- A call of the producer that no other thread interrupts is `mi_ring_push`. -/
theorem push_alone (hpc : s.producer = .idle) (entry : ι → β) :
    ∃ steps, Replay.run pushStep s (.call entry :: steps) = .ok { s with
      ring := (miRingPush s.ring entry).2
      pushed := s.pushed ++ if (miRingPush s.ring entry).1 = .ok then [entry] else [] } := by
  obtain ⟨ring, _, consumer, observer, pushed, popped⟩ := s
  cases hpc
  have hcall (steps : List (PushStep ι β)) {s'} (hsteps : Replay.run pushStep
      ⟨ring, if ring.header.Accepted then .accepted entry else .idle, consumer, observer, pushed, popped⟩
      steps = .ok s') :
      Replay.run pushStep ⟨ring, .idle, consumer, observer, pushed, popped⟩
        (.call entry :: .checkHeader :: steps) = .ok s' :=
    Replay.run_cons_ok.mpr ⟨_, rfl, Replay.run_cons_ok.mpr ⟨_, rfl, hsteps⟩⟩
  unfold miRingPush
  by_cases haccepted : ring.header.Accepted
  · rw [if_pos haccepted] at hcall
    by_cases hfull : miRingFull ring = true
    · refine ⟨[.checkHeader, .loadHead, .loadTail], hcall _ ?_⟩
      have hload : ring.header.fullAt ring.header.head ring.header.tail = true := hfull
      refine Replay.run_cons_ok.mpr ⟨_, rfl, Replay.run_cons_ok.mpr ⟨_, rfl, ?_⟩⟩
      simp [haccepted, hfull, hload]
    · have hload : ring.header.fullAt ring.header.head ring.header.tail = false :=
        Bool.eq_false_iff.mpr hfull
      refine ⟨.checkHeader :: .loadHead :: .loadTail :: .reloadHead ::
        (Finset.univ.toList.map .copyWord ++ [.storeHead]), hcall _ ?_⟩
      refine Replay.run_cons_ok.mpr ⟨_, rfl, Replay.run_cons_ok.mpr ⟨_, rfl, ?_⟩⟩
      dsimp only
      rw [hload]
      refine Replay.run_cons_ok.mpr ⟨_, rfl, ?_⟩
      refine Replay.run_append_ok.mpr ⟨_, run_copyWords _ rfl, ?_⟩
      simp [Replay.run, pushStep, haccepted, hfull, bind, Except.bind, pure, Except.pure]
  · refine ⟨[.checkHeader], hcall _ ?_⟩
    simp [haccepted]

/-- A call of the consumer that no other thread interrupts is `mi_ring_pop`. -/
theorem pop_alone (hpc : s.consumer = .idle) (out : ι → β) :
    ∃ steps, Replay.run popStep s (.call out :: steps) = .ok { s with
      ring := (miRingPop s.ring).2.2
      popped := s.popped ++ (miRingPop s.ring).2.1.toList } := by
  obtain ⟨ring, producer, _, observer, pushed, popped⟩ := s
  cases hpc
  have hcall (steps : List (PopStep ι β)) {s'} (hsteps : Replay.run popStep
      ⟨ring, producer, if ring.header.Accepted then .accepted out else .idle, observer, pushed, popped⟩
      steps = .ok s') :
      Replay.run popStep ⟨ring, producer, .idle, observer, pushed, popped⟩
        (.call out :: .checkHeader :: steps) = .ok s' :=
    Replay.run_cons_ok.mpr ⟨_, rfl, Replay.run_cons_ok.mpr ⟨_, rfl, hsteps⟩⟩
  unfold miRingPop
  by_cases haccepted : ring.header.Accepted
  · rw [if_pos haccepted] at hcall
    by_cases hempty : miRingEmpty ring = true
    · refine ⟨[.checkHeader, .loadHead, .loadTail], hcall _ ?_⟩
      have hload : ring.header.head = ring.header.tail := of_decide_eq_true hempty
      refine Replay.run_cons_ok.mpr ⟨_, rfl, Replay.run_cons_ok.mpr ⟨_, rfl, ?_⟩⟩
      simp [haccepted, hempty, hload]
    · have hload : ring.header.head ≠ ring.header.tail := fun heq => hempty (decide_eq_true heq)
      refine ⟨.checkHeader :: .loadHead :: .loadTail :: .reloadTail ::
        (Finset.univ.toList.map .copyWord ++ [.storeTail]), hcall _ ?_⟩
      refine Replay.run_cons_ok.mpr ⟨_, rfl, Replay.run_cons_ok.mpr ⟨_, rfl, ?_⟩⟩
      dsimp only
      rw [if_neg hload]
      refine Replay.run_cons_ok.mpr ⟨_, rfl, ?_⟩
      refine Replay.run_append_ok.mpr ⟨_, run_takeWords _ rfl, ?_⟩
      simp [Replay.run, popStep, haccepted, hempty, bind, Except.bind, pure, Except.pure]
  · refine ⟨[.checkHeader], hcall _ ?_⟩
    simp [haccepted]

omit [DecidableEq ι] [Fintype ι] in
/-- A call of the observer that no other thread interrupts is `mi_ring_full`. -/
theorem full_alone (hpc : s.observer = .idle) :
    Replay.run fullStep s [.loadHead, .loadTail] =
      .ok { s with observer := .returned (miRingFull s.ring) } := by
  obtain ⟨ring, producer, consumer, _, pushed, popped⟩ := s
  cases hpc
  rfl

end System

end MemoryIntentRing
