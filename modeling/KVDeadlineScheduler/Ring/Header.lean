-- SUMMARY: The shared ring buffer of memory-intent entries: its header, and the calls that initialise, test, push and pop.
import Mathlib.Data.BitVec
import KVDeadlineScheduler.Library.MaskedIndex

/-!
# The memory-intent ring

A ring is a header followed by entry slots. The counters `head` and `tail` run
freely modulo 2^64, and a slot is a counter masked with `capacity - 1`. The calls
act on rings, entries and outputs rather than on pointers to them, so the null
checks of the source have no counterpart.
-/

namespace MemoryIntentRing

structure MiRingHeader where
  magic : BitVec 32
  version : BitVec 32
  capacity : BitVec 32
  pad : BitVec 32
  head : BitVec 64
  tail : BitVec 64
  deriving DecidableEq

def miRingMagic : BitVec 32 := 0x4B564D49

def miRingVersion : BitVec 32 := 1

def miRingCapacity : BitVec 32 := 4096

/-- A header and the slots behind it, of which the first `capacity` exist. -/
structure MiRing (α : Type) where
  header : MiRingHeader
  entries : ℕ → α

/-- The return codes of the calls. -/
inductive Errno where
  | ok
  | eproto
  | enospc
  | enodata
  deriving DecidableEq, Repr

namespace MiRingHeader

/-- The check each call makes on the header. -/
def Accepted (h : MiRingHeader) : Prop :=
  h.magic = miRingMagic ∧ h.version = miRingVersion ∧ h.capacity ≠ 0

instance (h : MiRingHeader) : Decidable h.Accepted := inferInstanceAs (Decidable (_ ∧ _))

/-- `counter & (capacity - 1)`. -/
def slot (h : MiRingHeader) (counter : BitVec 64) : ℕ :=
  (counter &&& (h.capacity - 1).setWidth 64).toNat

/-- `head - tail >= capacity`, for counters that were loaded before. -/
def fullAt (h : MiRingHeader) (head tail : BitVec 64) : Bool :=
  h.capacity.setWidth 64 ≤ head - tail

end MiRingHeader

variable {α : Type}

/-! ## The calls -/

def miRingInit (ring : MiRing α) : MiRing α :=
  { ring with
    header :=
      { magic := miRingMagic
        version := miRingVersion
        capacity := miRingCapacity
        pad := 0
        head := 0
        tail := 0 } }

def miRingFull (ring : MiRing α) : Bool := ring.header.fullAt ring.header.head ring.header.tail

def miRingEmpty (ring : MiRing α) : Bool := ring.header.head = ring.header.tail

def miRingPush (ring : MiRing α) (entry : α) : Errno × MiRing α :=
  if ¬ring.header.Accepted then
    (.eproto, ring)
  else if miRingFull ring then
    (.enospc, ring)
  else
    let head := ring.header.head
    (.ok,
      { entries := Function.update ring.entries (ring.header.slot head) entry
        header := { ring.header with head := head + 1 } })

/-- The second component is what the call writes to its output. -/
def miRingPop (ring : MiRing α) : Errno × Option α × MiRing α :=
  if ¬ring.header.Accepted then
    (.eproto, none, ring)
  else if miRingEmpty ring then
    (.enodata, none, ring)
  else
    let tail := ring.header.tail
    (.ok, some (ring.entries (ring.header.slot tail)),
      { ring with header := { ring.header with tail := tail + 1 } })

theorem miRingInit_accepted (ring : MiRing α) : (miRingInit ring).header.Accepted :=
  ⟨rfl, rfl, show miRingCapacity ≠ 0 by decide⟩

/-! ## Counters and slots -/

/-- The counter `n` steps after `start`. -/
def counter (start : BitVec 64) (n : ℕ) : BitVec 64 := start + BitVec.ofNat 64 n

@[simp] theorem counter_zero (start : BitVec 64) : counter start 0 = start := by
  simp [counter]

theorem counter_succ (start : BitVec 64) (n : ℕ) : counter start (n + 1) = counter start n + 1 := by
  simp [counter, BitVec.ofNat_add, BitVec.add_assoc]

theorem toNat_counter (start : BitVec 64) (n : ℕ) :
    (counter start n).toNat = (start.toNat + n) % 2 ^ 64 := by
  simp [counter]

/-- Counters less than a full turn apart differ by their distance. -/
theorem toNat_counter_sub {start : BitVec 64} {m n : ℕ} (hmn : m ≤ n) (hn : n < m + 2 ^ 64) :
    (counter start n - counter start m).toNat = n - m := by
  rw [BitVec.toNat_sub, toNat_counter, toNat_counter]
  omega

theorem counter_inj {start : BitVec 64} {m n : ℕ} (hmn : m ≤ n) (hn : n < m + 2 ^ 64) :
    counter start n = counter start m ↔ n = m := by
  refine ⟨fun heq => ?_, fun heq => by rw [heq]⟩
  have hsub : (counter start n - counter start m).toNat = n - m := toNat_counter_sub hmn hn
  rw [heq, BitVec.sub_self, BitVec.toNat_zero] at hsub
  omega

namespace MiRingHeader

variable {h : MiRingHeader}

/-- Slots are read from the capacity alone. -/
theorem slot_congr {h' : MiRingHeader} (hc : h'.capacity = h.capacity) : h'.slot = h.slot := by
  funext x
  rw [slot, slot, hc]

theorem capacity_pos (hc : h.capacity ≠ 0) : 0 < h.capacity.toNat := by
  apply Nat.pos_of_ne_zero
  intro hzero
  exact hc (BitVec.eq_of_toNat_eq hzero)

theorem slot_eq (hc : h.capacity ≠ 0) (x : BitVec 64) :
    h.slot x = x.toNat &&& (h.capacity.toNat - 1) := by
  have hpos := capacity_pos hc
  have hpred : (h.capacity - 1).toNat = h.capacity.toNat - 1 :=
    BitVec.toNat_sub_of_le (BitVec.le_def.mpr hpos)
  have hlt := h.capacity.isLt
  rw [slot, BitVec.toNat_and, BitVec.toNat_setWidth, hpred, Nat.mod_eq_of_lt (by omega)]

/-- The slots that are accessed exist. -/
theorem slot_lt (hc : h.capacity ≠ 0) (x : BitVec 64) : h.slot x < h.capacity.toNat := by
  rw [slot_eq hc]
  exact MaskedIndex.and_pred_lt (capacity_pos hc) _

theorem fullAt_iff (head tail : BitVec 64) :
    h.fullAt head tail = true ↔ h.capacity.toNat ≤ (head - tail).toNat := by
  have hlt := h.capacity.isLt
  rw [fullAt, decide_eq_true_iff, BitVec.le_def, BitVec.toNat_setWidth, Nat.mod_eq_of_lt (by omega)]

/-- The capacity is a power of two. -/
def PowerOfTwo (h : MiRingHeader) : Prop := ∃ k, h.capacity.toNat = 2 ^ k

theorem PowerOfTwo.congr {h' : MiRingHeader} (hc : h'.capacity = h.capacity) (hpow : h.PowerOfTwo) :
    h'.PowerOfTwo := by
  obtain ⟨k, hk⟩ := hpow
  exact ⟨k, by rw [hc, hk]⟩

theorem slot_counter_ne (hpow : h.PowerOfTwo) {start : BitVec 64} {m n : ℕ} (hmn : m < n)
    (hn : n < m + h.capacity.toNat) : h.slot (counter start m) ≠ h.slot (counter start n) := by
  obtain ⟨k, hk⟩ := hpow
  have hc : h.capacity ≠ 0 := by
    intro hzero
    rw [hzero] at hk
    exact absurd hk.symm (Nat.two_pow_pos k).ne'
  have hwidth : k ≤ 64 := by
    have hlt := h.capacity.isLt
    rw [hk] at hlt
    exact ((Nat.pow_lt_pow_iff_right (by omega)).mp hlt).le.trans (by omega)
  -- with a power of two the mask is a remainder, which the wrap of the counter keeps
  have hslot : ∀ i, h.slot (counter start i) = (start.toNat + i) % h.capacity.toNat := by
    intro i
    rw [slot_eq hc, hk, MaskedIndex.and_pred_two_pow, toNat_counter, MaskedIndex.wrap_mod hwidth]
  rw [hslot, hslot]
  exact MaskedIndex.mod_ne_mod (by omega) (by omega)

end MiRingHeader

end MemoryIntentRing
