-- SUMMARY: LRU against any other cache: a potential that pays for the faults of LRU with the faults of the other cache.
import Mathlib.Algebra.BigOperators.Intervals
import Mathlib.Algebra.BigOperators.Ring.Finset
import Mathlib.Algebra.Order.BigOperators.Group.Finset
import Mathlib.Data.Finset.Card
import Mathlib.Data.List.Basic
import Mathlib.Tactic.Linarith
import Mathlib.Tactic.Ring
import KVDeadlineScheduler.Library.LruInclusion

/-!
# LRU is competitive

An LRU cache and any other cache serve the same requests. The LRU cache is read as
the list of its keys, the most recently touched first. The potential counts, over
all depths of the list, how far the other cache is from holding the keys up to that
depth. A fault of LRU lowers it by what LRU has slots in excess of the other cache,
and only a fault of the other cache raises it.
-/

namespace LruCache

variable {κ τ : Type} [DecidableEq κ]

/-! ## The order of the last touches -/

/-- The keys of a cache, the most recently touched first. -/
structure Recency [LT τ] (stamp : κ → τ) (keys : List κ) (resident : Finset κ) : Prop where
  ordered : keys.Pairwise fun x y => stamp y < stamp x
  mem_iff : ∀ x, x ∈ keys ↔ x ∈ resident

omit [DecidableEq κ] in
theorem recency_nil [LT τ] (stamp : κ → τ) : Recency stamp [] ∅ := ⟨.nil, by simp⟩

/-- What a request does to that order in a cache with `slots` slots. -/
def Request.reorder (slots : ℕ) (keys : List κ) : Request κ τ → List κ
  | .touch key _ => (key :: keys.erase key).take slots
  | .remove key => keys.erase key
  | .idle => keys

section Recency

variable [LinearOrder τ] {stamp : κ → τ} {keys : List κ} {resident resident' : Finset κ}
  {slots : ℕ} {request : Request κ τ}

omit [DecidableEq κ] in
theorem Recency.nodup (h : Recency stamp keys resident) : keys.Nodup :=
  h.ordered.imp fun hlt heq => (ne_of_gt hlt) (congrArg stamp heq)

theorem Recency.length_eq (h : Recency stamp keys resident) : keys.length = resident.card := by
  rw [← List.toFinset_card_of_nodup h.nodup]
  congr 1
  ext x
  rw [List.mem_toFinset, h.mem_iff]

theorem Recency.erase (h : Recency stamp keys resident) (key : κ) :
    Recency stamp (keys.erase key) (resident.erase key) where
  ordered := h.ordered.sublist List.erase_sublist
  mem_iff x := by rw [h.nodup.mem_erase_iff, Finset.mem_erase, h.mem_iff]

/-- A key touched after all others comes first. -/
theorem Recency.touch (h : Recency stamp keys resident) {key : κ} {time : τ}
    (hafter : (Request.touch key time).After resident stamp) :
    Recency (Function.update stamp key time) (key :: keys.erase key) (insert key resident) where
  ordered := by
    have hother : ∀ x ∈ keys.erase key, x ≠ key ∧ x ∈ keys := fun x hx => h.nodup.mem_erase_iff.mp hx
    refine List.pairwise_cons.mpr ⟨fun x hx => ?_, ?_⟩
    · rw [Function.update_self, Function.update_of_ne (hother x hx).1]
      exact hafter x ((h.mem_iff x).mp (hother x hx).2)
    · refine (h.erase key).ordered.imp_of_mem fun {x y} hx hy hlt => ?_
      rwa [Function.update_of_ne (hother x hx).1, Function.update_of_ne (hother y hy).1]
  mem_iff x := by
    rw [List.mem_cons, h.nodup.mem_erase_iff, Finset.mem_insert, h.mem_iff]
    by_cases hx : x = key <;> simp [hx]

/-- Without the oldest key the list ends one earlier. -/
theorem Recency.take_of_oldest (h : Recency stamp keys resident) {n : ℕ} {victim : κ}
    (hlength : keys.length = n + 1) (hvictim : victim ∈ resident)
    (holdest : ∀ x ∈ resident, stamp victim ≤ stamp x) : Recency stamp (keys.take n) (resident.erase victim) where
  ordered := h.ordered.sublist (List.take_sublist _ _)
  mem_iff x := by
    have hne : keys ≠ [] := List.ne_nil_of_length_eq_add_one hlength
    have htake : keys.take n = keys.dropLast := by rw [List.dropLast_eq_take, hlength, Nat.add_sub_cancel]
    have hsplit : keys.dropLast ++ [keys.getLast hne] = keys := List.dropLast_concat_getLast hne
    have hordered := h.ordered
    have hnodup := h.nodup
    rw [← hsplit] at hordered hnodup
    obtain ⟨-, -, hlast⟩ := List.pairwise_append.mp hordered
    -- the last key is the oldest one, and no other key has its stamp
    have heq : victim = keys.getLast hne := by
      have hmem : victim ∈ keys.dropLast ++ [keys.getLast hne] := by
        rw [hsplit]
        exact (h.mem_iff victim).mpr hvictim
      rcases List.mem_append.mp hmem with hfront | hback
      · have hlt := hlast victim hfront _ (List.mem_singleton_self _)
        have hle := holdest _ ((h.mem_iff _).mp (List.getLast_mem hne))
        exact absurd hle (not_le.mpr hlt)
      · exact List.mem_singleton.mp hback
    have hout : keys.getLast hne ∉ keys.dropLast := fun hin =>
      (List.nodup_append.mp hnodup).2.2 _ hin _ (List.mem_singleton_self _) rfl
    rw [htake, Finset.mem_erase, ← h.mem_iff, heq]
    constructor
    · intro hx
      exact ⟨fun hxe => hout (hxe ▸ hx), List.dropLast_subset _ hx⟩
    · rintro ⟨hxne, hx⟩
      rw [← hsplit] at hx
      exact (List.mem_append.mp hx).resolve_right fun hback => hxne (List.mem_singleton.mp hback)

/-- LRU keeps as many of the most recent keys as it has slots. -/
theorem Recency.serve (h : Recency stamp keys resident) (hroom : resident.card ≤ slots)
    (hafter : request.After resident stamp) (hserves : Serves slots stamp resident request resident') :
    Recency (request.stamps stamp) (request.reorder slots keys) resident' := by
  cases hserves with
  | remove => exact h.erase _
  | idle => exact h
  | @fits key time hfits =>
    have htouched := h.touch hafter
    have hall : (key :: keys.erase key).take slots = key :: keys.erase key :=
      List.take_of_length_le (htouched.length_eq.trans_le hfits)
    show Recency _ ((key :: keys.erase key).take slots) _
    rw [hall]
    exact htouched
  | @evicts key time victim hfull hvictim holdest =>
    have htouched := h.touch hafter
    have hinsert := Finset.card_insert_le key resident
    exact htouched.take_of_oldest (htouched.length_eq.trans (by omega)) hvictim holdest

end Recency

/-! ## Keys both caches hold -/

/-- How many of the first `depth` keys the other cache holds. -/
def hits (keys : List κ) (held : Finset κ) (depth : ℕ) : ℕ := ((keys.take depth).toFinset ∩ held).card

section Hits

variable {keys : List κ} {held held' : Finset κ} {key : κ} {depth : ℕ}

@[simp] theorem hits_zero (keys : List κ) (held : Finset κ) : hits keys held 0 = 0 := by
  simp [hits]

theorem hits_le (keys : List κ) (held : Finset κ) (depth : ℕ) : hits keys held depth ≤ depth :=
  (Finset.card_le_card Finset.inter_subset_left).trans
    ((List.toFinset_card_le _).trans (List.length_take_le _ _))

theorem hits_mono (keys : List κ) (h : held ⊆ held') (depth : ℕ) : hits keys held depth ≤ hits keys held' depth :=
  Finset.card_le_card (Finset.inter_subset_inter_left h)

/-- A key the list does not have is held for nothing. -/
theorem hits_le_of_notMem (held : Finset κ) (h : key ∉ keys) (depth : ℕ) :
    hits keys held depth ≤ (held.erase key).card := by
  refine Finset.card_le_card fun x hx => ?_
  obtain ⟨hin, hheld⟩ := Finset.mem_inter.mp hx
  refine Finset.mem_erase.mpr ⟨?_, hheld⟩
  rintro rfl
  exact h (List.mem_of_mem_take (List.mem_toFinset.mp hin))

/-- Each key the other cache drops costs one hit at most. -/
theorem hits_le_of_subset (keys : List κ) (h : held' ⊆ held) (depth : ℕ) :
    hits keys held depth ≤ hits keys held' depth + (held.card - held'.card) := by
  rw [← Finset.card_sdiff_of_subset h]
  refine (Finset.card_le_card fun x hx => ?_).trans (Finset.card_union_le _ _)
  obtain ⟨hin, hheld⟩ := Finset.mem_inter.mp hx
  by_cases hx' : x ∈ held'
  · exact Finset.mem_union_left _ (Finset.mem_inter.mpr ⟨hin, hx'⟩)
  · exact Finset.mem_union_right _ (Finset.mem_sdiff.mpr ⟨hheld, hx'⟩)

/-- Taking a key out of the list brings the keys behind it forward. -/
theorem mem_take_erase {x : κ} (hne : x ≠ key) (h : x ∈ keys.take depth) :
    x ∈ (keys.erase key).take depth := by
  induction keys generalizing depth with
  | nil => simp at h
  | cons y keys ih =>
    cases depth with
    | zero => simp at h
    | succ depth =>
      by_cases hy : y = key
      · rw [hy, List.erase_cons_head]
        rw [List.take_succ_cons, hy, List.mem_cons] at h
        exact List.take_subset_take_left _ (Nat.le_succ _) (h.resolve_left hne)
      · rw [List.erase_cons_tail (by simpa using hy), List.take_succ_cons, List.mem_cons]
        rw [List.take_succ_cons, List.mem_cons] at h
        exact h.imp id ih

theorem hits_le_erase (keys : List κ) (held : Finset κ) (key : κ) (depth : ℕ) :
    hits keys held depth ≤ hits (keys.erase key) (held.erase key) depth + 1 := by
  refine (Finset.card_le_card fun x hx => ?_).trans (Finset.card_insert_le key _)
  obtain ⟨hin, hheld⟩ := Finset.mem_inter.mp hx
  by_cases hne : x = key
  · exact hne ▸ Finset.mem_insert_self _ _
  · refine Finset.mem_insert_of_mem (Finset.mem_inter.mpr ⟨?_, Finset.mem_erase.mpr ⟨hne, hheld⟩⟩)
    exact List.mem_toFinset.mpr (mem_take_erase hne (List.mem_toFinset.mp hin))

theorem hits_le_erase_of_notMem (keys : List κ) (h : key ∉ held) (depth : ℕ) :
    hits keys held depth ≤ hits (keys.erase key) held depth := by
  refine Finset.card_le_card fun x hx => ?_
  obtain ⟨hin, hheld⟩ := Finset.mem_inter.mp hx
  have hne : x ≠ key := fun heq => h (heq ▸ hheld)
  exact Finset.mem_inter.mpr
    ⟨List.mem_toFinset.mpr (mem_take_erase hne (List.mem_toFinset.mp hin)), hheld⟩

/-- One level deeper there is one key more, wherever `key` is. -/
theorem take_succ_subset_erase (keys : List κ) (key : κ) (depth : ℕ) :
    ∃ y, ∀ x ∈ keys.take (depth + 1), x = y ∨ x ∈ (keys.erase key).take depth := by
  induction keys generalizing depth with
  | nil => exact ⟨key, by simp⟩
  | cons z keys ih =>
    by_cases hz : z = key
    · refine ⟨z, fun x hx => ?_⟩
      rw [hz, List.erase_cons_head]
      rw [List.take_succ_cons, hz, List.mem_cons] at hx
      exact hx
    · rw [List.erase_cons_tail (by simpa using hz)]
      cases depth with
      | zero => exact ⟨z, by simp⟩
      | succ depth =>
        obtain ⟨y, hy⟩ := ih depth
        refine ⟨y, fun x hx => ?_⟩
        rw [List.take_succ_cons, List.mem_cons] at hx ⊢
        rcases hx with rfl | hx
        · exact .inr (.inl rfl)
        · exact (hy x hx).imp_right .inr

theorem hits_succ_le_erase (keys : List κ) (held : Finset κ) (key : κ) (depth : ℕ) :
    hits keys held (depth + 1) ≤ hits (keys.erase key) held depth + 1 := by
  obtain ⟨y, hy⟩ := take_succ_subset_erase keys key depth
  refine (Finset.card_le_card fun x hx => ?_).trans (Finset.card_insert_le y _)
  obtain ⟨hin, hheld⟩ := Finset.mem_inter.mp hx
  rcases hy x (List.mem_toFinset.mp hin) with rfl | hrest
  · exact Finset.mem_insert_self _ _
  · exact Finset.mem_insert_of_mem (Finset.mem_inter.mpr ⟨List.mem_toFinset.mpr hrest, hheld⟩)

/-- A held key at the front is a hit at every depth. -/
theorem succ_hits_le_touch (hnodup : keys.Nodup) (hheld : key ∈ held) {slots : ℕ} (hdepth : depth < slots) :
    hits (keys.erase key) held depth + 1 ≤ hits ((key :: keys.erase key).take slots) held (depth + 1) := by
  have hnot : key ∉ ((keys.erase key).take depth).toFinset ∩ held := fun hin =>
    hnodup.not_mem_erase (List.mem_of_mem_take (List.mem_toFinset.mp (Finset.mem_inter.mp hin).1))
  unfold hits
  rw [← Finset.card_insert_of_notMem hnot, List.take_take, Nat.min_eq_left hdepth, List.take_succ_cons,
    List.toFinset_cons, Finset.insert_inter_of_mem hheld]

end Hits

/-! ## The potential -/

/-- How far the other cache is from the `slots` most recent keys, over all depths. -/
def deficit (slots : ℕ) (keys : List κ) (held : Finset κ) : ℤ :=
  ∑ depth ∈ Finset.range slots, ((depth : ℤ) + 1 - hits keys held (depth + 1))

/-- Every key the other cache holds was loaded, and its eviction is paid for in
advance. -/
def potential (slots : ℕ) (keys : List κ) (held : Finset κ) : ℤ :=
  deficit slots keys held + slots * held.card

section Potential

variable {keys : List κ} {held held' : Finset κ} {key : κ} {slots : ℕ}

theorem deficit_nonneg (slots : ℕ) (keys : List κ) (held : Finset κ) : 0 ≤ deficit slots keys held := by
  refine Finset.sum_nonneg fun depth _ => ?_
  have := hits_le keys held (depth + 1)
  omega

theorem potential_nonneg (slots : ℕ) (keys : List κ) (held : Finset κ) :
    0 ≤ potential slots keys held :=
  add_nonneg (deficit_nonneg slots keys held) (by positivity)

theorem potential_empty (slots : ℕ) :
    2 * potential slots ([] : List κ) ∅ = slots * (slots + 1) := by
  have hsum : potential slots ([] : List κ) ∅ = ((∑ depth ∈ Finset.range slots, (depth + 1) : ℕ) : ℤ) := by
    rw [potential, deficit]
    push_cast
    simp [hits]
  have hgauss := Finset.sum_range_id_mul_two (slots + 1)
  rw [Finset.sum_range_succ', add_zero, Nat.add_sub_cancel] at hgauss
  rw [hsum, mul_comm]
  exact_mod_cast hgauss.trans (mul_comm _ _)

/-- Evictions of the other cache are paid for. -/
theorem potential_le_of_subset (slots : ℕ) (keys : List κ) (h : held' ⊆ held) :
    potential slots keys held' ≤ potential slots keys held := by
  have hcard : held'.card ≤ held.card := Finset.card_le_card h
  have hdeficit : deficit slots keys held' ≤
      deficit slots keys held + slots * ((held.card : ℤ) - held'.card) := by
    have hconst : (slots : ℤ) * ((held.card : ℤ) - held'.card) =
        ∑ _depth ∈ Finset.range slots, ((held.card : ℤ) - held'.card) := by
      rw [Finset.sum_const, Finset.card_range, nsmul_eq_mul]
    rw [hconst, deficit, deficit, ← Finset.sum_add_distrib]
    refine Finset.sum_le_sum fun depth _ => ?_
    have := hits_le_of_subset keys h (depth + 1)
    omega
  unfold potential
  linarith

/-- A load of the other cache. -/
theorem potential_insert (slots : ℕ) (keys : List κ) (held : Finset κ) (key : κ) :
    potential slots keys (insert key held) ≤ potential slots keys held + if key ∈ held then 0 else (slots : ℤ) := by
  split
  · rename_i hin
    rw [Finset.insert_eq_of_mem hin, add_zero]
  · rename_i hout
    have hdeficit : deficit slots keys (insert key held) ≤ deficit slots keys held :=
      Finset.sum_le_sum fun depth _ => by
        have := hits_mono keys (Finset.subset_insert key held) (depth + 1)
        omega
    unfold potential
    rw [Finset.card_insert_of_notMem hout]
    push_cast
    linarith

/-- LRU touches a key that the other cache holds by now. -/
theorem deficit_touch (slots : ℕ) (hnodup : keys.Nodup) (hheld : key ∈ held) :
    deficit slots ((key :: keys.erase key).take slots) held ≤
      ∑ depth ∈ Finset.range slots, ((depth : ℤ) - hits (keys.erase key) held depth) := by
  refine Finset.sum_le_sum fun depth hdepth => ?_
  have := succ_hits_le_touch hnodup hheld (Finset.mem_range.mp hdepth)
  omega

theorem deficit_touch_hit (slots : ℕ) (hnodup : keys.Nodup) (hheld : key ∈ held) :
    deficit slots ((key :: keys.erase key).take slots) held ≤ deficit slots keys held := by
  refine (deficit_touch slots hnodup hheld).trans (Finset.sum_le_sum fun depth _ => ?_)
  have := hits_succ_le_erase keys held key depth
  omega

/-- A fault of LRU moves every key one level down. -/
theorem deficit_touch_fault (slots : ℕ) (hnodup : keys.Nodup) (hheld : key ∈ held)
    (hfault : key ∉ keys) :
    deficit slots ((key :: keys.erase key).take slots) held + (slots - ((held.erase key).card : ℤ)) ≤
      deficit slots keys held := by
  have htouch := deficit_touch slots hnodup hheld
  rw [List.erase_of_not_mem hfault] at htouch ⊢
  -- the sum telescopes: what is left is the deepest level
  have hshift : ∑ depth ∈ Finset.range slots, ((depth : ℤ) - hits keys held depth) +
      ((slots : ℤ) - hits keys held slots) = deficit slots keys held := by
    rw [← Finset.sum_range_succ (fun depth : ℕ => (depth : ℤ) - hits keys held depth),
      Finset.sum_range_succ', deficit]
    simp
  have hdeepest := hits_le_of_notMem held hfault slots
  omega

/-- A request to touch a key: LRU is paid for its fault, the other cache pays for its
own. -/
theorem potential_touch (slots : ℕ) {room : ℕ} (hnodup : keys.Nodup) (hroom : held.card ≤ room)
    (hheld' : held' ⊆ insert key held) :
    potential slots ((key :: keys.erase key).take slots) held' +
        (if key ∈ keys then 0 else (slots : ℤ) - room) ≤
      potential slots keys held + if key ∈ held then 0 else (slots : ℤ) := by
  have hin : key ∈ insert key held := Finset.mem_insert_self key held
  have hload := potential_insert slots keys held key
  have hdrop := potential_le_of_subset slots ((key :: keys.erase key).take slots) hheld'
  refine le_trans ?_ hload
  refine (add_le_add_left hdrop _).trans ?_
  unfold potential
  split
  · have := deficit_touch_hit slots hnodup hin
    omega
  · rename_i hfault
    have hpaid := deficit_touch_fault slots hnodup hin hfault
    have hother : ((insert key held).erase key).card ≤ room :=
      (Finset.card_le_card (by simp [Finset.erase_insert_eq_erase, Finset.erase_subset])).trans hroom
    omega

/-- A removal from both caches is free. -/
theorem potential_remove (hheld' : held' ⊆ held.erase key) :
    potential slots (keys.erase key) held' ≤ potential slots keys held := by
  refine (potential_le_of_subset slots _ hheld').trans ?_
  by_cases hin : key ∈ held
  · have hdeficit : deficit slots (keys.erase key) (held.erase key) ≤ deficit slots keys held + slots := by
      have hconst : (slots : ℤ) = ∑ _depth ∈ Finset.range slots, (1 : ℤ) := by simp
      unfold deficit
      rw [hconst, ← Finset.sum_add_distrib]
      refine Finset.sum_le_sum fun depth _ => ?_
      have := hits_le_erase keys held key (depth + 1)
      omega
    have hcard : ((held.erase key).card : ℤ) = held.card - 1 := by
      rw [Finset.card_erase_of_mem hin]
      have := Finset.card_pos.mpr ⟨key, hin⟩
      omega
    unfold potential
    rw [hcard]
    linarith
  · rw [Finset.erase_eq_of_notMem hin]
    have hdeficit : deficit slots (keys.erase key) held ≤ deficit slots keys held :=
      Finset.sum_le_sum fun depth _ => by
        have := hits_le_erase_of_notMem keys hin (depth + 1)
        omega
    unfold potential
    linarith

end Potential

/-! ## One request -/

/-- What any cache may do with a request: it brings in the touched key at most, and
it drops a removed one. -/
def Request.Demands (held held' : Finset κ) : Request κ τ → Prop
  | .touch key _ => held' ⊆ insert key held
  | .remove key => held' ⊆ held.erase key
  | .idle => held' ⊆ held

/-- A request for a key that is not there. -/
def Request.faults (resident : Finset κ) : Request κ τ → ℕ
  | .touch key _ => if key ∈ resident then 0 else 1
  | .remove _ => 0
  | .idle => 0

/-- The faults of LRU are charged to the faults of the other cache. -/
theorem Recency.charge [LinearOrder τ] {stamp : κ → τ} {keys : List κ} {resident held held' : Finset κ}
    (slots : ℕ) {room : ℕ} {request : Request κ τ} (h : Recency stamp keys resident)
    (hroom : held.card ≤ room) (hdemands : request.Demands held held') :
    potential slots (request.reorder slots keys) held' + ((slots : ℤ) - room) * request.faults resident ≤
      potential slots keys held + slots * request.faults held := by
  cases request with
  | touch key time =>
    have hcharge := potential_touch slots h.nodup hroom hdemands
    simp only [h.mem_iff] at hcharge
    simp only [Request.reorder, Request.faults]
    split at hcharge <;> split at hcharge <;> simp_all
  | remove key =>
    have hcharge : potential slots (keys.erase key) held' ≤ potential slots keys held :=
      potential_remove hdemands
    simpa [Request.faults, Request.reorder] using hcharge
  | idle =>
    have hcharge : potential slots keys held' ≤ potential slots keys held :=
      potential_le_of_subset slots keys hdemands
    simpa [Request.faults, Request.reorder] using hcharge

end LruCache
