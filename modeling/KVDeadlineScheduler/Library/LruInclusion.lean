-- SUMMARY: Caches that evict the least recently used key: a larger one holds what a smaller one holds.
import Mathlib.Algebra.Order.Group.Nat
import Mathlib.Data.Finset.Card
import Mathlib.Data.Set.Function
import Mathlib.Logic.Function.Basic

/-!
# Inclusion of LRU caches

Two caches of different sizes serve the same requests. A request touches a key,
which enters the cache and may push out the key with the oldest stamp, or removes
a key, or does nothing. Plain inclusion is not kept when a full large cache evicts
and the small one has room. What is kept is that in addition the keys only the
large cache holds are older than all keys of the small one.
-/

namespace LruCache

variable {κ τ : Type}

/-! ## Requests -/

inductive Request (κ τ : Type) where
  | touch (key : κ) (time : τ)
  | remove (key : κ)
  | idle

/-- The stamps after a request. Only a touch stamps. -/
def Request.stamps [DecidableEq κ] (stamp : κ → τ) : Request κ τ → κ → τ
  | .touch key time => Function.update stamp key time
  | .remove _ => stamp
  | .idle => stamp

@[simp] theorem Request.stamps_touch_self [DecidableEq κ] (stamp : κ → τ) (key : κ) (time : τ) :
    (Request.touch key time).stamps stamp key = time := Function.update_self _ _ _

theorem Request.stamps_touch_of_ne [DecidableEq κ] (stamp : κ → τ) {key x : κ} (time : τ) (h : x ≠ key) :
    (Request.touch key time).stamps stamp x = stamp x := Function.update_of_ne h _ _

/-- A touch comes after all stamps of a cache. -/
def Request.After [LT τ] (resident : Finset κ) (stamp : κ → τ) : Request κ τ → Prop
  | .touch _ time => ∀ key ∈ resident, stamp key < time
  | .remove _ => True
  | .idle => True

/-- A cache with room for `slots` keys serves a request. -/
inductive Serves [DecidableEq κ] [LE τ] (slots : ℕ) (stamp : κ → τ) (resident : Finset κ) :
    Request κ τ → Finset κ → Prop where
  | fits {key : κ} {time : τ} (hroom : (insert key resident).card ≤ slots) :
      Serves slots stamp resident (.touch key time) (insert key resident)
  | evicts {key : κ} {time : τ} {victim : κ} (hfull : slots < (insert key resident).card)
      (hvictim : victim ∈ insert key resident)
      (holdest : ∀ x ∈ insert key resident,
        Function.update stamp key time victim ≤ Function.update stamp key time x) :
      Serves slots stamp resident (.touch key time) ((insert key resident).erase victim)
  | remove {key : κ} : Serves slots stamp resident (.remove key) (resident.erase key)
  | idle : Serves slots stamp resident .idle resident

section

variable [DecidableEq κ] [LinearOrder τ] {slots : ℕ} {stamp : κ → τ} {resident resident' : Finset κ}
  {request : Request κ τ}

theorem Serves.card_le (h : Serves slots stamp resident request resident') (hroom : resident.card ≤ slots) :
    resident'.card ≤ slots := by
  cases h with
  | fits hroom => exact hroom
  | @evicts key time victim _ hvictim =>
    have hinsert := Finset.card_insert_le key resident
    rw [Finset.card_erase_of_mem hvictim]
    omega
  | remove => exact (Finset.card_erase_le).trans hroom
  | idle => exact hroom

/-- A bound on the stamps that also covers the request is kept. -/
theorem Serves.stamps_le {bound : τ} (h : Serves slots stamp resident request resident')
    (hold : ∀ x ∈ resident, stamp x ≤ bound)
    (hnew : ∀ key time, request = .touch key time → time ≤ bound) :
    ∀ x ∈ resident', request.stamps stamp x ≤ bound := by
  have htouch : ∀ key time, request = .touch key time → ∀ x ∈ insert key resident,
      (Request.touch key time).stamps stamp x ≤ bound := by
    intro key time heq x hx
    rcases eq_or_ne x key with rfl | hne
    · rw [Request.stamps_touch_self]
      exact hnew x time heq
    · rw [Request.stamps_touch_of_ne _ _ hne]
      exact hold x ((Finset.mem_insert.mp hx).resolve_left hne)
  cases h with
  | fits => exact htouch _ _ rfl
  | evicts => exact fun x hx => htouch _ _ rfl x (Finset.mem_of_mem_erase hx)
  | remove => exact fun x hx => hold x (Finset.mem_of_mem_erase hx)
  | idle => exact hold

end

/-! ## Inclusion -/

/-- The large cache holds the small one, its other keys are older, and no two of
its keys have the same stamp. -/
structure Includes [LT τ] (stamp : κ → τ) (small large : Finset κ) : Prop where
  subset : small ⊆ large
  older : ∀ x ∈ large, x ∉ small → ∀ y ∈ small, stamp x < stamp y
  distinct : Set.InjOn stamp large

theorem includes_empty [LT τ] (stamp : κ → τ) : Includes stamp ∅ ∅ :=
  ⟨Finset.Subset.refl _, by simp, by simp⟩

section

variable [LinearOrder τ] {stamp stamp' : κ → τ} {small large : Finset κ}

/-- The oldest key of the large cache is not in the small one as long as the two
differ: the keys only the large one holds are older. -/
theorem Includes.oldest_notMem (h : Includes stamp small large) {victim x : κ} (hx : x ∈ large)
    (hnot : x ∉ small) (holdest : ∀ y ∈ large, stamp victim ≤ stamp y) : victim ∉ small :=
  fun hin => absurd (h.older x hx hnot victim hin) (not_lt.mpr (holdest x hx))

variable [DecidableEq κ]

/-- Removing one key from both caches. -/
theorem Includes.erase (h : Includes stamp small large) (key : κ) :
    Includes stamp (small.erase key) (large.erase key) := by
  refine ⟨Finset.erase_subset_erase _ h.subset, fun x hx hnot y hy => ?_, ?_⟩
  · have hx' := Finset.mem_erase.mp hx
    have hsmall : x ∉ small := fun hin => hnot (Finset.mem_erase.mpr ⟨hx'.1, hin⟩)
    exact h.older x hx'.2 hsmall y (Finset.mem_of_mem_erase hy)
  · exact h.distinct.mono fun x hx => Finset.mem_of_mem_erase hx

/-- Touching one key in both caches, before anything is evicted. -/
theorem Includes.touch (h : Includes stamp small large) {key : κ} {time : τ}
    (hafter : ∀ x ∈ large, stamp x < time) :
    Includes (Function.update stamp key time) (insert key small) (insert key large) := by
  have hold : ∀ x, x ≠ key → Function.update stamp key time x = stamp x :=
    fun x hne => Function.update_of_ne hne _ _
  refine ⟨Finset.insert_subset_insert _ h.subset, fun x hx hnot y hy => ?_, fun x hx y hy hxy => ?_⟩
  · have hne : x ≠ key := fun heq => hnot (heq ▸ Finset.mem_insert_self _ _)
    have hlarge : x ∈ large := (Finset.mem_insert.mp hx).resolve_left hne
    have hsmall : x ∉ small := fun hin => hnot (Finset.mem_insert_of_mem hin)
    rw [hold x hne]
    rcases Finset.mem_insert.mp hy with rfl | hy
    · rw [Function.update_self]
      exact hafter x hlarge
    · have hyx : y ≠ key ∨ y = key := ne_or_eq y key
      rcases hyx with hyne | rfl
      · rw [hold y hyne]
        exact h.older x hlarge hsmall y hy
      · rw [Function.update_self]
        exact hafter x hlarge
  · -- the touched key has the latest stamp, the others keep theirs
    rcases eq_or_ne x key with hxk | hxk <;> rcases eq_or_ne y key with hyk | hyk
    · rw [hxk, hyk]
    · have hlt := hafter y ((Finset.mem_insert.mp hy).resolve_left hyk)
      rw [hxk, Function.update_self, hold y hyk] at hxy
      exact absurd hxy (ne_of_gt hlt)
    · have hlt := hafter x ((Finset.mem_insert.mp hx).resolve_left hxk)
      rw [hyk, Function.update_self, hold x hxk] at hxy
      exact absurd hxy (ne_of_lt hlt)
    · rw [hold x hxk, hold y hyk] at hxy
      exact h.distinct ((Finset.mem_insert.mp hx).resolve_left hxk)
        ((Finset.mem_insert.mp hy).resolve_left hyk) hxy

/-- The small cache evicts its oldest key, the large one has room. -/
theorem Includes.evict_small (h : Includes stamp small large) {victim : κ} (hvictim : victim ∈ small)
    (holdest : ∀ x ∈ small, stamp victim ≤ stamp x) : Includes stamp (small.erase victim) large := by
  refine ⟨(Finset.erase_subset _ _).trans h.subset, fun x hx hnot y hy => ?_, h.distinct⟩
  have hmem : y ≠ victim ∧ y ∈ small := Finset.mem_erase.mp hy
  rcases eq_or_ne x victim with heq | hne
  · have hdistinct : stamp victim ≠ stamp y := fun hsame =>
      hmem.1 (h.distinct (h.subset hvictim) (h.subset hmem.2) hsame).symm
    rw [heq]
    exact lt_of_le_of_ne (holdest y hmem.2) hdistinct
  · exact h.older x hx (fun hin => hnot (Finset.mem_erase.mpr ⟨hne, hin⟩)) y hmem.2

/-- The large cache evicts its oldest key, which the small one does not hold. -/
theorem Includes.evict_large (h : Includes stamp small large) {victim : κ} (hnot : victim ∉ small) :
    Includes stamp small (large.erase victim) := by
  refine ⟨fun x hx => ?_, fun x hx => h.older x (Finset.mem_of_mem_erase hx), ?_⟩
  · exact Finset.mem_erase.mpr ⟨fun heq => hnot (heq ▸ hx), h.subset hx⟩
  · exact h.distinct.mono fun x hx => Finset.mem_of_mem_erase hx

/-- Serving a request keeps the larger cache above the smaller one. -/
theorem Includes.serve {slots slots' : ℕ} {request : Request κ τ} {small' large' : Finset κ}
    (h : Includes stamp small large) (hslots : slots ≤ slots')
    (hafter : request.After large stamp) (hsmall : Serves slots stamp small request small')
    (hlarge : Serves slots' stamp large request large') :
    Includes (request.stamps stamp) small' large' := by
  cases hsmall with
  | remove =>
    cases hlarge with
    | remove => exact h.erase _
  | idle =>
    cases hlarge with
    | idle => exact h
  | @fits key time hroom =>
    have htouched : Includes (Function.update stamp key time) (insert key small) (insert key large) :=
      h.touch hafter
    cases hlarge with
    | fits => exact htouched
    | evicts hfull _ holdest =>
      -- the small cache has fewer keys, so the two differ
      have hcard : (insert key small).card < (insert key large).card := by omega
      obtain ⟨x, hx, hnot⟩ := Finset.exists_mem_notMem_of_card_lt_card hcard
      exact htouched.evict_large (htouched.oldest_notMem hx hnot holdest)
  | @evicts key time victim hfull hvictim holdest =>
    have htouched : Includes (Function.update stamp key time) (insert key small) (insert key large) :=
      h.touch hafter
    have hevicted := htouched.evict_small hvictim holdest
    cases hlarge with
    | fits => exact hevicted
    | @evicts _ _ victim' _ hvictim' holdest' =>
      by_cases hin : victim' ∈ insert key small
      · -- both evict the same key: it is the oldest of either cache
        have hle : Function.update stamp key time victim = Function.update stamp key time victim' :=
          le_antisymm (holdest _ hin) (holdest' _ (htouched.subset hvictim))
        have heq := htouched.distinct (htouched.subset hvictim) hvictim' hle
        rw [← heq]
        exact htouched.erase victim
      · exact hevicted.evict_large fun hmem => hin (Finset.mem_of_mem_erase hmem)

end

end LruCache
