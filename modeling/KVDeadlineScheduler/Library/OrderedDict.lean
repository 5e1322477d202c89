-- SUMMARY: Finite maps that remember insertion order: lookup, update, removal, a fallible pass over the values, renaming.
import Mathlib.Data.List.Basic
import Mathlib.Data.List.Nodup

/-!
# Ordered dictionaries

An `OrderedDict` is a list of entries with pairwise distinct keys. Updating a
key that is present keeps its position, and a new key goes to the end. All laws
are stated through `get?`.
-/

structure OrderedDict (κ ν : Type) where
  entries : List (κ × ν)
  nodup : (entries.map Prod.fst).Nodup
  deriving DecidableEq

namespace OrderedDict

variable {κ ν ε : Type} [DecidableEq κ]

/-! ## Lookup in a list of entries -/

theorem lookup_cons_ite (k k' : κ) (v : ν) (es : List (κ × ν)) :
    ((k', v) :: es).lookup k = if k = k' then some v else es.lookup k := by
  rw [List.lookup_cons]
  by_cases h : k = k'
  · simp [h]
  · simp [h, beq_eq_false_iff_ne.mpr h]

theorem lookup_of_mem {es : List (κ × ν)} (hnd : (es.map Prod.fst).Nodup) {e : κ × ν}
    (he : e ∈ es) : es.lookup e.1 = some e.2 := by
  induction es with
  | nil => cases he
  | cons e' es ih =>
    simp only [List.map_cons, List.nodup_cons] at hnd
    rw [lookup_cons_ite]
    rcases List.mem_cons.mp he with rfl | he
    · simp
    · have hne : e.1 ≠ e'.1 := fun h => hnd.1 (h ▸ List.mem_map_of_mem he)
      rw [if_neg hne]
      exact ih hnd.2 he

/-! ## Operations -/

def empty : OrderedDict κ ν := ⟨[], List.nodup_nil⟩

def get? (d : OrderedDict κ ν) (k : κ) : Option ν := d.entries.lookup k

def keys (d : OrderedDict κ ν) : List κ := d.entries.map Prod.fst

/-- Write `v` under `k` in a list of entries, in place when the key is there. -/
def setEntry (k : κ) (v : ν) : List (κ × ν) → List (κ × ν)
  | [] => [(k, v)]
  | e :: es => if e.1 = k then (k, v) :: es else e :: setEntry k v es

theorem mem_keys_setEntry {k k' : κ} {v : ν} {es : List (κ × ν)} :
    k' ∈ (setEntry k v es).map Prod.fst ↔ k' = k ∨ k' ∈ es.map Prod.fst := by
  induction es with
  | nil => simp [setEntry]
  | cons e es ih =>
    simp only [setEntry]
    split
    · rename_i he
      simp [he]
    · simp only [List.map_cons, List.mem_cons, ih]
      tauto

theorem nodup_setEntry (k : κ) (v : ν) {es : List (κ × ν)} (h : (es.map Prod.fst).Nodup) :
    ((setEntry k v es).map Prod.fst).Nodup := by
  induction es with
  | nil => simp [setEntry]
  | cons e es ih =>
    simp only [List.map_cons, List.nodup_cons] at h
    simp only [setEntry]
    split
    · rename_i he
      simpa [← he] using h
    · rename_i he
      simp only [List.map_cons, List.nodup_cons, mem_keys_setEntry, not_or]
      exact ⟨⟨he, h.1⟩, ih h.2⟩

def set (d : OrderedDict κ ν) (k : κ) (v : ν) : OrderedDict κ ν :=
  ⟨setEntry k v d.entries, nodup_setEntry k v d.nodup⟩

def erase (d : OrderedDict κ ν) (k : κ) : OrderedDict κ ν :=
  ⟨d.entries.filter (fun e => e.1 ≠ k), (List.filter_sublist.map Prod.fst).nodup d.nodup⟩

/-- Replace every value by what `f` makes of it, entry by entry over a snapshot
of the entries. The first failure of `f` ends the pass. -/
def traverse (f : ν → Except ε ν) (d : OrderedDict κ ν) : Except ε (OrderedDict κ ν) :=
  d.entries.foldlM (fun acc e => (f e.2).map (acc.set e.1)) d

theorem get?_eq_some_iff {d : OrderedDict κ ν} {k : κ} {v : ν} : d.get? k = some v ↔ (k, v) ∈ d.entries := by
  constructor
  · intro h
    obtain ⟨l₁, l₂, heq, -⟩ := List.lookup_eq_some_iff.mp h
    rw [heq]
    simp
  · exact fun h => lookup_of_mem d.nodup h

theorem mem_keys_iff {d : OrderedDict κ ν} {k : κ} : k ∈ d.keys ↔ ∃ v, d.get? k = some v := by
  simp only [keys, List.mem_map, Prod.exists, exists_and_right, exists_eq_right, get?_eq_some_iff]

/-- A new key goes to the end. -/
theorem entries_set_of_notMem {d : OrderedDict κ ν} {k : κ} (v : ν) (h : k ∉ d.keys) :
    (d.set k v).entries = d.entries ++ [(k, v)] := by
  have hentries : ∀ es : List (κ × ν), k ∉ es.map Prod.fst → setEntry k v es = es ++ [(k, v)] := by
    intro es hes
    induction es with
    | nil => rfl
    | cons e es ih =>
      rw [List.map_cons, List.mem_cons, not_or] at hes
      rw [setEntry, if_neg (Ne.symm hes.1), ih hes.2, List.cons_append]
  exact hentries d.entries h

theorem keys_set_of_notMem {d : OrderedDict κ ν} {k : κ} (v : ν) (h : k ∉ d.keys) :
    (d.set k v).keys = d.keys ++ [k] := by
  rw [keys, entries_set_of_notMem v h, List.map_append]
  rfl

/-! ## Lookup after an update -/

/-- A key that is present keeps its position. -/
theorem keys_set_of_mem {d : OrderedDict κ ν} {k : κ} (v : ν) (h : k ∈ d.keys) :
    (d.set k v).keys = d.keys := by
  have hentries : ∀ es : List (κ × ν), k ∈ es.map Prod.fst →
      (setEntry k v es).map Prod.fst = es.map Prod.fst := by
    intro es hes
    induction es with
    | nil => simp at hes
    | cons e es ih =>
      simp only [setEntry]
      split
      next heq => simp [heq]
      next hne =>
        have hmem : k ∈ es.map Prod.fst := by
          rw [List.map_cons, List.mem_cons] at hes
          exact hes.resolve_left (Ne.symm hne)
        rw [List.map_cons, List.map_cons, ih hmem]
  exact hentries d.entries h

/-- Dictionaries with the same keys in the same order and the same values are equal. -/
theorem ext_of_keys {d d' : OrderedDict κ ν} (hkeys : d.keys = d'.keys) (hget : ∀ k, d.get? k = d'.get? k) :
    d = d' := by
  have hentries : d.entries = d'.entries := by
    refine List.ext_getElem (by simpa [keys] using congrArg List.length hkeys) fun i hi hi' => ?_
    have hkey : d.entries[i].1 = d'.entries[i].1 := by
      have hat := congrArg (fun ks => ks[i]?) hkeys
      simpa [keys, hi, hi'] using hat
    have hvalue : d.get? d.entries[i].1 = some d.entries[i].2 :=
      get?_eq_some_iff.mpr (List.getElem_mem hi)
    have hvalue' : d'.get? d'.entries[i].1 = some d'.entries[i].2 :=
      get?_eq_some_iff.mpr (List.getElem_mem hi')
    rw [hget, hkey, hvalue'] at hvalue
    exact Prod.ext hkey (Option.some.inj hvalue).symm
  obtain ⟨entries, hnodup⟩ := d
  obtain rfl : entries = d'.entries := hentries
  rfl

@[simp] theorem get?_empty (k : κ) : (empty : OrderedDict κ ν).get? k = none := rfl

@[simp] theorem get?_set_self (d : OrderedDict κ ν) (k : κ) (v : ν) : (d.set k v).get? k = some v := by
  simp only [get?, set]
  induction d.entries with
  | nil => simp [setEntry]
  | cons e es ih =>
    simp only [setEntry]
    split
    · simp
    · rename_i he
      rw [lookup_cons_ite, if_neg (Ne.symm he)]
      exact ih

@[simp] theorem get?_set_of_ne (d : OrderedDict κ ν) {k k' : κ} (v : ν) (h : k' ≠ k) :
    (d.set k v).get? k' = d.get? k' := by
  simp only [get?, set]
  induction d.entries with
  | nil => simp [setEntry, lookup_cons_ite, h]
  | cons e es ih =>
    simp only [setEntry]
    split
    · rename_i he
      rw [lookup_cons_ite, lookup_cons_ite, he, if_neg h, if_neg h]
    · rw [lookup_cons_ite, lookup_cons_ite, ih]

theorem get?_set (d : OrderedDict κ ν) (k k' : κ) (v : ν) :
    (d.set k v).get? k' = if k' = k then some v else d.get? k' := by
  split
  · rename_i h
    rw [h, get?_set_self]
  · rename_i h
    rw [get?_set_of_ne d v h]

/-- Of two writes to one key the second is the one that counts. -/
@[simp] theorem set_set (d : OrderedDict κ ν) (k : κ) (v w : ν) : (d.set k v).set k w = d.set k w := by
  have hentries : ∀ es : List (κ × ν), setEntry k w (setEntry k v es) = setEntry k w es := by
    intro es
    induction es with
    | nil => simp [setEntry]
    | cons e es ih =>
      by_cases he : e.1 = k
      · simp [setEntry, he]
      · simp [setEntry, he, ih]
  simp only [set, hentries]

@[simp] theorem get?_erase_self (d : OrderedDict κ ν) (k : κ) : (d.erase k).get? k = none := by
  simp only [get?, erase, List.lookup_eq_none_iff, List.mem_filter]
  rintro p ⟨-, hp⟩
  simpa using Ne.symm (of_decide_eq_true hp)

@[simp] theorem get?_erase_of_ne (d : OrderedDict κ ν) {k k' : κ} (h : k' ≠ k) :
    (d.erase k).get? k' = d.get? k' := by
  simp only [get?, erase]
  induction d.entries with
  | nil => rfl
  | cons e es ih =>
    by_cases he : e.1 = k
    · rw [List.filter_cons_of_neg (by simp [he]), lookup_cons_ite, he, if_neg h]
      exact ih
    · rw [List.filter_cons_of_pos (by simp [he]), lookup_cons_ite, lookup_cons_ite, ih]

theorem get?_erase (d : OrderedDict κ ν) (k k' : κ) :
    (d.erase k).get? k' = if k' = k then none else d.get? k' := by
  split
  · rename_i h
    rw [h, get?_erase_self]
  · rename_i h
    rw [get?_erase_of_ne d h]

/-! ## The pass over the values -/

private theorem foldlM_set_get? {f : ν → Except ε ν} {es : List (κ × ν)} {acc d : OrderedDict κ ν}
    (hnd : (es.map Prod.fst).Nodup)
    (h : es.foldlM (fun acc e => (f e.2).map (acc.set e.1)) acc = .ok d) (k : κ) :
    (es.lookup k = none → d.get? k = acc.get? k) ∧
      ∀ v, es.lookup k = some v → ∃ v', f v = .ok v' ∧ d.get? k = some v' := by
  induction es generalizing acc with
  | nil =>
    cases h
    exact ⟨fun _ => rfl, by simp⟩
  | cons e es ih =>
    simp only [List.map_cons, List.nodup_cons] at hnd
    rw [List.foldlM_cons] at h
    cases hf : f e.2 with
    | error err => simp [hf, Except.map, bind, Except.bind] at h
    | ok w =>
      simp only [hf, Except.map, bind, Except.bind] at h
      obtain ⟨hnone, hsome⟩ := ih hnd.2 h
      rw [lookup_cons_ite]
      by_cases hk : k = e.1
      · have hes : es.lookup k = none := by
          rw [List.lookup_eq_none_iff]
          intro p hp
          have hne : k ≠ p.1 := fun heq => hnd.1 (hk ▸ heq ▸ List.mem_map_of_mem hp)
          simpa using hne
        rw [if_pos hk]
        refine ⟨by simp, fun v hv => ⟨w, ?_, ?_⟩⟩
        · rw [← Option.some.inj hv, hf]
        · rw [hnone hes, hk, get?_set_self]
      · rw [if_neg hk]
        exact ⟨fun hn => (hnone hn).trans (get?_set_of_ne acc w hk), hsome⟩

/-- After a pass that did not fail, a key is absent exactly when it was, and its
value is the image of the old one. -/
theorem traverse_get? {f : ν → Except ε ν} {d d' : OrderedDict κ ν} (h : d.traverse f = .ok d')
    (k : κ) :
    (d.get? k = none → d'.get? k = none) ∧
      ∀ v, d.get? k = some v → ∃ v', f v = .ok v' ∧ d'.get? k = some v' := by
  obtain ⟨hnone, hsome⟩ := foldlM_set_get? d.nodup h k
  exact ⟨fun hk => (hnone hk).trans hk, hsome⟩

theorem traverse_get?_some {f : ν → Except ε ν} {d d' : OrderedDict κ ν}
    (h : d.traverse f = .ok d') {k : κ} {v' : ν} (hk : d'.get? k = some v') :
    ∃ v, d.get? k = some v ∧ f v = .ok v' := by
  obtain ⟨hnone, hsome⟩ := traverse_get? h k
  cases hv : d.get? k with
  | none => rw [hnone hv] at hk; cases hk
  | some v =>
    obtain ⟨w, hf, hw⟩ := hsome v hv
    rw [hw] at hk
    exact ⟨v, rfl, hf.trans (congrArg _ (Option.some.inj hk))⟩

/-- A pass succeeds when `f` does on every value. -/
theorem traverse_ok {f : ν → Except ε ν} {d : OrderedDict κ ν}
    (h : ∀ k v, d.get? k = some v → ∃ v', f v = .ok v') : ∃ d', d.traverse f = .ok d' := by
  suffices H : ∀ (es : List (κ × ν)) (acc : OrderedDict κ ν),
      (∀ e ∈ es, ∃ v', f e.2 = .ok v') →
      ∃ d', es.foldlM (fun acc e => (f e.2).map (acc.set e.1)) acc = .ok d' by
    exact H d.entries d fun e he => h e.1 e.2 (lookup_of_mem d.nodup he)
  intro es
  induction es with
  | nil => exact fun acc _ => ⟨acc, rfl⟩
  | cons e es ih =>
    intro acc hes
    obtain ⟨v', hv'⟩ := hes e (List.mem_cons_self ..)
    rw [List.foldlM_cons, hv']
    exact ih _ fun e' he' => hes e' (List.mem_cons_of_mem _ he')

/-! ## Renaming the keys -/

section Rename

variable {κ' ν' : Type} [DecidableEq κ'] {f : κ → κ'} (hf : Function.Injective f) (g : ν → ν')

/-- Every key renamed and every value replaced, in place. -/
def rename (d : OrderedDict κ ν) : OrderedDict κ' ν' where
  entries := d.entries.map (Prod.map f g)
  nodup := by
    have hkeys : (d.entries.map (Prod.map f g)).map Prod.fst = (d.entries.map Prod.fst).map f := by
      simp [List.map_map, Function.comp_def]
    rw [hkeys]
    exact d.nodup.map hf

omit [DecidableEq κ] [DecidableEq κ'] in
@[simp] theorem rename_empty : (empty : OrderedDict κ ν).rename hf g = empty := rfl

@[simp] theorem get?_rename (d : OrderedDict κ ν) (k : κ) :
    (d.rename hf g).get? (f k) = (d.get? k).map g := by
  simp only [get?, rename]
  induction d.entries with
  | nil => rfl
  | cons e es ih =>
    rw [List.map_cons, Prod.map, lookup_cons_ite, lookup_cons_ite, ih]
    by_cases hk : k = e.1
    · simp [hk]
    · simp [hk, hf.eq_iff]

theorem rename_set (d : OrderedDict κ ν) (k : κ) (v : ν) :
    (d.set k v).rename hf g = (d.rename hf g).set (f k) (g v) := by
  have hentries : ∀ es : List (κ × ν),
      (setEntry k v es).map (Prod.map f g) = setEntry (f k) (g v) (es.map (Prod.map f g)) := by
    intro es
    induction es with
    | nil => rfl
    | cons e es ih =>
      by_cases hk : e.1 = k
      · simp [setEntry, hk]
      · simp [setEntry, hk, hf.eq_iff, ih]
  simp only [rename, set, hentries]

theorem rename_erase (d : OrderedDict κ ν) (k : κ) :
    (d.erase k).rename hf g = (d.rename hf g).erase (f k) := by
  simp only [rename, erase, mk.injEq, List.filter_map]
  refine congrArg _ (List.filter_congr fun e _ => ?_)
  simp [hf.eq_iff]

/-- A pass that treats a renamed value as the renamed result. -/
theorem traverse_rename {h : ν → Except ε ν} {h' : ν' → Except ε ν'}
    (hh : ∀ v, h' (g v) = (h v).map g) (d : OrderedDict κ ν) :
    (d.rename hf g).traverse h' = (d.traverse h).map (rename hf g) := by
  have hpass : ∀ (es : List (κ × ν)) (acc : OrderedDict κ ν),
      (es.map (Prod.map f g)).foldlM (fun acc e => (h' e.2).map (acc.set e.1)) (acc.rename hf g) =
        (es.foldlM (fun acc e => (h e.2).map (acc.set e.1)) acc).map (rename hf g) := by
    intro es
    induction es with
    | nil => exact fun acc => rfl
    | cons e es ih =>
      intro acc
      rw [List.map_cons, List.foldlM_cons, List.foldlM_cons]
      simp only [Prod.map, hh]
      cases h e.2 with
      | error failure => rfl
      | ok v =>
        simp only [Except.map, bind, Except.bind, ← rename_set]
        exact ih (acc.set e.1 v)
  exact hpass d.entries d

end Rename

end OrderedDict
