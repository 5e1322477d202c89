-- SUMMARY: One call of the shrinker's scan: it ends, it frees as many entries as it can, and each is the best at its moment.
import KVDeadlineScheduler.Shrinker.Ranking

/-!
# A whole scan

Each round of the scan reads the clock again, so each round ranks the entries
anew. What every round does whatever the ranking is to take one evictable entry
out of its place, and from that the number of rounds and what is left follow.
-/

namespace KvIntentShrinker

/-- The loop of `kv_shrinker_scan`, as far as `fuel` tests of its condition take it. `clock freed` is
the reading of the round that starts with `freed` entries freed. -/
def kvShrinkerScanLoop (nrToScan : ℕ) (clock : ℕ → Ktime) :
    ℕ → ℕ → Registry → Option (ℕ × Registry)
  | 0, _, _ => none
  | fuel + 1, freed, registry =>
    if freed < nrToScan then
      match kvScanRemoval (scoreAt (clock freed)) registry with
      | none => some (freed, registry)
      | some (_, rest) => kvShrinkerScanLoop nrToScan clock fuel (freed + 1) rest
    else some (freed, registry)

/-- The readings of `rounds` rounds from round `first` on. -/
def readings (clock : ℕ → Ktime) (first rounds : ℕ) : List Ktime :=
  (List.range' first rounds).map clock

/-- Taking the entries `removed` out of the registry one after the other leaves `rest`. Each is
evictable and scores, at its round's reading, no less than any evictable entry there is. -/
inductive BestRemovals (clock : ℕ → Ktime) :
    ℕ → Registry → List KvBlockIntent → Registry → Prop where
  | nil (round : ℕ) (registry : Registry) : BestRemovals clock round registry [] registry
  | cons {round : ℕ} {pre post rest : Registry} {victim : KvBlockIntent}
      {removed : List KvBlockIntent} (evictable : kvIsEvictable victim = true)
      (best : ∀ other ∈ pre ++ victim :: post, kvIsEvictable other = true →
        scoreAt (clock round) other ≤ scoreAt (clock round) victim)
      (next : BestRemovals clock (round + 1) (pre ++ post) removed rest) :
      BestRemovals clock round (pre ++ victim :: post) (victim :: removed) rest

section Removals

variable {clock : ℕ → Ktime} {round : ℕ} {registry rest : Registry} {removed : List KvBlockIntent}

theorem BestRemovals.evictable_of_mem (h : BestRemovals clock round registry removed rest) :
    ∀ victim ∈ removed, kvIsEvictable victim = true := by
  induction h with
  | nil => simp
  | cons evictable _ _ ih =>
    intro victim hvictim
    rcases List.mem_cons.mp hvictim with rfl | hvictim
    · exact evictable
    · exact ih victim hvictim

/-- The entries that stay keep their order. -/
theorem BestRemovals.sublist (h : BestRemovals clock round registry removed rest) :
    rest.Sublist registry := by
  induction h with
  | nil => exact .refl _
  | cons _ _ _ ih => exact ih.trans (List.Sublist.append_left (List.sublist_cons_self _ _) _)

theorem BestRemovals.perm (h : BestRemovals clock round registry removed rest) :
    registry.Perm (removed ++ rest) := by
  induction h with
  | nil => exact .refl _
  | cons _ _ _ ih => exact List.perm_middle.trans (ih.cons _)

/-- Every removal takes one off the count. -/
theorem BestRemovals.count (h : BestRemovals clock round registry removed rest) :
    kvShrinkerCount registry = removed.length + kvShrinkerCount rest := by
  have hremoved : removed.countP kvIsEvictable = removed.length :=
    List.countP_eq_length.mpr h.evictable_of_mem
  have hcount := h.perm.countP_eq kvIsEvictable
  rw [List.countP_append, hremoved] at hcount
  exact hcount

end Removals

/-! ## The rounds -/

variable {clock : ℕ → Ktime}

theorem readings_succ (clock : ℕ → Ktime) (first rounds : ℕ) :
    readings clock first (rounds + 1) = clock first :: readings clock (first + 1) rounds := by
  simp [readings, List.range'_succ]

/-- The rounds remove the best entries, until there have been enough or no entry is evictable. -/
theorem kvShrinkerScan_bestRemovals (clock : ℕ → Ktime) (rounds first : ℕ) (registry : Registry) :
    ∃ removed rest, kvShrinkerScan (readings clock first rounds) registry = (removed.length, rest) ∧
      BestRemovals clock first registry removed rest ∧
      removed.length = min rounds (kvShrinkerCount registry) := by
  induction rounds generalizing first registry with
  | zero => exact ⟨[], registry, by simp [readings, kvShrinkerScan], .nil first registry, by simp⟩
  | succ rounds ih =>
    rw [readings_succ]
    rcases Selection.takeBest_cases kvIsEvictable (scoreAt (clock first)) registry with
      ⟨hnone, hall⟩ | ⟨pre, victim, post, hfirst, htake⟩
    · have hremoval : kvScanRemoval (scoreAt (clock first)) registry = none := hnone
      have hcount : kvShrinkerCount registry = 0 := by
        simpa [kvShrinkerCount, List.countP_eq_zero] using hall
      exact ⟨[], registry, by simp [kvShrinkerScan, hremoval], .nil first registry, by simp [hcount]⟩
    · have hremoval : kvScanRemoval (scoreAt (clock first)) registry = some (victim, pre ++ post) :=
        htake
      obtain ⟨removed, rest, hscan, hbest, hlength⟩ := ih (first + 1) (pre ++ post)
      have hvictim := fun other hother he => hfirst.le (y := other) hother he
      rw [hfirst.split] at hremoval hvictim ⊢
      have hcount : kvShrinkerCount (pre ++ victim :: post) = kvShrinkerCount (pre ++ post) + 1 := by
        simp [kvShrinkerCount, List.countP_append, hfirst.admitted, Nat.add_assoc]
      refine ⟨victim :: removed, rest, ?_, .cons hfirst.admitted hvictim hbest, ?_⟩
      · simp [kvShrinkerScan, hremoval, hscan]
      · rw [List.length_cons, hlength, hcount, Nat.add_min_add_right]

/-- The loop ends within one more test than rounds are asked for. -/
theorem kvShrinkerScanLoop_eq {nrToScan : ℕ} (clock : ℕ → Ktime) (rounds : ℕ) {freed fuel : ℕ}
    (registry : Registry) (hrounds : freed + rounds = nrToScan) (hfuel : rounds < fuel) :
    kvShrinkerScanLoop nrToScan clock fuel freed registry =
      some (freed + (kvShrinkerScan (readings clock freed rounds) registry).1,
        (kvShrinkerScan (readings clock freed rounds) registry).2) := by
  induction rounds generalizing freed fuel registry with
  | zero =>
    obtain ⟨fuel, rfl⟩ := Nat.exists_eq_add_one.mpr hfuel
    have hdone : ¬ freed < nrToScan := by omega
    simp [kvShrinkerScanLoop, hdone, readings, kvShrinkerScan]
  | succ rounds ih =>
    obtain ⟨fuel, rfl⟩ := Nat.exists_eq_add_one.mpr (Nat.zero_lt_of_lt hfuel)
    have hmore : freed < nrToScan := by omega
    rw [readings_succ, kvShrinkerScanLoop, if_pos hmore, kvShrinkerScan]
    cases kvScanRemoval (scoreAt (clock freed)) registry with
    | none => rfl
    | some removal =>
      have hnext := ih removal.2 (by omega : freed + 1 + rounds = nrToScan) (by omega : rounds < fuel)
      simp only [hnext, Option.some.injEq, Prod.mk.injEq, and_true]
      omega

/-- A scan ends whatever the clock shows. It returns the lesser of what it was asked for and what the
count was, which is how many entries it removes, each the best at its moment; the rest stay as they
were and are what the next count sees. -/
theorem kvShrinkerScan_frees (registry : Registry) (nrToScan : ℕ) (clock : ℕ → Ktime) :
    ∃ removed rest,
      (∀ fuel, nrToScan < fuel →
        kvShrinkerScanLoop nrToScan clock fuel 0 registry =
          some (min nrToScan (kvShrinkerCount registry), rest)) ∧
      removed.length = min nrToScan (kvShrinkerCount registry) ∧
      (∀ victim ∈ removed, kvIsEvictable victim = true) ∧
      BestRemovals clock 0 registry removed rest ∧
      rest.Sublist registry ∧ registry.Perm (removed ++ rest) ∧
      kvShrinkerCount rest =
        kvShrinkerCount registry - min nrToScan (kvShrinkerCount registry) := by
  obtain ⟨removed, rest, hscan, hbest, hlength⟩ :=
    kvShrinkerScan_bestRemovals clock nrToScan 0 registry
  refine ⟨removed, rest, fun fuel hfuel => ?_, hlength, hbest.evictable_of_mem, hbest, hbest.sublist,
    hbest.perm, ?_⟩
  · have hloop := kvShrinkerScanLoop_eq clock nrToScan registry (Nat.zero_add nrToScan) hfuel
    rw [hloop, hscan, hlength, Nat.zero_add]
  · have hcount := hbest.count
    omega

end KvIntentShrinker
