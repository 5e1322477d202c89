-- SUMMARY: The order in which the shrinker removes entries, against the order their priorities and deadlines ask for.
import KVDeadlineScheduler.Shrinker.Registry

/-!
# The ranking of the shrinker

An entry of no higher priority with no less time left is the better one to
reclaim. The score adds the urgency to the weight instead of taking it off, so
among entries of one priority the scan removes the one with the least time left.
What it removes is right only where an entry that is to go first leads all the same:
where scores are exact, that is where urgencies tie.
-/

namespace KvIntentShrinker

/-- `a` is to be reclaimed before `b`. -/
def Precedes (now : Ktime) (a b : KvBlockIntent) : Prop :=
  a.priority.toInt ≤ b.priority.toInt ∧
  b.remainingUs (kvNowUs now) ≤ a.remainingUs (kvNowUs now) ∧
  (a.priority.toInt < b.priority.toInt ∨
    b.remainingUs (kvNowUs now) < a.remainingUs (kvNowUs now))

instance (now : Ktime) (a b : KvBlockIntent) : Decidable (Precedes now a b) :=
  inferInstanceAs (Decidable (_ ∧ _))

/-- No evictable entry of the registry is to be reclaimed before `intent`. -/
def Foremost (now : Ktime) (registry : Registry) (intent : KvBlockIntent) : Prop :=
  ∀ other ∈ registry, kvIsEvictable other = true → ¬ Precedes now other intent

/-- The iterations of a scan, each with its clock reading and the registry it starts from. -/
def scanIterations : List Ktime → Registry → List (Ktime × Registry)
  | [], _ => []
  | now :: clock, registry =>
    (now, registry) ::
      match kvScanRemoval (scoreAt now) registry with
      | none => []
      | some (_, rest) => scanIterations clock rest

/-- The entries a scan removes, in order. -/
def scanRemoved (clock : List Ktime) (registry : Registry) : List KvBlockIntent :=
  (scanIterations clock registry).filterMap fun i =>
    (kvScanRemoval (scoreAt i.1) i.2).map Prod.fst

/-- The scan counts the entries its iterations remove, and keeps the others. -/
theorem kvShrinkerScan_removed (clock : List Ktime) (registry : Registry) :
    (kvShrinkerScan clock registry).1 = (scanRemoved clock registry).length ∧
    registry.Perm (scanRemoved clock registry ++ (kvShrinkerScan clock registry).2) := by
  induction clock generalizing registry with
  | nil => exact ⟨rfl, .refl _⟩
  | cons now clock ih =>
    rcases Selection.takeBest_cases kvIsEvictable (scoreAt now) registry with
      ⟨hnone, -⟩ | ⟨pre, x, post, hfirst, htake⟩
    · have hremoval : kvScanRemoval (scoreAt now) registry = none := hnone
      simp [kvShrinkerScan, scanRemoved, scanIterations, hremoval]
    · have hremoval : kvScanRemoval (scoreAt now) registry = some (x, pre ++ post) := htake
      have hremoved : scanRemoved (now :: clock) registry =
          x :: scanRemoved clock (pre ++ post) := by
        simp [scanRemoved, scanIterations, hremoval]
      have hscan : kvShrinkerScan (now :: clock) registry =
          ((kvShrinkerScan clock (pre ++ post)).1 + 1, (kvShrinkerScan clock (pre ++ post)).2) := by
        simp [kvShrinkerScan, hremoval]
      obtain ⟨hcount, hperm⟩ := ih (pre ++ post)
      rw [hremoved, hscan]
      refine ⟨by simp [hcount], ?_⟩
      rw [hfirst.split]
      exact List.perm_middle.trans (hperm.cons x)

/-- Whatever the scan removes, no better entry to reclaim is registered at that moment. -/
def ScanRespectsRanking (clock : List Ktime) (registry : Registry) : Prop :=
  ∀ i ∈ scanIterations clock registry, ∀ victim rest,
    kvScanRemoval (scoreAt i.1) i.2 = some (victim, rest) → Foremost i.1 i.2 victim

/-- Nothing is evictable, or some foremost evictable entry scores above those before it and no less
than those behind it. -/
def ForemostScoresBest (now : Ktime) (registry : Registry) : Prop :=
  (∀ intent ∈ registry, kvIsEvictable intent = false) ∨
  ∃ pre leader post,
    Selection.FirstBest kvIsEvictable (scoreAt now) registry pre leader post ∧
    Foremost now registry leader

/-- A scan respects the ranking when each iteration starts from such a registry, and only then. -/
theorem scanRespectsRanking_iff_best (clock : List Ktime) (registry : Registry) :
    ScanRespectsRanking clock registry ↔
      ∀ i ∈ scanIterations clock registry, ForemostScoresBest i.1 i.2 := by
  refine forall_congr' fun i => imp_congr_right fun _ => ?_
  constructor
  · intro h
    rcases Selection.takeBest_cases kvIsEvictable (scoreAt i.1) i.2 with
      ⟨-, hall⟩ | ⟨pre, leader, post, hfirst, htake⟩
    · exact .inl hall
    · exact .inr ⟨pre, leader, post, hfirst, h leader _ htake⟩
  · intro h victim rest htake
    obtain ⟨pre, post, hfirst, hrest⟩ := Selection.takeBest_eq_some htake
    rcases h with hall | ⟨pre', leader, post', hleader, hforemost⟩
    · have := hfirst.admitted
      rw [hall victim hfirst.mem] at this
      cases this
    · have hsame := hleader.takeBest_eq
      rw [hfirst.takeBest_eq, Option.some.injEq, Prod.mk.injEq] at hsame
      rw [hsame.1]
      exact hforemost

theorem evictable_priority {intent : KvBlockIntent} (h : kvIsEvictable intent = true) :
    intent.priority = .cold ∨ intent.priority = .warm := by
  unfold kvIsEvictable at h
  split at h
  · cases h
  split at h
  · cases h
  simpa using h

theorem priority_eq_of_toInt_eq {p q : KvPriorityLevel} (h : p.toInt = q.toInt) : p = q := by
  cases p <;> cases q <;> simp_all [KvPriorityLevel.toInt]

/-! ## The condition on deadlines and clocks -/

/-- The registry split at an evictable entry that has the longest time left of its priority, and longer
than any evictable one of a lower priority. With their wrapping, and with 500 for each step of priority,
the urgencies of the evictable entries before it are smaller than its own and those behind it are not
greater. -/
structure LongestLivedLeads (now : Ktime) (registry pre : Registry) (leader : KvBlockIntent)
    (post : Registry) : Prop where
  split : registry = pre ++ leader :: post
  evictable : kvIsEvictable leader = true
  longest : ∀ intent ∈ registry, kvIsEvictable intent = true → intent.priority = leader.priority →
    intent.remainingUs (kvNowUs now) ≤ leader.remainingUs (kvNowUs now)
  lower : ∀ intent ∈ registry, kvIsEvictable intent = true →
    intent.priority.toInt < leader.priority.toInt →
    intent.remainingUs (kvNowUs now) < leader.remainingUs (kvNowUs now)
  before : ∀ intent ∈ pre, kvIsEvictable intent = true →
    intent.wrappedUrgency (kvNowUs now) - 500 * intent.priority.toInt <
      leader.wrappedUrgency (kvNowUs now) - 500 * leader.priority.toInt
  after : ∀ intent ∈ post, kvIsEvictable intent = true →
    intent.wrappedUrgency (kvNowUs now) - 500 * intent.priority.toInt ≤
      leader.wrappedUrgency (kvNowUs now) - 500 * leader.priority.toInt

section Wrapped

variable {now : Ktime} {registry : Registry}

/-- The score of an evictable entry: 1000 or 500, and its urgency with the wrapping. -/
theorem scoreAt_eq {intent : KvBlockIntent} (h : kvIsEvictable intent = true) :
    scoreAt now intent = 1000 + (intent.wrappedUrgency (kvNowUs now) - 500 * intent.priority.toInt) := by
  have hweight : (kvPriorityWeight intent.priority).toInt = 1000 - 500 * intent.priority.toInt := by
    rcases evictable_priority h with hp | hp <;> rw [hp] <;> rfl
  rw [scoreAt, toInt_kvEvictionScore, hweight]
  ring

theorem foremost_iff {leader : KvBlockIntent} :
    Foremost now registry leader ↔
      (∀ intent ∈ registry, kvIsEvictable intent = true → intent.priority = leader.priority →
        intent.remainingUs (kvNowUs now) ≤ leader.remainingUs (kvNowUs now)) ∧
      ∀ intent ∈ registry, kvIsEvictable intent = true →
        intent.priority.toInt < leader.priority.toInt →
        intent.remainingUs (kvNowUs now) < leader.remainingUs (kvNowUs now) := by
  constructor
  · refine fun h => ⟨fun intent hin he heq => ?_, fun intent hin he hlt => ?_⟩
    · by_contra hfar
      exact h intent hin he ⟨heq ▸ le_rfl, by omega, .inr (by omega)⟩
    · by_contra hfar
      exact h intent hin he ⟨hlt.le, by omega, .inl hlt⟩
  · rintro ⟨hlongest, hlower⟩ other hin he ⟨hle, hremaining, hstrict⟩
    rcases eq_or_lt_of_le hle with heq | hlt
    · have := hlongest other hin he (priority_eq_of_toInt_eq heq)
      omega
    · have := hlower other hin he hlt
      omega

/-- The longest-lived entry leads exactly where it is the first best and foremost. -/
theorem longestLivedLeads_iff {pre post : Registry} {leader : KvBlockIntent} :
    LongestLivedLeads now registry pre leader post ↔
      Selection.FirstBest kvIsEvictable (scoreAt now) registry pre leader post ∧
      Foremost now registry leader := by
  constructor
  · intro h
    have hscore : scoreAt now leader = _ := scoreAt_eq h.evictable
    refine ⟨⟨h.split, h.evictable, fun y hy he => ?_, fun y hy he => ?_⟩,
      foremost_iff.mpr ⟨h.longest, h.lower⟩⟩
    · have := h.before y hy he
      rw [scoreAt_eq he, hscore]
      omega
    · have := h.after y hy he
      rw [scoreAt_eq he, hscore]
      omega
  · rintro ⟨hfirst, hforemost⟩
    obtain ⟨hlongest, hlower⟩ := foremost_iff.mp hforemost
    refine ⟨hfirst.split, hfirst.admitted, hlongest, hlower, fun y hy he => ?_, fun y hy he => ?_⟩
    · have := hfirst.before y hy he
      rw [scoreAt_eq he, scoreAt_eq hfirst.admitted] at this
      omega
    · have := hfirst.after y hy he
      rw [scoreAt_eq he, scoreAt_eq hfirst.admitted] at this
      omega

end Wrapped

/-! ## The condition where scores are exact -/

/-- The scores of the evictable entries are the numbers they stand for. -/
def ScoresExact (now : Ktime) (registry : Registry) : Prop :=
  ∀ intent ∈ registry, kvIsEvictable intent = true → ScoreExact intent (kvNowUs now)

/-- The urgency of an intent over the integers. -/
def KvBlockIntent.urgency (intent : KvBlockIntent) (now : Ktime) : ℤ :=
  clampedUrgency (intent.remainingUs (kvNowUs now))

/-- The registry split at the first evictable entry of the lowest priority present. All entries of
this priority are as urgent as the leader and have no more time left, and the others are not more
urgent by the 500 that the weights differ. -/
structure TiedLeader (now : Ktime) (registry pre : Registry) (leader : KvBlockIntent)
    (post : Registry) : Prop where
  split : registry = pre ++ leader :: post
  evictable : kvIsEvictable leader = true
  tied : ∀ intent ∈ registry, kvIsEvictable intent = true → intent.priority = leader.priority →
    intent.urgency now = leader.urgency now ∧
    intent.remainingUs (kvNowUs now) ≤ leader.remainingUs (kvNowUs now)
  before : ∀ intent ∈ pre, kvIsEvictable intent = true →
    leader.priority.toInt < intent.priority.toInt ∧
    intent.urgency now < leader.urgency now + 500
  after : ∀ intent ∈ post, kvIsEvictable intent = true →
    intent.priority = leader.priority ∨
    leader.priority.toInt < intent.priority.toInt ∧ intent.urgency now ≤ leader.urgency now + 500

section Exact

variable {now : Ktime} {registry : Registry}

theorem urgency_antitone {a b : KvBlockIntent}
    (h : a.remainingUs (kvNowUs now) ≤ b.remainingUs (kvNowUs now)) :
    b.urgency now ≤ a.urgency now := by
  have := rawUrgency_antitone h
  simp only [KvBlockIntent.urgency, clampedUrgency]
  omega

/-- The score of an evictable entry: 1000 or 500, and its urgency. -/
theorem scoreAt_of_exact {intent : KvBlockIntent} (hexact : ScoreExact intent (kvNowUs now))
    (h : kvIsEvictable intent = true) :
    scoreAt now intent = 1000 - 500 * intent.priority.toInt + intent.urgency now ∧
    0 ≤ intent.priority.toInt ∧ intent.priority.toInt ≤ 1 := by
  rw [scoreAt, hexact.2.1]
  rcases evictable_priority h with hp | hp <;> rw [hp] <;> exact ⟨rfl, by decide, by decide⟩

/-- Every other evictable entry ties with the leader or has the higher priority. -/
theorem TiedLeader.priority_cases {pre post : Registry} {leader intent : KvBlockIntent}
    (h : TiedLeader now registry pre leader post) (hin : intent ∈ registry)
    (he : kvIsEvictable intent = true) :
    intent.priority = leader.priority ∨ leader.priority.toInt < intent.priority.toInt := by
  rw [h.split, List.mem_append, List.mem_cons] at hin
  rcases hin with hin | rfl | hin
  · exact .inr (h.before intent hin he).1
  · exact .inl rfl
  · exact (h.after intent hin he).imp_right And.left

theorem TiedLeader.foremost {pre post : Registry} {leader : KvBlockIntent}
    (h : TiedLeader now registry pre leader post) : Foremost now registry leader := by
  rintro other hin he ⟨hle, hremaining, hstrict⟩
  rcases h.priority_cases hin he with heq | hlt
  · have := (h.tied other hin he heq).2
    rw [heq] at hstrict
    omega
  · omega

theorem TiedLeader.firstBest {pre post : Registry} {leader : KvBlockIntent}
    (hexact : ScoresExact now registry) (h : TiedLeader now registry pre leader post) :
    Selection.FirstBest kvIsEvictable (scoreAt now) registry pre leader post := by
  have hmem : leader ∈ registry := by rw [h.split]; simp
  have hleader := scoreAt_of_exact (hexact leader hmem h.evictable) h.evictable
  refine ⟨h.split, h.evictable, fun y hy he => ?_, fun y hy he => ?_⟩
  · have hin : y ∈ registry := by rw [h.split]; simp [hy]
    have hscore := scoreAt_of_exact (hexact y hin he) he
    have hbefore := h.before y hy he
    omega
  · have hin : y ∈ registry := by rw [h.split]; simp [hy]
    have hscore := scoreAt_of_exact (hexact y hin he) he
    rcases h.after y hy he with heq | ⟨hlt, hurgency⟩
    · have htied := (h.tied y hin he heq).1
      rw [heq] at hscore
      omega
    · omega

theorem tiedLeader_of_foremost {pre post : Registry} {leader : KvBlockIntent}
    (hexact : ScoresExact now registry)
    (h : Selection.FirstBest kvIsEvictable (scoreAt now) registry pre leader post)
    (hforemost : Foremost now registry leader) : TiedLeader now registry pre leader post := by
  have hleader := scoreAt_of_exact (hexact leader h.mem h.admitted) h.admitted
  -- An entry of lower priority would have less time left, so it would score higher than the leader.
  have hlowest : ∀ y ∈ registry, kvIsEvictable y = true →
      leader.priority.toInt ≤ y.priority.toInt := by
    intro y hin he
    by_contra hlt
    rw [not_le] at hlt
    have hscore := scoreAt_of_exact (hexact y hin he) he
    have hbest := h.le hin he
    have hnear : y.remainingUs (kvNowUs now) ≤ leader.remainingUs (kvNowUs now) := by
      by_contra hfar
      exact hforemost y hin he ⟨hlt.le, by omega, .inl hlt⟩
    have := urgency_antitone hnear
    omega
  have htied : ∀ y ∈ registry, kvIsEvictable y = true → y.priority = leader.priority →
      y.urgency now = leader.urgency now ∧
      y.remainingUs (kvNowUs now) ≤ leader.remainingUs (kvNowUs now) := by
    intro y hin he heq
    have hscore := scoreAt_of_exact (hexact y hin he) he
    have hbest := h.le hin he
    have hnear : y.remainingUs (kvNowUs now) ≤ leader.remainingUs (kvNowUs now) := by
      by_contra hfar
      exact hforemost y hin he ⟨heq ▸ le_rfl, by omega, .inr (by omega)⟩
    have := urgency_antitone hnear
    rw [heq] at hscore
    omega
  refine ⟨h.split, h.admitted, htied, fun y hy he => ?_, fun y hy he => ?_⟩
  · have hin : y ∈ registry := by rw [h.split]; simp [hy]
    have hscore := scoreAt_of_exact (hexact y hin he) he
    have hbest := h.before y hy he
    have hle := hlowest y hin he
    rcases eq_or_lt_of_le hle with heq | hlt
    · have := (htied y hin he (priority_eq_of_toInt_eq heq.symm)).1
      omega
    · omega
  · have hin : y ∈ registry := by rw [h.split]; simp [hy]
    have hscore := scoreAt_of_exact (hexact y hin he) he
    have hbest := h.after y hy he
    rcases eq_or_lt_of_le (hlowest y hin he) with heq | hlt
    · exact .inl (priority_eq_of_toInt_eq heq.symm)
    · exact .inr ⟨hlt, by omega⟩

end Exact

/-- Where scores are exact, an entry that is first best and foremost ties with all of its priority. -/
theorem tiedLeader_iff {now : Ktime} {registry pre post : Registry} {leader : KvBlockIntent}
    (hexact : ScoresExact now registry) :
    TiedLeader now registry pre leader post ↔
      Selection.FirstBest kvIsEvictable (scoreAt now) registry pre leader post ∧
      Foremost now registry leader :=
  ⟨fun h => ⟨h.firstBest hexact, h.foremost⟩, fun h => tiedLeader_of_foremost hexact h.1 h.2⟩

/-- The scan removes entries in the order asked for exactly when, in each of its iterations, nothing is
evictable or the longest-lived entry leads. Where scores are exact, that is so exactly when the
entries of the lowest evictable priority tie in urgency with the longest-lived of them first. -/
theorem scanRespectsRanking_iff (clock : List Ktime) (registry : Registry) :
    (ScanRespectsRanking clock registry ↔
      ∀ i ∈ scanIterations clock registry,
        (∀ intent ∈ i.2, kvIsEvictable intent = false) ∨
        ∃ pre leader post, LongestLivedLeads i.1 i.2 pre leader post) ∧
    ((∀ i ∈ scanIterations clock registry, ScoresExact i.1 i.2) →
      (ScanRespectsRanking clock registry ↔
        ∀ i ∈ scanIterations clock registry,
          (∀ intent ∈ i.2, kvIsEvictable intent = false) ∨
          ∃ pre leader post, TiedLeader i.1 i.2 pre leader post)) := by
  constructor
  · rw [scanRespectsRanking_iff_best]
    simp only [ForemostScoresBest, longestLivedLeads_iff]
  · intro hexact
    rw [scanRespectsRanking_iff_best]
    refine forall_congr' fun i => forall_congr' fun hi => ?_
    simp only [ForemostScoresBest, tiedLeader_iff (hexact i hi)]

/-- Of two cold entries registered together the scan removes the one with the nearer deadline. -/
theorem scan_removes_nearer_deadline :
    let far : KvBlockIntent := .register 1 100000 .cold 4096 ⟨0, by decide⟩
    let near : KvBlockIntent := .register 2 5000 .cold 4096 ⟨0, by decide⟩
    kvIsEvictable far = true ∧ kvIsEvictable near = true ∧ Precedes ⟨0, by decide⟩ far near ∧
    kvScanRemoval (scoreAt ⟨0, by decide⟩) [far, near] = some (near, [far]) ∧
    ¬ ScanRespectsRanking [⟨0, by decide⟩] [far, near] := by
  intro far near
  have hprecedes : Precedes ⟨0, by decide⟩ far near := by decide
  have htake : kvScanRemoval (scoreAt ⟨0, by decide⟩) [far, near] = some (near, [far]) := by decide
  refine ⟨by decide, by decide, hprecedes, htake, fun h => ?_⟩
  exact h (⟨0, by decide⟩, [far, near]) (by simp [scanIterations]) near [far] htake far (by simp)
    (by decide) hprecedes

end KvIntentShrinker
