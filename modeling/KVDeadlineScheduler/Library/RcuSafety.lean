-- SUMMARY: What every interleaving of writers, readers and releases keeps: no dangling pointer is read, and the table is the one the writes leave.
import KVDeadlineScheduler.Library.RcuTable

/-!
# Safety of bucket tables read under grace periods

The buckets are segments of linked nodes. What a reader has still to walk is a
path of nodes held for it: linked ones, unlinked ones whose release has not been
asked for, and retired ones that wait for this reader. No step releases a held
node, and no step brings a new node into a path.
-/

namespace RcuTable

open BucketTable (Write)

variable {α β ρ : Type}

/-! ## Segments -/

section Segments

variable {heap heap' : ℕ → Option (Node α β ρ)} {bucket : β}

/-- The nodes from a pointer to a later one, and the links that hold the two pointers. -/
inductive Seg (heap : ℕ → Option (Node α β ρ)) (bucket : β) :
    Link β → Option ℕ → List ℕ → Link β → Option ℕ → Prop where
  | nil {link : Link β} {cursor : Option ℕ} : Seg heap bucket link cursor [] link cursor
  | cons {link link' : Link β} {cursor' : Option ℕ} {i : ℕ} {node : Node α β ρ} {l : List ℕ}
      (hi : heap i = some node) (hpprev : node.pprev = link) (hphase : node.phase = .linked bucket)
      (rest : Seg heap bucket (.next i) node.next l link' cursor') :
      Seg heap bucket link (some i) (i :: l) link' cursor'

/-- A segment up to the null pointer. -/
def Chain (heap : ℕ → Option (Node α β ρ)) (bucket : β) (link : Link β) (cursor : Option ℕ)
    (l : List ℕ) : Prop :=
  ∃ last, Seg heap bucket link cursor l last none

variable {link link₁ link₂ : Link β} {cursor cursor₁ cursor₂ : Option ℕ} {l l' : List ℕ}

theorem Seg.append (h : Seg heap bucket link cursor l link₁ cursor₁)
    (h' : Seg heap bucket link₁ cursor₁ l' link₂ cursor₂) :
    Seg heap bucket link cursor (l ++ l') link₂ cursor₂ := by
  induction h with
  | nil => exact h'
  | cons hi hpprev hphase _ ih => exact .cons hi hpprev hphase (ih h')

theorem Seg.split (h : Seg heap bucket link cursor (l ++ l') link₂ cursor₂) :
    ∃ link₁ cursor₁, Seg heap bucket link cursor l link₁ cursor₁ ∧
      Seg heap bucket link₁ cursor₁ l' link₂ cursor₂ := by
  induction l generalizing link cursor with
  | nil => exact ⟨link, cursor, .nil, h⟩
  | cons i l ih =>
    cases h with
    | cons hi hpprev hphase rest =>
      obtain ⟨link₁, cursor₁, h₁, h₂⟩ := ih rest
      exact ⟨link₁, cursor₁, .cons hi hpprev hphase h₁, h₂⟩

theorem Seg.linked (h : Seg heap bucket link cursor l link₁ cursor₁) {i : ℕ} (hi : i ∈ l) :
    ∃ node, heap i = some node ∧ node.phase = .linked bucket := by
  induction h with
  | nil => cases hi
  | cons hnode _ hphase _ ih =>
    cases hi with
    | head => exact ⟨_, hnode, hphase⟩
    | tail _ hi => exact ih hi

theorem Seg.of_nil (h : Seg heap bucket link cursor [] link₁ cursor₁) :
    link₁ = link ∧ cursor₁ = cursor := by
  cases h
  exact ⟨rfl, rfl⟩

/-- The pointers of a node, and the bucket it is linked in if it is. -/
def SameLinks (node node' : Node α β ρ) : Prop :=
  node'.next = node.next ∧ node'.pprev = node.pprev ∧
    ∀ bucket, node.phase = .linked bucket → node'.phase = .linked bucket

theorem Seg.congr (h : Seg heap bucket link cursor l link₁ cursor₁)
    (hsame : ∀ i ∈ l, ∀ node, heap i = some node →
      ∃ node', heap' i = some node' ∧ SameLinks node node') :
    Seg heap' bucket link cursor l link₁ cursor₁ := by
  induction h with
  | nil => exact .nil
  | @cons link link' cursor' i node l hi hpprev hphase _ ih =>
    obtain ⟨node', hi', hnext, hpprev', hphase'⟩ := hsame i List.mem_cons_self node hi
    refine .cons hi' (hpprev'.trans hpprev) (hphase' _ hphase) ?_
    rw [hnext]
    exact ih fun j hj => hsame j (List.mem_cons_of_mem i hj)

theorem Seg.frame (h : Seg heap bucket link cursor l link₁ cursor₁)
    (hsame : ∀ i ∈ l, heap' i = heap i) : Seg heap' bucket link cursor l link₁ cursor₁ :=
  h.congr fun i hi node hnode => ⟨node, (hsame i hi).trans hnode, rfl, rfl, fun _ h => h⟩

theorem Chain.congr (h : Chain heap bucket link cursor l)
    (hsame : ∀ i ∈ l, ∀ node, heap i = some node →
      ∃ node', heap' i = some node' ∧ SameLinks node node') :
    Chain heap' bucket link cursor l :=
  h.imp fun _ hseg => hseg.congr hsame

theorem Chain.frame (h : Chain heap bucket link cursor l) (hsame : ∀ i ∈ l, heap' i = heap i) :
    Chain heap' bucket link cursor l :=
  h.imp fun _ hseg => hseg.frame hsame

theorem Chain.linked (h : Chain heap bucket link cursor l) {i : ℕ} (hi : i ∈ l) :
    ∃ node, heap i = some node ∧ node.phase = .linked bucket :=
  h.elim fun _ hseg => hseg.linked hi

end Segments

/-! ## Paths -/

/-- The node is not released while this reader is active. -/
def Phase.HeldFor (r : ρ) : Phase β ρ → Prop
  | .linked _ => True
  | .unlinked => True
  | .retired waits => r ∈ waits

def Phase.IsLinked : Phase β ρ → Prop
  | .linked _ => True
  | .unlinked => False
  | .retired _ => False

section Paths

variable {heap heap' : ℕ → Option (Node α β ρ)} {r : ρ}

/-- What a reader at a pointer has still to walk. -/
inductive Path (heap : ℕ → Option (Node α β ρ)) (r : ρ) : Option ℕ → List ℕ → Prop where
  | nil : Path heap r none []
  | cons {i : ℕ} {node : Node α β ρ} {l : List ℕ} (hi : heap i = some node)
      (hheld : node.phase.HeldFor r) (rest : Path heap r node.next l) :
      Path heap r (some i) (i :: l)

theorem Chain.path {bucket : β} {link : Link β} {cursor : Option ℕ} {l : List ℕ}
    (h : Chain heap bucket link cursor l) : Path heap r cursor l := by
  obtain ⟨last, h⟩ := h
  generalize hend : (none : Option ℕ) = stop at h
  induction h with
  | nil =>
    subst hend
    exact .nil
  | cons hi _ hphase _ ih => exact .cons hi (by simp [hphase, Phase.HeldFor]) (ih hend)

/-- What a step may do to the nodes held for a reader: a pointer may skip one node that is no
longer linked, and whose own pointer is still what it was. -/
def Evolves (r : ρ) (heap heap' : ℕ → Option (Node α β ρ)) : Prop :=
  ∀ i node, heap i = some node → node.phase.HeldFor r →
    ∃ node', heap' i = some node' ∧ node'.value = node.value ∧ node'.phase.HeldFor r ∧
      (node'.phase.IsLinked → node.phase.IsLinked) ∧
      (node'.next = node.next ∨ ∃ j skipped skipped', node.next = some j ∧
        heap j = some skipped ∧ heap' j = some skipped' ∧ ¬ skipped'.phase.IsLinked ∧
        skipped'.next = skipped.next ∧ node'.next = skipped.next)

theorem Evolves.refl (r : ρ) (heap : ℕ → Option (Node α β ρ)) : Evolves r heap heap :=
  fun _ node hi hheld => ⟨node, hi, rfl, hheld, id, .inl rfl⟩

theorem evolves_forget [DecidableEq ρ] {r r' : ρ} (hne : r' ≠ r) (heap : ℕ → Option (Node α β ρ)) :
    Evolves r' heap fun i => (heap i).map fun node => { node with phase := node.phase.forget r } := by
  intro i node hi hheld
  refine ⟨{ node with phase := node.phase.forget r }, by simp [hi], rfl, ?_, ?_, .inl rfl⟩
  · cases hphase : node.phase with
    | linked bucket => trivial
    | unlinked => trivial
    | retired waits =>
      rw [hphase] at hheld
      exact List.mem_filter.mpr ⟨hheld, by simpa using hne⟩
  · cases hphase : node.phase with
    | linked bucket => exact fun _ => trivial
    | unlinked => exact id
    | retired waits => exact id

theorem Path.evolve {cursor : Option ℕ} {l : List ℕ} (h : Path heap r cursor l)
    (hstep : Evolves r heap heap') :
    ∃ l', Path heap' r cursor l' ∧ l'.Sublist l ∧
      ∀ i ∈ l, ∀ node', heap' i = some node' → node'.phase.IsLinked → i ∈ l' := by
  induction h with
  | nil => exact ⟨[], .nil, .slnil, fun _ h => absurd h List.not_mem_nil⟩
  | @cons i node l hi hheld rest ih =>
    obtain ⟨l', hpath, hsub, hkeep⟩ := ih
    obtain ⟨node', hi', -, hheld', -, hnext⟩ := hstep i node hi hheld
    rcases hnext with hnext | ⟨j, skipped, skipped', hj, hskip, hskip', hout, hthrough, hnext⟩
    · refine ⟨i :: l', .cons hi' hheld' (hnext ▸ hpath), hsub.cons_cons i, ?_⟩
      intro k hk knode hknode hlinked
      cases hk with
      | head => exact List.mem_cons_self
      | tail _ hk => exact List.mem_cons_of_mem _ (hkeep k hk knode hknode hlinked)
    · -- the rest of the walk loses its first node, the one the pointer skips
      rw [hj] at hpath
      cases hpath with
      | @cons _ node'' l'' hj' _ hrest =>
        obtain rfl : node'' = skipped' := Option.some.inj (hj'.symm.trans hskip')
        rw [hthrough, ← hnext] at hrest
        refine ⟨i :: l'', .cons hi' hheld' hrest,
          ((List.sublist_cons_self j l'').trans hsub).cons_cons i, ?_⟩
        intro k hk knode hknode hlinked
        cases hk with
        | head => exact List.mem_cons_self
        | tail _ hk =>
          rcases List.mem_cons.mp (hkeep k hk knode hknode hlinked) with rfl | hin
          · obtain rfl : knode = node'' := Option.some.inj (hknode.symm.trans hj')
            exact absurd hlinked hout
          · exact List.mem_cons_of_mem _ hin

end Paths

/-! ## Rewriting a bucket -/

section Rewrites

variable {s : State α β ρ} {bucket : β}

theorem setNode_eq {i : ℕ} {node : Node α β ρ} (hi : s.heap i = some node)
    (f : Node α β ρ → Node α β ρ) :
    s.setNode i f = .ok { s with heap := Function.update s.heap i (some (f node)) } := by
  simp [State.setNode, State.deref, hi, bind, Except.bind, pure, Except.pure]

theorem stopsAt_node {i : ℕ} {node : Node α β ρ} (hi : s.heap i = some node) (wanted : α → Bool) :
    stopsAt s (some i) wanted =
      .ok (if wanted node.value then .inl (some (i, node.value)) else .inr node.next) := by
  simp only [stopsAt, State.deref, hi, bind, Except.bind]
  split <;> rfl

/-- Where a walk along a chain stands: at its end, or at its first node. -/
theorem Chain.stops {link : Link β} {cursor : Option ℕ} {l : List ℕ}
    (h : Chain s.heap bucket link cursor l) (wanted : α → Bool) :
    (cursor = none ∧ l = [] ∧ stopsAt s cursor wanted = .ok (.inl none)) ∨
    ∃ i node rest, cursor = some i ∧ l = i :: rest ∧ s.heap i = some node ∧
      Seg s.heap bucket link (some i) [i] (.next i) node.next ∧
      Chain s.heap bucket (.next i) node.next rest ∧
      stopsAt s cursor wanted =
        .ok (if wanted node.value then .inl (some (i, node.value)) else .inr node.next) := by
  obtain ⟨last, hseg⟩ := h
  generalize hend : (none : Option ℕ) = stop at hseg
  cases hseg with
  | nil =>
    subst hend
    exact .inl ⟨rfl, rfl, rfl⟩
  | @cons _ _ _ i node rest hi hpprev hphase hrest =>
    subst hend
    exact .inr ⟨i, node, rest, rfl, rfl, hi, .cons hi hpprev hphase .nil, ⟨last, hrest⟩,
      stopsAt_node hi wanted⟩

theorem Path.stops {r : ρ} {cursor : Option ℕ} {l : List ℕ} (h : Path s.heap r cursor l)
    (wanted : α → Bool) :
    (cursor = none ∧ l = [] ∧ stopsAt s cursor wanted = .ok (.inl none)) ∨
    ∃ i node rest, cursor = some i ∧ l = i :: rest ∧ s.heap i = some node ∧
      Path s.heap r node.next rest ∧
      stopsAt s cursor wanted =
        .ok (if wanted node.value then .inl (some (i, node.value)) else .inr node.next) := by
  cases h with
  | nil => exact .inl ⟨rfl, rfl, rfl⟩
  | @cons i node rest hi _ hrest =>
    exact .inr ⟨i, node, rest, rfl, rfl, hi, hrest, stopsAt_node hi wanted⟩

/-- One bucket goes from the nodes `l` to the nodes `l'`, and no held node is lost. -/
structure Rewrites (s s' : State α β ρ) (bucket : β) (l l' : List ℕ) : Prop where
  rest : s' = { s with heads := s'.heads, heap := s'.heap }
  heads : ∀ other, other ≠ bucket → s'.heads other = s.heads other
  chain : Chain s'.heap bucket (.head bucket) (s'.heads bucket) l'
  nodup : l'.Nodup
  frame : ∀ i node, s.heap i = some node → i ∉ l → s'.heap i = some node
  values : ∀ i node, s.heap i = some node → ∃ node', s'.heap i = some node' ∧ node'.value = node.value
  evolves : ∀ r, Evolves r s.heap s'.heap

theorem Rewrites.refl {l : List ℕ}
    (hchain : Chain s.heap bucket (.head bucket) (s.heads bucket) l) (hnodup : l.Nodup) :
    Rewrites s s bucket l l :=
  ⟨rfl, fun _ _ => rfl, hchain, hnodup, fun _ _ hi _ => hi, fun _ node hi => ⟨node, hi, rfl⟩,
    fun r => .refl r _⟩

def valueAt (heap : ℕ → Option (Node α β ρ)) (i : ℕ) : Option α := (heap i).map Node.value

theorem Rewrites.linked {s' : State α β ρ} {l l' : List ℕ} (h : Rewrites s s' bucket l l') {i : ℕ}
    {node : Node α β ρ} (hi : s.heap i = some node) (hlinked : node.phase.IsLinked)
    (hin : i ∈ l → i ∈ l') : ∃ node', s'.heap i = some node' ∧ node'.phase.IsLinked := by
  by_cases hl : i ∈ l
  · obtain ⟨node', hi', hphase⟩ := h.chain.linked (hin hl)
    exact ⟨node', hi', by simp [hphase, Phase.IsLinked]⟩
  · exact ⟨node, h.frame i node hi hl, hlinked⟩

theorem Rewrites.valueAt_eq {s' : State α β ρ} {l l' : List ℕ} (h : Rewrites s s' bucket l l') {i : ℕ}
    {node : Node α β ρ} (hi : s.heap i = some node) : valueAt s'.heap i = valueAt s.heap i := by
  obtain ⟨node', hi', hvalue⟩ := h.values i node hi
  rw [valueAt, valueAt, hi, hi', Option.map_some, Option.map_some, hvalue]

variable [DecidableEq β]

/-- A store through the link at which a segment ends moves the end of the segment. -/
theorem store_end {link : Link β} {cursor : Option ℕ} {pre : List ℕ}
    (hseg : Seg s.heap bucket (.head bucket) (s.heads bucket) pre link cursor) (hnodup : pre.Nodup)
    (target : Option ℕ) :
    ∃ heads heap, s.store link target = .ok { s with heads := heads, heap := heap } ∧
      Seg heap bucket (.head bucket) (heads bucket) pre link target ∧
      (∀ other, other ≠ bucket → heads other = s.heads other) ∧
      (∀ i, i ∉ pre → heap i = s.heap i) ∧
      ∀ i node, s.heap i = some node → ∃ node', heap i = some node' ∧ node'.value = node.value ∧
        node'.phase = node.phase ∧
        (node'.next = node.next ∨ node.next = cursor ∧ node'.next = target) := by
  rcases List.eq_nil_or_concat pre with rfl | ⟨front, p, rfl⟩
  · obtain ⟨rfl, rfl⟩ := hseg.of_nil
    refine ⟨Function.update s.heads bucket target, s.heap, rfl, ?_, ?_, fun _ _ => rfl, ?_⟩
    · rw [Function.update_self]
      exact .nil
    · exact fun other hne => Function.update_of_ne hne _ _
    · exact fun i node hi => ⟨node, hi, rfl, rfl, .inl rfl⟩
  · rw [List.concat_eq_append] at hseg hnodup ⊢
    have hp : p ∉ front := fun hin => by
      simpa using (List.nodup_append.mp hnodup).2.2 p hin p (List.mem_singleton_self p)
    obtain ⟨link', cursor', hfront, hlast⟩ := hseg.split
    cases hlast with
    | @cons _ _ _ _ node _ hi hpprev hphase rest =>
      obtain ⟨rfl, rfl⟩ := rest.of_nil
      let node' : Node α β ρ := { node with next := target }
      refine ⟨s.heads, Function.update s.heap p (some node'), setNode_eq hi _, ?_,
        fun _ _ => rfl, ?_, ?_⟩
      · have hend : Seg (Function.update s.heap p (some node')) bucket link' (some p) [p] (.next p) target :=
          .cons (Function.update_self ..) hpprev hphase .nil
        refine Seg.append (hfront.frame fun j hj => Function.update_of_ne ?_ _ _) hend
        rintro rfl
        exact hp hj
      · intro j hj
        refine Function.update_of_ne ?_ _ _
        rintro rfl
        exact hj (List.mem_append_right _ (List.mem_singleton_self j))
      · intro j other hj
        by_cases heq : j = p
        · subst heq
          obtain rfl : node = other := Option.some.inj (hi.symm.trans hj)
          exact ⟨node', Function.update_self .., rfl, rfl, .inr ⟨rfl, rfl⟩⟩
        · exact ⟨other, (Function.update_of_ne heq _ _).trans hj, rfl, rfl, .inl rfl⟩

omit [DecidableEq β] in
/-- Storing a `pprev` gives the chain that starts at the pointer another link to hang on. -/
theorem setPprev_start {link : Link β} {cursor : Option ℕ} {l : List ℕ}
    (hchain : Chain s.heap bucket link cursor l) (hnodup : l.Nodup) (link' : Link β) :
    ∃ heap, s.setPprev cursor link' = .ok { s with heap := heap } ∧
      Chain heap bucket link' cursor l ∧ (∀ i, i ∉ l → heap i = s.heap i) ∧
      ∀ i node, s.heap i = some node → ∃ node', heap i = some node' ∧ node'.value = node.value ∧
        node'.phase = node.phase ∧ node'.next = node.next := by
  obtain ⟨last, hseg⟩ := hchain
  generalize hstop : (none : Option ℕ) = stop at hseg
  cases hseg with
  | nil =>
    subst hstop
    exact ⟨s.heap, rfl, ⟨link', .nil⟩, fun _ _ => rfl, fun i node hi => ⟨node, hi, rfl, rfl, rfl⟩⟩
  | @cons _ _ _ i node l hi hpprev hphase rest =>
    subst hstop
    have hout : i ∉ l := (List.nodup_cons.mp hnodup).1
    let node' : Node α β ρ := { node with pprev := link' }
    refine ⟨Function.update s.heap i (some node'), setNode_eq hi _, ⟨last, ?_⟩, ?_, ?_⟩
    · have hrest : Seg (Function.update s.heap i (some node')) bucket (.next i) node.next l last none := by
        refine rest.frame fun j hj => Function.update_of_ne ?_ _ _
        rintro rfl
        exact hout hj
      exact .cons (Function.update_self ..) rfl hphase hrest
    · intro j hj
      refine Function.update_of_ne ?_ _ _
      rintro rfl
      exact hj List.mem_cons_self
    · intro j other hj
      by_cases heq : j = i
      · subst heq
        obtain rfl : node = other := Option.some.inj (hi.symm.trans hj)
        exact ⟨node', Function.update_self .., rfl, rfl, rfl⟩
      · exact ⟨other, (Function.update_of_ne heq _ _).trans hj, rfl, rfl, rfl⟩

theorem addHead_rewrites {l : List ℕ} {fresh : ℕ}
    (hchain : Chain s.heap bucket (.head bucket) (s.heads bucket) l) (hnodup : l.Nodup)
    (hfresh : s.heap fresh = none) (x : α) :
    ∃ s', s.addHead fresh bucket x = .ok s' ∧ Rewrites s s' bucket l (fresh :: l) ∧
      ∃ node, s'.heap fresh = some node ∧ node.value = x := by
  have hne : ∀ i node, s.heap i = some node → i ≠ fresh := by
    rintro i node hi rfl
    rw [hfresh] at hi
    cases hi
  have hout : fresh ∉ l := by
    intro hin
    obtain ⟨node, hi, -⟩ := hchain.linked hin
    exact hne fresh node hi rfl
  let node : Node α β ρ := ⟨x, s.heads bucket, .head bucket, .linked bucket⟩
  let s₁ : State α β ρ :=
    { s with
      heap := Function.update s.heap fresh (some node)
      heads := Function.update s.heads bucket (some fresh) }
  have hchain₁ : Chain s₁.heap bucket (.head bucket) (s.heads bucket) l := hchain.frame fun i hi => by
    refine Function.update_of_ne ?_ _ _
    rintro rfl
    exact hout hi
  obtain ⟨heap, hset, hchain', hframe, hnodes⟩ := setPprev_start hchain₁ hnodup (.next fresh)
  have hheap : heap fresh = some node := (hframe fresh hout).trans (Function.update_self ..)
  refine ⟨{ s₁ with heap := heap }, ?_, ?_, node, hheap, rfl⟩
  · simp only [State.addHead, State.store, bind, Except.bind]
    exact hset
  · have hnode : ∀ i other, s.heap i = some other → ∃ other', heap i = some other' ∧
        other'.value = other.value ∧ other'.phase = other.phase ∧ other'.next = other.next :=
      fun i other hi => hnodes i other ((Function.update_of_ne (hne i other hi) _ _).trans hi)
    refine ⟨rfl, fun other h => Function.update_of_ne h _ _, ?_, List.nodup_cons.mpr ⟨hout, hnodup⟩,
      ?_, ?_, ?_⟩
    · obtain ⟨last, hseg⟩ := hchain'
      refine ⟨last, ?_⟩
      simp only [s₁, Function.update_self]
      exact .cons hheap rfl rfl hseg
    · intro i other hi hin
      calc heap i = s₁.heap i := hframe i hin
        _ = s.heap i := Function.update_of_ne (hne i other hi) _ _
        _ = some other := hi
    · intro i other hi
      obtain ⟨other', hi', hvalue, -⟩ := hnode i other hi
      exact ⟨other', hi', hvalue⟩
    · intro r i other hi hheld
      obtain ⟨other', hi', hvalue, hphase, hnext⟩ := hnode i other hi
      exact ⟨other', hi', hvalue, hphase ▸ hheld, fun h => hphase ▸ h, .inl hnext⟩

theorem unlink_rewrites {pre suf : List ℕ} {i : ℕ}
    (hchain : Chain s.heap bucket (.head bucket) (s.heads bucket) (pre ++ i :: suf))
    (hnodup : (pre ++ i :: suf).Nodup) :
    ∃ s', s.unlink i = .ok s' ∧ Rewrites s s' bucket (pre ++ i :: suf) (pre ++ suf) := by
  obtain ⟨hpre, hsuf, hdisjoint⟩ := List.nodup_append.mp hnodup
  have hi_suf : i ∉ suf := (List.nodup_cons.mp hsuf).1
  have hi_pre : i ∉ pre := fun h => hdisjoint i h i List.mem_cons_self rfl
  have hpre_suf : ∀ j ∈ pre, j ∉ suf := fun j hj h => hdisjoint j hj j (List.mem_cons_of_mem i h) rfl
  obtain ⟨last, hseg⟩ := hchain
  obtain ⟨link, cursor, hfront, hback⟩ := hseg.split
  cases hback with
  | @cons _ _ _ _ node _ hi hpprev hphase rest =>
    -- the link in front of the node is moved past it
    obtain ⟨heads₁, heap₁, hstore, hfront₁, hheads₁, hframe₁, hnodes₁⟩ :=
      store_end hfront hpre node.next
    have hrest₁ : Chain heap₁ bucket (.next i) node.next suf :=
      ⟨last, rest.frame fun j hj => hframe₁ j fun h => hpre_suf j h hj⟩
    -- the node behind it hangs on that link
    obtain ⟨heap₂, hset, hrest₂, hframe₂, hnodes₂⟩ :=
      setPprev_start (s := { s with heads := heads₁, heap := heap₁ }) hrest₁
        (List.nodup_cons.mp hsuf).2 link
    have hi₂ : heap₂ i = some node :=
      (hframe₂ i hi_suf).trans ((hframe₁ i hi_pre).trans hi)
    let node' : Node α β ρ := { node with phase := .unlinked }
    refine ⟨{ s with heads := heads₁, heap := Function.update heap₂ i (some node') }, ?_, ?_⟩
    · simp only [State.unlink, State.deref, hi, bind, Except.bind, hpprev, hstore, hset]
      exact setNode_eq (s := { s with heads := heads₁, heap := heap₂ }) hi₂ _
    · refine ⟨rfl, hheads₁, ?_, ?_, ?_, ?_, ?_⟩
      · obtain ⟨last₂, hrest₂⟩ := hrest₂
        refine ⟨last₂, Seg.append (hfront₁.frame fun j hj => ?_) (hrest₂.frame fun j hj => ?_)⟩
        · refine (Function.update_of_ne ?_ _ _).trans (hframe₂ j (hpre_suf j hj))
          rintro rfl
          exact hi_pre hj
        · refine Function.update_of_ne ?_ _ _
          rintro rfl
          exact hi_suf hj
      · exact hnodup.sublist ((List.sublist_cons_self i suf).append_left pre)
      · intro j other hj hout
        simp only [List.mem_append, List.mem_cons, not_or] at hout
        calc Function.update heap₂ i (some node') j = heap₂ j := Function.update_of_ne hout.2.1 _ _
          _ = heap₁ j := hframe₂ j hout.2.2
          _ = s.heap j := hframe₁ j hout.1
          _ = some other := hj
      · intro j other hj
        by_cases heq : j = i
        · subst heq
          obtain rfl : node = other := Option.some.inj (hi.symm.trans hj)
          exact ⟨node', Function.update_self .., rfl⟩
        · obtain ⟨other₁, hj₁, hvalue₁, -⟩ := hnodes₁ j other hj
          obtain ⟨other₂, hj₂, hvalue₂, -⟩ := hnodes₂ j other₁ hj₁
          exact ⟨other₂, (Function.update_of_ne heq _ _).trans hj₂, hvalue₂.trans hvalue₁⟩
      · intro r j other hj hheld
        by_cases heq : j = i
        · subst heq
          obtain rfl : node = other := Option.some.inj (hi.symm.trans hj)
          exact ⟨node', Function.update_self .., rfl, trivial, fun h => absurd h id, .inl rfl⟩
        · obtain ⟨other₁, hj₁, hvalue₁, hphase₁, hnext₁⟩ := hnodes₁ j other hj
          obtain ⟨other₂, hj₂, hvalue₂, hphase₂, hnext₂⟩ := hnodes₂ j other₁ hj₁
          have hsame : other₂.phase = other.phase := hphase₂.trans hphase₁
          refine ⟨other₂, (Function.update_of_ne heq _ _).trans hj₂, hvalue₂.trans hvalue₁,
            hsame ▸ hheld, fun h => hsame ▸ h, ?_⟩
          rcases hnext₁ with hnext₁ | ⟨hcursor, hnext₁⟩
          · exact .inl (hnext₂.trans hnext₁)
          · exact .inr ⟨i, node, node', hcursor, hi, Function.update_self .., id, rfl,
              hnext₂.trans hnext₁⟩

end Rewrites

/-! ## The invariant -/

section Invariant

variable [DecidableEq β]

/-- The table that the finished writes leave, one after the other. -/
def State.table (s : State α β ρ) : BucketTable β α :=
  BucketTable.afterWrites .empty (s.log.map Prod.fst)

/-- The holder of the lock has walked over `pre`, found nothing there, and has `suf` left. -/
structure WriterAt (s : State α β ρ) (writer : Writer α β) (pre suf : List ℕ) (link : Link β) : Prop where
  walked : Seg s.heap writer.task.bucket (.head writer.task.bucket) (s.heads writer.task.bucket) pre
    link writer.cursor
  left : Chain s.heap writer.task.bucket link writer.cursor suf
  passed : ∀ i ∈ pre, ∀ x, valueAt s.heap i = some x → writer.task.wanted x = false

/-- The nodes of each bucket in order, and what they have to do with the rest of the state. -/
structure Inv (s : State α β ρ) (order : β → List ℕ) : Prop where
  chain : ∀ bucket, Chain s.heap bucket (.head bucket) (s.heads bucket) (order bucket)
  nodup : ∀ bucket, (order bucket).Nodup
  readers : ∀ r ∈ s.active, ∃ path, Path s.heap r (s.reader r).cursor path
  writer : ∀ writer, s.writer = some writer → ∃ pre suf link,
    order writer.task.bucket = pre ++ suf ∧ WriterAt s writer pre suf link
  contents : ∀ bucket, (order bucket).map (valueAt s.heap) = (s.table bucket).map some
  found : ∀ before task x later, s.log = before ++ (task, x) :: later →
    x = (BucketTable.afterWrites .empty (before.map Prod.fst)).find task.bucket task.wanted

variable {s s' : State α β ρ} {order : β → List ℕ}

theorem inv_initial (reader : ρ → Reader α) : Inv (initial (β := β) reader) fun _ => [] where
  chain bucket := ⟨.head bucket, .nil⟩
  nodup _ := List.nodup_nil
  readers _ hr := absurd hr List.not_mem_nil
  writer _ h := by cases h
  contents _ := rfl
  found before task x later h := by simp [initial] at h

/-- A reader has passed over a node that it does not want. -/
def Advanced (s s' : State α β ρ) (r : ρ) : Prop :=
  s'.heap = s.heap ∧ ∃ i node, (s.reader r).cursor = some i ∧ s.heap i = some node ∧
    (s.reader r).wanted node.value = false ∧
    s'.reader r = { s.reader r with cursor := node.next }

/-- What a step does to a reader that is active and does not leave. -/
structure Keeps (s s' : State α β ρ) (r : ρ) : Prop where
  evolves : Evolves r s.heap s'.heap
  stays : r ∈ s'.active
  reader : s'.reader r = s.reader r ∨ Advanced s s' r

/-- The last write on record removed the entry of this node. -/
def Removed (s s' : State α β ρ) (node : Node α β ρ) : Prop :=
  ∃ bucket wanted, s'.log = s.log ++ [(.removeFirst bucket wanted, some node.value)]

/-- A step leaves the record alone, and any task there is was there or is the one it locks for; or
it ends the task of the lock holder. -/
def Records (action : Action α β ρ) (s s' : State α β ρ) : Prop :=
  s'.log = s.log ∧ (∀ writer, s'.writer = some writer →
    action = .lock writer.task ∨ ∃ writer₀, s.writer = some writer₀ ∧ writer₀.task = writer.task) ∨
  ∃ writer x, s.writer = some writer ∧ s'.writer = none ∧ s'.log = s.log ++ [(writer.task, x)]

omit [DecidableEq β] in
theorem Records.log_grows {action : Action α β ρ} (h : Records action s s') : s.log <+: s'.log := by
  rcases h with ⟨hlog, -⟩ | ⟨writer, x, -, -, hlog⟩
  · exact hlog ▸ List.prefix_refl _
  · exact hlog ▸ List.prefix_append ..

/-- What a step keeps: the invariant, its readers, and the linked nodes it does not remove. -/
structure Kept (action : Action α β ρ) (s s' : State α β ρ) : Prop where
  inv : ∃ order, Inv s' order
  readers : ∀ r ∈ s.active, action ≠ .leave r → Keeps s s' r
  unlinks : ∀ i node, s.heap i = some node → node.phase.IsLinked →
    (∃ node', s'.heap i = some node' ∧ node'.phase.IsLinked) ∨ Removed s s' node
  records : Records action s s'

/-- What the finished writes leave of the part of a bucket that has been walked over. -/
theorem WriterAt.walked_over (h : Inv s order) {writer : Writer α β} {pre suf : List ℕ} {link : Link β}
    (horder : order writer.task.bucket = pre ++ suf) (hat : WriterAt s writer pre suf link) :
    ∃ front back, s.table writer.task.bucket = front ++ back ∧
      pre.map (valueAt s.heap) = front.map some ∧ suf.map (valueAt s.heap) = back.map some ∧
      ∀ x ∈ front, writer.task.wanted x = false := by
  have hcontents := h.contents writer.task.bucket
  rw [horder, List.map_append, eq_comm, List.map_eq_append_iff] at hcontents
  obtain ⟨front, back, htable, hfront, hback⟩ := hcontents
  refine ⟨front, back, htable, hfront.symm, hback.symm, ?_⟩
  intro x hx
  have hin : some x ∈ pre.map (valueAt s.heap) := hfront ▸ List.mem_map_of_mem hx
  obtain ⟨i, hi, hvalue⟩ := List.mem_map.mp hin
  exact hat.passed i hi x hvalue

/-! ### The end of a write -/

theorem Inv.other_bucket (h : Inv s order) {bucket other : β} (hne : other ≠ bucket) {i : ℕ}
    (hi : i ∈ order other) : i ∉ order bucket := by
  intro hin
  obtain ⟨node, hnode, hphase⟩ := (h.chain other).linked hi
  obtain ⟨node', hnode', hphase'⟩ := (h.chain bucket).linked hin
  obtain rfl : node = node' := Option.some.inj (hnode.symm.trans hnode')
  rw [hphase] at hphase'
  exact hne (Phase.linked.inj hphase')

/-- The state in which a write makes its change: the lock is free and the write is on record. -/
def State.recorded (s : State α β ρ) (task : Write β α) (x : Option α) : State α β ρ :=
  { s with writer := none, log := s.log ++ [(task, x)] }

theorem table_recorded (s : State α β ρ) (task : Write β α) (x : Option α) :
    (s.recorded task x).table = (s.table.write task).2 := by
  simp only [State.table, State.recorded, List.map_append, BucketTable.afterWrites,
    Machine.after_append]
  rfl

/-- A recorded write whose bucket is left as the table says keeps the invariant. -/
theorem Inv.rewrites (h : Inv s order) {task : Write β α} {cursor : Option ℕ} {x : Option α}
    {l' : List ℕ} (hholder : s.writer = some ⟨task, cursor⟩)
    (hx : x = s.table.find task.bucket task.wanted)
    (hrw : Rewrites (s.recorded task x) s' task.bucket (order task.bucket) l')
    (hvalues : l'.map (valueAt s'.heap) = ((s.table.write task).2 task.bucket).map some)
    (hgone : ∀ i ∈ order task.bucket, i ∉ l' →
      (∃ bucket wanted, task = .removeFirst bucket wanted) ∧ x = valueAt s.heap i)
    (action : Action α β ρ) : Kept action s s' := by
  have hlog : s'.log = s.log ++ [(task, x)] := by rw [hrw.rest]; rfl
  have htable : s'.table = (s.table.write task).2 := by
    rw [← table_recorded s task x, State.table, State.table, hlog]
    rfl
  have hwriter : s'.writer = none := by rw [hrw.rest]; rfl
  have hactive : s'.active = s.active := by rw [hrw.rest]; rfl
  have hreader : s'.reader = s.reader := by rw [hrw.rest]; rfl
  refine ⟨⟨Function.update order task.bucket l', ?_⟩, ?readers, ?unlinks,
    .inr ⟨_, x, hholder, hwriter, hlog⟩⟩
  case readers =>
    intro r hr _
    exact ⟨hrw.evolves r, hactive ▸ hr, .inl (by rw [hreader])⟩
  case unlinks =>
    intro i node hi hlinked
    by_cases hin : i ∈ order task.bucket → i ∈ l'
    · exact .inl (hrw.linked hi hlinked hin)
    · rw [Classical.not_imp] at hin
      obtain ⟨⟨bucket, wanted, rfl⟩, hvalue⟩ := hgone i hin.1 hin.2
      right
      exact ⟨bucket, wanted, by rw [hlog, hvalue, valueAt, hi, Option.map_some]⟩
  constructor
  case chain =>
    intro bucket
    by_cases hb : bucket = task.bucket
    · subst hb
      rw [Function.update_self]
      exact hrw.chain
    · rw [Function.update_of_ne hb, hrw.heads bucket hb]
      refine (h.chain bucket).frame fun i hi => ?_
      obtain ⟨node, hnode, -⟩ := (h.chain bucket).linked hi
      exact (hrw.frame i node hnode (h.other_bucket hb hi)).trans hnode.symm
  case nodup =>
    intro bucket
    by_cases hb : bucket = task.bucket
    · subst hb
      rw [Function.update_self]
      exact hrw.nodup
    · rw [Function.update_of_ne hb]
      exact h.nodup bucket
  case readers =>
    intro r hr
    rw [hactive] at hr
    obtain ⟨path, hpath⟩ := h.readers r hr
    obtain ⟨path', hpath', -⟩ := hpath.evolve (hrw.evolves r)
    exact ⟨path', hreader ▸ hpath'⟩
  case writer =>
    intro writer hw
    rw [hwriter] at hw
    cases hw
  case contents =>
    intro bucket
    rw [htable]
    by_cases hb : bucket = task.bucket
    · subst hb
      rw [Function.update_self]
      exact hvalues
    · rw [Function.update_of_ne hb, BucketTable.write_snd_of_ne _ hb, ← h.contents bucket]
      refine List.map_congr_left fun i hi => ?_
      obtain ⟨node, hnode, -⟩ := (h.chain bucket).linked hi
      exact hrw.valueAt_eq hnode
  case found =>
    intro before task' y later heq
    rw [hlog] at heq
    rcases List.eq_nil_or_concat later with rfl | ⟨front, last, rfl⟩
    · obtain ⟨rfl, hlast⟩ := List.append_inj' heq rfl
      cases hlast
      exact hx
    · rw [List.concat_eq_append, ← List.cons_append, ← List.append_assoc] at heq
      exact h.found before task' y front (List.append_inj' heq rfl).1

/-- A write that walked to the end of its bucket found nothing in it. -/
theorem kept_missed (h : Inv s order) {task : Write β α} {link : Link β} {cursor : Option ℕ}
    {pre : List ℕ} (hholder : s.writer = some ⟨task, cursor⟩) (horder : order task.bucket = pre)
    (hat : WriterAt s ⟨task, cursor⟩ pre [] link)
    {fresh : ℕ} (hfresh : s.heap fresh = none) :
    ∃ s', complete s task none fresh = .ok s' ∧ Kept (.finish fresh) s s' := by
  obtain ⟨front, back, htable, -, hback, hpassed⟩ := hat.walked_over h (by simpa using horder)
  obtain rfl : back = [] := by simpa using hback.symm
  rw [List.append_nil] at htable
  have hnone : s.table.find task.bucket task.wanted = none := by
    rw [BucketTable.find, htable, List.find?_eq_none]
    intro x hx
    simp [hpassed x hx]
  cases task with
  | addUnless bucket wanted x =>
    obtain ⟨s', hadd, hrw, node, hnode, hvalue⟩ :=
      addHead_rewrites (s := s.recorded (.addUnless bucket wanted x) none) (h.chain bucket)
        (h.nodup bucket) hfresh x
    refine ⟨s', hadd, h.rewrites hholder hnone.symm hrw ?_ ?_ _⟩
    swap
    · exact fun i hi hout => absurd (List.mem_cons_of_mem fresh hi) hout
    have hold : (order bucket).map (valueAt s'.heap) = (s.table bucket).map some := by
      rw [← h.contents bucket]
      refine List.map_congr_left fun i hi => ?_
      obtain ⟨other, hother, -⟩ := (h.chain bucket).linked hi
      exact hrw.valueAt_eq hother
    have hwrite : (s.table.write (.addUnless bucket wanted x)).2 = s.table.add bucket x :=
      BucketTable.addUnless_of_none hnone x
    rw [hwrite]
    simp [Write.bucket, BucketTable.add, hold, valueAt, hnode, hvalue]
  | removeFirst bucket wanted =>
    refine ⟨s.recorded (.removeFirst bucket wanted) none, rfl,
      h.rewrites hholder hnone.symm (.refl (h.chain bucket) (h.nodup bucket)) ?_ (fun i hi hout => absurd hi hout) _⟩
    have hsame : (s.table.write (.removeFirst bucket wanted)).2 = s.table :=
      BucketTable.remove_of_none hnone
    rw [hsame]
    exact h.contents bucket

/-- A write that stands at a wanted node found the first wanted entry of its bucket. -/
theorem kept_found (h : Inv s order) {task : Write β α} {link : Link β} {cursor : Option ℕ}
    {pre rest : List ℕ} {i : ℕ} {node : Node α β ρ} (hholder : s.writer = some ⟨task, cursor⟩)
    (horder : order task.bucket = pre ++ i :: rest)
    (hat : WriterAt s ⟨task, cursor⟩ pre (i :: rest) link) (hi : s.heap i = some node)
    (hwanted : task.wanted node.value = true) (fresh : ℕ) :
    ∃ s', complete s task (some (i, node.value)) fresh = .ok s' ∧ Kept (.finish fresh) s s' := by
  obtain ⟨front, back, htable, hfront, hback, hpassed⟩ := hat.walked_over h horder
  rw [List.map_cons, eq_comm, List.map_eq_cons_iff] at hback
  obtain ⟨x, tail, rfl, hx, htail⟩ := hback
  obtain rfl : node.value = x := by simpa [valueAt, hi, eq_comm] using hx
  have hfind : s.table.find task.bucket task.wanted = some node.value :=
    BucketTable.find_of_split htable hpassed hwanted
  cases task with
  | addUnless bucket wanted x =>
    refine ⟨s.recorded (.addUnless bucket wanted x) (some node.value), rfl,
      h.rewrites hholder hfind.symm (.refl (h.chain bucket) (h.nodup bucket)) ?_ (fun i hi hout => absurd hi hout) _⟩
    have hsame : (s.table.write (.addUnless bucket wanted x)).2 = s.table :=
      BucketTable.addUnless_of_some hfind x
    rw [hsame]
    exact h.contents bucket
  | removeFirst bucket wanted =>
    have horder' : order bucket = pre ++ i :: rest := horder
    obtain ⟨s', hunlink, hrw⟩ :=
      unlink_rewrites (s := s.recorded (.removeFirst bucket wanted) (some node.value))
        (horder ▸ h.chain bucket) (horder ▸ h.nodup bucket)
    have hgone : ∀ j ∈ order bucket, j ∉ pre ++ rest → j = i := by
      intro j hj hout
      rw [horder', List.mem_append, List.mem_cons] at hj
      rw [List.mem_append, not_or] at hout
      tauto
    refine ⟨s', hunlink, h.rewrites hholder hfind.symm (horder'.symm ▸ hrw) ?_ ?_ _⟩
    swap
    · intro j hj hout
      obtain rfl := hgone j hj hout
      exact ⟨⟨bucket, wanted, rfl⟩, by rw [valueAt, hi, Option.map_some]⟩
    have hwrite : (s.table.write (.removeFirst bucket wanted)).2 bucket = front ++ tail :=
      BucketTable.remove_of_split htable hpassed hwanted
    have hsame : ∀ j ∈ order bucket, valueAt s'.heap j = valueAt s.heap j := by
      intro j hj
      obtain ⟨other, hother, -⟩ := (h.chain bucket).linked hj
      exact hrw.valueAt_eq hother
    rw [horder'] at hsame
    rw [Write.bucket, hwrite, List.map_append, List.map_append, ← hfront, htail]
    congr 1
    · exact List.map_congr_left fun j hj => hsame j (List.mem_append_left _ hj)
    · exact List.map_congr_left fun j hj =>
        hsame j (List.mem_append_right _ (List.mem_cons_of_mem i hj))

/-- Nodes that only change what they wait for are the same to every walk. -/
theorem Inv.rephase (h : Inv s order) {heap : ℕ → Option (Node α β ρ)}
    (hnodes : ∀ i node, s.heap i = some node → node.phase.IsLinked → heap i = some node)
    {active : List ρ} {reader : ρ → Reader α}
    (hreaders : ∀ r ∈ active, ∃ path, Path heap r (reader r).cursor path) :
    Inv { s with heap := heap, active := active, reader := reader } order := by
  have hsame : ∀ bucket, ∀ i ∈ order bucket, heap i = s.heap i := by
    intro bucket i hi
    obtain ⟨node, hnode, hphase⟩ := (h.chain bucket).linked hi
    rw [hnodes i node hnode (by simp [hphase, Phase.IsLinked]), hnode]
  constructor
  case chain => exact fun bucket => (h.chain bucket).frame (hsame bucket)
  case nodup => exact h.nodup
  case readers => exact hreaders
  case writer =>
    intro writer hw
    obtain ⟨pre, suf, link, horder, hat⟩ := h.writer writer hw
    have hin : ∀ i ∈ pre ++ suf, heap i = s.heap i := horder ▸ hsame writer.task.bucket
    refine ⟨pre, suf, link, horder, ?_, ?_, ?_⟩
    · exact hat.walked.frame fun i hi => hin i (List.mem_append_left _ hi)
    · exact hat.left.frame fun i hi => hin i (List.mem_append_right _ hi)
    · intro i hi x hx
      have hvalue : valueAt heap i = valueAt s.heap i :=
        congrArg (Option.map Node.value) (hin i (List.mem_append_left _ hi))
      exact hat.passed i hi x (hvalue.symm.trans hx)
  case contents =>
    intro bucket
    refine Eq.trans (List.map_congr_left fun i hi => ?_) (h.contents bucket)
    exact congrArg (Option.map Node.value) (hsame bucket i hi)
  case found => exact h.found

theorem Inv.readers_evolve (h : Inv s order) {heap : ℕ → Option (Node α β ρ)}
    (hevolves : ∀ r ∈ s.active, Evolves r s.heap heap) :
    ∀ r ∈ s.active, ∃ path, Path heap r (s.reader r).cursor path := by
  intro r hr
  obtain ⟨path, hpath⟩ := h.readers r hr
  obtain ⟨path', hpath', -⟩ := hpath.evolve (hevolves r hr)
  exact ⟨path', hpath'⟩

/-- A step that leaves the linked nodes and the record alone. -/
theorem Inv.kept (h : Inv s' order) {action : Action α β ρ}
    (hnodes : ∀ i node, s.heap i = some node → node.phase.IsLinked → s'.heap i = some node)
    (hlog : s'.log = s.log)
    (hwriter : ∀ writer, s'.writer = some writer →
      action = .lock writer.task ∨ ∃ writer₀, s.writer = some writer₀ ∧ writer₀.task = writer.task)
    (hreaders : ∀ r ∈ s.active, action ≠ .leave r → Keeps s s' r) : Kept action s s' where
  inv := ⟨order, h⟩
  readers := hreaders
  unlinks i node hi hlinked := .inl ⟨node, hnodes i node hi hlinked, hlinked⟩
  records := .inl ⟨hlog, hwriter⟩

end Invariant

/-! ## Every step -/

section Steps

variable [DecidableEq β] [DecidableEq ρ] {s s' : State α β ρ} {order : β → List ℕ}

/-- The step cannot be taken, or it is taken without a fault and keeps what has to be kept. -/
def Safe (s : State α β ρ) (action : Action α β ρ) : Prop :=
  step s action = .error .blocked ∨ ∃ s', step s action = .ok s' ∧ Kept action s s'

/-! ### The lock holder -/

theorem safe_lock (h : Inv s order) (task : Write β α) : Safe s (.lock task) := by
  cases hwriter : s.writer with
  | some writer => exact .inl (by simp [step, hwriter])
  | none =>
    have hinv : Inv { s with writer := some ⟨task, s.heads task.bucket⟩ } order := { h with
      writer := by
        intro writer hw
        cases hw
        exact ⟨[], order task.bucket, .head task.bucket, rfl, .nil, h.chain _,
          fun _ hi => absurd hi List.not_mem_nil⟩ }
    refine .inr ⟨_, by simp only [step, hwriter], hinv.kept (fun _ _ hi _ => hi) rfl ?_
      fun r hr _ => ⟨.refl r _, hr, .inl rfl⟩⟩
    intro writer hw
    cases hw
    exact .inl rfl

theorem safe_walk (h : Inv s order) : Safe s .walk := by
  cases hwriter : s.writer with
  | none => exact .inl (by simp [step, hwriter])
  | some writer =>
    obtain ⟨pre, suf, link, horder, hat⟩ := h.writer writer hwriter
    rcases hat.left.stops writer.task.wanted with
      ⟨-, -, hstop⟩ | ⟨i, node, rest, hcursor, rfl, hi, hseg, hchain, hstop⟩
    · exact .inl (by simp [step, hwriter, hstop, bind, Except.bind])
    cases hwanted : writer.task.wanted node.value with
    | true => exact .inl (by simp [step, hwriter, hstop, hwanted, bind, Except.bind])
    | false =>
      have hinv : Inv { s with writer := some { writer with cursor := node.next } } order := by
        refine { h with writer := ?_ }
        intro other hother
        cases hother
        refine ⟨pre ++ [i], rest, .next i, by simpa using horder, ?_, hchain, ?_⟩
        · exact hat.walked.append (hcursor ▸ hseg)
        · intro j hj x hx
          rcases List.mem_append.mp hj with hj | hj
          · exact hat.passed j hj x hx
          · rw [List.mem_singleton.mp hj] at hx
            obtain rfl : node.value = x := by simpa [valueAt, hi] using hx
            exact hwanted
      refine .inr ⟨_, ?_, hinv.kept (fun _ _ hi _ => hi) rfl ?_
        fun r hr _ => ⟨.refl r _, hr, .inl rfl⟩⟩
      · simp [step, hwriter, hstop, hwanted, bind, Except.bind, pure, Except.pure]
      · intro other hother
        cases hother
        exact .inr ⟨writer, hwriter, rfl⟩

theorem safe_finish (h : Inv s order) (fresh : ℕ) : Safe s (.finish fresh) := by
  cases hwriter : s.writer with
  | none => exact .inl (by simp [step, hwriter])
  | some writer =>
    obtain ⟨pre, suf, link, horder, hat⟩ := h.writer writer hwriter
    rcases hat.left.stops writer.task.wanted with
      ⟨-, rfl, hstop⟩ | ⟨i, node, rest, -, rfl, hi, -, -, hstop⟩
    · cases hfresh : s.heap fresh with
      | some other => exact .inl (by simp [step, hwriter, hstop, hfresh, bind, Except.bind])
      | none =>
        obtain ⟨s', hs', hkept⟩ := kept_missed h hwriter (by simpa using horder) hat hfresh
        exact .inr ⟨s', by simpa [step, hwriter, hstop, hfresh, bind, Except.bind] using hs', hkept⟩
    · cases hwanted : writer.task.wanted node.value with
      | false => exact .inl (by simp [step, hwriter, hstop, hwanted, bind, Except.bind])
      | true =>
        cases hfresh : s.heap fresh with
        | some other => exact .inl (by simp [step, hwriter, hstop, hwanted, hfresh, bind, Except.bind])
        | none =>
          obtain ⟨s', hs', hkept⟩ := kept_found h hwriter horder hat hi hwanted fresh
          exact .inr ⟨s', by simpa [step, hwriter, hstop, hwanted, hfresh, bind, Except.bind] using hs',
            hkept⟩

/-! ### Releases and readers -/

theorem safe_retire (h : Inv s order) (i : ℕ) : Safe s (.retire i) := by
  cases hi : s.heap i with
  | none => exact .inl (by simp [step, hi])
  | some node =>
    obtain ⟨value, next, pprev, phase⟩ := node
    cases phase with
    | linked bucket => exact .inl (by simp [step, hi])
    | retired waits => exact .inl (by simp [step, hi])
    | unlinked =>
      let heap := Function.update s.heap i (some ⟨value, next, pprev, .retired s.active⟩)
      have hevolves : ∀ r ∈ s.active, Evolves r s.heap heap := by
        intro r hr j node hj hheld
        by_cases heq : j = i
        · subst heq
          obtain rfl := Option.some.inj (hi.symm.trans hj)
          exact ⟨_, Function.update_self .., rfl, hr, fun h => h.elim, .inl rfl⟩
        · exact ⟨node, (Function.update_of_ne heq _ _).trans hj, rfl, hheld, id, .inl rfl⟩
      have hnodes : ∀ j node, s.heap j = some node → node.phase.IsLinked → heap j = some node := by
        intro j node hj hlinked
        refine (Function.update_of_ne ?_ _ _).trans hj
        rintro rfl
        obtain rfl := Option.some.inj (hi.symm.trans hj)
        exact hlinked
      refine .inr ⟨{ s with heap := heap }, ?_, (h.rephase hnodes (h.readers_evolve hevolves)).kept hnodes rfl
        (fun writer hw => .inr ⟨writer, hw, rfl⟩) fun r hr _ => ⟨hevolves r hr, hr, .inl rfl⟩⟩
      simp only [step, hi]
      exact setNode_eq hi _

theorem safe_release (h : Inv s order) (i : ℕ) : Safe s (.release i) := by
  cases hi : s.heap i with
  | none => exact .inl (by simp [step, hi])
  | some node =>
    obtain ⟨value, next, pprev, phase⟩ := node
    cases phase with
    | linked bucket => exact .inl (by simp [step, hi])
    | unlinked => exact .inl (by simp [step, hi])
    | retired waits =>
      cases waits with
      | cons r waits => exact .inl (by simp [step, hi])
      | nil =>
        have hevolves : ∀ r ∈ s.active, Evolves r s.heap (Function.update s.heap i none) := by
          intro r _ j node hj hheld
          refine ⟨node, (Function.update_of_ne ?_ _ _).trans hj, rfl, hheld, id, .inl rfl⟩
          rintro rfl
          obtain rfl := Option.some.inj (hi.symm.trans hj)
          exact absurd hheld List.not_mem_nil
        have hnodes : ∀ j node, s.heap j = some node → node.phase.IsLinked →
            Function.update s.heap i none j = some node := by
          intro j node hj hlinked
          refine (Function.update_of_ne ?_ _ _).trans hj
          rintro rfl
          obtain rfl := Option.some.inj (hi.symm.trans hj)
          exact hlinked
        exact .inr ⟨{ s with heap := Function.update s.heap i none }, by simp only [step, hi],
          (h.rephase hnodes (h.readers_evolve hevolves)).kept hnodes rfl
            (fun writer hw => .inr ⟨writer, hw, rfl⟩) fun r hr _ => ⟨hevolves r hr, hr, .inl rfl⟩⟩

theorem safe_enter (h : Inv s order) (r : ρ) (bucket : β) (wanted : α → Bool) :
    Safe s (.enter r bucket wanted) := by
  by_cases hr : r ∈ s.active
  · exact .inl (by simp [step, hr])
  · let reader := Function.update s.reader r ⟨s.heads bucket, wanted, none⟩
    have hreaders : ∀ r' ∈ r :: s.active, ∃ path, Path s.heap r' (reader r').cursor path := by
      intro r' hr'
      simp only [reader]
      by_cases heq : r' = r
      · subst heq
        rw [Function.update_self]
        exact ⟨order bucket, (h.chain bucket).path⟩
      · rw [Function.update_of_ne heq]
        exact h.readers r' (List.mem_of_ne_of_mem heq hr')
    refine .inr ⟨{ s with active := r :: s.active, reader := reader }, by simp only [step, if_neg hr, reader],
      (h.rephase (fun _ _ hi _ => hi) hreaders).kept (fun _ _ hi _ => hi) rfl
        (fun writer hw => .inr ⟨writer, hw, rfl⟩) fun r' hr' _ => ?_⟩
    refine ⟨.refl r' _, List.mem_cons_of_mem r hr', .inl (Function.update_of_ne ?_ _ _)⟩
    rintro rfl
    exact hr hr'

theorem safe_advance (h : Inv s order) (r : ρ) : Safe s (.advance r) := by
  by_cases hr : r ∈ s.active
  · obtain ⟨path, hpath⟩ := h.readers r hr
    rcases hpath.stops (s.reader r).wanted with
      ⟨-, -, hstop⟩ | ⟨i, node, rest, hcursor, -, hi, hrest, hstop⟩
    · exact .inl (by simp [step, hr, hstop, bind, Except.bind])
    cases hwanted : (s.reader r).wanted node.value with
    | true => exact .inl (by simp [step, hr, hstop, hwanted, bind, Except.bind])
    | false =>
      let reader := Function.update s.reader r { s.reader r with cursor := node.next }
      have hreaders : ∀ r' ∈ s.active, ∃ path, Path s.heap r' (reader r').cursor path := by
        intro r' hr'
        simp only [reader]
        by_cases heq : r' = r
        · subst heq
          rw [Function.update_self]
          exact ⟨rest, hrest⟩
        · rw [Function.update_of_ne heq]
          exact h.readers r' hr'
      refine .inr ⟨{ s with reader := reader }, ?_,
        (h.rephase (fun _ _ hi _ => hi) hreaders).kept (fun _ _ hi _ => hi) rfl
        (fun writer hw => .inr ⟨writer, hw, rfl⟩) fun r' hr' _ => ?_⟩
      · simp [step, hr, hstop, hwanted, reader, bind, Except.bind, pure, Except.pure]
      · refine ⟨.refl r' _, hr', ?_⟩
        by_cases heq : r' = r
        · subst heq
          exact .inr ⟨rfl, i, node, hcursor, hi, hwanted, Function.update_self ..⟩
        · exact .inl (Function.update_of_ne heq _ _)
  · exact .inl (by simp [step, hr])

theorem safe_leave (h : Inv s order) (r : ρ) : Safe s (.leave r) := by
  by_cases hr : r ∈ s.active
  · obtain ⟨path, hpath⟩ := h.readers r hr
    -- either end of the walk lets the reader go
    have hleaves : ∀ found, stopsAt s (s.reader r).cursor (s.reader r).wanted = .ok (.inl found) →
        Safe s (.leave r) := by
      intro found hstop
      let left : State α β ρ :=
        { s with
          active := s.active.filter (· ≠ r)
          reader := Function.update s.reader r { s.reader r with answer := found.map Prod.snd }
          heap := fun i => (s.heap i).map fun node => { node with phase := node.phase.forget r } }
      have hnodes : ∀ i node, s.heap i = some node → node.phase.IsLinked → left.heap i = some node := by
        intro i node hi hlinked
        cases hphase : node.phase with
        | linked bucket =>
          simp only [left, hi, Option.map_some, hphase, Phase.forget]
          rw [← hphase]
        | unlinked =>
          rw [hphase] at hlinked
          exact hlinked.elim
        | retired waits =>
          rw [hphase] at hlinked
          exact hlinked.elim
      have hreaders : ∀ r' ∈ left.active, ∃ path, Path left.heap r' (left.reader r').cursor path := by
        intro r' hr'
        obtain ⟨hin, hne⟩ := List.mem_filter.mp hr'
        have hne : r' ≠ r := by simpa using hne
        obtain ⟨path', hpath'⟩ := h.readers r' hin
        obtain ⟨path'', hpath'', -⟩ := hpath'.evolve (evolves_forget hne s.heap)
        simp only [left, Function.update_of_ne hne]
        exact ⟨path'', hpath''⟩
      refine .inr ⟨left, by simp [step, hr, hstop, left, bind, Except.bind, pure, Except.pure],
        (h.rephase hnodes hreaders).kept hnodes rfl (fun writer hw => .inr ⟨writer, hw, rfl⟩)
          fun r' hr' haction => ?_⟩
      have hne : r' ≠ r := fun heq => haction (by rw [heq])
      exact ⟨evolves_forget hne s.heap, List.mem_filter.mpr ⟨hr', by simpa using hne⟩,
        .inl (Function.update_of_ne hne _ _)⟩
    rcases hpath.stops (s.reader r).wanted with
      ⟨-, -, hstop⟩ | ⟨i, node, rest, -, -, -, -, hstop⟩
    · exact hleaves none hstop
    cases hwanted : (s.reader r).wanted node.value with
    | true => exact hleaves (some (i, node.value)) (by simpa [hwanted] using hstop)
    | false => exact .inl (by simp [step, hr, hstop, hwanted, bind, Except.bind])
  · exact .inl (by simp [step, hr])

theorem Inv.safe (h : Inv s order) (action : Action α β ρ) : Safe s action := by
  cases action with
  | lock task => exact safe_lock h task
  | walk => exact safe_walk h
  | finish fresh => exact safe_finish h fresh
  | retire i => exact safe_retire h i
  | release i => exact safe_release h i
  | enter r bucket wanted => exact safe_enter h r bucket wanted
  | advance r => exact safe_advance h r
  | leave r => exact safe_leave h r

end Steps

end RcuTable
