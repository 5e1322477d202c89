-- SUMMARY: The descendants of a node of a draft tree: who is found, how often, and for which trees the search ends.
import KVDeadlineScheduler.Speculative.Fates

/-!
# Descendants

The search for the descendants of a node keeps no record of where it has been. It
takes no vertex twice because a node has one parent, and so one way up to the
node that it started from, unless that way is a circle.
-/

namespace KVMemoryIntent

namespace DraftTree

/-! ## Ancestors -/

/-- Parent pointers lead from `id` up to `a`, which need not be a node of the tree. -/
inductive ProperAncestor (tree : DraftTree) (a : ℤ) : ℤ → Prop where
  | parent {id : ℤ} {node : DraftNode} :
      tree.nodes.get? id = some node → node.parentId = some a → ProperAncestor tree a id
  | above {id p : ℤ} {node : DraftNode} :
      tree.nodes.get? id = some node → node.parentId = some p → ProperAncestor tree a p →
        ProperAncestor tree a id

variable {tree : DraftTree} {a id nodeId : ℤ}

/-- Those who have `a` as an ancestor are those below `a`. -/
theorem properAncestor_iff : tree.ProperAncestor a id ↔ Relation.TransGen tree.Child a id := by
  constructor
  · intro h
    induction h with
    | parent hnode hparent => exact .single ((child_iff hnode).mpr hparent)
    | above hnode hparent _ ih => exact ih.tail ((child_iff hnode).mpr hparent)
  · intro h
    induction h with
    | single hchild =>
      obtain ⟨node, hnode⟩ := node_of_child hchild
      exact .parent hnode ((child_iff hnode).mp hchild)
    | tail _ hchild ih =>
      obtain ⟨node, hnode⟩ := node_of_child hchild
      exact .above hnode ((child_iff hnode).mp hchild) ih

/-- Nobody is their own ancestor if parents have smaller ids. -/
theorem not_properAncestor_of_lt
    (hlt : ∀ id node p, tree.nodes.get? id = some node → node.parentId = some p → p < id) (id : ℤ) :
    ¬tree.ProperAncestor id id := by
  rw [properAncestor_iff]
  refine Forest.acyclic_of_lt (fun p c hchild => ?_) id
  obtain ⟨node, hnode⟩ := node_of_child hchild
  exact hlt c node p hnode ((child_iff hnode).mp hchild)

/-! ## The end of the search -/

/-- The search for the descendants of a node runs forever exactly when the node is
one of them. -/
theorem descendants_diverges_iff :
    tree.descendants nodeId = .error .divergence ↔ tree.ProperAncestor nodeId nodeId := by
  rw [properAncestor_iff]
  constructor
  · intro hdiverges
    by_contra hcircle
    obtain ⟨found, hfound, -⟩ := descendants_ok hcircle
    rw [hfound] at hdiverges
    cases hdiverges
  · intro hcircle
    rw [descendants, Forest.collect_eq_none ⟨nodeId, List.mem_singleton_self nodeId, hcircle⟩]

/-- In a tree without circles the search ends, for every id, with those who have it as
an ancestor, each once. -/
theorem descendants_have_ancestor (hacyclic : ∀ id, ¬tree.ProperAncestor id id) (nodeId : ℤ) :
    ∃ found : List (ℤ × DraftNode), tree.descendants nodeId = .ok (found.map Prod.snd) ∧
      (found.map Prod.fst).Nodup ∧
      ∀ id node, (id, node) ∈ found ↔
        tree.nodes.get? id = some node ∧ tree.ProperAncestor nodeId id := by
  have hcircle : ¬Relation.TransGen tree.Child nodeId nodeId := by
    rw [← properAncestor_iff]
    exact hacyclic nodeId
  obtain ⟨found, hfound, hnodup, hmem⟩ := descendants_ok hcircle
  refine ⟨found, hfound, hnodup, fun id node => ?_⟩
  rw [hmem id node, properAncestor_iff]

end DraftTree

/-! ## Generated trees -/

/-- The generator draws parents before their children. -/
theorem generateSpeculativeWorkload_acyclic {gauss : ℕ → ℚ} {treeWidth treeDepth : ℤ} {tree : DraftTree}
    {events : List MemoryIntentEvent}
    (h : generateSpeculativeWorkload gauss treeWidth treeDepth = .ok (tree, events)) (id : ℤ) :
    ¬tree.ProperAncestor id id := by
  obtain ⟨count, hdrafted⟩ := generateSpeculativeWorkload_drafted h
  exact DraftTree.not_properAncestor_of_lt
    (fun id node p hnode hparent => (hdrafted.parent id node p hnode hparent).2) id

namespace DraftTree

/-- A node with three children, one level above the leaves. -/
theorem descendants_have_ancestor_two_levels :
    ∃ tree events, generateSpeculativeWorkload (fun _ => 7 / 10) 3 2 = .ok (tree, events) ∧
      (tree.descendants 1).toOption.map (List.map DraftNode.tokenId) = some [1006, 1007, 1008] ∧
      ∃ found : List (ℤ × DraftNode), tree.descendants 1 = .ok (found.map Prod.snd) ∧
        (found.map Prod.fst).Nodup ∧
        ∀ id node, (id, node) ∈ found ↔ tree.nodes.get? id = some node ∧ tree.ProperAncestor 1 id := by
  obtain ⟨⟨tree, events⟩, h, hcheck⟩ := Replay.exists_of_check
    (x := generateSpeculativeWorkload (fun _ => 7 / 10) 3 2)
    (p := fun r => decide ((r.1.descendants 1).toOption.map (List.map DraftNode.tokenId) =
      some [1006, 1007, 1008])) (by decide +kernel)
  exact ⟨tree, events, h, of_decide_eq_true hcheck,
    descendants_have_ancestor (generateSpeculativeWorkload_acyclic h) 1⟩

end DraftTree

end KVMemoryIntent
