import Stratus.Relayer.TransactionDag

/-!
# `take_roots` as one filter

`TransactionDag::take_roots` (`transaction_dag.rs:87–112`) collects the parentless nodes and
removes them one at a time. On a graph satisfying `StableDag.WF` every removal succeeds, and
the whole call equals removing the root set at once (`takeRoots_eq`): the wave is the roots'
weights in reverse index order, and the remaining graph keeps exactly the other nodes and
the edges between them. The invariant survives the call, the wave and the remaining weights
partition the old ones, and a non-empty graph always loses at least one node.
-/

namespace Stratus

namespace StableDag

variable {N : Type}

/-- The graph without the given nodes and every edge touching them. -/
def removeAll (g : StableDag N) (is : List NodeIndex) : StableDag N :=
  { g with
    nodes := g.nodes.filter fun p => p.1 ∉ is
    edges := g.edges.filter fun e => e.1 ∉ is ∧ e.2 ∉ is }

/-- The live nodes with no parent, in index order. -/
def roots (g : StableDag N) : List (NodeIndex × N) := g.nodes.filter fun p => g.isRoot p.1

@[simp] theorem removeAll_nodes (g : StableDag N) (is : List NodeIndex) :
    (g.removeAll is).nodes = g.nodes.filter fun p => p.1 ∉ is := rfl

@[simp] theorem removeAll_edges (g : StableDag N) (is : List NodeIndex) :
    (g.removeAll is).edges = g.edges.filter fun e => e.1 ∉ is ∧ e.2 ∉ is := rfl

@[simp] theorem removeAll_nextIndex (g : StableDag N) (is : List NodeIndex) :
    (g.removeAll is).nextIndex = g.nextIndex := rfl

theorem removeAll_nil (g : StableDag N) : g.removeAll [] = g := by
  cases g; simp [removeAll]

theorem removeAll_removeAll (g : StableDag N) (is js : List NodeIndex) :
    (g.removeAll is).removeAll js = g.removeAll (is ++ js) := by
  simp only [removeAll, List.filter_filter, List.mem_append, not_or]
  congr 2 <;> funext x <;> rw [← Bool.decide_and] <;> exact decide_eq_decide.mpr (by tauto)

/-- `remove_node` of a live node is `removeAll` of that one node. -/
theorem removeNode_eq {g : StableDag N} (hd : (g.nodes.map Prod.fst).Nodup) {i : NodeIndex}
    {w : N} (h : (i, w) ∈ g.nodes) : g.removeNode i = some (w, g.removeAll [i]) := by
  simp only [removeNode, lookup_of_mem hd h, Option.map_some', removeAll, List.mem_singleton]
  congr 3 <;> congr 1 <;> funext x
  · rw [decide_not]; rfl
  · rw [Bool.decide_and, decide_not, decide_not]; rfl

variable {rank : N → Nat} {g : StableDag N}

/-- Removing nodes keeps the invariant. -/
theorem WF.removeAll (hg : g.WF rank) (is : List NodeIndex) : (g.removeAll is).WF rank where
  nodup := (List.Sublist.map Prod.fst (List.filter_sublist _)).nodup hg.nodup
  fresh p hp := hg.fresh p (List.mem_of_mem_filter hp)
  ranked e he := by
    simp only [removeAll_edges, List.mem_filter, decide_eq_true_eq] at he
    obtain ⟨wa, wb, ha, hb, hlt⟩ := hg.ranked e he.1
    exact ⟨wa, wb, List.mem_filter.mpr ⟨ha, by simpa using he.2.1⟩,
      List.mem_filter.mpr ⟨hb, by simpa using he.2.2⟩, hlt⟩

/-- A live node is removed exactly when it is a root. -/
theorem mem_roots_keys {p : NodeIndex × N} (hp : p ∈ g.nodes) :
    p.1 ∈ g.roots.map Prod.fst ↔ g.isRoot p.1 = true := by
  constructor
  · intro h
    obtain ⟨q, hq, hqp⟩ := List.mem_map.mp h
    have hq' := List.mem_filter.mp hq
    rw [← hqp]
    exact of_decide_eq_true (by simpa using hq'.2)
  · intro h
    exact List.mem_map.mpr ⟨p, List.mem_filter.mpr ⟨hp, by simpa using h⟩, rfl⟩

/-- The removed roots and the remaining nodes partition the live nodes. -/
theorem perm_roots (g : StableDag N) :
    List.Perm g.nodes (g.roots ++ (g.removeAll (g.roots.map Prod.fst)).nodes) := by
  have hrest : (g.removeAll (g.roots.map Prod.fst)).nodes =
      g.nodes.filter fun p => !g.isRoot p.1 := by
    simp only [removeAll_nodes]
    apply List.filter_congr
    intro p hp
    simp [mem_roots_keys hp]
  rw [hrest, roots]
  exact (List.filter_append_perm _ _).symm

/-- A non-empty graph has a root, so `take_roots` makes progress. -/
theorem WF.roots_ne_nil (hg : g.WF rank) (hne : g.nodes ≠ []) : g.roots ≠ [] := by
  obtain ⟨p, hp, hroot⟩ := hg.exists_root hne
  exact List.ne_nil_of_mem (List.mem_filter.mpr ⟨hp, hroot⟩)

/-- The root indexes `take_roots` collects are distinct. -/
theorem WF.nodup_rootIndexes (hg : g.WF rank) : (g.nodeIdentifiers.filter g.isRoot).Nodup :=
  hg.nodup.filter _

/-- Every root index `take_roots` collects names a live node. -/
theorem mem_rootIndexes {i : NodeIndex} (h : i ∈ g.nodeIdentifiers.filter g.isRoot) :
    ∃ w, (i, w) ∈ g.nodes := by
  obtain ⟨p, hp, rfl⟩ := List.mem_map.mp (List.mem_of_mem_filter h)
  exact ⟨p.2, hp⟩

end StableDag

namespace TransactionDag

variable {rank : TransactionMined → Nat}

theorem removeRoots_eq {dag : StableDag TransactionMined} {ps : List (NodeIndex × TransactionMined)}
    (hd : (dag.nodes.map Prod.fst).Nodup) (hsub : ∀ p ∈ ps, p ∈ dag.nodes)
    (hps : (ps.map Prod.fst).Nodup) :
    removeRoots (ps.map Prod.fst) dag = .ok (ps.map Prod.snd, dag.removeAll (ps.map Prod.fst)) := by
  induction ps generalizing dag with
  | nil => simp [removeRoots, StableDag.removeAll_nil]
  | cons p rest ih =>
    simp only [List.map_cons, List.nodup_cons, List.mem_map] at hps ⊢
    have hp : (p.1, p.2) ∈ dag.nodes := hsub p (List.mem_cons_self _ _)
    have hd' : ((dag.removeAll [p.1]).nodes.map Prod.fst).Nodup :=
      (List.Sublist.map Prod.fst (List.filter_sublist _)).nodup hd
    have hsub' : ∀ q ∈ rest, q ∈ (dag.removeAll [p.1]).nodes := by
      intro q hq
      refine List.mem_filter.mpr ⟨hsub q (List.mem_cons_of_mem _ hq), ?_⟩
      simp only [List.mem_singleton, decide_eq_true_eq]
      exact fun h => hps.1 ⟨q, hq, h⟩
    simp only [removeRoots, StableDag.removeNode_eq hd hp, ih hd' hsub' hps.2,
      StableDag.removeAll_removeAll, List.singleton_append]
    rfl

/-- `take_roots` on a well-formed DAG never panics: it returns the roots' weights in reverse
index order (or `None` when there is no root) and removes exactly the roots. -/
theorem takeRoots_eq {d : TransactionDag} (hg : d.dag.WF rank) :
    d.takeRoots =
      .ok (if d.dag.roots = [] then none else some (d.dag.roots.map Prod.snd).reverse,
        ⟨d.dag.removeAll (d.dag.roots.map Prod.fst)⟩) := by
  have hkeys : d.dag.nodeIdentifiers.filter d.dag.isRoot = d.dag.roots.map Prod.fst := by
    simp [StableDag.nodeIdentifiers, StableDag.roots, List.filter_map, Function.comp_def]
  have hsub : ∀ p ∈ d.dag.roots.reverse, p ∈ d.dag.nodes := fun p hp =>
    List.mem_of_mem_filter (List.mem_reverse.mp hp)
  have hnd : (d.dag.roots.reverse.map Prod.fst).Nodup := by
    rw [List.map_reverse, List.nodup_reverse]
    exact (List.Sublist.map Prod.fst (List.filter_sublist _)).nodup hg.nodup
  have hrm := removeRoots_eq hg.nodup hsub hnd
  rw [List.map_reverse] at hrm
  simp only [takeRoots, hkeys, hrm, bind, Except.bind, pure, Except.pure, List.map_reverse,
    List.isEmpty_iff, List.reverse_eq_nil_iff, List.map_eq_nil_iff, StableDag.removeAll,
    List.mem_reverse]

end TransactionDag

end Stratus
