import Stratus.Primitives.Transaction

/-!
# Stable DAGs

The part of `daggy::stable_dag::StableDag` that `src/src/eth/relayer/transaction_dag.rs`
uses: `add_node`, `add_edge` with its cycle check, `node_identifiers`, the parent walker and
`remove_node`. Node indices are stable: removing a node never renumbers the others. Edge
weights (always `1`) are never read and are left out; parallel edges are kept.

`WF` is the invariant the relayer maintains: distinct node indices below the next fresh one,
and every edge climbing strictly in a rank of its endpoints' weights. A ranked graph is
acyclic, so `add_edge` accepts every rank-increasing edge and a non-empty graph has a root.
-/

namespace Stratus

/-- `petgraph::graph::NodeIndex`. -/
abbrev NodeIndex := Nat

/-- The observable state of a `StableDag<N, i32>`: live nodes in index order with their
weights, edges as `(parent, child)` pairs, and the index the next `add_node` returns. -/
structure StableDag (N : Type) where
  nodes : List (NodeIndex × N)
  edges : List (NodeIndex × NodeIndex)
  nextIndex : NodeIndex
  deriving DecidableEq, Repr

/-- The two ways `add_edge` can refuse an edge: daggy's `WouldCycle`, and petgraph's panic
on an index that is not a node. -/
inductive AddEdgeError where
  | wouldCycle
  | panic (msg : String)
  deriving DecidableEq, Repr

namespace StableDag

variable {N : Type}

/-- `StableDag::new`. -/
def empty : StableDag N := ⟨[], [], 0⟩

/-- `StableDag::add_node`: the new node takes the next fresh index. -/
def addNode (g : StableDag N) (weight : N) : NodeIndex × StableDag N :=
  (g.nextIndex,
    { g with nodes := g.nodes ++ [(g.nextIndex, weight)], nextIndex := g.nextIndex + 1 })

/-- Whether an index names a live node. -/
def containsNode (g : StableDag N) (i : NodeIndex) : Bool := g.nodes.any (·.1 == i)

/-- `petgraph::algo::has_path_connecting` along paths of at most `fuel` edges. -/
def reaches (edges : List (NodeIndex × NodeIndex)) : Nat → NodeIndex → NodeIndex → Bool
  | 0, a, b => a == b
  | fuel + 1, a, b => a == b || edges.any fun e => e.1 == a && reaches edges fuel e.2 b

/-- `StableDag::add_edge`: daggy refuses an edge `a → b` when `b` already reaches `a` (a
simple path has fewer edges than there are nodes), then petgraph panics on a dead index. -/
def addEdge (g : StableDag N) (a b : NodeIndex) : Except AddEdgeError (StableDag N) :=
  if reaches g.edges g.nodes.length b a then .error .wouldCycle
  else if g.containsNode a && g.containsNode b then .ok { g with edges := g.edges ++ [(a, b)] }
  else .error (.panic "StableGraph::add_edge: node index is not a node in the graph")

/-- `node_identifiers()`: the live indices in index order. -/
def nodeIdentifiers (g : StableDag N) : List NodeIndex := g.nodes.map Prod.fst

/-- `parents(i).walk_next(dag).is_none()`: no edge enters `i`. -/
def isRoot (g : StableDag N) (i : NodeIndex) : Bool := !g.edges.any (·.2 == i)

/-- `StableDag::remove_node`: the weight of a live node, and the graph without it and its
edges. -/
def removeNode (g : StableDag N) (i : NodeIndex) : Option (N × StableDag N) :=
  (g.nodes.lookup i).map fun w =>
    (w, { g with
      nodes := g.nodes.filter (·.1 != i)
      edges := g.edges.filter fun e => e.1 != i && e.2 != i })

/-- The relayer's invariant, for a rank on node weights. -/
structure WF (rank : N → Nat) (g : StableDag N) : Prop where
  nodup : (g.nodes.map Prod.fst).Nodup
  fresh : ∀ p ∈ g.nodes, p.1 < g.nextIndex
  ranked : ∀ e ∈ g.edges, ∃ wa wb, (e.1, wa) ∈ g.nodes ∧ (e.2, wb) ∈ g.nodes ∧ rank wa < rank wb

variable {rank : N → Nat} {g : StableDag N}

/-- A node index carries one weight. -/
theorem WF.weight_unique (hg : g.WF rank) {i : NodeIndex} {a b : N}
    (ha : (i, a) ∈ g.nodes) (hb : (i, b) ∈ g.nodes) : a = b := by
  have := List.inj_on_of_nodup_map hg.nodup ha hb rfl
  simp only [Prod.mk.injEq, true_and] at this
  exact this

theorem lookup_of_mem {α β : Type} [BEq α] [LawfulBEq α] {nodes : List (α × β)}
    (hd : (nodes.map Prod.fst).Nodup) {i : α} {w : β} (h : (i, w) ∈ nodes) :
    nodes.lookup i = some w := by
  induction nodes with
  | nil => cases h
  | cons p rest ih =>
    rcases p with ⟨j, v⟩
    simp only [List.map_cons, List.nodup_cons, List.mem_map] at hd
    rcases List.mem_cons.mp h with he | hr
    · cases he; simp
    · have hij : (i == j) = false := beq_false_of_ne fun hji => hd.1 ⟨(i, w), hr, hji⟩
      rw [List.lookup, hij]
      exact ih hd.2 hr

theorem containsNode_of_mem {i : NodeIndex} {w : N} (h : (i, w) ∈ g.nodes) :
    g.containsNode i = true :=
  List.any_eq_true.mpr ⟨(i, w), h, by simp⟩

/-- The empty graph satisfies the invariant. -/
theorem wf_empty : (empty : StableDag N).WF rank :=
  ⟨List.nodup_nil, by simp [empty], by simp [empty]⟩

/-- `add_node` keeps the invariant and adds exactly one node. -/
theorem wf_addNode (hg : g.WF rank) (w : N) : (g.addNode w).2.WF rank where
  nodup := by
    simp only [addNode, List.map_append, List.map_cons, List.map_nil]
    refine List.nodup_append.mpr ⟨hg.nodup, List.nodup_singleton _, ?_⟩
    intro i hi hj
    obtain ⟨p, hp, rfl⟩ := List.mem_map.mp hi
    have := hg.fresh p hp
    simp only [List.mem_singleton] at hj
    rw [hj] at this
    exact Nat.lt_irrefl _ this
  fresh := by
    intro p hp
    simp only [addNode, List.mem_append, List.mem_singleton] at hp ⊢
    rcases hp with hp | rfl
    · exact Nat.lt_succ_of_lt (hg.fresh p hp)
    · exact Nat.lt_succ_self _
  ranked := by
    intro e he
    obtain ⟨wa, wb, ha, hb, hlt⟩ := hg.ranked e he
    exact ⟨wa, wb, List.mem_append_left _ ha, List.mem_append_left _ hb, hlt⟩

/-- In a ranked graph a path only climbs: the source is the target, or both are live and the
source ranks strictly lower. -/
theorem WF.reaches_rank (hg : g.WF rank) {fuel : Nat} {a b : NodeIndex}
    (h : reaches g.edges fuel a b = true) :
    a = b ∨ ∃ wa wb, (a, wa) ∈ g.nodes ∧ (b, wb) ∈ g.nodes ∧ rank wa < rank wb := by
  induction fuel generalizing a with
  | zero => exact .inl (by simpa [reaches] using h)
  | succ fuel ih =>
    simp only [reaches, Bool.or_eq_true, beq_iff_eq, List.any_eq_true, Bool.and_eq_true] at h
    rcases h with h | ⟨e, he, hea, hr⟩
    · exact .inl h
    · obtain ⟨wa, wc, ha, hc, hac⟩ := hg.ranked e he
      rw [hea] at ha
      refine .inr ?_
      rcases ih hr with hcb | ⟨wc', wb, hc', hb, hcb⟩
      · exact ⟨wa, wc, ha, hcb ▸ hc, hac⟩
      · exact ⟨wa, wb, ha, hb, by rw [hg.weight_unique hc hc'] at hac; omega⟩

/-- `add_edge` accepts every edge that climbs in rank between live nodes. -/
theorem WF.addEdge_eq (hg : g.WF rank) {a b : NodeIndex} {wa wb : N}
    (ha : (a, wa) ∈ g.nodes) (hb : (b, wb) ∈ g.nodes) (hlt : rank wa < rank wb) :
    g.addEdge a b = .ok { g with edges := g.edges ++ [(a, b)] } := by
  have hback : reaches g.edges g.nodes.length b a = false := by
    cases hr : reaches g.edges g.nodes.length b a
    · rfl
    · rcases hg.reaches_rank hr with hba | ⟨wb', wa', hb', ha', hlt'⟩
      · subst hba; rw [hg.weight_unique ha hb] at hlt; omega
      · rw [hg.weight_unique hb hb', hg.weight_unique ha ha'] at hlt; omega
  simp [addEdge, hback, containsNode_of_mem ha, containsNode_of_mem hb]

/-- An accepted rank-increasing edge keeps the invariant. -/
theorem WF.addEdge (hg : g.WF rank) {a b : NodeIndex} {wa wb : N}
    (ha : (a, wa) ∈ g.nodes) (hb : (b, wb) ∈ g.nodes) (hlt : rank wa < rank wb) :
    ({ g with edges := g.edges ++ [(a, b)] } : StableDag N).WF rank where
  nodup := hg.nodup
  fresh := hg.fresh
  ranked := by
    intro e he
    rcases List.mem_append.mp he with he | he
    · exact hg.ranked e he
    · rw [List.mem_singleton.mp he]; exact ⟨wa, wb, ha, hb, hlt⟩

/-- A non-empty ranked graph has a root: follow parents down the rank. -/
theorem WF.exists_root (hg : g.WF rank) (hne : g.nodes ≠ []) :
    ∃ p ∈ g.nodes, g.isRoot p.1 = true := by
  have descend : ∀ r, ∀ p ∈ g.nodes, rank p.2 = r → ∃ q ∈ g.nodes, g.isRoot q.1 = true := by
    intro r
    induction r using Nat.strong_induction_on with
    | _ r ih =>
      intro p hp hr
      cases hroot : g.isRoot p.1
      · simp only [isRoot, Bool.not_eq_false', List.any_eq_true, beq_iff_eq] at hroot
        obtain ⟨e, he, hep⟩ := hroot
        obtain ⟨wa, wb, ha, hb, hlt⟩ := hg.ranked e he
        rw [hep, ← hg.weight_unique hp hb] at *
        exact ih (rank wa) (hr ▸ hlt) _ ha rfl
      · exact ⟨p, hp, hroot⟩
  obtain ⟨p, hp⟩ := List.exists_mem_of_ne_nil _ hne
  exact descend _ p hp rfl

end StableDag

end Stratus
