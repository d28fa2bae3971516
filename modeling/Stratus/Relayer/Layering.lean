import Stratus.Relayer.Waves

/-!
# Waves are the longest-chain layering

The waves that `take_roots` (`transaction_dag.rs:87–112`) peels from the DAG of
`TransactionDag::new` (lines 33–81), compared with `depth`, the length of a transaction's
longest chain of lower-indexed conflicting predecessors. Inputs with distinct transaction
indices and inputs with repeated ones are treated apart; the last section holds for every input.
-/

namespace Stratus

namespace TransactionDag

/-- Two transactions conflict when both modify one `(address, slot index)`, or both modify
the balance of one address. -/
def Conflict (u v : TransactionMined) : Prop :=
  (∃ z, z ∈ u.slotWrites ∧ z ∈ v.slotWrites) ∨ (∃ a, a ∈ u.balanceWrites ∧ a ∈ v.balanceWrites)

instance (u v : TransactionMined) : Decidable (Conflict u v) :=
  inferInstanceAs (Decidable (_ ∨ _))

/-- The layer of `v` in the maximal-parallelism order: `0` when no lower-indexed transaction
conflicts with `v`, otherwise one more than the deepest lower-indexed conflicting one. -/
def depth (txs : List TransactionMined) (v : TransactionMined) : Nat :=
  ((txs.filter fun u => u.transactionIndex < v.transactionIndex ∧ Conflict u v).attach.map
    fun u => depth txs u.1 + 1).foldr max 0
termination_by v.transactionIndex.toNat
decreasing_by
  have h := (List.mem_filter.mp u.2).2
  simp only [decide_eq_true_eq] at h
  exact (UInt64.lt_iff_toNat_lt _ _).mp h.1

private theorem foldr_max_le_iff (l : List Nat) (k : Nat) :
    l.foldr max 0 ≤ k ↔ ∀ x ∈ l, x ≤ k := by
  induction l with
  | nil => exact ⟨(fun _ _ h => nomatch h), fun _ => Nat.zero_le _⟩
  | cons x l ih => rw [List.foldr_cons, Nat.max_le, ih, List.forall_mem_cons]

/-- A transaction's layer is at most `k` exactly when every lower-indexed conflicting
transaction lies in a layer below `k`. -/
theorem depth_le_iff {txs : List TransactionMined} {v : TransactionMined} {k : Nat} :
    depth txs v ≤ k ↔
      ∀ u ∈ txs, u.transactionIndex < v.transactionIndex → Conflict u v → depth txs u < k := by
  rw [depth, foldr_max_le_iff]
  simp only [List.mem_map, List.mem_attach, true_and, Subtype.exists, List.mem_filter,
    decide_eq_true_eq, forall_exists_index, and_imp]
  constructor
  · intro h u hu hlt hc
    exact h _ u hu hlt hc rfl
  · rintro h _ u hu hlt hc rfl
    exact h u hu hlt hc

/-- A conflicting lower-indexed transaction lies in a strictly lower layer. -/
theorem depth_lt_of_conflict {txs : List TransactionMined} {u v : TransactionMined}
    (hu : u ∈ txs) (hlt : u.transactionIndex < v.transactionIndex) (hc : Conflict u v) :
    depth txs u < depth txs v :=
  depth_le_iff.mp le_rfl u hu hlt hc

/-! ### The built DAG under distinct indices -/

section Distinct

variable {txs : List TransactionMined}

theorem mem_txs_of_node {a : NodeIndex} {u : TransactionMined}
    (h : (a, u) ∈ (builtDag txs).nodes) : u ∈ txs :=
  (nodes_builtDag txs).subset (List.mem_map.mpr ⟨(a, u), h, rfl⟩)

theorem exists_node {u : TransactionMined} (h : u ∈ txs) : ∃ a, (a, u) ∈ (builtDag txs).nodes := by
  obtain ⟨p, hp, rfl⟩ := List.mem_map.mp ((nodes_builtDag txs).symm.subset h)
  exact ⟨p.1, hp⟩

/-- With distinct indices, a node is determined by its transaction's index. -/
theorem node_unique (hd : (txs.map TransactionMined.transactionIndex).Nodup)
    {a a' : NodeIndex} {u u' : TransactionMined} (h : (a, u) ∈ (builtDag txs).nodes)
    (h' : (a', u') ∈ (builtDag txs).nodes) (hk : u.transactionIndex = u'.transactionIndex) :
    a = a' ∧ u = u' := by
  have hnd : ((builtDag txs).nodes.map fun p => p.2.transactionIndex).Nodup := by
    have := ((nodes_builtDag txs).map TransactionMined.transactionIndex).nodup_iff.mpr hd
    simpa [List.map_map, Function.comp_def] using this
  simpa using List.inj_on_of_nodup_map hnd h h' hk

/-- With distinct indices, `node_indexes` maps each index to the node of its transaction. -/
theorem nodeIndexes_iff (hd : (txs.map TransactionMined.transactionIndex).Nodup) {k : Index}
    {a : NodeIndex} :
    (built txs).nodeIndexes k = some a ↔
      ∃ u, (a, u) ∈ (builtDag txs).nodes ∧ u.transactionIndex = k := by
  have hb := inv_built txs
  refine ⟨hb.pointsInto k a, ?_⟩
  rintro ⟨u, hu, rfl⟩
  have hsorted : u ∈ sortedByIndex txs :=
    (List.perm_insertionSort _ txs).symm.subset (mem_txs_of_node hu)
  obtain ⟨a', ha'⟩ := Option.isSome_iff_exists.mp (hb.indexed u hsorted)
  obtain ⟨u', hu', hk⟩ := hb.pointsInto _ _ ha'
  rw [ha', (node_unique hd hu' hu hk).1]

variable {K : Type} [DecidableEq K] {writes : TransactionMined → List K}
  {m : List (Index × List K)}

omit [DecidableEq K] in
/-- With distinct indices, the set stored under a transaction's index is what it writes. -/
theorem mem_entries_iff (hd : (txs.map TransactionMined.transactionIndex).Nodup)
    (hm : ConflictMap writes (sortedByIndex txs) m) {a : NodeIndex} {u : TransactionMined}
    (hu : (a, u) ∈ (builtDag txs).nodes) {z : K} :
    z ∈ entries m u.transactionIndex ↔ z ∈ writes u := by
  rw [hm.mem]
  constructor
  · rintro ⟨t, ht, hk, hz⟩
    obtain ⟨a', ha'⟩ := exists_node ((List.perm_insertionSort _ txs).subset ht)
    rwa [← (node_unique hd ha' hu hk).2]
  · exact fun hz => ⟨u, (List.perm_insertionSort _ txs).symm.subset (mem_txs_of_node hu), rfl, hz⟩

omit [DecidableEq K] in
theorem mem_of_mem_entries {k : Index} {z : K} (h : z ∈ entries m k) : (k, entries m k) ∈ m := by
  unfold entries at h ⊢
  cases hl : m.lookup k with
  | none => simp [hl] at h
  | some s =>
    simp only [Option.getD_some]
    induction m with
    | nil => simp at hl
    | cons p rest ih =>
      rcases p with ⟨k', s'⟩
      by_cases hk : k = k'
      · subst hk; simp_all [List.lookup]
      · simp only [List.lookup, beq_false_of_ne hk] at hl
        exact List.mem_cons_of_mem _ (ih (by simpa [List.lookup, beq_false_of_ne hk] using h) hl)

/-- For one conflict map, the entry pairs that the edge loop joins are exactly the pairs of
transactions, lower index first, that write a common value. -/
theorem pairs_iff (hd : (txs.map TransactionMined.transactionIndex).Nodup)
    (hm : ConflictMap writes (sortedByIndex txs) m) {a b : NodeIndex} :
    (∃ x ∈ m, ∃ y ∈ m, x.1 < y.1 ∧ isDisjoint x.2 y.2 = false ∧
      (built txs).nodeIndexes x.1 = some a ∧ (built txs).nodeIndexes y.1 = some b) ↔
    ∃ u v, (a, u) ∈ (builtDag txs).nodes ∧ (b, v) ∈ (builtDag txs).nodes ∧
      u.transactionIndex < v.transactionIndex ∧ ∃ z, z ∈ writes u ∧ z ∈ writes v := by
  simp only [isDisjoint_eq_false_iff, nodeIndexes_iff hd]
  constructor
  · rintro ⟨x, hx, y, hy, hlt, ⟨z, hzx, hzy⟩, ⟨u, hu, hux⟩, ⟨v, hv, hvy⟩⟩
    refine ⟨u, v, hu, hv, hux ▸ hvy ▸ hlt, z, ?_, ?_⟩
    · rw [← mem_entries_iff hd hm hu, hux, hm.entries_of_mem hx]; exact hzx
    · rw [← mem_entries_iff hd hm hv, hvy, hm.entries_of_mem hy]; exact hzy
  · rintro ⟨u, v, hu, hv, hlt, z, hzu, hzv⟩
    have hzu' := (mem_entries_iff hd hm hu).mpr hzu
    have hzv' := (mem_entries_iff hd hm hv).mpr hzv
    exact ⟨_, mem_of_mem_entries hzu', _, mem_of_mem_entries hzv', hlt, ⟨z, hzu', hzv'⟩,
      ⟨u, hu, rfl⟩, ⟨v, hv, rfl⟩⟩

/-- With distinct indices, `new` joins `u → v` exactly when `u` has the lower index and the
two conflict. -/
theorem mem_edges_builtDag_iff (hd : (txs.map TransactionMined.transactionIndex).Nodup)
    {a b : NodeIndex} :
    (a, b) ∈ (builtDag txs).edges ↔
      ∃ u v, (a, u) ∈ (builtDag txs).nodes ∧ (b, v) ∈ (builtDag txs).nodes ∧
        u.transactionIndex < v.transactionIndex ∧ Conflict u v := by
  have hb := inv_built txs
  rw [mem_edges_builtDag, pairs_iff hd hb.slots, pairs_iff hd hb.balances]
  constructor
  · rintro (⟨u, v, hu, hv, hlt, h⟩ | ⟨u, v, hu, hv, hlt, h⟩)
    · exact ⟨u, v, hu, hv, hlt, .inl h⟩
    · exact ⟨u, v, hu, hv, hlt, .inr h⟩
  · rintro ⟨u, v, hu, hv, hlt, h | h⟩
    · exact .inl ⟨u, v, hu, hv, hlt, h⟩
    · exact .inr ⟨u, v, hu, hv, hlt, h⟩

/-! ### Layer by layer -/

/-- The DAG after the first `k` waves: the built DAG without the nodes of layers below `k`. -/
def stage (txs : List TransactionMined) (k : Nat) : StableDag TransactionMined :=
  (builtDag txs).removeAll
    (((builtDag txs).nodes.filter fun p => depth txs p.2 < k).map Prod.fst)

/-- The `k`-th wave of a maximally parallel schedule: the transactions whose longest chain of
lower-indexed conflicting predecessors has length `k`, in the order `take_roots` pops them, or
`None` when there are none. -/
def layer (txs : List TransactionMined) (k : Nat) : Option (List TransactionMined) :=
  let ps := (builtDag txs).nodes.filter fun p => depth txs p.2 = k
  if ps = [] then none else some (ps.map Prod.snd).reverse

theorem StableDag.removeAll_congr {N : Type} (g : StableDag N) {is js : List NodeIndex}
    (h : ∀ i, i ∈ is ↔ i ∈ js) : g.removeAll is = g.removeAll js := by
  simp only [StableDag.removeAll, h]

private theorem key_mem_below_iff {p : NodeIndex × TransactionMined}
    (hp : p ∈ (builtDag txs).nodes) {k : Nat} :
    p.1 ∈ ((builtDag txs).nodes.filter fun p => depth txs p.2 < k).map Prod.fst ↔
      depth txs p.2 < k := by
  constructor
  · intro h
    obtain ⟨q, hq, hqp⟩ := List.mem_map.mp h
    have hq' := List.mem_filter.mp hq
    have := (wf_builtDag txs).weight_unique (show (q.1, q.2) ∈ _ from hq'.1)
      (show (q.1, p.2) ∈ _ from hqp ▸ hp)
    simpa [this] using hq'.2
  · exact fun h => List.mem_map.mpr ⟨p, List.mem_filter.mpr ⟨hp, by simpa using h⟩, rfl⟩

/-- A node of stage `k` is a root exactly when its layer is at most `k`. -/
theorem isRoot_stage (hd : (txs.map TransactionMined.transactionIndex).Nodup)
    {p : NodeIndex × TransactionMined} (hp : p ∈ (builtDag txs).nodes) {k : Nat} :
    (stage txs k).isRoot p.1 = true ↔ depth txs p.2 ≤ k := by
  rw [depth_le_iff]
  simp only [StableDag.isRoot, stage, StableDag.removeAll_edges, Bool.not_eq_true',
    List.any_eq_false, List.mem_filter, decide_eq_true_eq, beq_iff_eq, and_imp, Prod.forall]
  constructor
  · intro h u hu hlt hc
    obtain ⟨a, ha⟩ := exists_node hu
    by_contra hk
    refine h a p.1 ((mem_edges_builtDag_iff hd).mpr ⟨u, p.2, ha, hp, hlt, hc⟩) ?_ ?_ rfl
    · exact mt (key_mem_below_iff ha).mp hk
    · exact mt (key_mem_below_iff hp).mp (by have := depth_lt_of_conflict hu hlt hc; omega)
  · intro h a b he ha _ hb
    obtain ⟨u, v, hu, hv, hlt, hc⟩ := (mem_edges_builtDag_iff hd).mp he
    subst hb
    have hv' := (wf_builtDag txs).weight_unique hv hp
    subst hv'
    exact ha ((key_mem_below_iff hu).mpr (h u (mem_txs_of_node hu) hlt hc))

theorem roots_stage (hd : (txs.map TransactionMined.transactionIndex).Nodup) (k : Nat) :
    (stage txs k).roots = (builtDag txs).nodes.filter fun p => depth txs p.2 = k := by
  simp only [StableDag.roots, stage, StableDag.removeAll_nodes, List.filter_filter]
  apply List.filter_congr
  intro p hp
  have := isRoot_stage hd hp (k := k)
  simp only [stage] at this
  rw [Bool.eq_iff_iff, Bool.and_eq_true, this, decide_eq_true_eq, decide_eq_true_eq,
    key_mem_below_iff hp]
  omega

theorem stage_succ (hd : (txs.map TransactionMined.transactionIndex).Nodup) (k : Nat) :
    (stage txs k).removeAll ((stage txs k).roots.map Prod.fst) = stage txs (k + 1) := by
  rw [roots_stage hd, stage, StableDag.removeAll_removeAll, stage]
  apply StableDag.removeAll_congr
  intro i
  simp only [List.mem_append, List.mem_map, List.mem_filter, decide_eq_true_eq]
  constructor
  · rintro (⟨p, ⟨hp, hk⟩, rfl⟩ | ⟨p, ⟨hp, hk⟩, rfl⟩) <;> exact ⟨p, ⟨hp, by omega⟩, rfl⟩
  · rintro ⟨p, ⟨hp, hk⟩, rfl⟩
    rcases Nat.lt_succ_iff_lt_or_eq.mp hk with hk | hk
    · exact .inl ⟨p, ⟨hp, hk⟩, rfl⟩
    · exact .inr ⟨p, ⟨hp, hk⟩, rfl⟩

/-- From stage `k`, `take_roots` returns layer `k` and leaves stage `k + 1`. -/
theorem takeRoots_stage (hd : (txs.map TransactionMined.transactionIndex).Nodup) (k : Nat) :
    (⟨stage txs k⟩ : TransactionDag).takeRoots = .ok (layer txs k, ⟨stage txs (k + 1)⟩) := by
  rw [@takeRoots_eq _ ⟨stage txs k⟩ ((wf_builtDag txs).removeAll _)]
  rw [stage_succ hd, roots_stage hd]
  rfl

theorem calls_stage (hd : (txs.map TransactionMined.transactionIndex).Nodup) :
    ∀ (n k : Nat), (⟨stage txs k⟩ : TransactionDag).calls n =
      .ok ((List.range n).map fun i => layer txs (k + i))
  | 0, _ => rfl
  | n + 1, k => by
    rw [calls_succ (takeRoots_stage hd k), calls_stage hd n (k + 1)]
    simp only [Except.map, List.range_succ_eq_map, List.map_cons, List.map_map,
      Function.comp_def, Nat.add_zero, Nat.add_right_comm k 1, Nat.add_assoc]

theorem stage_zero : stage txs 0 = builtDag txs := by
  simp only [stage, Nat.not_lt_zero, decide_False, List.filter_false, List.map_nil,
    StableDag.removeAll_nil]

/-- With distinct indices, the `i`-th wave of the built DAG is exactly layer `i`. -/
theorem yields_layers (hd : (txs.map TransactionMined.transactionIndex).Nodup) :
    ∃ waves, (⟨builtDag txs⟩ : TransactionDag).Yields waves ∧
      ∀ v ∈ txs, ∀ i, v ∈ waves.getD i [] ↔ depth txs v = i := by
  obtain ⟨waves, hy, -⟩ := @WF.yields ⟨builtDag txs⟩ (wf_builtDag txs)
  refine ⟨waves, hy, fun v hv i => ?_⟩
  have hcalls := calls_stage hd (i + 1) 0
  rw [stage_zero, hy (i + 1)] at hcalls
  have hi : waves[i]? = layer txs i := by
    have := List.map_inj_left.mp (Except.ok.inj hcalls) i (List.mem_range.mpr (Nat.lt_succ_self i))
    simpa using this
  rw [List.getD_eq_getElem?_getD, hi, layer]
  obtain ⟨a, ha⟩ := exists_node hv
  split
  · next hnil =>
    simp only [Option.getD_none, List.not_mem_nil, false_iff]
    intro hdv
    exact (List.filter_eq_nil_iff.mp hnil) _ ha (by simpa using hdv)
  · simp only [Option.getD_some, List.mem_reverse, List.mem_map, List.mem_filter,
      decide_eq_true_eq]
    constructor
    · rintro ⟨p, ⟨-, hp⟩, rfl⟩; exact hp
    · exact fun h => ⟨(a, v), ⟨ha, h⟩, rfl⟩

/-- Maximal parallelism: for pairwise distinct indices, the `i`-th wave of `take_roots`
holds exactly the transactions of layer `i`, so every transaction runs in the wave right
after its last conflicting lower-indexed predecessor. -/
theorem new_takeRoots_depth (txs : List TransactionMined)
    (hd : (txs.map TransactionMined.transactionIndex).Nodup) :
    ∃ d, new txs = .ok d ∧ ∃ waves, d.Yields waves ∧
      ∀ v ∈ txs, ∀ i, v ∈ waves.getD i [] ↔ depth txs v = i :=
  ⟨_, new_eq txs, yields_layers hd⟩

/-- The layering on two transactions of the module's tests that both set slot `1`. -/
theorem new_takeRoots_depth_createTx :
    ([createTx [1] 0, createTx [1] 1].map TransactionMined.transactionIndex).Nodup ∧
      ∃ d, new [createTx [1] 0, createTx [1] 1] = .ok d ∧ ∃ waves, d.Yields waves ∧
        ∀ v ∈ [createTx [1] 0, createTx [1] 1], ∀ i,
          v ∈ waves.getD i [] ↔ depth [createTx [1] 0, createTx [1] 1] v = i :=
  ⟨by decide, new_takeRoots_depth _ (by decide)⟩

/-- With distinct indices, two conflicting transactions both come out, in different waves, the
lower index first. -/
theorem new_takeRoots_conflict_ordered (hd : (txs.map TransactionMined.transactionIndex).Nodup) :
    ∃ d, new txs = .ok d ∧ ∃ waves, d.Yields waves ∧
      ∀ u ∈ txs, ∀ v ∈ txs, u.transactionIndex < v.transactionIndex → Conflict u v →
        u ∈ waves.getD (depth txs u) [] ∧ v ∈ waves.getD (depth txs v) [] ∧
          depth txs u < depth txs v ∧
          ∀ i j, u ∈ waves.getD i [] → v ∈ waves.getD j [] → i < j := by
  obtain ⟨waves, hy, hw⟩ := yields_layers hd
  refine ⟨_, new_eq txs, waves, hy, fun u hu v hv hlt hc => ?_⟩
  have hlt' := depth_lt_of_conflict hu hlt hc
  refine ⟨(hw u hu _).mpr rfl, (hw v hv _).mpr rfl, hlt', fun i j hi hj => ?_⟩
  rwa [← (hw u hu i).mp hi, ← (hw v hv j).mp hj]

/-- The ordering on the module's two transactions that both set slot `1`. -/
theorem new_takeRoots_conflict_ordered_createTx :
    ([createTx [1] 0, createTx [1] 1].map TransactionMined.transactionIndex).Nodup ∧
      ∃ d, new [createTx [1] 0, createTx [1] 1] = .ok d ∧ ∃ waves, d.Yields waves ∧
        ∀ u ∈ [createTx [1] 0, createTx [1] 1], ∀ v ∈ [createTx [1] 0, createTx [1] 1],
          u.transactionIndex < v.transactionIndex → Conflict u v →
            u ∈ waves.getD (depth [createTx [1] 0, createTx [1] 1] u) [] ∧
            v ∈ waves.getD (depth [createTx [1] 0, createTx [1] 1] v) [] ∧
            depth [createTx [1] 0, createTx [1] 1] u < depth [createTx [1] 0, createTx [1] 1] v ∧
            ∀ i j, u ∈ waves.getD i [] → v ∈ waves.getD j [] → i < j :=
  ⟨by decide, new_takeRoots_conflict_ordered (by decide)⟩

end Distinct

/-! ### Repeated indices -/

/-- Two transactions of index `0` from blocks `1` and `2` that both set slot `1` of
`Address::ZERO`: they conflict, but `new` files both under key `0` of `slot_conflicts` and
`node_indexes`, joins no edge, and the first `take_roots` returns them in one wave. -/
theorem new_takeRoots_duplicate_index :
    let u : TransactionMined := { createTx [1] 0 with blockNumber := 1, blockHash := 1 }
    let v : TransactionMined := { createTx [1] 0 with blockNumber := 2, blockHash := 2 }
    u ≠ v ∧ Conflict u v ∧ (new [u, v] >>= fun d => d.calls 2) = .ok [some [v, u], none] := by
  intro u v
  refine ⟨by decide, by decide, ?_⟩
  rfl

/-! ### No panics -/

/-- For every input, repeated indices included, `new` returns a DAG with one node per input
transaction: every key its edge loops look up in `node_indexes` finds a node of that DAG with
that index, and every edge climbs in transaction index, so daggy refuses none. `take_roots`
returns on every DAG that earlier calls reach from it, removing distinct live nodes. With
distinct indices the edges join exactly the conflicting pairs, the lower index first. -/
theorem new_takeRoots_no_panic (txs : List TransactionMined) :
    ∃ d, new txs = .ok d ∧ (d.dag.nodes.map Prod.snd).Perm txs ∧
      (∀ x ∈ (built txs).slotConflicts, ∃ i w, (built txs).nodeIndexes x.1 = some i ∧
        (i, w) ∈ d.dag.nodes ∧ w.transactionIndex = x.1) ∧
      (∀ x ∈ (built txs).balanceConflicts, ∃ i w, (built txs).nodeIndexes x.1 = some i ∧
        (i, w) ∈ d.dag.nodes ∧ w.transactionIndex = x.1) ∧
      (∀ a b, (a, b) ∈ d.dag.edges → ∃ u v, (a, u) ∈ d.dag.nodes ∧ (b, v) ∈ d.dag.nodes ∧
        u.transactionIndex < v.transactionIndex) ∧
      (∀ d', Reachable d d' → (∃ r, d'.takeRoots = .ok r) ∧
        (d'.dag.nodeIdentifiers.filter d'.dag.isRoot).Nodup ∧
        ∀ i ∈ d'.dag.nodeIdentifiers.filter d'.dag.isRoot, ∃ w, (i, w) ∈ d'.dag.nodes) ∧
      ((txs.map TransactionMined.transactionIndex).Nodup → ∀ a b,
        (a, b) ∈ d.dag.edges ↔ ∃ u v, (a, u) ∈ d.dag.nodes ∧ (b, v) ∈ d.dag.nodes ∧
          u.transactionIndex < v.transactionIndex ∧ Conflict u v) := by
  have hb := inv_built txs
  refine ⟨_, new_eq txs, nodes_builtDag txs, lookup_nodeIndexes_builtDag hb.slots,
    lookup_nodeIndexes_builtDag hb.balances, fun a b he => ?_, fun d' hr => ?_, fun hd a b => mem_edges_builtDag_iff hd⟩
  · obtain ⟨u, v, hu, hv, hlt⟩ := (wf_builtDag txs).ranked (a, b) he
    exact ⟨u, v, hu, hv, (UInt64.lt_iff_toNat_lt _ _).mpr hlt⟩
  · have hg := hr.wf (wf_builtDag txs)
    exact ⟨⟨_, takeRoots_eq hg⟩, hg.nodup_rootIndexes, fun _ => StableDag.mem_rootIndexes⟩

end TransactionDag

end Stratus
