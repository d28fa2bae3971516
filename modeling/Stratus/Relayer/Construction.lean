import Stratus.Relayer.TakeRoots

/-!
# What `TransactionDag::new` builds

`transaction_dag.rs:33–81`. Every input transaction becomes one node, in index order. The
conflict maps hold, under each index, the union of the modified slots (or balances) of the
transactions with that index, and `node_indexes` points each index at the last of them. The
edge loops then join `node_indexes[k1] → node_indexes[k2]` for every two keys `k1 < k2` whose
sets meet (`mem_edges_builtDag`). Every such edge climbs in transaction index, so `add_edge` never
refuses one and `new` never panics (`new_eq`), for any input, duplicate indices included.
-/

namespace Stratus

namespace TransactionDag

/-! ### Conflict maps -/

section Conflicts

variable {K : Type} [DecidableEq K]

/-- The set stored under a key, empty when the key is absent. -/
def entries (m : List (Index × List K)) (k : Index) : List K := (m.lookup k).getD []

theorem mem_entries_entryInsert (m : List (Index × List K)) (key k : Index) (x z : K) :
    z ∈ entries (entryInsert key x m) k ↔ (k = key ∧ z = x) ∨ z ∈ entries m k := by
  induction m with
  | nil =>
    by_cases hk : k = key
    · simp [entryInsert, entries, List.lookup, hk]
    · simp [entryInsert, entries, List.lookup, hk, beq_false_of_ne hk]
  | cons p rest ih =>
    rcases p with ⟨k', s⟩
    by_cases h : k' = key
    · subst h
      by_cases hk : k = k'
      · subst hk; simp [entryInsert, entries, List.lookup, List.mem_insert_iff]
      · simp [entryInsert, entries, List.lookup, hk, beq_false_of_ne hk]
    · simp only [entries, entryInsert, h, ↓reduceIte, List.lookup] at ih ⊢
      by_cases hk : k = k'
      · subst hk; simp [h]
      · simpa [beq_false_of_ne hk] using ih

theorem keys_entryInsert (m : List (Index × List K)) (key : Index) (x : K) :
    (entryInsert key x m).map Prod.fst =
      if key ∈ m.map Prod.fst then m.map Prod.fst else m.map Prod.fst ++ [key] := by
  induction m with
  | nil => rfl
  | cons p rest ih =>
    by_cases h : p.1 = key
    · rw [entryInsert, if_pos h, List.map_cons, List.map_cons, if_pos (h ▸ List.mem_cons_self _ _)]
    · have hr : key ∈ p.1 :: rest.map Prod.fst ↔ key ∈ rest.map Prod.fst :=
        List.mem_cons.trans (or_iff_right fun e => h e.symm)
      rw [entryInsert, if_neg h, List.map_cons, List.map_cons, ih]
      by_cases hk : key ∈ rest.map Prod.fst
      · rw [if_pos hk, if_pos (hr.mpr hk)]
      · rw [if_neg hk, if_neg (mt hr.mp hk)]; rfl

theorem nodup_entryInsert {m : List (Index × List K)} (h : (m.map Prod.fst).Nodup)
    (key : Index) (x : K) : ((entryInsert key x m).map Prod.fst).Nodup := by
  rw [keys_entryInsert]
  split
  · exact h
  · exact List.nodup_append.mpr ⟨h, List.nodup_singleton _, List.disjoint_singleton.mpr ‹_›⟩

theorem nonempty_entryInsert {m : List (Index × List K)} (h : ∀ p ∈ m, p.2 ≠ [])
    (key : Index) (x : K) : ∀ p ∈ entryInsert key x m, p.2 ≠ [] := by
  induction m with
  | nil => simp [entryInsert]
  | cons q rest ih =>
    intro p hp
    simp only [entryInsert] at hp
    split at hp
    · rcases List.mem_cons.mp hp with rfl | hp
      · exact List.ne_nil_of_mem (List.mem_insert_iff.mpr (.inl rfl))
      · exact h p (List.mem_cons_of_mem _ hp)
    · rcases List.mem_cons.mp hp with rfl | hp
      · exact h _ (List.mem_cons_self _ _)
      · exact ih (fun p hp => h p (List.mem_cons_of_mem _ hp)) p hp

/-- Inserting a list of values under one key. -/
def entryInsertAll (key : Index) (xs : List K) (m : List (Index × List K)) :
    List (Index × List K) :=
  xs.foldl (fun m x => entryInsert key x m) m

theorem entryInsertAll_preserves {key : Index} {xs : List K} (P : List (Index × List K) → Prop)
    (hP : ∀ m x, P m → P (entryInsert key x m)) : ∀ m, P m → P (entryInsertAll key xs m) := by
  induction xs with
  | nil => exact fun _ h => h
  | cons x xs ih => exact fun m h => ih _ (hP m x h)

theorem mem_entries_entryInsertAll (key k : Index) (xs : List K) (z : K) :
    ∀ m : List (Index × List K),
      z ∈ entries (entryInsertAll key xs m) k ↔ (k = key ∧ z ∈ xs) ∨ z ∈ entries m k := by
  induction xs with
  | nil => simp [entryInsertAll]
  | cons x xs ih =>
    intro m
    simp only [entryInsertAll, List.foldl_cons] at ih ⊢
    rw [ih, mem_entries_entryInsert]
    simp only [List.mem_cons]
    tauto

/-- A conflict map that records, under each index, what the processed transactions with that
index write: keys are distinct, every stored set is non-empty, and `entries` is the union. -/
structure ConflictMap (writes : TransactionMined → List K) (done : List TransactionMined)
    (m : List (Index × List K)) : Prop where
  nodup : (m.map Prod.fst).Nodup
  nonempty : ∀ p ∈ m, p.2 ≠ []
  mem : ∀ k z, z ∈ entries m k ↔ ∃ tx ∈ done, tx.transactionIndex = k ∧ z ∈ writes tx

variable {writes : TransactionMined → List K}

omit [DecidableEq K] in
theorem conflictMap_nil : ConflictMap writes [] ([] : List (Index × List K)) :=
  ⟨List.nodup_nil, nofun, fun _ _ => ⟨nofun, fun ⟨_, h, _⟩ => nomatch h⟩⟩

/-- One transaction of the first loop keeps the conflict map exact. -/
theorem ConflictMap.insert {done : List TransactionMined} {m : List (Index × List K)}
    (hm : ConflictMap writes done m) (tx : TransactionMined) :
    ConflictMap writes (done ++ [tx]) (entryInsertAll tx.transactionIndex (writes tx) m) where
  nodup := entryInsertAll_preserves (fun m => (m.map Prod.fst).Nodup)
    (fun _ x h => nodup_entryInsert h _ x) _ hm.nodup
  nonempty := entryInsertAll_preserves (fun m => ∀ p ∈ m, p.2 ≠ [])
    (fun _ x h => nonempty_entryInsert h _ x) _ hm.nonempty
  mem k z := by
    rw [mem_entries_entryInsertAll, hm.mem]
    simp only [List.mem_append, List.mem_singleton]
    constructor
    · rintro (⟨rfl, hz⟩ | ⟨t, ht, htk, hz⟩)
      · exact ⟨tx, .inr rfl, rfl, hz⟩
      · exact ⟨t, .inl ht, htk, hz⟩
    · rintro ⟨t, ht | rfl, htk, hz⟩
      · exact .inr ⟨t, ht, htk, hz⟩
      · exact .inl ⟨htk.symm, hz⟩

omit [DecidableEq K] in
/-- A stored entry is exactly the set under its key. -/
theorem ConflictMap.entries_of_mem {done : List TransactionMined} {m : List (Index × List K)}
    (hm : ConflictMap writes done m) {p : Index × List K} (hp : p ∈ m) : entries m p.1 = p.2 := by
  rw [entries, StableDag.lookup_of_mem hm.nodup (show (p.1, p.2) ∈ m from hp)]; rfl

omit [DecidableEq K] in
/-- Every stored key is the index of a processed transaction. -/
theorem ConflictMap.exists_tx {done : List TransactionMined} {m : List (Index × List K)}
    (hm : ConflictMap writes done m) {p : Index × List K} (hp : p ∈ m) :
    ∃ tx ∈ done, tx.transactionIndex = p.1 := by
  obtain ⟨z, hz⟩ := List.exists_mem_of_ne_nil _ (hm.nonempty p hp)
  obtain ⟨tx, htx, hk, -⟩ := (hm.mem p.1 z).mp (hm.entries_of_mem hp ▸ hz)
  exact ⟨tx, htx, hk⟩

/-- Two stored sets meet exactly when some value is written under both keys. -/
theorem isDisjoint_eq_false_iff (s1 s2 : List K) :
    isDisjoint s1 s2 = false ↔ ∃ z, z ∈ s1 ∧ z ∈ s2 := by
  simp only [isDisjoint, Bool.not_eq_false', List.any_eq_true, decide_eq_true_eq]

/-! ### The edge loops -/

/-- The edges the inner loop adds for the entry `(tx1, set1)`. -/
def innerEdges (nodeIndexes : Index → Option NodeIndex) (tx1 : Index) (set1 : List K)
    (rest : List (Index × List K)) : List (NodeIndex × NodeIndex) :=
  rest.filterMap fun y =>
    if isDisjoint set1 y.2 then none
    else (nodeIndexes tx1).bind fun a => (nodeIndexes y.1).map fun b => (a, b)

/-- The edges both nested loops add over the sorted entries. -/
def conflictEdges (nodeIndexes : Index → Option NodeIndex) :
    List (Index × List K) → List (NodeIndex × NodeIndex)
  | [] => []
  | (tx1, set1) :: rest => innerEdges nodeIndexes tx1 set1 rest ++ conflictEdges nodeIndexes rest

/-- `node_indexes` points at live nodes carrying the looked-up index. -/
def PointsInto (nodeIndexes : Index → Option NodeIndex) (dag : StableDag TransactionMined) :
    Prop :=
  ∀ k i, nodeIndexes k = some i → ∃ w, (i, w) ∈ dag.nodes ∧ w.transactionIndex = k

variable {nodeIndexes : Index → Option NodeIndex} {dag : StableDag TransactionMined}

/-- Extra edges that climb between looked-up nodes keep the invariant. -/
theorem wf_appendEdges (edges : List (NodeIndex × NodeIndex)) (hg : dag.WF TransactionMined.rank)
    (hp : PointsInto nodeIndexes dag)
    (he : ∀ e ∈ edges, ∃ k1 k2, k1 < k2 ∧ nodeIndexes k1 = some e.1 ∧ nodeIndexes k2 = some e.2) :
    ({ dag with edges := dag.edges ++ edges } : StableDag TransactionMined).WF
      TransactionMined.rank where
  nodup := hg.nodup
  fresh := hg.fresh
  ranked e hmem := by
    rcases List.mem_append.mp hmem with hmem | hmem
    · exact hg.ranked e hmem
    · obtain ⟨k1, k2, hlt, h1, h2⟩ := he e hmem
      obtain ⟨wa, ha, hka⟩ := hp k1 _ h1
      obtain ⟨wb, hb, hkb⟩ := hp k2 _ h2
      refine ⟨wa, wb, ha, hb, ?_⟩
      simp only [TransactionMined.rank, hka, hkb]
      exact (UInt64.lt_iff_toNat_lt k1 k2).mp hlt

theorem addConflictEdge_eq (hg : dag.WF TransactionMined.rank) (hp : PointsInto nodeIndexes dag)
    {tx1 tx2 : Index} {a b : NodeIndex} (ha : nodeIndexes tx1 = some a)
    (hb : nodeIndexes tx2 = some b) (hlt : tx1 < tx2) :
    addConflictEdge nodeIndexes tx1 tx2 dag = .ok { dag with edges := dag.edges ++ [(a, b)] } := by
  obtain ⟨wa, hwa, hka⟩ := hp tx1 a ha
  obtain ⟨wb, hwb, hkb⟩ := hp tx2 b hb
  have hrank : wa.rank < wb.rank := by
    simp only [TransactionMined.rank, hka, hkb]; exact (UInt64.lt_iff_toNat_lt _ _).mp hlt
  simp [addConflictEdge, ha, hb, hg.addEdge_eq hwa hwb hrank]

theorem addConflictEdgesFrom_eq {tx1 : Index} {a : NodeIndex} (ha : nodeIndexes tx1 = some a)
    (set1 : List K) :
    ∀ (rest : List (Index × List K)) (dag : StableDag TransactionMined),
      dag.WF TransactionMined.rank → PointsInto nodeIndexes dag →
      (∀ y ∈ rest, tx1 < y.1 ∧ (nodeIndexes y.1).isSome) →
      addConflictEdgesFrom nodeIndexes tx1 set1 rest dag =
        .ok { dag with edges := dag.edges ++ innerEdges nodeIndexes tx1 set1 rest }
  | [], dag, _, _, _ => by
    simp only [addConflictEdgesFrom, innerEdges, List.filterMap_nil, List.append_nil]
  | (tx2, set2) :: rest, dag, hg, hp, hrest => by
    have hrest' : ∀ y ∈ rest, tx1 < y.1 ∧ (nodeIndexes y.1).isSome :=
      fun y hy => hrest y (List.mem_cons_of_mem _ hy)
    obtain ⟨hlt, hb⟩ := hrest (tx2, set2) (List.mem_cons_self _ _)
    obtain ⟨b, hb⟩ : ∃ b, nodeIndexes tx2 = some b := Option.isSome_iff_exists.mp hb
    cases hd : isDisjoint set1 set2
    · have hg' := wf_appendEdges [(a, b)] hg hp fun e he =>
        ⟨tx1, tx2, hlt, List.mem_singleton.mp he ▸ ha, List.mem_singleton.mp he ▸ hb⟩
      simp only [addConflictEdgesFrom, hd, Bool.false_eq_true, ↓reduceIte,
        addConflictEdge_eq hg hp ha hb hlt, bind, Except.bind,
        addConflictEdgesFrom_eq ha set1 rest _ hg' hp hrest', innerEdges, List.filterMap_cons,
        ha, hb, Option.some_bind, Option.map_some', List.append_assoc, List.singleton_append]
    · simp only [addConflictEdgesFrom, hd, ↓reduceIte, pure, Except.pure, bind, Except.bind,
        addConflictEdgesFrom_eq ha set1 rest _ hg hp hrest', innerEdges, List.filterMap_cons]

theorem mem_innerEdges {tx1 : Index} {set1 : List K} {rest : List (Index × List K)}
    {e : NodeIndex × NodeIndex} :
    e ∈ innerEdges nodeIndexes tx1 set1 rest ↔
      ∃ y ∈ rest, isDisjoint set1 y.2 = false ∧ nodeIndexes tx1 = some e.1 ∧
        nodeIndexes y.1 = some e.2 := by
  simp only [innerEdges, List.mem_filterMap]
  constructor
  · rintro ⟨y, hy, h⟩
    split at h
    · cases h
    · obtain ⟨a, ha, hab⟩ := Option.bind_eq_some.mp h
      obtain ⟨b, hb, rfl⟩ := Option.map_eq_some'.mp hab
      exact ⟨y, hy, Bool.eq_false_iff.mpr ‹¬_›, ha, hb⟩
  · rintro ⟨y, hy, hd, ha, hb⟩
    exact ⟨y, hy, by simp [hd, ha, hb]⟩

/-- The nested loops add, for every two sorted entries with meeting sets, the edge between
their looked-up nodes. -/
theorem mem_conflictEdges {es : List (Index × List K)} (hs : es.Pairwise fun x y => x.1 < y.1)
    {e : NodeIndex × NodeIndex} :
    e ∈ conflictEdges nodeIndexes es ↔
      ∃ x ∈ es, ∃ y ∈ es, x.1 < y.1 ∧ isDisjoint x.2 y.2 = false ∧
        nodeIndexes x.1 = some e.1 ∧ nodeIndexes y.1 = some e.2 := by
  induction es with
  | nil => exact ⟨nofun, fun ⟨_, h, _⟩ => nomatch h⟩
  | cons p rest ih =>
    have hp : ∀ y ∈ rest, p.1 < y.1 := fun y hy => List.rel_of_pairwise_cons hs hy
    rw [show conflictEdges nodeIndexes (p :: rest) =
      innerEdges nodeIndexes p.1 p.2 rest ++ conflictEdges nodeIndexes rest from rfl,
      List.mem_append, mem_innerEdges, ih hs.of_cons]
    constructor
    · rintro (⟨y, hy, h⟩ | ⟨x, hx, y, hy, h⟩)
      · exact ⟨p, List.mem_cons_self _ _, y, List.mem_cons_of_mem _ hy, hp y hy, h⟩
      · exact ⟨x, List.mem_cons_of_mem _ hx, y, List.mem_cons_of_mem _ hy, h⟩
    · rintro ⟨x, hx, y, hy, hlt, h⟩
      rcases List.mem_cons.mp hx with rfl | hx' <;> rcases List.mem_cons.mp hy with rfl | hy'
      · exact absurd hlt (UInt64.lt_irrefl _)
      · exact .inl ⟨y, hy', h⟩
      · exact absurd (hp x hx') (UInt64.lt_asymm hlt)
      · exact .inr ⟨x, hx', y, hy', hlt, h⟩

theorem addConflictEdges_eq :
    ∀ (es : List (Index × List K)) (dag : StableDag TransactionMined),
      dag.WF TransactionMined.rank → PointsInto nodeIndexes dag →
      es.Pairwise (fun x y => x.1 < y.1) → (∀ x ∈ es, (nodeIndexes x.1).isSome) →
      addConflictEdges nodeIndexes es dag =
        .ok { dag with edges := dag.edges ++ conflictEdges nodeIndexes es }
  | [], dag, _, _, _, _ => by simp [addConflictEdges, conflictEdges]
  | (tx1, set1) :: rest, dag, hg, hp, hs, hni => by
    obtain ⟨a, ha⟩ := Option.isSome_iff_exists.mp (hni _ (List.mem_cons_self _ _))
    have hrest : ∀ y ∈ rest, tx1 < y.1 ∧ (nodeIndexes y.1).isSome := fun y hy =>
      ⟨List.rel_of_pairwise_cons hs hy, hni y (List.mem_cons_of_mem _ hy)⟩
    have hg' := wf_appendEdges (innerEdges nodeIndexes tx1 set1 rest) hg hp
      fun e he => by
        obtain ⟨y, hy, -, h1, h2⟩ := mem_innerEdges.mp he
        exact ⟨tx1, y.1, (hrest y hy).1, h1, h2⟩
    simp only [addConflictEdges, addConflictEdgesFrom_eq ha set1 rest dag hg hp hrest, bind,
      Except.bind, addConflictEdges_eq rest _ hg' hp hs.of_cons
        fun x hx => hni x (List.mem_cons_of_mem _ hx)]
    simp [conflictEdges]

omit [DecidableEq K] in
/-- Sorting a map with distinct keys orders its entries strictly by key. -/
theorem pairwise_sortedByKey {m : List (Index × List K)} (hd : (m.map Prod.fst).Nodup) :
    (sortedByKey m).Pairwise fun x y => x.1 < y.1 := by
  have htot : IsTotal (Index × List K) fun a b => a.1 ≤ b.1 := ⟨fun a b => UInt64.le_total a.1 b.1⟩
  have htr : IsTrans (Index × List K) fun a b => a.1 ≤ b.1 := ⟨fun _ _ _ => UInt64.le_trans⟩
  have hperm := List.perm_insertionSort (fun a b : Index × List K => a.1 ≤ b.1) m
  have hne : (sortedByKey m).Pairwise fun x y => x.1 ≠ y.1 :=
    List.pairwise_map.mp ((hperm.map Prod.fst).nodup_iff.mpr hd)
  refine ((List.sorted_insertionSort _ m).and hne).imp fun ⟨hle, hne⟩ => ?_
  have h1 := (UInt64.le_iff_toNat_le _ _).mp hle
  have h2 : _ ≠ _ := fun h => hne (UInt64.toNat.inj h)
  exact (UInt64.lt_iff_toNat_lt _ _).mpr (by omega)

omit [DecidableEq K] in
theorem mem_sortedByKey {m : List (Index × List K)} {p : Index × List K} :
    p ∈ sortedByKey m ↔ p ∈ m :=
  (List.perm_insertionSort _ m).mem_iff

end Conflicts

/-! ### The node loop -/

/-- What the first loop has built after the transactions `done`: one node per transaction in
order, no edge yet, exact conflict maps, and `node_indexes` defined on every processed index
and pointing at a node of that index. -/
structure Builder.Inv (done : List TransactionMined) (b : Builder) : Prop where
  wf : b.dag.WF TransactionMined.rank
  nodes : b.dag.nodes.map Prod.snd = done
  edges : b.dag.edges = []
  slots : ConflictMap TransactionMined.slotWrites done b.slotConflicts
  balances : ConflictMap TransactionMined.balanceWrites done b.balanceConflicts
  pointsInto : PointsInto b.nodeIndexes b.dag
  indexed : ∀ tx ∈ done, (b.nodeIndexes tx.transactionIndex).isSome

theorem Builder.inv_empty : Builder.Inv [] Builder.empty :=
  ⟨StableDag.wf_empty, rfl, rfl, conflictMap_nil, conflictMap_nil, (fun _ _ h => nomatch h),
    nofun⟩

theorem Builder.Inv.insert {done : List TransactionMined} {b : Builder} (hb : Builder.Inv done b)
    (tx : TransactionMined) : Builder.Inv (done ++ [tx]) (b.insertTransaction tx) where
  wf := StableDag.wf_addNode hb.wf tx
  nodes := by simp [insertTransaction, StableDag.addNode, hb.nodes]
  edges := hb.edges
  slots := hb.slots.insert tx
  balances := hb.balances.insert tx
  pointsInto k i h := by
    simp only [insertTransaction, StableDag.addNode] at h ⊢
    split at h
    · cases h
      exact ⟨tx, List.mem_append_right _ (List.mem_singleton_self _), by simp_all⟩
    · obtain ⟨w, hw, hk⟩ := hb.pointsInto k i h
      exact ⟨w, List.mem_append_left _ hw, hk⟩
  indexed t ht := by
    simp only [insertTransaction]
    split
    · rfl
    · rcases List.mem_append.mp ht with ht | ht
      · exact hb.indexed t ht
      · simp_all

theorem Builder.Inv.foldl : ∀ (l : List TransactionMined) {done : List TransactionMined}
    {b : Builder}, Builder.Inv done b → Builder.Inv (done ++ l) (l.foldl insertTransaction b)
  | [], _, _, hb => by simpa using hb
  | tx :: l, done, _, hb => by
    simpa using Builder.Inv.foldl l (hb.insert tx)

theorem inv_built (txs : List TransactionMined) : Builder.Inv (sortedByIndex txs) (built txs) := by
  simpa using Builder.inv_empty.foldl (sortedByIndex txs)

/-! ### `new` -/

/-- The DAG `new` returns: the nodes of the first loop and the edges of both edge loops. -/
def builtDag (txs : List TransactionMined) : StableDag TransactionMined :=
  let b := built txs
  { b.dag with
    edges := conflictEdges b.nodeIndexes (sortedByKey b.slotConflicts) ++
      conflictEdges b.nodeIndexes (sortedByKey b.balanceConflicts) }

/-- Every key of a conflict map of the first loop has a node, so the `node_indexes` lookups of
both edge loops succeed. -/
theorem Builder.Inv.isSome_nodeIndexes {K : Type} {writes : TransactionMined → List K}
    {txs : List TransactionMined} {m : List (Index × List K)} {b : Builder}
    (hb : Builder.Inv txs b) (hm : ConflictMap writes txs m) :
    ∀ x ∈ m, (b.nodeIndexes x.1).isSome := by
  intro x hx
  obtain ⟨tx, htx, hk⟩ := hm.exists_tx hx
  exact hk ▸ hb.indexed tx htx

/-- Every key of a conflict map of the first loop finds, in `node_indexes`, a node of the built
DAG with that index. -/
theorem lookup_nodeIndexes_builtDag {K : Type} {writes : TransactionMined → List K}
    {txs : List TransactionMined} {m : List (Index × List K)}
    (hm : ConflictMap writes (sortedByIndex txs) m) :
    ∀ x ∈ m, ∃ i w, (built txs).nodeIndexes x.1 = some i ∧ (i, w) ∈ (builtDag txs).nodes ∧
      w.transactionIndex = x.1 := by
  intro x hx
  have hb := inv_built txs
  obtain ⟨i, hi⟩ := Option.isSome_iff_exists.mp (hb.isSome_nodeIndexes hm x hx)
  obtain ⟨w, hw, hk⟩ := hb.pointsInto _ i hi
  exact ⟨i, w, hi, hw, hk⟩

/-- `TransactionDag::new` never panics, whatever the input: every lookup succeeds and every
edge it adds climbs in transaction index, so daggy accepts it. -/
theorem new_eq (txs : List TransactionMined) : new txs = .ok ⟨builtDag txs⟩ := by
  have hb := inv_built txs
  have hs := addConflictEdges_eq (sortedByKey (built txs).slotConflicts) _ hb.wf hb.pointsInto
    (pairwise_sortedByKey hb.slots.nodup)
    fun x hx => hb.isSome_nodeIndexes hb.slots x (mem_sortedByKey.mp hx)
  have hg' := wf_appendEdges (conflictEdges (built txs).nodeIndexes
      (sortedByKey (built txs).slotConflicts)) hb.wf hb.pointsInto fun e he => by
    obtain ⟨x, -, y, -, hlt, -, h1, h2⟩ :=
      (mem_conflictEdges (pairwise_sortedByKey hb.slots.nodup)).mp he
    exact ⟨x.1, y.1, hlt, h1, h2⟩
  have hbal := addConflictEdges_eq (sortedByKey (built txs).balanceConflicts) _ hg' hb.pointsInto
    (pairwise_sortedByKey hb.balances.nodup)
    fun x hx => hb.isSome_nodeIndexes hb.balances x (mem_sortedByKey.mp hx)
  have hedges : ((sortedByIndex txs).foldl Builder.insertTransaction Builder.empty).dag.edges = [] :=
    hb.edges
  simp only [built, hedges, List.nil_append] at hs hbal
  simp only [new, hs, bind, Except.bind, hbal, pure, Except.pure, builtDag, built]

/-- Each edge of the built DAG joins the nodes of two keys, the lower key first. -/
theorem mem_edges_builtDag {txs : List TransactionMined} {e : NodeIndex × NodeIndex} :
    e ∈ (builtDag txs).edges ↔
      (∃ x ∈ (built txs).slotConflicts, ∃ y ∈ (built txs).slotConflicts, x.1 < y.1 ∧
        isDisjoint x.2 y.2 = false ∧ (built txs).nodeIndexes x.1 = some e.1 ∧
        (built txs).nodeIndexes y.1 = some e.2) ∨
      (∃ x ∈ (built txs).balanceConflicts, ∃ y ∈ (built txs).balanceConflicts, x.1 < y.1 ∧
        isDisjoint x.2 y.2 = false ∧ (built txs).nodeIndexes x.1 = some e.1 ∧
        (built txs).nodeIndexes y.1 = some e.2) := by
  have hb := inv_built txs
  simp only [builtDag, List.mem_append, mem_conflictEdges (pairwise_sortedByKey hb.slots.nodup),
    mem_conflictEdges (pairwise_sortedByKey hb.balances.nodup), mem_sortedByKey]

/-- The DAG `new` returns satisfies the relayer invariant. -/
theorem wf_builtDag (txs : List TransactionMined) :
    (builtDag txs).WF TransactionMined.rank := by
  have hb := inv_built txs
  have h := wf_appendEdges (builtDag txs).edges hb.wf hb.pointsInto fun e he => by
    rcases mem_edges_builtDag.mp he with ⟨x, -, y, -, hlt, -, h1, h2⟩ | ⟨x, -, y, -, hlt, -, h1, h2⟩ <;>
      exact ⟨x.1, y.1, hlt, h1, h2⟩
  rwa [hb.edges, List.nil_append] at h

/-- The DAG `new` returns has one node per input transaction. -/
theorem nodes_builtDag (txs : List TransactionMined) :
    List.Perm ((builtDag txs).nodes.map Prod.snd) txs := by
  rw [show (builtDag txs).nodes = (built txs).dag.nodes from rfl, (inv_built txs).nodes]
  exact List.perm_insertionSort _ txs

end TransactionDag

end Stratus
