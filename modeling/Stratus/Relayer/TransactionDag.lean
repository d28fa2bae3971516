import Stratus.Relayer.StableDag

/-!
# The transaction dependency DAG

`src/src/eth/relayer/transaction_dag.rs:17–113`. `TransactionDag::new` adds one node per
transaction in `transaction_index` order, records each index's modified slots and balances in
maps keyed by that index, and joins every two indices whose sets meet by an edge from the lower
to the higher. `take_roots` removes and returns every node with no parent.

The maps are association lists with one entry per key; `HashSet`s are duplicate-free lists.
Every `unwrap` and `expect` of the source is an `.error` carrying its panic message.
-/

namespace Stratus

namespace TransactionMined

/-- The `(address, slot index)` pairs a transaction modifies, as the loop at lines 44–49
visits them. -/
def slotWrites (tx : TransactionMined) : List (Address × SlotIndex) :=
  tx.execution.changes.flatMap fun change =>
    (change.2.slots.filter fun slot => slot.2.isModified).map fun slot => (change.1, slot.1)

/-- The addresses whose balance a transaction modifies, lines 51–53. -/
def balanceWrites (tx : TransactionMined) : List Address :=
  (tx.execution.changes.filter fun change => change.2.balance.isModified).map Prod.fst

/-- The rank of a transaction in the DAG: its index as a number. -/
def rank (tx : TransactionMined) : Nat := tx.transactionIndex.toNat

end TransactionMined

namespace TransactionDag

section Conflicts

variable {K : Type} [DecidableEq K]

/-- `map.entry(key).or_default().insert(x)` on a `HashMap<Index, HashSet<K>>`. -/
def entryInsert (key : Index) (x : K) : List (Index × List K) → List (Index × List K)
  | [] => [(key, [x])]
  | (k, set) :: rest =>
    if k = key then (k, set.insert x) :: rest else (k, set) :: entryInsert key x rest

/-- `HashSet::is_disjoint`. -/
def isDisjoint (set1 set2 : List K) : Bool := !set1.any (· ∈ set2)

/-- One `add_edge` of lines 62–63 or 71–72: both `node_indexes` lookups are unwrapped, and a
refused edge panics with the `expect` message. -/
def addConflictEdge (nodeIndexes : Index → Option NodeIndex) (tx1 tx2 : Index)
    (dag : StableDag TransactionMined) : Except String (StableDag TransactionMined) :=
  match nodeIndexes tx1, nodeIndexes tx2 with
  | some a, some b =>
    match dag.addEdge a b with
    | .ok dag => .ok dag
    | .error .wouldCycle => .error "adding an edge between two known vertices should not fail"
    | .error (.panic msg) => .error msg
  | _, _ => .error "called `Option::unwrap()` on a `None` value"

/-- The inner loop of lines 60–65: the entry `(tx1, set1)` against every later entry. -/
def addConflictEdgesFrom (nodeIndexes : Index → Option NodeIndex) (tx1 : Index) (set1 : List K) :
    List (Index × List K) → StableDag TransactionMined →
      Except String (StableDag TransactionMined)
  | [], dag => .ok dag
  | (tx2, set2) :: rest, dag => do
    let dag ← if isDisjoint set1 set2 then pure dag else addConflictEdge nodeIndexes tx1 tx2 dag
    addConflictEdgesFrom nodeIndexes tx1 set1 rest dag

/-- The nested loops of lines 59–66 (slots) or 68–75 (balances), over the entries sorted by
index: entry `i` against the entries after it (`skip(i + 1)`). -/
def addConflictEdges (nodeIndexes : Index → Option NodeIndex) :
    List (Index × List K) → StableDag TransactionMined →
      Except String (StableDag TransactionMined)
  | [], dag => .ok dag
  | (tx1, set1) :: rest, dag => do
    let dag ← addConflictEdgesFrom nodeIndexes tx1 set1 rest dag
    addConflictEdges nodeIndexes rest dag

/-- `iter().sorted_by_key(|(idx, _)| **idx)`. -/
def sortedByKey (m : List (Index × List K)) : List (Index × List K) :=
  m.insertionSort fun a b => a.1 ≤ b.1

end Conflicts

/-- The locals of `TransactionDag::new` during its first loop, lines 37–40. -/
structure Builder where
  slotConflicts : List (Index × List (Address × SlotIndex))
  balanceConflicts : List (Index × List Address)
  nodeIndexes : Index → Option NodeIndex
  dag : StableDag TransactionMined

/-- The empty maps and DAG of lines 37–40. -/
def Builder.empty : Builder := ⟨[], [], fun _ => none, StableDag.empty⟩

/-- One iteration of lines 42–57: record the transaction's modified slots and balances under
its index, add its node, and point `node_indexes` at it (replacing any earlier node of the
same index). -/
def Builder.insertTransaction (b : Builder) (tx : TransactionMined) : Builder :=
  let added := b.dag.addNode tx
  { slotConflicts :=
      tx.slotWrites.foldl (fun m x => entryInsert tx.transactionIndex x m) b.slotConflicts
    balanceConflicts :=
      tx.balanceWrites.foldl (fun m x => entryInsert tx.transactionIndex x m) b.balanceConflicts
    nodeIndexes := fun k => if k = tx.transactionIndex then some added.1 else b.nodeIndexes k
    dag := added.2 }

/-- `sorted_by_key(|tx| tx.transaction_index)`, a stable sort. -/
def sortedByIndex (txs : List TransactionMined) : List TransactionMined :=
  txs.insertionSort fun a b => a.transactionIndex ≤ b.transactionIndex

end TransactionDag

/-- `TransactionDag { dag }`. -/
structure TransactionDag where
  dag : StableDag TransactionMined
  deriving DecidableEq, Repr

namespace TransactionDag

/-- The first loop, lines 42–57, over the sorted transactions. -/
def built (txs : List TransactionMined) : Builder :=
  (sortedByIndex txs).foldl Builder.insertTransaction Builder.empty

/-- `TransactionDag::new`, lines 33–81: the first loop, then the edge loops over the slot and
the balance conflicts. -/
def new (blockTransactions : List TransactionMined) : Except String TransactionDag := do
  let b := built blockTransactions
  let dag ← addConflictEdges b.nodeIndexes (sortedByKey b.slotConflicts) b.dag
  let dag ← addConflictEdges b.nodeIndexes (sortedByKey b.balanceConflicts) dag
  pure ⟨dag⟩

/-- The loop of lines 100–102 over `root_indexes` popped from its end: remove each node and
push its weight. -/
def removeRoots : List NodeIndex → StableDag TransactionMined →
    Except String (List TransactionMined × StableDag TransactionMined)
  | [], dag => .ok ([], dag)
  | root :: rest, dag =>
    match dag.removeNode root with
    | none => .error "removing a known vertex should not fail"
    | some (tx, dag) => do
      let (roots, dag) ← removeRoots rest dag
      pure (tx :: roots, dag)

/-- `TransactionDag::take_roots`, lines 87–112. -/
def takeRoots (self : TransactionDag) :
    Except String (Option (List TransactionMined) × TransactionDag) := do
  let rootIndexes := self.dag.nodeIdentifiers.filter self.dag.isRoot
  let (roots, dag) ← removeRoots rootIndexes.reverse self.dag
  pure (if roots.isEmpty then none else some roots, ⟨dag⟩)

/-- `create_tx` of the module's tests, lines 136–170: a transaction of block `0` that sets
each given slot of `Address::ZERO` from unset to `0` (`ExecutionValueChange::from_modified`)
and leaves nonce and balance unchanged. -/
def createTx (changedSlotsInidices : List SlotIndex) (txIdx : UInt64) : TransactionMined where
  input := ⟨0⟩
  execution := ⟨[(0, ⟨0, ⟨none, none⟩, ⟨none, none⟩,
    changedSlotsInidices.map fun index => (index, ⟨none, some ⟨index, 0⟩⟩)⟩)]⟩
  logs := []
  transactionIndex := txIdx
  blockNumber := 0
  blockHash := 0

end TransactionDag

end Stratus
