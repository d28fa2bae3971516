import Stratus.Storage.Rocks.Counter

/-!
# The block indexes of RocksDB over whole runs

`save_block` (`rocks_permanent.rs:153–222`) files a block under four namespaces: each
transaction hash and each `(hash, log index)` under the block number (lines 164–168), the block
without its changes under its number (lines 182–187), and the number under the block hash
(line 188). `IndexesConsistent` says that every index entry points at a stored block holding
what it indexes. `reset_at`, whose state reset is not in the source, is left out of the runs.
-/

namespace Stratus

/-- The transactions of the block carry its number, the number its indexes file them under. -/
def Block.WellNumbered (block : Block) : Prop := ∀ tx ∈ block.transactions, tx.blockNumber = block.number

instance (block : Block) : Decidable block.WellNumbered :=
  inferInstanceAs (Decidable (∀ tx ∈ block.transactions, tx.blockNumber = block.number))

namespace RocksStorageState

/-- Every entry of the hash, transaction and log indexes points at a stored block holding what
it indexes. -/
structure IndexesConsistent (s : RocksStorageState) : Prop where
  byHash : ∀ h n, s.blocksByHash h = some n → ∃ b, s.blocksByNumber n = some b ∧ b.hash = h
  transactions : ∀ h n, s.transactions h = some n →
    ∃ b, s.blocksByNumber n = some b ∧ ∃ tx ∈ b.transactions, tx.input.hash = h
  logs : ∀ h i n, s.logs (h, i) = some n → ∃ b, s.blocksByNumber n = some b ∧
    ∃ tx ∈ b.transactions, tx.input.hash = h ∧ ∃ log ∈ tx.logs, log.logIndex = i

theorem indexesConsistent_empty : IndexesConsistent empty :=
  ⟨(fun _ _ h => nomatch h), (fun _ _ h => nomatch h), fun _ _ _ h => nomatch h⟩

/-- The invariant reads only the four block namespaces. -/
theorem IndexesConsistent.congr {s s' : RocksStorageState} (hs : IndexesConsistent s)
    (ht : s'.transactions = s.transactions) (hn : s'.blocksByNumber = s.blocksByNumber)
    (hh : s'.blocksByHash = s.blocksByHash) (hl : s'.logs = s.logs) : IndexesConsistent s' := by
  obtain ⟨h1, h2, h3⟩ := hs
  exact ⟨by rw [hh, hn]; exact h1, by rw [ht, hn]; exact h2, by rw [hl, hn]; exact h3⟩

end RocksStorageState

namespace RocksPermanentStorage

open RocksStorageState

variable {s : RocksStorageState} {block : Block}

/-- The block stored by number keeps the header and, for each transaction, its hash and logs. -/
private theorem mem_withoutChanges {tx : TransactionMined} (htx : tx ∈ block.transactions) :
    ∃ tx' ∈ block.withoutChanges.transactions, tx'.input = tx.input ∧ tx'.logs = tx.logs :=
  ⟨_, List.mem_map_of_mem _ htx, rfl, rfl⟩

/-- Filing a well-numbered block under a number not yet stored keeps the indexes pointing at
blocks that hold what they index. -/
theorem indexesConsistent_blockBatches (hs : IndexesConsistent s) (hw : block.WellNumbered)
    (hfresh : s.blocksByNumber block.number = none) :
    IndexesConsistent (s.applyAll (blockBatches block)) := by
  have happ : s.applyAll (blockBatches block) =
      { s with
        transactions := s.transactions.insertBatch
          (block.transactions.map fun tx => (tx.input.hash, tx.blockNumber))
        logs := s.logs.insertBatch (block.transactions.flatMap fun tx =>
          tx.logs.map fun log => ((tx.input.hash, log.logIndex), tx.blockNumber))
        blocksByNumber := s.blocksByNumber.insertBatch [(block.number, block.withoutChanges)]
        blocksByHash := s.blocksByHash.insertBatch [(block.hash, block.number)] } := rfl
  rw [happ]
  -- the one number the call stores, and every other number as it was
  have hnum : ∀ n b, s.blocksByNumber n = some b → n ≠ block.number := fun n b hb hn =>
    by rw [hn, hfresh] at hb; cases hb
  have hstored : ∀ n, (s.blocksByNumber.insertBatch [(block.number, block.withoutChanges)]) n =
      if n = block.number then some block.withoutChanges else s.blocksByNumber n := fun n => by
    simp only [Column.insertBatch_cons, Column.insertBatch_nil, Column.insert, Function.update_apply]
  refine ⟨fun h n hh => ?_, fun h n ht => ?_, fun h i n hl => ?_⟩
  · rcases Column.insertBatch_eq_some hh with hmem | hold
    · obtain ⟨rfl, rfl⟩ := Prod.mk.inj (List.mem_singleton.mp hmem)
      exact ⟨_, (hstored _).trans (if_pos rfl), rfl⟩
    · obtain ⟨b, hb, rfl⟩ := hs.byHash h n hold
      exact ⟨b, (hstored n).trans ((if_neg (hnum n b hb)).trans hb), rfl⟩
  · rcases Column.insertBatch_eq_some ht with hmem | hold
    · obtain ⟨tx, htx, he⟩ := List.mem_map.mp hmem
      obtain ⟨rfl, rfl⟩ := Prod.mk.inj he
      obtain ⟨tx', htx', hin, -⟩ := mem_withoutChanges htx
      exact ⟨_, (hstored _).trans (if_pos (hw tx htx)), tx', htx', congrArg _ hin⟩
    · obtain ⟨b, hb, hrest⟩ := hs.transactions h n hold
      exact ⟨b, (hstored n).trans ((if_neg (hnum n b hb)).trans hb), hrest⟩
  · rcases Column.insertBatch_eq_some hl with hmem | hold
    · obtain ⟨tx, htx, he⟩ := List.mem_flatMap.mp hmem
      obtain ⟨log, hlog, he⟩ := List.mem_map.mp he
      obtain ⟨⟨rfl, rfl⟩, rfl⟩ := Prod.mk.inj he |>.imp_left Prod.mk.inj
      obtain ⟨tx', htx', hin, hlogs⟩ := mem_withoutChanges htx
      exact ⟨_, (hstored _).trans (if_pos (hw tx htx)), tx', htx', congrArg _ hin, log,
        hlogs ▸ hlog, rfl⟩
    · obtain ⟨b, hb, hrest⟩ := hs.logs h i n hold
      exact ⟨b, (hstored n).trans ((if_neg (hnum n b hb)).trans hb), hrest⟩

/-- The batches of `update_state_with_execution_changes` leave the block namespaces alone. -/
private theorem indexes_applyAll_update (s' : RocksStorageState)
    (changes : List ExecutionAccountChanges) (n : BlockNumber) :
    let t := s'.applyAll (updateStateWithExecutionChanges s changes n)
    t.transactions = s'.transactions ∧ t.blocksByNumber = s'.blocksByNumber ∧
      t.blocksByHash = s'.blocksByHash ∧ t.logs = s'.logs :=
  ⟨rfl, rfl, rfl, rfl⟩

variable {cac : Block → List ExecutionAccountChanges}

/-- A completed `save_block` of a well-numbered block under a number not yet stored keeps the
indexes consistent, whatever it returns: a conflict lands nothing, and a failing
`update_state_with_execution_changes` lands the block batches without the account ones. -/
theorem indexesConsistent_saveBlock (f : Option String) (hs : IndexesConsistent s)
    (hw : block.WellNumbered) (hfresh : s.blocksByNumber block.number = none) :
    IndexesConsistent (s.applyAll (saveBlock cac f s block).2) := by
  have hb := indexesConsistent_blockBatches hs hw hfresh
  unfold saveBlock
  dsimp only
  split
  · exact hs
  · split
    · exact hb
    · obtain ⟨h1, h2, h3, h4⟩ := indexes_applyAll_update (s := s) (s.applyAll (blockBatches block))
        (cac block) block.number
      rw [applyAll, List.foldl_append]
      exact hb.congr h1 h2 h3 h4

/-! ### Runs of storage operations -/

section Run

variable (cac : Block → List ExecutionAccountChanges)
  (stateResetAt : RocksStorageState → BlockNumber → Except String Unit × RocksStorageState)

/-- The storage a run of operations leaves. -/
def after (self : RocksPermanentStorage) (ops : List Op) : RocksPermanentStorage :=
  ops.foldl (fun self op => (step cac stateResetAt self op).2) self

/-- What a run that keeps the block indexes allows of one operation: no `reset_at`, and a saved
block well numbered under a number not yet stored. -/
def SavesFresh (s : RocksStorageState) : Op → Prop
  | .saveBlock block _ => block.WellNumbered ∧ s.blocksByNumber block.number = none
  | .resetAt _ => False
  | _ => True

instance instDecidableSavesFresh (s : RocksStorageState) : (op : Op) → Decidable (SavesFresh s op)
  | .saveBlock _ _ => inferInstanceAs (Decidable (_ ∧ _))
  | .resetAt _ => isFalse id
  | .readMinedBlockNumber | .incrementBlockNumber | .setMinedBlockNumber _ | .saveAccounts _
  | .clear => isTrue trivial

/-- Every operation of the run is allowed from the store it meets. -/
def FreshRun : RocksPermanentStorage → List Op → Prop
  | _, [] => True
  | self, op :: ops => SavesFresh self.state op ∧ FreshRun (step cac stateResetAt self op).2 ops

instance instDecidableFreshRun :
    (self : RocksPermanentStorage) → (ops : List Op) → Decidable (FreshRun cac stateResetAt self ops)
  | _, [] => isTrue trivial
  | self, op :: ops =>
    have := instDecidableFreshRun (step cac stateResetAt self op).2 ops
    inferInstanceAs (Decidable (_ ∧ _))

end Run

variable {stateResetAt : RocksStorageState → BlockNumber → Except String Unit × RocksStorageState}

/-- `save_accounts` writes only the latest accounts and their history. -/
private theorem saveAccounts_blocks (s : RocksStorageState) (accounts : List Account) :
    let t := s.saveAccounts accounts
    t.transactions = s.transactions ∧ t.blocksByNumber = s.blocksByNumber ∧
      t.blocksByHash = s.blocksByHash ∧ t.logs = s.logs := by
  induction accounts generalizing s with
  | nil => exact ⟨rfl, rfl, rfl, rfl⟩
  | cons a as ih => exact ih _

/-- One allowed operation keeps the indexes consistent. -/
theorem indexesConsistent_step {self : RocksPermanentStorage} {op : Op}
    (hs : IndexesConsistent self.state) (hop : SavesFresh self.state op) :
    IndexesConsistent (step cac stateResetAt self op).2.state := by
  cases op with
  | saveBlock block f => exact indexesConsistent_saveBlock f hs hop.1 hop.2
  | saveAccounts accounts =>
    obtain ⟨h1, h2, h3, h4⟩ := saveAccounts_blocks self.state accounts
    exact hs.congr h1 h2 h3 h4
  | resetAt _ => exact hop.elim
  | clear => exact indexesConsistent_empty
  | readMinedBlockNumber | incrementBlockNumber | setMinedBlockNumber _ => exact hs

/-- The block indexes stay consistent over every run that saves only well-numbered blocks
under numbers not yet stored and never resets: from a consistent store, every state the run
reaches points each block hash, transaction hash and log at a stored block holding it. -/
theorem indexesConsistent_after :
    ∀ (self : RocksPermanentStorage) (ops : List Op), IndexesConsistent self.state →
      FreshRun cac stateResetAt self ops → IndexesConsistent (after cac stateResetAt self ops).state
  | _, [], hs, _ => hs
  | _, _ :: ops, hs, ⟨hop, hrest⟩ =>
    indexesConsistent_after _ ops (indexesConsistent_step hs hop) hrest

/-- From the empty store, saving block `1` with one logged transaction and then counting a
block. -/
theorem indexesConsistent_after_saved :
    let block : Block := ⟨BlockHeader.new (fun _ => 0) 1 0, [⟨⟨7⟩, ⟨[]⟩, [⟨0⟩], 0, 1, 0⟩]⟩
    let ops := [Op.saveBlock block none, .incrementBlockNumber]
    IndexesConsistent RocksStorageState.empty ∧
      FreshRun (fun _ => []) (fun state _ => (.ok (), state)) ⟨.empty, 0⟩ ops ∧
      IndexesConsistent (after (fun _ => []) (fun state _ => (.ok (), state)) ⟨.empty, 0⟩ ops).state := by
  intro block ops
  have hfresh : FreshRun (fun _ => []) (fun state _ => (.ok (), state)) ⟨.empty, 0⟩ ops := by decide
  exact ⟨indexesConsistent_empty, hfresh,
    indexesConsistent_after _ ops indexesConsistent_empty hfresh⟩

end RocksPermanentStorage

end Stratus
