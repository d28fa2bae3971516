import Stratus.Storage.Rocks.SaveBlock
import Stratus.Storage.Postgres.Store

/-!
# `save_block` and `save_accounts` on Postgres

`PostgresPermanentStorage::save_block` (`postgres_permanent.rs:537–725`) builds row batches from
the block's account changes (lines 574–620) and sends them through one `insert_entire_block`
call inside one database transaction, rolled back when the modified-row counts differ from the
expected ones. The SQL file is not in the source: the database's side of the call is a parameter
(`PgTransaction`), and the transaction, log and topic batches, which only reach it, are left
out. `save_accounts` (lines 742–789) gives each account a transaction of its own.
-/

namespace Stratus

/-- One row of `AccountBatch`: the address, the new nonce and balance (the original where no
new value is set), the block number and the originals. The bytecode column is left out. -/
structure AccountBatchRow where
  address : Address
  newNonce : Nonce
  newBalance : Wei
  blockNumber : BlockNumber
  originalNonce : Nonce
  originalBalance : Wei
  deriving DecidableEq, Repr

/-- One row of `SlotBatch`. -/
structure SlotBatchRow where
  address : Address
  index : SlotIndex
  value : SlotValue
  blockNumber : BlockNumber
  originalValue : SlotValue
  deriving DecidableEq, Repr

/-- The batches of lines 545–549 that the account changes fill. -/
structure ChangeBatches where
  accounts : List AccountBatchRow
  historicalBalances : List HistoricalBalance
  historicalNonces : List HistoricalNonce
  slots : List SlotBatchRow
  historicalSlots : List HistoricalSlot
  deriving DecidableEq, Repr

namespace PostgresPermanentStorage

/-- The slot loop of lines 607–620: a slot whose new value is not set is skipped
(`continue`); the original of an unset slot is `Slot::default()`'s value, `0`. -/
def pushSlots (address : Address) (number : BlockNumber) (b : ChangeBatches) :
    List (SlotIndex × ExecutionValueChange Slot) → ChangeBatches
  | [] => b
  | (slotIdx, value) :: slots =>
    match value.modified with
    | none => pushSlots address number b slots
    | some s =>
      let originalValue := (value.original.map Slot.value).getD 0
      pushSlots address number
        { b with
          slots := b.slots ++ [⟨address, slotIdx, s.value, number, originalValue⟩]
          historicalSlots := b.historicalSlots ++ [⟨address, slotIdx, s.value, number⟩] } slots

/-- One iteration of lines 574–620: the account row, a historical balance and a historical
nonce for each new value that is set, then the slots. -/
def pushChange (number : BlockNumber) (b : ChangeBatches) (change : ExecutionAccountChanges) :
    ChangeBatches :=
  let originalNonce := change.nonce.original.getD 0
  let originalBalance := change.balance.original.getD 0
  let b := { b with
    accounts := b.accounts ++ [⟨change.address, change.nonce.modified.getD originalNonce,
      change.balance.modified.getD originalBalance, number, originalNonce, originalBalance⟩] }
  let b := match change.balance.modified with
    | some balance =>
      { b with historicalBalances := b.historicalBalances ++ [⟨change.address, balance, number⟩] }
    | none => b
  let b := match change.nonce.modified with
    | some nonce =>
      { b with historicalNonces := b.historicalNonces ++ [⟨change.address, nonce, number⟩] }
    | none => b
  pushSlots change.address number b change.slots

/-- The loop of lines 573–621 over the compact account changes. -/
def changeBatches (number : BlockNumber) (accountChanges : List ExecutionAccountChanges) :
    ChangeBatches :=
  accountChanges.foldl (pushChange number) ⟨[], [], [], [], []⟩

/-- What `insert_entire_block.sql` returns: its `modified_accounts` and `modified_slots`
columns, either of which may be `NULL`. -/
structure InsertCounts where
  modifiedAccounts : Option Int
  modifiedSlots : Option Int

/-- The database's side of one `save_block`: whether `begin`, `rollback` and `commit` succeed,
and what the insert returns and leaves in the tables inside the transaction. -/
structure PgTransaction where
  begin : Except String Unit
  insertEntireBlock : PgDb → Block → ChangeBatches → Except String (InsertCounts × PgDb)
  rollback : Except String Unit
  commit : Except String Unit

/-- `count as usize` for an `i64` count on a 64-bit target. -/
def asUsize (count : Int) : Nat := (count % 2 ^ 64).toNat

/-- The rollback of lines 709–718: the conflict when it succeeds, its context otherwise. The
transaction never commits, so the tables stay as they were. -/
def rollbackWith (pg : PgTransaction) (conflict : ExecutionConflict) (db : PgDb) :
    Except StorageError Unit × PgDb :=
  match pg.rollback with
  | .error _ => (.error (.generic "failed to rollback transaction"), db)
  | .ok () => (.error (.conflict ⟨[conflict], List.cons_ne_nil _ _⟩), db)

section SaveBlock

variable (compactAccountChanges : Block → List ExecutionAccountChanges)

/-- `PostgresPermanentStorage::save_block`, lines 537–725. `topicFailure` is the error of the
first failing `TopicBatch::push`, if any. Every early return drops the transaction, which the
database then rolls back. -/
def saveBlockTransaction (pg : PgTransaction) (topicFailure : Option String) (db : PgDb)
    (block : Block) : Except StorageError Unit × PgDb :=
  match topicFailure with
  | some e => (.error (.generic e), db)
  | none =>
    let batches := changeBatches block.header.number (compactAccountChanges block)
    let expectedModifiedSlots := batches.slots.length
    let expectedModifiedAccounts := batches.accounts.length
    match pg.begin with
    | .error _ => (.error (.generic "failed to init save_block transaction"), db)
    | .ok () =>
      if 2 ^ 63 ≤ block.header.timestamp.toNat then
        (.error (.generic "failed to convert block timestamp"), db)
      else
        match pg.insertEntireBlock db block batches with
        | .error _ => (.error (.generic "failed to insert block"), db)
        | .ok (counts, inserted) =>
          if asUsize (counts.modifiedAccounts.getD 0) ≠ expectedModifiedAccounts then
            rollbackWith pg .account db
          else if asUsize (counts.modifiedSlots.getD 0) ≠ expectedModifiedSlots then
            rollbackWith pg .pgSlot db
          else
            match pg.commit with
            | .error _ => (.error (.generic "failed to commit transaction"), db)
            | .ok () => (.ok (), inserted)

end SaveBlock

/-! ### The batches -/

/-- The account row of one change. -/
def accountRow (number : BlockNumber) (change : ExecutionAccountChanges) : AccountBatchRow :=
  ⟨change.address, change.nonce.modified.getD (change.nonce.original.getD 0),
    change.balance.modified.getD (change.balance.original.getD 0), number,
    change.nonce.original.getD 0, change.balance.original.getD 0⟩

/-- The slot rows of one account: one per slot whose new value is set. -/
def slotRows (number : BlockNumber) (address : Address)
    (slots : List (SlotIndex × ExecutionValueChange Slot)) : List SlotBatchRow :=
  slots.filterMap fun (slotIdx, value) => value.modified.map fun s =>
    ⟨address, slotIdx, s.value, number, (value.original.map Slot.value).getD 0⟩

/-- The historical slot rows of one account. -/
def historicalSlotRows (number : BlockNumber) (address : Address)
    (slots : List (SlotIndex × ExecutionValueChange Slot)) : List HistoricalSlot :=
  slots.filterMap fun (slotIdx, value) => value.modified.map fun s =>
    ⟨address, slotIdx, s.value, number⟩

theorem pushSlots_eq (address : Address) (number : BlockNumber) (b : ChangeBatches)
    (slots : List (SlotIndex × ExecutionValueChange Slot)) :
    pushSlots address number b slots =
      { b with
        slots := b.slots ++ slotRows number address slots
        historicalSlots := b.historicalSlots ++ historicalSlotRows number address slots } := by
  induction slots generalizing b with
  | nil => simp only [pushSlots, slotRows, historicalSlotRows, List.filterMap_nil, List.append_nil]
  | cons slot slots ih =>
    obtain ⟨slotIdx, value⟩ := slot
    cases hm : value.modified <;>
      simp only [pushSlots, slotRows, historicalSlotRows, hm, ih, List.filterMap_cons,
        Option.map_some', Option.map_none', List.append_assoc, List.singleton_append]

/-- The batch loop is a map over the changes: one account row each, a historical balance and
nonce for each new value that is set, and the slot rows of each. -/
theorem changeBatches_eq (number : BlockNumber) (accountChanges : List ExecutionAccountChanges) :
    changeBatches number accountChanges =
      ⟨accountChanges.map (accountRow number),
        accountChanges.filterMap fun c => c.balance.modified.map fun v => ⟨c.address, v, number⟩,
        accountChanges.filterMap fun c => c.nonce.modified.map fun v => ⟨c.address, v, number⟩,
        accountChanges.flatMap fun c => slotRows number c.address c.slots,
        accountChanges.flatMap fun c => historicalSlotRows number c.address c.slots⟩ := by
  suffices h : ∀ b, accountChanges.foldl (pushChange number) b =
      ⟨b.accounts ++ accountChanges.map (accountRow number),
        b.historicalBalances ++
          accountChanges.filterMap fun c => c.balance.modified.map fun v => ⟨c.address, v, number⟩,
        b.historicalNonces ++
          accountChanges.filterMap fun c => c.nonce.modified.map fun v => ⟨c.address, v, number⟩,
        b.slots ++ accountChanges.flatMap fun c => slotRows number c.address c.slots,
        b.historicalSlots ++
          accountChanges.flatMap fun c => historicalSlotRows number c.address c.slots⟩ from h _
  induction accountChanges with
  | nil =>
    intro b
    simp only [List.foldl_nil, List.map_nil, List.filterMap_nil, List.flatMap_nil, List.append_nil]
  | cons c cs ih =>
    intro b
    rw [List.foldl_cons, ih]
    cases hb : c.balance.modified <;> cases hn : c.nonce.modified <;>
      simp only [pushChange, pushSlots_eq, hb, hn, accountRow, List.map_cons, List.filterMap_cons,
        List.flatMap_cons, Option.map_some', Option.map_none', List.append_assoc,
        List.singleton_append]

/-- The rows `save_block` expects the insert to modify: one account row per change and one
slot row per slot change whose new value is set. -/
theorem changeBatches_length (number : BlockNumber) (accountChanges : List ExecutionAccountChanges) :
    (changeBatches number accountChanges).accounts.length = accountChanges.length ∧
      (changeBatches number accountChanges).slots.length =
        (accountChanges.flatMap fun c => c.slots.filter fun s => s.2.modified.isSome).length := by
  rw [changeBatches_eq]
  refine ⟨List.length_map _ _, ?_⟩
  simp only [List.flatMap, List.length_flatten, List.map_map, Function.comp_def, slotRows,
    List.length_filterMap_eq_countP, List.countP_eq_length_filter, Option.isSome_map']

/-! ### The transaction -/

theorem rollbackWith_fails (pg : PgTransaction) (conflict : ExecutionConflict) (db : PgDb) :
    (rollbackWith pg conflict db).1.isOk = false ∧ (rollbackWith pg conflict db).2 = db := by
  unfold rollbackWith
  split <;> exact ⟨rfl, rfl⟩

variable {cac : Block → List ExecutionAccountChanges}

private theorem saveBlockTransaction_cases (pg : PgTransaction) (topicFailure : Option String)
    (db : PgDb) (block : Block) :
    let batches := changeBatches block.header.number (cac block)
    ((saveBlockTransaction cac pg topicFailure db block).1 = .ok () ∧
      ∃ counts, pg.insertEntireBlock db block batches =
          .ok (counts, (saveBlockTransaction cac pg topicFailure db block).2) ∧
        asUsize (counts.modifiedAccounts.getD 0) = batches.accounts.length ∧
        asUsize (counts.modifiedSlots.getD 0) = batches.slots.length) ∨
      ((saveBlockTransaction cac pg topicFailure db block).1.isOk = false ∧
        (saveBlockTransaction cac pg topicFailure db block).2 = db) := by
  intro batches
  unfold saveBlockTransaction
  dsimp only
  split
  · exact .inr ⟨rfl, rfl⟩
  split
  · exact .inr ⟨rfl, rfl⟩
  split
  · exact .inr ⟨rfl, rfl⟩
  split
  · exact .inr ⟨rfl, rfl⟩
  next counts inserted hins =>
  -- the insert ran: a count mismatch rolls back, matching counts commit
  split
  · exact .inr (rollbackWith_fails _ _ _)
  next ha =>
  split
  · exact .inr (rollbackWith_fails _ _ _)
  next hs =>
  split
  · exact .inr ⟨rfl, rfl⟩
  · exact .inl ⟨rfl, counts, hins, not_not.mp ha, not_not.mp hs⟩

/-- `save_block` on Postgres is all-or-nothing: it returns `Ok` with the tables the insert
wrote, after the insert reported one modified account row per account change and one modified
slot row per slot change whose new value is set; any error leaves the tables as they were. -/
theorem saveBlockTransaction_atomic (pg : PgTransaction) (topicFailure : Option String)
    (db : PgDb) (block : Block) :
    ((saveBlockTransaction cac pg topicFailure db block).1 = .ok () ∧
      ∃ counts, pg.insertEntireBlock db block (changeBatches block.header.number (cac block)) =
          .ok (counts, (saveBlockTransaction cac pg topicFailure db block).2) ∧
        asUsize (counts.modifiedAccounts.getD 0) = (cac block).length ∧
        asUsize (counts.modifiedSlots.getD 0) =
          ((cac block).flatMap fun c => c.slots.filter fun s => s.2.modified.isSome).length) ∨
      ((saveBlockTransaction cac pg topicFailure db block).1.isOk = false ∧
        (saveBlockTransaction cac pg topicFailure db block).2 = db) := by
  have hlen := changeBatches_length block.header.number (cac block)
  rcases saveBlockTransaction_cases pg topicFailure db block with ⟨hok, counts, hins, ha, hs⟩ | h
  · exact .inl ⟨hok, counts, hins, ha.trans hlen.1, hs.trans hlen.2⟩
  · exact .inr h

/-- The table-level `saveBlock` of the counter runs is this call seen through the header table,
when the insert adds the block's header row: `commits` is whether the call returns `Ok`. -/
theorem saveBlockTransaction_blocks (pg : PgTransaction)
    (hins : ∀ db block batches counts inserted,
      pg.insertEntireBlock db block batches = .ok (counts, inserted) →
        inserted.blocks = db.blocks ++ [block.header])
    (topicFailure : Option String) (db : PgDb) (block : Block) :
    (saveBlockTransaction cac pg topicFailure db block).2.blocks =
      (saveBlock (saveBlockTransaction cac pg topicFailure db block).1.isOk db block).blocks := by
  rcases saveBlockTransaction_cases pg topicFailure db block with ⟨hok, counts, hi, -, -⟩ | ⟨hf, hdb⟩
  · rw [hok]
    exact hins _ _ _ _ _ hi
  · rw [hf, hdb]
    rfl

/-! ### `save_accounts` -/

/-- Modelled from the spec: `insert_account.sql`, `insert_historical_balance.sql` and
`insert_historical_nonce.sql` for one initial account, its latest row and its history at
block `0`. -/
def insertAccount (account : Account) (db : PgDb) : PgDb :=
  { db with
    accounts := db.accounts ++ [⟨account.address, account.balance, account.nonce⟩]
    historicalBalances := db.historicalBalances ++ [⟨account.address, account.balance, 0⟩]
    historicalNonces := db.historicalNonces ++ [⟨account.address, account.nonce, 0⟩] }

/-- `PostgresPermanentStorage::save_accounts`, lines 742–789: one database transaction per
account, committed before the next account begins; `fault i` is the error of the `i`-th
account's transaction when one of its steps fails, which rolls that account back. -/
def saveAccounts (fault : Nat → Option String) (accounts : List Account) (db : PgDb) :
    Except String Unit × PgDb :=
  autoCommit ((accounts.map insertAccount).mapIdx fun i statement => (statement, fault i)) db

/-- `save_accounts` is not all-or-nothing: it returns `Ok` with every account saved, or the
error of the first failing account `k` with exactly the `k` accounts before it saved. -/
theorem saveAccounts_prefix (fault : Nat → Option String) (accounts : List Account) (db : PgDb) :
    (saveAccounts fault accounts db =
          (.ok (), (accounts.map insertAccount).foldl (fun db f => f db) db) ∧
        ∀ k < accounts.length, fault k = none) ∨
      ∃ k < accounts.length, ∃ e, fault k = some e ∧ (∀ j < k, fault j = none) ∧
        saveAccounts fault accounts db =
          (.error e, ((accounts.take k).map insertAccount).foldl (fun db f => f db) db) := by
  have h := autoCommit_prefix (accounts.map insertAccount) fault db
  simp only [List.length_map, ← List.map_take] at h
  exact h

end PostgresPermanentStorage

end Stratus
