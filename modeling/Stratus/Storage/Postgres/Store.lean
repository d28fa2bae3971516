import Stratus.Storage.Postgres.ReadBlock

/-!
# The Postgres tables, the block counter and `reset_at`

`increment_block_number`, `set_mined_block_number` and `reset_at` of
`PostgresPermanentStorage` (`postgres_permanent.rs:85–103, 792–813`). The SQL files are not in
the source: the tables are those of the spec's persisted layout that the modelled statements
touch, and each statement of `reset_at` follows the spec's description of it. Each statement is
`execute`d on the pool and so commits on its own.
-/

namespace Stratus

/-- A row of `accounts`: the latest balance and nonce of an address. -/
structure AccountRow where
  address : Address
  latestBalance : Wei
  latestNonce : Nonce
  deriving DecidableEq, Repr

/-- A row of `historical_balances`. -/
structure HistoricalBalance where
  address : Address
  balance : Wei
  blockNumber : BlockNumber
  deriving DecidableEq, Repr

/-- A row of `historical_nonces`. -/
structure HistoricalNonce where
  address : Address
  nonce : Nonce
  blockNumber : BlockNumber
  deriving DecidableEq, Repr

/-- A row of `account_slots`: the latest value of a slot. -/
structure SlotRow where
  address : Address
  idx : SlotIndex
  value : SlotValue
  deriving DecidableEq, Repr

/-- A row of `historical_slots`. -/
structure HistoricalSlot where
  address : Address
  idx : SlotIndex
  value : SlotValue
  blockNumber : BlockNumber
  deriving DecidableEq, Repr

/-- Modelled from the spec: the tables that `reset_at`, `save_block` and the current block
number query touch. -/
structure PgDb where
  blocks : List BlockHeader
  transactions : List PostgresTransaction
  logs : List PostgresLog
  topics : List PostgresTopic
  accounts : List AccountRow
  historicalBalances : List HistoricalBalance
  historicalNonces : List HistoricalNonce
  accountSlots : List SlotRow
  historicalSlots : List HistoricalSlot
  deriving DecidableEq, Repr

/-- The tables with no rows. -/
def PgDb.empty : PgDb := ⟨[], [], [], [], [], [], [], [], []⟩

namespace PostgresPermanentStorage

/-- Modelled from the spec: `select_current_block_number.sql`, the greatest block number in
`blocks`, `0` when there is none. -/
def selectCurrentBlockNumber (db : PgDb) : Nat :=
  (db.blocks.map fun header => header.number.toNat).foldr max 0

/-- `increment_block_number`, lines 85–98: the current block number query's `NUMERIC` as a
`BigDecimal` (`BigDecimal::from(0)` when the query fails) plus `BigDecimal::from(1)`, converted
to a block number. Nothing is written. -/
def incrementBlockNumber (currval : Except String Int) : Except String BlockNumber :=
  BlockNumber.tryFromBigDecimal ((match currval with
    | .ok v => BigDecimal.ofNumeric v
    | .error _ => .ofInt 0).add (.ofInt 1))

/-- `save_block`, lines 537–725, as the tables above see it: the block goes in through one
database transaction, which commits (adding the block's header row) or rolls back on a count
mismatch or a failure (leaving every table as it was). The other rows it inserts are read by no
modelled function and are left out; `commits` says whether the transaction commits. -/
def saveBlock (commits : Bool) (db : PgDb) (block : Block) : PgDb :=
  if commits then { db with blocks := db.blocks ++ [block.header] } else db

/-- Modelled from the spec: `delete_after_block.sql`, every row of a block above `number`
deleted. -/
def deleteAfterBlock (number : BlockNumber) (db : PgDb) : PgDb :=
  { db with
    blocks := db.blocks.filter (·.number ≤ number)
    transactions := db.transactions.filter (·.blockNumber ≤ number)
    logs := db.logs.filter (·.blockNumber ≤ number)
    topics := db.topics.filter (·.blockNumber ≤ number)
    historicalBalances := db.historicalBalances.filter (·.blockNumber ≤ number)
    historicalNonces := db.historicalNonces.filter (·.blockNumber ≤ number)
    historicalSlots := db.historicalSlots.filter (·.blockNumber ≤ number) }

/-- The row of greatest block number, the later one on a tie. -/
def latestRow {α : Type} (blockNumber : α → BlockNumber) (rows : List α) : Option α :=
  rows.foldl (fun best r => match best with
    | some b => if blockNumber b ≤ blockNumber r then some r else some b
    | none => some r) none

/-- Modelled from the spec: `update_account_reset_balance.sql`, each latest balance rolled back
to the address's latest remaining historical balance. -/
def updateAccountResetBalance (db : PgDb) : PgDb :=
  { db with
    accounts := db.accounts.map fun acc =>
      match latestRow (·.blockNumber) (db.historicalBalances.filter (·.address = acc.address)) with
      | some h => { acc with latestBalance := h.balance }
      | none => acc }

/-- Modelled from the spec: `update_account_reset_nonce.sql`, each latest nonce rolled back to
the address's latest remaining historical nonce. -/
def updateAccountResetNonce (db : PgDb) : PgDb :=
  { db with
    accounts := db.accounts.map fun acc =>
      match latestRow (·.blockNumber) (db.historicalNonces.filter (·.address = acc.address)) with
      | some h => { acc with latestNonce := h.nonce }
      | none => acc }

/-- Modelled from the spec: `update_account_slots_reset_value.sql`, each latest slot value
rolled back to the slot's latest remaining historical value. -/
def updateAccountSlotsResetValue (db : PgDb) : PgDb :=
  { db with
    accountSlots := db.accountSlots.map fun slot =>
      match latestRow (·.blockNumber) (db.historicalSlots.filter fun h =>
          h.address = slot.address ∧ h.idx = slot.idx) with
      | some h => { slot with value := h.value }
      | none => slot }

/-- Statements run one after the other, each `execute`d on the pool and so committed on its
own: the first that fails (its error given with it) is returned through `?`, and the ones before
it stay applied. -/
def autoCommit : List ((PgDb → PgDb) × Option String) → PgDb → Except String Unit × PgDb
  | [], db => (.ok (), db)
  | (_, some e) :: _, db => (.error e, db)
  | (statement, none) :: rest, db => autoCommit rest (statement db)

/-- `PostgresPermanentStorage::reset_at`, lines 792–813: the four statements in order;
`fault i` is the error the `i`-th returns, if it fails. -/
def resetAt (fault : Nat → Option String) (number : BlockNumber) (db : PgDb) :
    Except String Unit × PgDb :=
  autoCommit [(deleteAfterBlock number, fault 0), (updateAccountResetBalance, fault 1),
    (updateAccountResetNonce, fault 2), (updateAccountSlotsResetValue, fault 3)] db

/-- The statements of `reset_at`, in order. -/
def resetStatements (number : BlockNumber) : List (PgDb → PgDb) :=
  [deleteAfterBlock number, updateAccountResetBalance, updateAccountResetNonce,
    updateAccountSlotsResetValue]

/-- The current block number is at most `c` exactly when every saved block is. -/
theorem selectCurrentBlockNumber_le_iff (db : PgDb) (c : Nat) :
    selectCurrentBlockNumber db ≤ c ↔ ∀ header ∈ db.blocks, header.number.toNat ≤ c := by
  unfold selectCurrentBlockNumber
  induction db.blocks with
  | nil => simp
  | cons header rest ih =>
    simp only [List.map_cons, List.foldr_cons, Nat.max_le, ih, List.forall_mem_cons]

/-- Statements that leave `blocks` alone leave it alone however many of them commit. -/
theorem autoCommit_blocks (statements : List ((PgDb → PgDb) × Option String))
    (h : ∀ s ∈ statements, ∀ db, (s.1 db).blocks = db.blocks) (db : PgDb) :
    (autoCommit statements db).2.blocks = db.blocks := by
  induction statements generalizing db with
  | nil => rfl
  | cons s rest ih =>
    obtain ⟨statement, _ | e⟩ := s
    · rw [autoCommit, ih (fun s hs => h s (List.mem_cons_of_mem _ hs)),
        h _ (List.mem_cons_self _ _)]
    · rfl

/-- Once its first statement commits, `reset_at` leaves no block above its number. -/
theorem selectCurrentBlockNumber_resetAt {fault : Nat → Option String} (h0 : fault 0 = none)
    (number : BlockNumber) (db : PgDb) :
    selectCurrentBlockNumber (resetAt fault number db).2 ≤ number.toNat := by
  have hb : (resetAt fault number db).2.blocks = (deleteAfterBlock number db).blocks := by
    rw [resetAt, h0, autoCommit]
    refine autoCommit_blocks _ (fun s hs db => ?_) _
    simp only [List.mem_cons, List.mem_nil_iff, or_false] at hs
    rcases hs with rfl | rfl | rfl <;> rfl
  rw [selectCurrentBlockNumber_le_iff, hb]
  intro header hh
  simp only [deleteAfterBlock, List.mem_filter, decide_eq_true_eq] at hh
  exact (UInt64.le_iff_toNat_le _ _).mp hh.2

/-- Statements committed one by one, the `i`-th failing with `fault i` when that is set: they
end after all of them, or at the first failing one `k` with the `k` before it applied. -/
theorem autoCommit_prefix (statements : List (PgDb → PgDb)) (fault : Nat → Option String)
    (db : PgDb) :
    (autoCommit (statements.mapIdx fun i f => (f, fault i)) db =
          (.ok (), statements.foldl (fun db f => f db) db) ∧
        ∀ k < statements.length, fault k = none) ∨
      ∃ k < statements.length, ∃ e, fault k = some e ∧ (∀ j < k, fault j = none) ∧
        autoCommit (statements.mapIdx fun i f => (f, fault i)) db =
          (.error e, (statements.take k).foldl (fun db f => f db) db) := by
  induction statements generalizing fault db with
  | nil => exact .inl ⟨rfl, fun _ h => absurd h (Nat.not_lt_zero _)⟩
  | cons statement rest ih =>
    rw [List.mapIdx_cons]
    cases h0 : fault 0 with
    | some e =>
      exact .inr ⟨0, Nat.succ_pos _, e, h0, fun _ h => absurd h (Nat.not_lt_zero _), rfl⟩
    | none =>
      -- the first statement commits; the rest run on what it left, their faults shifted by one
      rcases ih (fun i => fault (i + 1)) (statement db) with ⟨hok, hall⟩ | ⟨k, hk, e, he, hj, herr⟩
      · refine .inl ⟨hok, fun k hk => ?_⟩
        cases k with
        | zero => exact h0
        | succ k => exact hall k (Nat.lt_of_succ_lt_succ hk)
      · refine .inr ⟨k + 1, Nat.succ_lt_succ hk, e, he, fun j hjk => ?_, herr⟩
        cases j with
        | zero => exact h0
        | succ j => exact hj j (Nat.lt_of_succ_lt_succ hjk)

/-- `reset_at` is not all-or-nothing: it returns `Ok` after all four statements, or the error
of the first failing statement `k` with the store the `k` statements before it left. -/
theorem resetAt_prefix (fault : Nat → Option String) (number : BlockNumber) (db : PgDb) :
    (resetAt fault number db = (.ok (), (resetStatements number).foldl (fun db f => f db) db) ∧
        ∀ k < 4, fault k = none) ∨
      ∃ k < 4, ∃ e, fault k = some e ∧ (∀ j < k, fault j = none) ∧
        resetAt fault number db =
          (.error e, ((resetStatements number).take k).foldl (fun db f => f db) db) :=
  autoCommit_prefix (resetStatements number) fault db

end PostgresPermanentStorage

end Stratus
