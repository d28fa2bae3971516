import Stratus.Primitives.BlockHeader

/-!
# Execution changes, mined transactions and blocks

The records that the relayer DAG and the permanent storages read. `src/src/eth/primitives`
holds only the block number and header modules; these records follow the field accesses of
`transaction_dag.rs:42–57`, `rocks_permanent.rs:65–99,153–222` and the test constructor
`transaction_dag.rs:136–170`, and keep only the fields those read.
-/

namespace Stratus

/-- `ExecutionValueChange<T>`: the value before and after a transaction, each either
`ValueState::Set` (`some`) or `NotSet` (`none`). -/
structure ExecutionValueChange (α : Type) where
  original : Option α
  modified : Option α
  deriving DecidableEq, Repr

namespace ExecutionValueChange

variable {α : Type} [DecidableEq α]

/-- Modelled from the spec: `ExecutionValueChange::is_modified` (the value-change module is
not in the source) holds when the modified value is set and differs from the original. -/
def isModified (c : ExecutionValueChange α) : Bool :=
  c.modified.isSome && c.modified != c.original

/-- `ExecutionValueChange::take_original_ref`: the original value when it is set. -/
def takeOriginalRef (c : ExecutionValueChange α) : Option α := c.original

/-- A modified change has a set modified value that differs from the original. -/
theorem isModified_iff (c : ExecutionValueChange α) :
    c.isModified = true ↔ ∃ v, c.modified = some v ∧ c.original ≠ some v := by
  cases hm : c.modified <;> simp [isModified, hm, ne_comm]

end ExecutionValueChange

/-- `Slot { index, value }`. -/
structure Slot where
  index : SlotIndex
  value : SlotValue
  deriving DecidableEq, Repr

/-- `ExecutionAccountChanges`: the changes of one account. Bytecode, code hash and the slot
index caches are read by no modelled function and are left out. -/
structure ExecutionAccountChanges where
  address : Address
  nonce : ExecutionValueChange Nonce
  balance : ExecutionValueChange Wei
  slots : List (SlotIndex × ExecutionValueChange Slot)
  deriving DecidableEq, Repr

/-- `EvmExecution`: only the per-account changes are read. -/
structure EvmExecution where
  changes : List (Address × ExecutionAccountChanges)
  deriving DecidableEq, Repr

/-- `TransactionInput`: only the transaction hash is read. -/
structure TransactionInput where
  hash : Hash
  deriving DecidableEq, Repr

/-- `LogMined`: only its block-global `log_index` is read. -/
structure LogMined where
  logIndex : Index
  deriving DecidableEq, Repr

/-- `TransactionMined`, with every field but the log bodies. -/
structure TransactionMined where
  input : TransactionInput
  execution : EvmExecution
  logs : List LogMined
  transactionIndex : Index
  blockNumber : BlockNumber
  blockHash : Hash
  deriving DecidableEq, Repr

/-- `Block { header, transactions }`. -/
structure Block where
  header : BlockHeader
  transactions : List TransactionMined
  deriving DecidableEq, Repr

/-- `Block::number`. -/
def Block.number (b : Block) : BlockNumber := b.header.number

/-- `Block::hash`. -/
def Block.hash (b : Block) : Hash := b.header.hash

end Stratus
