import Stratus.Primitives.Transaction

/-!
# The RocksDB state and its conflict check

`RocksStorageState` (`rocks_state.rs`, not in the source) as the eight namespaces of the
persisted layout, each a column family written by whole batches, and `check_conflicts`
(`rocks_permanent.rs:65–99`) translated as written.
-/

namespace Stratus

/-- `AccountInfo` of `rocks_state.rs`: the stored balance and nonce. Bytecode and code hash
are read by no modelled function and are left out. -/
structure AccountInfo where
  balance : Wei
  nonce : Nonce
  deriving DecidableEq, Repr, Inhabited

/-- `Account`: the fields of an initial account that `save_accounts` stores and a modelled
function reads. -/
structure Account where
  address : Address
  nonce : Nonce
  balance : Wei
  deriving DecidableEq, Repr

/-- A RocksDB column family: the value stored under each key, if any. -/
abbrev Column (K V : Type) := K → Option V

namespace Column

variable {K V : Type} [DecidableEq K]

/-- `insert` of one pair. -/
def insert (c : Column K V) (k : K) (v : V) : Column K V := Function.update c k (some v)

/-- `insert_batch`: the pairs in order, so that a later pair of a key wins. -/
def insertBatch (c : Column K V) (kvs : List (K × V)) : Column K V :=
  kvs.foldl (fun c kv => c.insert kv.1 kv.2) c

@[simp] theorem insertBatch_nil (c : Column K V) : c.insertBatch [] = c := rfl

theorem insertBatch_cons (c : Column K V) (kv : K × V) (kvs : List (K × V)) :
    c.insertBatch (kv :: kvs) = (c.insert kv.1 kv.2).insertBatch kvs := rfl

/-- A key the batch does not write keeps its value. -/
theorem insertBatch_of_not_mem (c : Column K V) {kvs : List (K × V)} {k : K}
    (h : k ∉ kvs.map Prod.fst) : c.insertBatch kvs k = c k := by
  induction kvs generalizing c with
  | nil => rfl
  | cons kv kvs ih =>
    simp only [List.map_cons, List.mem_cons, not_or] at h
    rw [insertBatch_cons, ih _ h.2, insert, Function.update_noteq h.1]

/-- A batch with one pair per key stores each of its pairs. -/
theorem insertBatch_of_mem (c : Column K V) {kvs : List (K × V)} {k : K} {v : V}
    (hnd : (kvs.map Prod.fst).Nodup) (h : (k, v) ∈ kvs) : c.insertBatch kvs k = some v := by
  induction kvs generalizing c with
  | nil => cases h
  | cons kv kvs ih =>
    rw [List.map_cons, List.nodup_cons] at hnd
    rw [insertBatch_cons]
    rcases List.mem_cons.mp h with rfl | h
    · rw [insertBatch_of_not_mem _ hnd.1, insert, Function.update_same]
    · exact ih _ hnd.2 h

/-- What a key holds after a batch came from the batch or was there before. -/
theorem insertBatch_eq_some {c : Column K V} {kvs : List (K × V)} {k : K} {v : V}
    (h : c.insertBatch kvs k = some v) : (k, v) ∈ kvs ∨ c k = some v := by
  induction kvs generalizing c with
  | nil => exact .inr h
  | cons kv kvs ih =>
    rcases ih (insertBatch_cons c kv kvs ▸ h) with hmem | hc
    · exact .inl (List.mem_cons_of_mem _ hmem)
    · by_cases hk : k = kv.1
      · subst hk
        rw [insert, Function.update_same, Option.some.injEq] at hc
        exact .inl (hc ▸ List.mem_cons_self _ _)
      · rw [insert, Function.update_noteq hk] at hc
        exact .inr hc

end Column

/-- `RocksStorageState`: the eight namespaces of the persisted layout. -/
structure RocksStorageState where
  accounts : Column Address AccountInfo
  accountsHistory : Column (Address × BlockNumber) AccountInfo
  accountSlots : Column (Address × SlotIndex) SlotValue
  accountSlotsHistory : Column ((Address × SlotIndex) × BlockNumber) SlotValue
  transactions : Column Hash BlockNumber
  blocksByNumber : Column BlockNumber Block
  blocksByHash : Column Hash BlockNumber
  logs : Column (Hash × Index) BlockNumber

/-- One write batch: the pairs it writes into one namespace. -/
inductive Batch where
  | accounts (kvs : List (Address × AccountInfo))
  | accountsHistory (kvs : List ((Address × BlockNumber) × AccountInfo))
  | accountSlots (kvs : List ((Address × SlotIndex) × SlotValue))
  | accountSlotsHistory (kvs : List (((Address × SlotIndex) × BlockNumber) × SlotValue))
  | transactions (kvs : List (Hash × BlockNumber))
  | blocksByNumber (kvs : List (BlockNumber × Block))
  | blocksByHash (kvs : List (Hash × BlockNumber))
  | logs (kvs : List ((Hash × Index) × BlockNumber))
  deriving DecidableEq, Repr

namespace RocksStorageState

/-- The store with every namespace empty: a fresh database, or the one `clear` leaves. -/
def empty : RocksStorageState :=
  ⟨fun _ => none, fun _ => none, fun _ => none, fun _ => none, fun _ => none, fun _ => none,
    fun _ => none, fun _ => none⟩

/-- A batch lands: its namespace takes its pairs, every other namespace is unchanged. -/
def apply (s : RocksStorageState) : Batch → RocksStorageState
  | .accounts kvs => { s with accounts := s.accounts.insertBatch kvs }
  | .accountsHistory kvs => { s with accountsHistory := s.accountsHistory.insertBatch kvs }
  | .accountSlots kvs => { s with accountSlots := s.accountSlots.insertBatch kvs }
  | .accountSlotsHistory kvs =>
    { s with accountSlotsHistory := s.accountSlotsHistory.insertBatch kvs }
  | .transactions kvs => { s with transactions := s.transactions.insertBatch kvs }
  | .blocksByNumber kvs => { s with blocksByNumber := s.blocksByNumber.insertBatch kvs }
  | .blocksByHash kvs => { s with blocksByHash := s.blocksByHash.insertBatch kvs }
  | .logs kvs => { s with logs := s.logs.insertBatch kvs }

/-- Batches landing one after the other. -/
def applyAll (s : RocksStorageState) (batches : List Batch) : RocksStorageState :=
  batches.foldl apply s

/-- `save_accounts`, `rocks_permanent.rs:228–254`: every initial account into the latest
accounts and into the history at block `0`. -/
def saveAccounts (s : RocksStorageState) (accounts : List Account) : RocksStorageState :=
  accounts.foldl (fun s account =>
    let info : AccountInfo := ⟨account.balance, account.nonce⟩
    { s with
      accounts := s.accounts.insert account.address info
      accountsHistory := s.accountsHistory.insert (account.address, 0) info }) s

end RocksStorageState

/-- `ExecutionConflict`: what a conflict check found. The RocksDB check builds a nonce, a
balance or a slot conflict with the stored value first and the original second; the
Postgres one builds `Account` and `PgSlot`. -/
inductive ExecutionConflict where
  | nonce (address : Address) (expected original : Nonce)
  | balance (address : Address) (expected original : Wei)
  | slot (address : Address) (index : SlotIndex) (expected original : SlotValue)
  | account
  | pgSlot
  deriving DecidableEq, Repr

/-- `ExecutionConflicts(NonEmpty<ExecutionConflict>)`: never empty. -/
structure ExecutionConflicts where
  conflicts : List ExecutionConflict
  nonempty : conflicts ≠ []

/-- `ExecutionConflictsBuilder`: the conflicts found so far, in order. -/
structure ExecutionConflictsBuilder where
  conflicts : List ExecutionConflict := []

namespace ExecutionConflictsBuilder

/-- `add_nonce`, `add_balance` and `add_slot`: one more conflict. -/
def add (b : ExecutionConflictsBuilder) (c : ExecutionConflict) : ExecutionConflictsBuilder :=
  ⟨b.conflicts ++ [c]⟩

/-- `build`: `None` when nothing was found. -/
def build (b : ExecutionConflictsBuilder) : Option ExecutionConflicts :=
  if h : b.conflicts = [] then none else some ⟨b.conflicts, h⟩

@[simp] theorem conflicts_add (b : ExecutionConflictsBuilder) (c : ExecutionConflict) :
    (b.add c).conflicts = b.conflicts ++ [c] := rfl

theorem build_eq_none_iff (b : ExecutionConflictsBuilder) : b.build = none ↔ b.conflicts = [] := by
  unfold build
  split
  · next h => exact iff_of_true rfl h
  · next h => exact iff_of_false (Option.some_ne_none _) h

end ExecutionConflictsBuilder

namespace RocksPermanentStorage

/-- The slot loop of `check_conflicts`, lines 86–95: a set original that differs from a
stored slot value is a conflict. -/
def checkSlotConflicts (state : RocksStorageState) (address : Address)
    (conflicts : ExecutionConflictsBuilder) (slots : List (SlotIndex × ExecutionValueChange Slot)) :
    ExecutionConflictsBuilder :=
  slots.foldl (fun conflicts slot =>
    match state.accountSlots (address, slot.1), slot.2.takeOriginalRef with
    | some value, some originalSlot =>
      if originalSlot.value ≠ value then
        conflicts.add (.slot address slot.1 value originalSlot.value)
      else conflicts
    | _, _ => conflicts) conflicts

/-- One iteration of `check_conflicts`, lines 69–96: nothing is checked for an account absent
from the latest accounts, and an unset original is never compared. -/
def checkAccountConflicts (state : RocksStorageState) (conflicts : ExecutionConflictsBuilder)
    (change : ExecutionAccountChanges) : ExecutionConflictsBuilder :=
  match state.accounts change.address with
  | none => conflicts
  | some account =>
    let conflicts := match change.nonce.takeOriginalRef with
      | some originalNonce =>
        if originalNonce ≠ account.nonce then
          conflicts.add (.nonce change.address account.nonce originalNonce)
        else conflicts
      | none => conflicts
    let conflicts := match change.balance.takeOriginalRef with
      | some originalBalance =>
        if originalBalance ≠ account.balance then
          conflicts.add (.balance change.address account.balance originalBalance)
        else conflicts
      | none => conflicts
    checkSlotConflicts state change.address conflicts change.slots

/-- `RocksPermanentStorage::check_conflicts`, lines 65–99. -/
def checkConflicts (state : RocksStorageState) (accountChanges : List ExecutionAccountChanges) :
    Option ExecutionConflicts :=
  (accountChanges.foldl (checkAccountConflicts state) {}).build

/-- What the check requires of one change: where the account is stored, each set original
equals the stored value, and each set original slot equals the stored slot value where that
slot is stored. -/
def ChangeAgrees (state : RocksStorageState) (change : ExecutionAccountChanges) : Prop :=
  ∀ account, state.accounts change.address = some account →
    (∀ o, change.nonce.original = some o → o = account.nonce) ∧
    (∀ o, change.balance.original = some o → o = account.balance) ∧
    ∀ p ∈ change.slots, ∀ value, state.accountSlots (change.address, p.1) = some value →
      ∀ o, p.2.original = some o → o.value = value

variable {state : RocksStorageState}

private theorem conflicts_ite_eq_nil_iff {p : Prop} [Decidable p] {b : ExecutionConflictsBuilder}
    {c : ExecutionConflict} : (if p then b.add c else b).conflicts = [] ↔ b.conflicts = [] ∧ ¬p := by
  by_cases h : p
  · rw [if_pos h, ExecutionConflictsBuilder.conflicts_add]
    simp only [List.append_eq_nil, List.cons_ne_nil, and_false, h, not_true_eq_false]
  · rw [if_neg h]
    exact (and_iff_left h).symm

private theorem checkSlotConflicts_single {address : Address} {b : ExecutionConflictsBuilder}
    {p : SlotIndex × ExecutionValueChange Slot} :
    (checkSlotConflicts state address b [p]).conflicts = [] ↔
      b.conflicts = [] ∧ ∀ value, state.accountSlots (address, p.1) = some value →
        ∀ o, p.2.original = some o → o.value = value := by
  simp only [checkSlotConflicts, List.foldl_cons, List.foldl_nil,
    ExecutionValueChange.takeOriginalRef]
  cases state.accountSlots (address, p.1) <;> cases p.2.original <;>
    simp only [conflicts_ite_eq_nil_iff, not_not, reduceCtorEq, false_implies, implies_true,
      and_true, Option.some.injEq, forall_eq']

theorem checkSlotConflicts_eq_nil_iff {address : Address} {b : ExecutionConflictsBuilder}
    {slots : List (SlotIndex × ExecutionValueChange Slot)} :
    (checkSlotConflicts state address b slots).conflicts = [] ↔
      b.conflicts = [] ∧ ∀ p ∈ slots, ∀ value, state.accountSlots (address, p.1) = some value →
        ∀ o, p.2.original = some o → o.value = value := by
  induction slots generalizing b with
  | nil => exact (and_iff_left fun _ h => nomatch h).symm
  | cons p slots ih =>
    rw [show checkSlotConflicts state address b (p :: slots) =
      checkSlotConflicts state address (checkSlotConflicts state address b [p]) slots from rfl,
      ih, checkSlotConflicts_single]
    simp only [List.forall_mem_cons, and_assoc]

theorem checkAccountConflicts_eq_nil_iff {b : ExecutionConflictsBuilder}
    {change : ExecutionAccountChanges} :
    (checkAccountConflicts state b change).conflicts = [] ↔
      b.conflicts = [] ∧ ChangeAgrees state change := by
  unfold checkAccountConflicts ChangeAgrees
  cases state.accounts change.address with
  | none => exact (and_iff_left fun _ h => nomatch h).symm
  | some account =>
    simp only [ExecutionValueChange.takeOriginalRef, checkSlotConflicts_eq_nil_iff,
      Option.some.injEq, forall_eq']
    cases change.nonce.original <;> cases change.balance.original <;>
      simp only [conflicts_ite_eq_nil_iff, not_not, reduceCtorEq, false_implies, implies_true,
        true_and, Option.some.injEq, forall_eq', and_assoc]

/-- The check finds nothing exactly when every change agrees with the stored values it
reads. -/
theorem checkConflicts_eq_none_iff (accountChanges : List ExecutionAccountChanges) :
    checkConflicts state accountChanges = none ↔ ∀ c ∈ accountChanges, ChangeAgrees state c := by
  suffices h : ∀ b : ExecutionConflictsBuilder,
      (accountChanges.foldl (checkAccountConflicts state) b).conflicts = [] ↔
        b.conflicts = [] ∧ ∀ c ∈ accountChanges, ChangeAgrees state c by
    rw [checkConflicts, ExecutionConflictsBuilder.build_eq_none_iff, h]
    exact and_iff_right rfl
  induction accountChanges with
  | nil => exact fun _ => (and_iff_left fun _ h => nomatch h).symm
  | cons c cs ih =>
    intro b
    rw [List.foldl_cons, ih, checkAccountConflicts_eq_nil_iff]
    simp only [List.forall_mem_cons, and_assoc]

end RocksPermanentStorage

end Stratus
