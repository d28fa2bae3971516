import Stratus.Storage.Rocks.SaveBlock

/-!
# The RocksDB block-number counter

`RocksPermanentStorage` (`rocks_permanent.rs:40–44`) keeps the mined block number in an
`AtomicU64`. `read_mined_block_number`, `increment_block_number` and `set_mined_block_number`
(lines 112–124) are single sequentially consistent operations on it, so a run of calls is a
list of operations folded by `step`. `clear` zeroes the counter and `reset_at` (lines 256–268)
lowers it before its fallible state reset.
-/

namespace Stratus

/-- What a run of storage operations observes of the block counter: the number each read and
each increment returned. -/
inductive Observation where
  | read (number : BlockNumber)
  | increment (number : BlockNumber)
  deriving DecidableEq, Repr

namespace Observation

/-- The number an observation carries. -/
def value : Observation → Nat
  | .read n | .increment n => n.toNat

/-- The numbers the increments of a run returned. -/
def increments (obs : List Observation) : List BlockNumber :=
  obs.filterMap fun | .increment n => some n | .read _ => none

/-- The numbers the reads of a run returned. -/
def reads (obs : List Observation) : List BlockNumber :=
  obs.filterMap fun | .read n => some n | .increment _ => none

end Observation

/-- `RocksPermanentStorage`, lines 40–44: the state and the mined block number. -/
structure RocksPermanentStorage where
  state : RocksStorageState
  blockNumber : UInt64

namespace RocksPermanentStorage

/-- `read_mined_block_number`, lines 112–114: the counter. -/
def readMinedBlockNumber (self : RocksPermanentStorage) : BlockNumber := self.blockNumber

/-- `increment_block_number`, lines 116–119: `fetch_add(1) + 1`, both wrapping at `2^64` as a
release build does. -/
def incrementBlockNumber (self : RocksPermanentStorage) : BlockNumber × RocksPermanentStorage :=
  (self.blockNumber + 1, { self with blockNumber := self.blockNumber + 1 })

/-- `set_mined_block_number`, lines 121–124: stores the number unchecked. -/
def setMinedBlockNumber (self : RocksPermanentStorage) (number : BlockNumber) :
    RocksPermanentStorage :=
  { self with blockNumber := number }

/-- `clear`, lines 60–63. -/
def clear (_ : RocksPermanentStorage) : RocksPermanentStorage := ⟨RocksStorageState.empty, 0⟩

/-- `reset_at`, lines 256–268: `fetch_update` lowers the counter to `blockNumber` when that is
not above it, and then `state.reset_at` runs. `rocks_state.rs` is not in the source, so the
state reset is a parameter: the result it returns and the state it leaves. -/
def resetAt (stateResetAt : RocksStorageState → BlockNumber → Except String Unit × RocksStorageState)
    (self : RocksPermanentStorage) (blockNumber : BlockNumber) :
    Except String Unit × RocksPermanentStorage :=
  let counter := if blockNumber ≤ self.blockNumber then blockNumber else self.blockNumber
  let reset := stateResetAt self.state blockNumber
  (reset.1, ⟨reset.2, counter⟩)

/-- The counter `reset_at` leaves is the old one exactly when the block number is not below it. -/
theorem lowered_eq_self_iff (n c : BlockNumber) : (if n ≤ c then n else c) = c ↔ c ≤ n := by
  by_cases h : n ≤ c
  · rw [if_pos h, UInt64.eq_iff_toNat_eq, UInt64.le_iff_toNat_le]
    rw [UInt64.le_iff_toNat_le] at h
    omega
  · rw [if_neg h]
    rw [UInt64.le_iff_toNat_le] at h
    exact iff_of_true rfl ((UInt64.le_iff_toNat_le _ _).mpr (by omega))

/-- After `reset_at`, the counter is at most the block number, whatever the state reset does. -/
theorem resetAt_blockNumber_le
    (stateResetAt : RocksStorageState → BlockNumber → Except String Unit × RocksStorageState)
    (self : RocksPermanentStorage) (blockNumber : BlockNumber) :
    (resetAt stateResetAt self blockNumber).2.blockNumber ≤ blockNumber := by
  show (if blockNumber ≤ self.blockNumber then blockNumber else self.blockNumber) ≤ blockNumber
  split
  · exact (UInt64.le_iff_toNat_le _ _).mpr le_rfl
  · rename_i h
    rw [UInt64.le_iff_toNat_le] at h ⊢
    omega

/-- A `reset_at` fails and leaves the storage as it was exactly when the state reset fails
without writing and the counter is not above the block number. -/
theorem resetAt_eq_error_self_iff
    (stateResetAt : RocksStorageState → BlockNumber → Except String Unit × RocksStorageState)
    (self : RocksPermanentStorage) (blockNumber : BlockNumber) (e : String) :
    resetAt stateResetAt self blockNumber = (.error e, self) ↔
      stateResetAt self.state blockNumber = (.error e, self.state) ∧
        self.blockNumber ≤ blockNumber := by
  obtain ⟨state, counter⟩ := self
  simp only [resetAt, Prod.mk.injEq, mk.injEq, lowered_eq_self_iff, and_assoc]
  constructor
  · rintro ⟨h1, h2, h3⟩
    exact ⟨Prod.ext h1 h2, h3⟩
  · rintro ⟨h, h3⟩
    rw [h]
    exact ⟨rfl, rfl, h3⟩

/-- The operations of a run: the counter's three, the two writes and the two resets. A
`save_block` is taken whole, every spawned batch landing. -/
inductive Op where
  | readMinedBlockNumber
  | incrementBlockNumber
  | setMinedBlockNumber (number : BlockNumber)
  | saveBlock (block : Block) (updateFailure : Option String)
  | saveAccounts (accounts : List Account)
  | resetAt (number : BlockNumber)
  | clear

section Run

variable (cac : Block → List ExecutionAccountChanges)
  (stateResetAt : RocksStorageState → BlockNumber → Except String Unit × RocksStorageState)

/-- One operation: what it lets a run observe, and the storage after it. -/
def step (self : RocksPermanentStorage) : Op → Option Observation × RocksPermanentStorage
  | .readMinedBlockNumber => (some (.read self.readMinedBlockNumber), self)
  | .incrementBlockNumber =>
    (some (.increment self.incrementBlockNumber.1), self.incrementBlockNumber.2)
  | .setMinedBlockNumber n => (none, self.setMinedBlockNumber n)
  | .saveBlock block f =>
    (none, { self with state := self.state.applyAll (saveBlock cac f self.state block).2 })
  | .saveAccounts accounts => (none, { self with state := self.state.saveAccounts accounts })
  | .resetAt n => (none, (resetAt stateResetAt self n).2)
  | .clear => (none, self.clear)

/-- A run: the operations one after the other, and what they let us observe. -/
def run : RocksPermanentStorage → List Op → List Observation
  | _, [] => []
  | self, op :: ops =>
    let (obs, self') := step cac stateResetAt self op
    obs.toList ++ run self' ops

/-- The operations a monotone run allows from a given counter: no reset or clear, a set only
to a number at least the counter, and an increment only below `u64::MAX`. -/
def Allowed (self : RocksPermanentStorage) : Op → Prop
  | .setMinedBlockNumber n => self.blockNumber.toNat ≤ n.toNat
  | .incrementBlockNumber => self.blockNumber.toNat + 1 < 2 ^ 64
  | .resetAt _ | .clear => False
  | _ => True

instance instDecidableAllowed (self : RocksPermanentStorage) : (op : Op) → Decidable (Allowed self op)
  | .setMinedBlockNumber _ => inferInstanceAs (Decidable (_ ≤ _))
  | .incrementBlockNumber => inferInstanceAs (Decidable (_ < _))
  | .resetAt _ | .clear => isFalse id
  | .readMinedBlockNumber | .saveBlock _ _ | .saveAccounts _ => isTrue trivial

/-- Every operation of the run is allowed from the counter it meets. -/
def Monotone : RocksPermanentStorage → List Op → Prop
  | _, [] => True
  | self, op :: ops => Allowed self op ∧ Monotone (step cac stateResetAt self op).2 ops

instance instDecidableMonotone :
    (self : RocksPermanentStorage) → (ops : List Op) → Decidable (Monotone cac stateResetAt self ops)
  | _, [] => isTrue trivial
  | self, op :: ops =>
    have := instDecidableMonotone (step cac stateResetAt self op).2 ops
    inferInstanceAs (Decidable (_ ∧ _))

end Run

variable {cac : Block → List ExecutionAccountChanges}
  {stateResetAt : RocksStorageState → BlockNumber → Except String Unit × RocksStorageState}

/-- An allowed operation never lowers the counter, and what it observes lies between the old
counter and the new one, strictly above the old one for an increment. -/
theorem step_allowed {self : RocksPermanentStorage} {op : Op} (h : Allowed self op) :
    let r := step cac stateResetAt self op
    self.blockNumber.toNat ≤ r.2.blockNumber.toNat ∧
      ∀ o ∈ r.1, self.blockNumber.toNat ≤ o.value ∧ o.value = r.2.blockNumber.toNat ∧
        (o matches .increment _ → self.blockNumber.toNat < o.value) := by
  cases op with
  | readMinedBlockNumber =>
    refine ⟨Nat.le_refl _, fun o ho => ?_⟩
    cases Option.some.inj ho
    exact ⟨Nat.le_refl _, rfl, nofun⟩
  | incrementBlockNumber =>
    have hinc : (self.blockNumber + 1).toNat = self.blockNumber.toNat + 1 := by
      show (self.blockNumber.toNat + 1) % 2 ^ 64 = _
      exact Nat.mod_eq_of_lt h
    simp only [step, incrementBlockNumber, Observation.value, hinc, Option.mem_def,
      Option.some.injEq, forall_eq', true_and, forall_const]
    omega
  | setMinedBlockNumber n => exact ⟨h, nofun⟩
  | saveBlock _ _ | saveAccounts _ => exact ⟨Nat.le_refl _, nofun⟩
  | resetAt _ | clear => exact h.elim

/-- In a run that never lowers the counter, the observed numbers never decrease, and every
increment returns a number above everything observed before it and above the counter the
run started from. -/
theorem run_pairwise :
    ∀ (self : RocksPermanentStorage) (ops : List Op), Monotone cac stateResetAt self ops →
      (run cac stateResetAt self ops).Pairwise
          (fun o o' => o.value ≤ o'.value ∧ (o' matches .increment _ → o.value < o'.value)) ∧
        ∀ o ∈ run cac stateResetAt self ops, self.blockNumber.toNat ≤ o.value ∧
          (o matches .increment _ → self.blockNumber.toNat < o.value)
  | _, [], _ => ⟨.nil, fun _ h => nomatch h⟩
  | self, op :: ops, ⟨hop, hrest⟩ => by
    obtain ⟨hle, hobs⟩ := step_allowed hop
    obtain ⟨ihp, ihb⟩ := run_pairwise _ ops hrest
    simp only [run]
    refine ⟨List.pairwise_append.mpr ⟨?_, ihp, ?_⟩, ?_⟩
    · cases (step cac stateResetAt self op).1 with
      | none => exact .nil
      | some o => exact List.pairwise_singleton _ o
    · intro o ho o' ho'
      obtain ⟨-, hval, -⟩ := hobs o (Option.mem_toList.mp ho)
      obtain ⟨h1, h2⟩ := ihb o' ho'
      exact ⟨by omega, fun hi => by have := h2 hi; omega⟩
    · intro o ho
      rcases List.mem_append.mp ho with ho | ho
      · obtain ⟨h1, -, h3⟩ := hobs o (Option.mem_toList.mp ho)
        exact ⟨h1, h3⟩
      · obtain ⟨h1, h2⟩ := ihb o ho
        exact ⟨by omega, fun hi => by have := h2 hi; omega⟩

/-- In a run with no `reset_at` or `clear` whose sets never lower the counter and whose
increments never wrap, no two increments return the same number and successive reads never
decrease. -/
theorem run_monotone (self : RocksPermanentStorage) (ops : List Op)
    (h : Monotone cac stateResetAt self ops) :
    (Observation.increments (run cac stateResetAt self ops)).Nodup ∧
      (Observation.reads (run cac stateResetAt self ops)).Pairwise (· ≤ ·) := by
  have hp := (run_pairwise self ops h).1
  constructor
  · refine List.Pairwise.filterMap _ (fun o o' ho n hn n' hn' => ?_) hp
    cases o <;> cases o' <;> simp only [Option.mem_def, reduceCtorEq, Option.some.injEq] at hn hn'
    subst hn hn'
    have := ho.2 rfl
    simp only [Observation.value] at this
    exact fun e => by rw [e] at this; omega
  · refine List.Pairwise.filterMap _ (fun o o' ho n hn n' hn' => ?_) hp
    cases o <;> cases o' <;> simp only [Option.mem_def, reduceCtorEq, Option.some.injEq] at hn hn'
    subst hn hn'
    exact (UInt64.le_iff_toNat_le _ _).mpr ho.1

end RocksPermanentStorage

end Stratus
