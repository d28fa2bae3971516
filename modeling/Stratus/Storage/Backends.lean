import Stratus.Storage.Rocks.Counter
import Stratus.Storage.Postgres.Store

/-!
# The two permanent storages side by side

Runs of the Postgres counter operations (`postgres_permanent.rs:85–103, 731–740`), next to
the RocksDB ones of `Stratus.Storage.Rocks.Counter`, and the block counters and `reset_at` of the
two backends compared. Postgres has no counter to raise: its reads and increments are functions
of the greatest saved block number, which only `save_block` and `reset_at` move.
-/

namespace Stratus

namespace PostgresPermanentStorage

/-- The operations of a Postgres run. A read or an increment carries the error its current
block number query returns, if it fails; a `save_block`, whether its transaction commits
(whether the call returns `Ok`, by `saveBlockTransaction_blocks`); a `reset_at`, the error of
each statement that fails. -/
inductive Op where
  | readMinedBlockNumber (failure : Option String)
  | incrementBlockNumber (failure : Option String)
  | setMinedBlockNumber (number : BlockNumber)
  | saveBlock (block : Block) (commits : Bool)
  | resetAt (number : BlockNumber) (fault : Nat → Option String)

/-- The current block number query as one call sees it. -/
def currval (failure : Option String) (db : PgDb) : Except String Int :=
  match failure with
  | some e => .error e
  | none => .ok (selectCurrentBlockNumber db)

@[simp] theorem currval_none (db : PgDb) : currval none db = .ok (selectCurrentBlockNumber db) :=
  rfl

/-- One operation: the number a read or an increment returns (none when it returns `Err`), and
the tables after it. -/
def step (db : PgDb) : Op → Option Observation × PgDb
  | .readMinedBlockNumber f => ((readMinedBlockNumber (currval f db)).toOption.map .read, db)
  | .incrementBlockNumber f =>
    ((incrementBlockNumber (currval f db)).toOption.map .increment, db)
  | .setMinedBlockNumber _ => (none, db)
  | .saveBlock block commits => (none, saveBlock commits db block)
  | .resetAt n fault => (none, (resetAt fault n db).2)

/-- A run: the operations one after the other, and what they let us observe. -/
def run : PgDb → List Op → List Observation
  | _, [] => []
  | db, op :: ops => (step db op).1.toList ++ run (step db op).2 ops

/-- The operations of a run in which reads never decrease: every query succeeds and nothing is
reset. -/
def Allowed : Op → Prop
  | .readMinedBlockNumber f | .incrementBlockNumber f => f = none
  | .resetAt _ _ => False
  | _ => True

instance instDecidableAllowed : (op : Op) → Decidable (Allowed op)
  | .readMinedBlockNumber f | .incrementBlockNumber f => inferInstanceAs (Decidable (f = none))
  | .resetAt _ _ => isFalse id
  | .setMinedBlockNumber _ | .saveBlock _ _ => isTrue trivial

/-- Two observations of one kind in order. -/
def SameKindLe : Observation → Observation → Prop
  | .read a, .read b | .increment a, .increment b => a.toNat ≤ b.toNat
  | _, _ => True

/-- A read of at least the block number `c`, or an increment of at least `c + 1`. -/
def AtLeast (c : Nat) : Observation → Prop
  | .read n => c ≤ n.toNat
  | .increment n => c + 1 ≤ n.toNat

private theorem foldr_max_mono (l : List Nat) {a b : Nat} (h : a ≤ b) :
    l.foldr max a ≤ l.foldr max b := by
  induction l with
  | nil => exact h
  | cons x l ih => simp only [List.foldr_cons]; omega

theorem selectCurrentBlockNumber_lt (db : PgDb) : selectCurrentBlockNumber db < 2 ^ 64 := by
  unfold selectCurrentBlockNumber
  induction db.blocks with
  | nil => decide
  | cons h hs ih =>
    have := h.number.toNat_lt_size
    simp only [List.map_cons, List.foldr_cons, UInt64.size] at this ⊢
    omega

/-- Saving a block never lowers the current block number. -/
theorem selectCurrentBlockNumber_saveBlock (commits : Bool) (db : PgDb) (block : Block) :
    selectCurrentBlockNumber db ≤ selectCurrentBlockNumber (saveBlock commits db block) := by
  unfold saveBlock
  split
  · simp only [selectCurrentBlockNumber, List.map_append, List.foldr_append, List.map_cons,
      List.map_nil, List.foldr_cons, List.foldr_nil]
    exact foldr_max_mono _ (Nat.zero_le _)
  · exact le_rfl

/-- A read returns the current block number, or fails, and writes nothing. -/
theorem step_read (db : PgDb) : (∃ n : BlockNumber, n.toNat = selectCurrentBlockNumber db ∧
    step db (.readMinedBlockNumber none) = (some (.read n), db)) ∨
      step db (.readMinedBlockNumber none) = (none, db) := by
  simp only [step, currval_none, readMinedBlockNumber]
  cases h : BlockNumber.tryFromBigDecimal (.ofNumeric (selectCurrentBlockNumber db)) with
  | error _ => exact .inr rfl
  | ok n =>
    have hv := ((BlockNumber.tryFromBigDecimal_eq_ok_iff (BigDecimal.ofNumeric_scale _).2 n).mp h).2
    rw [BigDecimal.intVal_mul_ofNumeric] at hv
    exact .inl ⟨n, by omega, rfl⟩

/-- An increment returns one more than the current block number, or fails when that does not
fit in 64 bits, and writes nothing. -/
theorem step_increment (db : PgDb) : (∃ n : BlockNumber, n.toNat = selectCurrentBlockNumber db + 1 ∧
    step db (.incrementBlockNumber none) = (some (.increment n), db)) ∨
      step db (.incrementBlockNumber none) = (none, db) := by
  simp only [step, currval_none, incrementBlockNumber, BigDecimal.ofNumeric_add_one]
  cases h : BlockNumber.tryFromBigDecimal (.ofInt ((selectCurrentBlockNumber db : Int) + 1)) with
  | error _ => exact .inr rfl
  | ok n =>
    have hv := (BlockNumber.tryFromBigDecimal_ofInt _ n).mp h
    exact .inl ⟨n, by omega, rfl⟩

/-- An allowed operation never lowers the current block number, and what it observes is that
number for a read and one more for an increment. -/
theorem step_allowed {db : PgDb} {op : Op} (h : Allowed op) :
    selectCurrentBlockNumber db ≤ selectCurrentBlockNumber (step db op).2 ∧
      ∀ o ∈ (step db op).1, (∃ n, o = .read n ∧ n.toNat = selectCurrentBlockNumber db) ∨
        ∃ n, o = .increment n ∧ n.toNat = selectCurrentBlockNumber db + 1 := by
  cases op with
  | readMinedBlockNumber f =>
    subst h
    rcases step_read db with ⟨n, hv, hstep⟩ | hstep <;> rw [hstep]
    · exact ⟨le_rfl, fun o ho => .inl ⟨n, (Option.some.inj ho).symm, hv⟩⟩
    · exact ⟨le_rfl, fun o ho => nomatch ho⟩
  | incrementBlockNumber f =>
    subst h
    rcases step_increment db with ⟨n, hv, hstep⟩ | hstep <;> rw [hstep]
    · exact ⟨le_rfl, fun o ho => .inr ⟨n, (Option.some.inj ho).symm, hv⟩⟩
    · exact ⟨le_rfl, fun o ho => nomatch ho⟩
  | setMinedBlockNumber _ => exact ⟨le_rfl, fun o ho => nomatch ho⟩
  | saveBlock block commits =>
    exact ⟨selectCurrentBlockNumber_saveBlock commits db block, fun o ho => nomatch ho⟩
  | resetAt _ _ => exact h.elim

/-- In a run whose queries all succeed and which resets nothing, every observation is at least
the current block number the run started from, and two observations of one kind come in
order. -/
theorem run_ordered :
    ∀ (db : PgDb) (ops : List Op), (∀ op ∈ ops, Allowed op) →
      (run db ops).Pairwise SameKindLe ∧ ∀ o ∈ run db ops, AtLeast (selectCurrentBlockNumber db) o
  | _, [], _ => by simp [run]
  | db, op :: ops, h => by
    obtain ⟨hle, hobs⟩ := step_allowed (h op (List.mem_cons_self _ _))
    obtain ⟨ihp, ihb⟩ := run_ordered _ ops fun op hop => h op (List.mem_cons_of_mem _ hop)
    simp only [run]
    refine ⟨List.pairwise_append.mpr ⟨?_, ihp, fun o ho o' ho' => ?_⟩, fun o ho => ?_⟩
    · cases (step db op).1 <;> simp
    · have h1 := ihb o' ho'
      rcases hobs o (by simpa using ho) with ⟨n, rfl, hn⟩ | ⟨n, rfl, hn⟩ <;>
        cases o' <;> simp only [SameKindLe, AtLeast] at h1 ⊢ <;> omega
    · rcases List.mem_append.mp ho with ho | ho
      · rcases hobs o (by simpa using ho) with ⟨n, rfl, hn⟩ | ⟨n, rfl, hn⟩ <;>
          simp only [AtLeast] <;> omega
      · have h1 := ihb o ho
        cases o <;> simp only [AtLeast] at h1 ⊢ <;> omega

/-- In a run whose queries all succeed and which resets nothing, successive reads never
decrease, and neither do successive increments. -/
theorem run_reads_monotone (db : PgDb) (ops : List Op) (h : ∀ op ∈ ops, Allowed op) :
    (Observation.reads (run db ops)).Pairwise (· ≤ ·) ∧
      (Observation.increments (run db ops)).Pairwise (· ≤ ·) := by
  have hp := (run_ordered db ops h).1
  constructor <;> refine List.Pairwise.filterMap _ (fun o o' ho n hn n' hn' => ?_) hp <;>
    cases o <;> cases o' <;> simp only [Option.mem_def, reduceCtorEq, Option.some.injEq] at hn hn' <;>
    subst hn hn' <;> exact (UInt64.le_iff_toNat_le _ _).mpr ho

end PostgresPermanentStorage

namespace PermanentStorage

/-! ### The block counter of both backends -/

/-- Neither counter hands out fresh numbers in every run: on RocksDB a `set_mined_block_number`
back to `0` makes the next increment repeat the last one, on Postgres two increments with no
block saved between them return one number, and a Postgres read whose query fails falls back
to `0`. -/
theorem counter_not_fresh :
    (∀ cac stateResetAt, RocksPermanentStorage.run cac stateResetAt ⟨.empty, 0⟩
        [.incrementBlockNumber, .setMinedBlockNumber 0, .incrementBlockNumber] =
      [.increment 1, .increment 1]) ∧
    PostgresPermanentStorage.run .empty [.incrementBlockNumber none, .incrementBlockNumber none] =
      [.increment 1, .increment 1] ∧
    PostgresPermanentStorage.run { PgDb.empty with blocks := [BlockHeader.new (fun _ => 0) 1 0] }
        [.readMinedBlockNumber none, .readMinedBlockNumber (some "connection reset")] =
      [.read 1, .read 0] :=
  ⟨fun _ _ => rfl, rfl, rfl⟩

/-- What does hold of the counters. On RocksDB, a run with no `reset_at` or `clear` whose sets
never lower the counter and whose increments never wrap hands out pairwise distinct numbers,
and its reads never decrease. On Postgres, in a run with no `reset_at` and no failed query,
neither the reads nor the increments ever decrease. -/
theorem counter_runs (cac : Block → List ExecutionAccountChanges)
    (stateResetAt : RocksStorageState → BlockNumber → Except String Unit × RocksStorageState)
    (self : RocksPermanentStorage) (ops : List RocksPermanentStorage.Op)
    (hr : RocksPermanentStorage.Monotone cac stateResetAt self ops)
    (db : PgDb) (pgOps : List PostgresPermanentStorage.Op)
    (hp : ∀ op ∈ pgOps, PostgresPermanentStorage.Allowed op) :
    ((Observation.increments (RocksPermanentStorage.run cac stateResetAt self ops)).Nodup ∧
      (Observation.reads (RocksPermanentStorage.run cac stateResetAt self ops)).Pairwise (· ≤ ·)) ∧
    (Observation.reads (PostgresPermanentStorage.run db pgOps)).Pairwise (· ≤ ·) ∧
      (Observation.increments (PostgresPermanentStorage.run db pgOps)).Pairwise (· ≤ ·) :=
  ⟨RocksPermanentStorage.run_monotone self ops hr,
    PostgresPermanentStorage.run_reads_monotone db pgOps hp⟩

theorem counter_runs_increment_read :
    ((Observation.increments (RocksPermanentStorage.run (fun _ => []) (fun state _ => (.ok (), state))
        ⟨.empty, 0⟩ [.incrementBlockNumber, .readMinedBlockNumber, .incrementBlockNumber])).Nodup ∧
      (Observation.reads (RocksPermanentStorage.run (fun _ => []) (fun state _ => (.ok (), state))
        ⟨.empty, 0⟩ [.incrementBlockNumber, .readMinedBlockNumber, .incrementBlockNumber])).Pairwise
          (· ≤ ·)) ∧
    (Observation.reads (PostgresPermanentStorage.run .empty
        [.incrementBlockNumber none, .readMinedBlockNumber none])).Pairwise (· ≤ ·) ∧
      (Observation.increments (PostgresPermanentStorage.run .empty
        [.incrementBlockNumber none, .readMinedBlockNumber none])).Pairwise (· ≤ ·) :=
  counter_runs _ _ _ _ (by decide) _ _ (by decide)

/-! ### `reset_at` on both backends -/

/-- Neither `reset_at` is all-or-nothing: on RocksDB a failing state reset still leaves the
counter lowered, and on Postgres a failing second statement leaves the first one's deletions
committed. -/
theorem resetAt_not_atomic :
    RocksPermanentStorage.resetAt (fun state _ => (.error "reset failed", state)) ⟨.empty, 5⟩ 3 =
      (.error "reset failed", ⟨.empty, 3⟩) ∧
    PostgresPermanentStorage.resetAt (fun i => if i = 1 then some "statement failed" else none) 0
        { PgDb.empty with blocks := [BlockHeader.new (fun _ => 0) 0 0, BlockHeader.new (fun _ => 0) 1 0] } =
      (.error "statement failed", { PgDb.empty with blocks := [BlockHeader.new (fun _ => 0) 0 0] }) :=
  ⟨rfl, rfl⟩

/-- What does hold of `reset_at`. On RocksDB it fails with the storage as it was exactly when
the state reset fails without writing and the counter is not above the block number. On
Postgres it returns `Ok` after all four statements, or the error of the first failing one with
the statements before it applied. -/
theorem resetAt_prefixes
    (stateResetAt : RocksStorageState → BlockNumber → Except String Unit × RocksStorageState)
    (self : RocksPermanentStorage) (blockNumber : BlockNumber) (e : String)
    (fault : Nat → Option String) (number : BlockNumber) (db : PgDb) :
    (RocksPermanentStorage.resetAt stateResetAt self blockNumber = (.error e, self) ↔
      stateResetAt self.state blockNumber = (.error e, self.state) ∧
        self.blockNumber ≤ blockNumber) ∧
    ((PostgresPermanentStorage.resetAt fault number db =
          (.ok (), (PostgresPermanentStorage.resetStatements number).foldl (fun db f => f db) db) ∧
        ∀ k < 4, fault k = none) ∨
      ∃ k < 4, ∃ e, fault k = some e ∧ (∀ j < k, fault j = none) ∧
        PostgresPermanentStorage.resetAt fault number db =
          (.error e, ((PostgresPermanentStorage.resetStatements number).take k).foldl
            (fun db f => f db) db)) :=
  ⟨RocksPermanentStorage.resetAt_eq_error_self_iff stateResetAt self blockNumber e,
    PostgresPermanentStorage.resetAt_prefix fault number db⟩

/-- After `reset_at(n)` the RocksDB counter is at most `n`, whatever the state reset does; and
once the first Postgres statement (the deletion) commits, no block above `n` remains, so the
Postgres current block number is at most `n`, whichever later statement fails. -/
theorem resetAt_rewinds_counter
    (stateResetAt : RocksStorageState → BlockNumber → Except String Unit × RocksStorageState)
    (self : RocksPermanentStorage) (fault : Nat → Option String) (h0 : fault 0 = none)
    (number : BlockNumber) (db : PgDb) :
    (RocksPermanentStorage.resetAt stateResetAt self number).2.blockNumber ≤ number ∧
      PostgresPermanentStorage.selectCurrentBlockNumber
        (PostgresPermanentStorage.resetAt fault number db).2 ≤ number.toNat :=
  ⟨RocksPermanentStorage.resetAt_blockNumber_le stateResetAt self number,
    PostgresPermanentStorage.selectCurrentBlockNumber_resetAt h0 number db⟩

/-- Rewinding both backends from block `5` to block `3`, with a failing third statement. -/
theorem resetAt_rewinds_counter_five :
    (RocksPermanentStorage.resetAt (fun state _ => (.error "reset failed", state))
        ⟨.empty, 5⟩ 3).2.blockNumber ≤ 3 ∧
      PostgresPermanentStorage.selectCurrentBlockNumber
        (PostgresPermanentStorage.resetAt (fun i => if i = 2 then some "statement failed" else none) 3
          { PgDb.empty with blocks := [BlockHeader.new (fun _ => 0) 5 0] }).2 ≤ (3 : BlockNumber).toNat :=
  resetAt_rewinds_counter _ ⟨.empty, 5⟩ _ rfl 3 _

end PermanentStorage

end Stratus
