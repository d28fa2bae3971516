import Stratus.Storage.Rocks.State

/-!
# `save_block` on RocksDB, step by step

`RocksPermanentStorage::save_block` (`rocks_permanent.rs:153–222`) checks for conflicts, then
spawns one blocking task per write batch, each landing on its own; `join_all` drops their
results. `saveBlock` is the synchronous part, `SaveCall` a call as the scheduler sees it (the
check, then one step per landing batch), and `interleave` two calls under any schedule over one
shared store.
-/

namespace Stratus

/-- `StorageError`: a conflict found by the check, or any other error, by its message. -/
inductive StorageError where
  | conflict (conflicts : ExecutionConflicts)
  | generic (msg : String)

/-- `block_without_changes`, lines 182–185: the block with every transaction's changes
cleared. -/
def Block.withoutChanges (block : Block) : Block :=
  { block with
    transactions := block.transactions.map fun tx =>
      { tx with execution := { tx.execution with changes := [] } } }

namespace RocksPermanentStorage

/-- Modelled from the spec: the account a change leaves in the latest accounts, its modified
nonce and balance where set and the stored ones (zero for a new account) elsewhere. -/
def accountAfter (state : RocksStorageState) (change : ExecutionAccountChanges) : AccountInfo :=
  let stored := (state.accounts change.address).getD default
  ⟨change.balance.modified.getD stored.balance, change.nonce.modified.getD stored.nonce⟩

/-- Modelled from the spec: the latest accounts the changes write, one per change. -/
def latestAccounts (state : RocksStorageState) (changes : List ExecutionAccountChanges) :
    List (Address × AccountInfo) :=
  changes.map fun change => (change.address, accountAfter state change)

/-- Modelled from the spec: the latest slot values the changes write, one per slot with a
set modified value. -/
def latestSlots (changes : List ExecutionAccountChanges) :
    List ((Address × SlotIndex) × SlotValue) :=
  changes.flatMap fun change =>
    change.slots.filterMap fun slot =>
      slot.2.modified.map fun s => ((change.address, slot.1), s.value)

/-- Modelled from the spec: the four batches `update_state_with_execution_changes`
(`rocks_state.rs`, not in the source) spawns when it succeeds, the latest accounts and slots
and their histories at the block's number. -/
def updateStateWithExecutionChanges (state : RocksStorageState)
    (changes : List ExecutionAccountChanges) (blockNumber : BlockNumber) : List Batch :=
  [.accounts (latestAccounts state changes), .accountSlots (latestSlots changes),
    .accountsHistory ((latestAccounts state changes).map fun kv => ((kv.1, blockNumber), kv.2)),
    .accountSlotsHistory ((latestSlots changes).map fun kv => ((kv.1, blockNumber), kv.2))]

/-- The four batches spawned before `update_state_with_execution_changes`, lines 162–188. -/
def blockBatches (block : Block) : List Batch :=
  [.transactions (block.transactions.map fun tx => (tx.input.hash, tx.blockNumber)),
    .logs (block.transactions.flatMap fun tx =>
      tx.logs.map fun log => ((tx.input.hash, log.logIndex), tx.blockNumber)),
    .blocksByNumber [(block.number, block.withoutChanges)],
    .blocksByHash [(block.hash, block.number)]]

section SaveBlock

variable (compactAccountChanges : Block → List ExecutionAccountChanges)

/-- `RocksPermanentStorage::save_block`, lines 153–222, up to its return: the error it
returns early, if any, and the batches it has spawned by then. A conflict returns before any
spawn; a failing `update_state_with_execution_changes` (its error `updateFailure`) returns
through `?` after the four block batches; otherwise the call awaits every batch in
`join_all` and returns `Ok(())`. `compact_account_changes` is not in the source and is a
parameter; the TPS task writes no namespace and is left out. -/
def saveBlock (updateFailure : Option String) (state : RocksStorageState) (block : Block) :
    Option StorageError × List Batch :=
  let accountChanges := compactAccountChanges block
  match checkConflicts state accountChanges with
  | some conflicts => (some (.conflict conflicts), [])
  | none =>
    match updateFailure with
    | some _ => (some (.generic "failed to update state with execution changes"),
        blockBatches block)
    | none => (none, blockBatches block ++
        updateStateWithExecutionChanges state accountChanges block.number)

/-- One `save_block` call as the scheduler sees it: before its check, or with the batches it
still has to land and the result it returns once they have. -/
inductive SaveCall where
  | pending (block : Block) (updateFailure : Option String)
  | running (batches : List Batch) (result : Except StorageError Unit)

namespace SaveCall

/-- The result a call returns: its early error, or `Ok(())` after `join_all`. -/
def resultOf : Option StorageError → Except StorageError Unit
  | some e => .error e
  | none => .ok ()

/-- One step of a call on the shared store: its check together with the spawns (which read
but do not write), or one of its batches landing. -/
def step (s : RocksStorageState) : SaveCall → RocksStorageState × SaveCall
  | pending block f =>
    let spawn := saveBlock compactAccountChanges f s block
    (s, running spawn.2 (resultOf spawn.1))
  | running [] r => (s, running [] r)
  | running (b :: bs) r => (s.apply b, running bs r)

/-- The result of a call whose batches have all landed. -/
def result? : SaveCall → Option (Except StorageError Unit)
  | running [] r => some r
  | _ => none

end SaveCall

/-- Two concurrent calls under a schedule: `true` moves the first, `false` the second. -/
def interleave : List Bool → RocksStorageState × SaveCall × SaveCall →
    RocksStorageState × SaveCall × SaveCall
  | [], st => st
  | true :: sched, (s, c1, c2) =>
    interleave sched ((c1.step compactAccountChanges s).1, (c1.step compactAccountChanges s).2, c2)
  | false :: sched, (s, c1, c2) =>
    interleave sched ((c2.step compactAccountChanges s).1, c1, (c2.step compactAccountChanges s).2)

end SaveBlock

/-! ### What one call does -/

variable {cac : Block → List ExecutionAccountChanges} {s : RocksStorageState} {block : Block}

/-- A conflict returns `Err(Conflict)` before any batch is spawned. -/
theorem saveBlock_of_conflict {conflicts : ExecutionConflicts} (f : Option String)
    (h : checkConflicts s (cac block) = some conflicts) :
    saveBlock cac f s block = (some (.conflict conflicts), []) := by
  simp only [saveBlock, h]

theorem saveBlock_of_ok (h : checkConflicts s (cac block) = none) :
    saveBlock cac none s block =
      (none, blockBatches block ++ updateStateWithExecutionChanges s (cac block) block.number) := by
  simp only [saveBlock, h]

/-- On an empty store the check finds nothing. -/
theorem checkConflicts_empty (changes : List ExecutionAccountChanges) :
    checkConflicts RocksStorageState.empty changes = none :=
  (checkConflicts_eq_none_iff changes).mpr fun _ _ _ h => nomatch h

/-- When `update_state_with_execution_changes` fails, `save_block` returns `Err` after the
block batches were spawned, and they land anyway: from an empty store, block `1` is stored by
number although the call failed. -/
theorem saveBlock_updateFailure_writes (cac : Block → List ExecutionAccountChanges)
    (msg : String) :
    let block : Block := ⟨BlockHeader.new (fun _ => 0) 1 0, []⟩
    let spawn := saveBlock cac (some msg) RocksStorageState.empty block
    (match spawn.1 with
      | some (.generic e) => e = "failed to update state with execution changes"
      | _ => False) ∧
    RocksStorageState.empty.blocksByNumber 1 = none ∧
    (RocksStorageState.empty.applyAll spawn.2).blocksByNumber 1 = some block.withoutChanges := by
  intro block spawn
  have hspawn : spawn = (some (.generic "failed to update state with execution changes"),
      blockBatches block) := by
    simp only [spawn, saveBlock, checkConflicts_empty]
  rw [hspawn]
  exact ⟨rfl, rfl, rfl⟩

/-! ### The latest state after a saved block -/

/-- After every batch of a successful call, the latest accounts and slots hold what
`update_state_with_execution_changes` wrote. -/
theorem applyAll_saveBlock (h : checkConflicts s (cac block) = none) :
    (s.applyAll (saveBlock cac none s block).2).accounts =
        s.accounts.insertBatch (latestAccounts s (cac block)) ∧
      (s.applyAll (saveBlock cac none s block).2).accountSlots =
        s.accountSlots.insertBatch (latestSlots (cac block)) := by
  rw [saveBlock_of_ok h]
  simp only [RocksStorageState.applyAll, blockBatches, updateStateWithExecutionChanges,
    List.cons_append, List.nil_append, List.foldl_cons, List.foldl_nil, RocksStorageState.apply,
    and_self]

theorem mem_latestSlots {changes : List ExecutionAccountChanges} {a : Address} {i : SlotIndex}
    {v : SlotValue} :
    ((a, i), v) ∈ latestSlots changes ↔ ∃ c ∈ changes, c.address = a ∧
      ∃ p ∈ c.slots, p.1 = i ∧ p.2.modified.map Slot.value = some v := by
  simp only [latestSlots, List.mem_flatMap, List.mem_filterMap, Option.map_eq_some',
    Prod.mk.injEq]
  constructor
  · rintro ⟨c, hc, p, hp, sl, hsl, ⟨rfl, rfl⟩, rfl⟩
    exact ⟨c, hc, rfl, p, hp, rfl, sl, hsl, rfl⟩
  · rintro ⟨c, hc, rfl, p, hp, rfl, sl, hsl, rfl⟩
    exact ⟨c, hc, p, hp, sl, hsl, ⟨rfl, rfl⟩, rfl⟩

private theorem filterMap_sublist_map {α β : Type} {g : α → Option β} {h : α → β}
    (hg : ∀ a, g a = none ∨ g a = some (h a)) : ∀ l : List α, (l.filterMap g).Sublist (l.map h)
  | [] => .slnil
  | a :: l => by
    rcases hg a with e | e
    · rw [List.filterMap_cons_none e, List.map_cons]
      exact (filterMap_sublist_map hg l).cons _
    · rw [List.filterMap_cons_some e, List.map_cons]
      exact (filterMap_sublist_map hg l).cons₂ _

/-- Compact changes with one entry per address and one slot change per index write each
latest slot once. -/
theorem nodup_latestSlots {changes : List ExecutionAccountChanges}
    (hnd : (changes.map ExecutionAccountChanges.address).Nodup)
    (hslots : ∀ c ∈ changes, (c.slots.map Prod.fst).Nodup) :
    ((latestSlots changes).map Prod.fst).Nodup := by
  have hkeys : ∀ c : ExecutionAccountChanges,
      ((c.slots.filterMap fun slot => slot.2.modified.map fun s => ((c.address, slot.1), s.value)).map
        Prod.fst).Sublist ((c.slots.map Prod.fst).map (Prod.mk c.address)) := by
    intro c
    rw [List.map_filterMap, List.map_map]
    exact filterMap_sublist_map (fun p => by cases p.2.modified <;> simp) _
  simp only [latestSlots, List.map_flatMap]
  refine List.nodup_flatMap.mpr ⟨fun c hc => ?_, ?_⟩
  · exact (hkeys c).nodup ((hslots c hc).map fun _ _ e => (Prod.mk.inj e).2)
  · refine (List.pairwise_map.mp hnd).imp_of_mem fun {c d} _ _ hcd => ?_
    intro k hkc hkd
    obtain ⟨x, -, rfl⟩ := List.mem_map.mp ((hkeys c).subset hkc)
    obtain ⟨y, -, hy⟩ := List.mem_map.mp ((hkeys d).subset hkd)
    exact hcd (Prod.mk.inj hy).1.symm

/-! ### Modifications and the sequential check -/

/-- A key of the latest state and the original value a change carries for it. -/
inductive Modification where
  | nonce (address : Address) (original : Option Nonce)
  | balance (address : Address) (original : Option Wei)
  | slot (address : Address) (index : SlotIndex) (original : Option SlotValue)
  deriving DecidableEq, Repr

/-- Whether the original value is set. -/
def Modification.isSet : Modification → Bool
  | .nonce _ o => o.isSome
  | .balance _ o => o.isSome
  | .slot _ _ o => o.isSome

/-- The changes modify the key of `m` from its original value: a change of that account
carries the original and a set modified value different from it (for a slot, as values). -/
def Modifies (changes : List ExecutionAccountChanges) : Modification → Prop
  | .nonce a o => ∃ c ∈ changes, c.address = a ∧ c.nonce.original = o ∧ c.nonce.isModified
  | .balance a o => ∃ c ∈ changes, c.address = a ∧ c.balance.original = o ∧
      c.balance.isModified
  | .slot a i o => ∃ c ∈ changes, c.address = a ∧ ∃ p ∈ c.slots, p.1 = i ∧
      p.2.original.map Slot.value = o ∧ (p.2.modified.map Slot.value).isSome ∧
      p.2.modified.map Slot.value ≠ o

instance (changes : List ExecutionAccountChanges) : (m : Modification) →
    Decidable (Modifies changes m)
  | .nonce _ _ => inferInstanceAs (Decidable (∃ c ∈ changes, _))
  | .balance _ _ => inferInstanceAs (Decidable (∃ c ∈ changes, _))
  | .slot _ _ _ => inferInstanceAs (Decidable (∃ c ∈ changes, _))

/-- The store holds the key of `m` (for a slot, its account too), with a value that the check
compares against `m`'s original and finds different. -/
def StoredDiffers (s : RocksStorageState) : Modification → Prop
  | .nonce a o => ∃ info, s.accounts a = some info ∧ o ≠ some info.nonce
  | .balance a o => ∃ info, s.accounts a = some info ∧ o ≠ some info.balance
  | .slot a i o => (∃ info, s.accounts a = some info) ∧
      ∃ v, s.accountSlots (a, i) = some v ∧ o ≠ some v

/-- A change of a stored key whose set original differs from the stored value is a
conflict. -/
theorem not_changeAgrees {changes : List ExecutionAccountChanges} {m : Modification}
    (hset : m.isSet = true) (h2 : Modifies changes m) (hdiff : StoredDiffers s m) :
    ¬ ∀ c ∈ changes, ChangeAgrees s c := by
  intro hall
  cases m with
  | nonce a o =>
    obtain ⟨c, hc, rfl, ho, -⟩ := h2
    obtain ⟨info, hinfo, hne⟩ := hdiff
    obtain ⟨o', rfl⟩ := Option.isSome_iff_exists.mp hset
    exact hne (congrArg some ((hall c hc info hinfo).1 o' ho))
  | balance a o =>
    obtain ⟨c, hc, rfl, ho, -⟩ := h2
    obtain ⟨info, hinfo, hne⟩ := hdiff
    obtain ⟨o', rfl⟩ := Option.isSome_iff_exists.mp hset
    exact hne (congrArg some ((hall c hc info hinfo).2.1 o' ho))
  | slot a i o =>
    obtain ⟨c, hc, rfl, p, hp, rfl, ho, -⟩ := h2
    obtain ⟨⟨info, hinfo⟩, v, hv, hne⟩ := hdiff
    obtain ⟨o', rfl⟩ := Option.isSome_iff_exists.mp hset
    obtain ⟨sl, hsl, rfl⟩ := Option.map_eq_some'.mp ho
    exact hne (congrArg some ((hall c hc info hinfo).2.2 p hp v hv sl hsl))

/-- After the latest-state batches of compact changes, every key the changes modify is
stored with a value different from its original. -/
theorem storedDiffers_latest (s : RocksStorageState) {changes : List ExecutionAccountChanges}
    {m : Modification} (hnd : (changes.map ExecutionAccountChanges.address).Nodup)
    (hslots : ∀ c ∈ changes, (c.slots.map Prod.fst).Nodup) (h1 : Modifies changes m) :
    StoredDiffers { s with
      accounts := s.accounts.insertBatch (latestAccounts s changes)
      accountSlots := s.accountSlots.insertBatch (latestSlots changes) } m := by
  have hacc : (latestAccounts s changes).map Prod.fst =
      changes.map ExecutionAccountChanges.address := by
    simp [latestAccounts]
  have stored : ∀ c ∈ changes, s.accounts.insertBatch (latestAccounts s changes) c.address =
      some (accountAfter s c) := fun c hc =>
    Column.insertBatch_of_mem _ (hacc ▸ hnd) (List.mem_map.mpr ⟨c, hc, rfl⟩)
  cases m with
  | nonce a o =>
    obtain ⟨c, hc, rfl, rfl, hm⟩ := h1
    obtain ⟨v, hv, hne⟩ := (ExecutionValueChange.isModified_iff _).mp hm
    exact ⟨_, stored c hc, by simpa [accountAfter, hv] using hne⟩
  | balance a o =>
    obtain ⟨c, hc, rfl, rfl, hm⟩ := h1
    obtain ⟨v, hv, hne⟩ := (ExecutionValueChange.isModified_iff _).mp hm
    exact ⟨_, stored c hc, by simpa [accountAfter, hv] using hne⟩
  | slot a i o =>
    obtain ⟨c, hc, rfl, p, hp, rfl, ho, hsome, hne⟩ := h1
    obtain ⟨v, hv⟩ := Option.isSome_iff_exists.mp hsome
    exact ⟨⟨_, stored c hc⟩, v, Column.insertBatch_of_mem _ (nodup_latestSlots hnd hslots)
      (mem_latestSlots.mpr ⟨c, hc, rfl, p, hp, rfl, hv⟩), fun h => hne (hv.trans h.symm)⟩

/-! ### Runs of two calls -/

namespace SaveCall

@[simp] theorem step_returned (r : Except StorageError Unit) :
    (running [] r).step cac s = (s, running [] r) := rfl

/-- A call that has returned lets the other run alone. -/
theorem interleave_returned (r1 r2 : Except StorageError Unit) :
    ∀ sched, interleave cac sched (s, running [] r1, running [] r2) = (s, running [] r1, running [] r2)
  | [] => rfl
  | true :: sched => interleave_returned r1 r2 sched
  | false :: sched => interleave_returned r1 r2 sched

/-- The first call lands its batches one per step. -/
theorem interleave_running (c2 : SaveCall) (r : Except StorageError Unit) :
    ∀ (bs : List Batch) (s : RocksStorageState),
      interleave cac (List.replicate bs.length true) (s, running bs r, c2) =
        (s.applyAll bs, running [] r, c2)
  | [], _ => rfl
  | b :: bs, s => interleave_running c2 r bs (s.apply b)

end SaveCall

theorem interleave_append (sched sched' : List Bool) (st : RocksStorageState × SaveCall × SaveCall) :
    interleave cac (sched ++ sched') st = interleave cac sched' (interleave cac sched st) := by
  induction sched generalizing st with
  | nil => rfl
  | cons b sched ih => cases b <;> exact ih _

theorem SaveCall.step_pending {f : Option String} {e : Option StorageError} {spawned : List Batch}
    (h : saveBlock cac f s block = (e, spawned)) :
    (SaveCall.pending block f).step cac s = (s, .running spawned (SaveCall.resultOf e)) := by
  simp only [SaveCall.step, h]

theorem interleave_true {c1 c1' : SaveCall} {s' : RocksStorageState} (c2 : SaveCall)
    (h : c1.step cac s = (s', c1')) (sched : List Bool) :
    interleave cac (true :: sched) (s, c1, c2) = interleave cac sched (s', c1', c2) := by
  rw [interleave, h]

theorem interleave_false {c2 c2' : SaveCall} {s' : RocksStorageState} (c1 : SaveCall)
    (h : c2.step cac s = (s', c2')) (sched : List Bool) :
    interleave cac (false :: sched) (s, c1, c2) = interleave cac sched (s', c1, c2') := by
  rw [interleave, h]

/-- The first call run to its end before the second moves: its check on the store it meets,
then each of its batches. -/
theorem interleave_first {f : Option String} {e : Option StorageError} {spawned : List Batch}
    (c2 : SaveCall) (h : saveBlock cac f s block = (e, spawned)) (rest : List Bool) :
    interleave cac (List.replicate (spawned.length + 1) true ++ rest) (s, .pending block f, c2) =
      interleave cac rest (s.applyAll spawned, .running [] (SaveCall.resultOf e), c2) := by
  rw [List.replicate_succ, List.cons_append, interleave_true c2 (SaveCall.step_pending h),
    interleave_append, SaveCall.interleave_running]

/-- Run one after the other, optimistic conflict detection is sound: when the check of
`save_block(B2)` comes after every batch of a successful `save_block(B1)`, and both blocks'
compact changes modify one key from the same set original value, `save_block(B2)` returns
`Err(Conflict)` while `save_block(B1)` returns `Ok`. -/
theorem saveBlock_sequential_conflict (cac : Block → List ExecutionAccountChanges)
    (s : RocksStorageState) (B1 B2 : Block) (m : Modification)
    (hnd : ((cac B1).map ExecutionAccountChanges.address).Nodup)
    (hslots : ∀ c ∈ cac B1, (c.slots.map Prod.fst).Nodup) (hset : m.isSet = true)
    (h1 : Modifies (cac B1) m) (h2 : Modifies (cac B2) m)
    (hok : checkConflicts s (cac B1) = none) (f2 : Option String) (rest : List Bool) :
    let run := interleave cac
      (List.replicate ((saveBlock cac none s B1).2.length + 1) true ++ false :: rest)
      (s, .pending B1 none, .pending B2 f2)
    run.2.1.result? = some (.ok ()) ∧
      ∃ conflicts, run.2.2.result? = some (.error (.conflict conflicts)) := by
  dsimp only
  obtain ⟨hacc, hslot⟩ := applyAll_saveBlock hok
  have hconf : checkConflicts (s.applyAll (saveBlock cac none s B1).2) (cac B2) ≠ none := by
    rw [Ne, checkConflicts_eq_none_iff]
    refine not_changeAgrees hset h2 ?_
    have hdis := storedDiffers_latest s hnd hslots h1
    cases m <;> simpa only [StoredDiffers, hacc, hslot] using hdis
  obtain ⟨conflicts, hc⟩ := Option.ne_none_iff_exists'.mp hconf
  have h1 : saveBlock cac none s B1 = (none, (saveBlock cac none s B1).2) := by
    rw [saveBlock_of_ok hok]
  -- B1 checks and lands every batch; then B2's check meets the stored conflict and returns
  rw [interleave_first _ h1, interleave_false _ (SaveCall.step_pending (saveBlock_of_conflict f2 hc)),
    SaveCall.interleave_returned]
  exact ⟨rfl, conflicts, rfl⟩

/-- Two blocks of height `1` whose one transaction each moves the nonce of account `0` from
`0` to `1`, saved one after the other over a store holding that account: the second gets the
conflict. -/
theorem saveBlock_sequential_conflict_nonce :
    let cac : Block → List ExecutionAccountChanges := fun b =>
      b.transactions.flatMap fun tx => tx.execution.changes.map Prod.snd
    let change : ExecutionAccountChanges := ⟨0, ⟨some 0, some 1⟩, ⟨none, none⟩, []⟩
    let tx : TransactionMined := ⟨⟨1⟩, ⟨[(0, change)]⟩, [], 0, 1, 0⟩
    let B1 : Block := ⟨BlockHeader.new (fun _ => 0) 1 0, [tx]⟩
    let B2 : Block := ⟨BlockHeader.new (fun _ => 0) 1 1, [{ tx with input := ⟨2⟩ }]⟩
    let s := RocksStorageState.empty.saveAccounts [⟨0, 0, 0⟩]
    let m := Modification.nonce 0 (some 0)
    ((cac B1).map ExecutionAccountChanges.address).Nodup ∧
      (∀ c ∈ cac B1, (c.slots.map Prod.fst).Nodup) ∧ m.isSet = true ∧
      Modifies (cac B1) m ∧ Modifies (cac B2) m ∧ checkConflicts s (cac B1) = none ∧
      let run := interleave cac
        (List.replicate ((saveBlock cac none s B1).2.length + 1) true ++ [false])
        (s, .pending B1 none, .pending B2 none)
      run.2.1.result? = some (.ok ()) ∧
        ∃ conflicts, run.2.2.result? = some (.error (.conflict conflicts)) := by
  intro cac change tx B1 B2 s m
  have hok : checkConflicts s (cac B1) = none := rfl
  exact ⟨by decide, by decide, rfl, by decide, by decide, hok,
    saveBlock_sequential_conflict cac s B1 B2 m (by decide) (by decide) rfl (by decide)
      (by decide) hok none []⟩

/-- Optimistic conflict detection is not sound over interleavings: with the same two blocks
and store, when both checks run before either call's batches land, both calls return `Ok`. -/
theorem saveBlock_both_ok :
    let cac : Block → List ExecutionAccountChanges := fun b =>
      b.transactions.flatMap fun tx => tx.execution.changes.map Prod.snd
    let change : ExecutionAccountChanges := ⟨0, ⟨some 0, some 1⟩, ⟨none, none⟩, []⟩
    let tx : TransactionMined := ⟨⟨1⟩, ⟨[(0, change)]⟩, [], 0, 1, 0⟩
    let B1 : Block := ⟨BlockHeader.new (fun _ => 0) 1 0, [tx]⟩
    let B2 : Block := ⟨BlockHeader.new (fun _ => 0) 1 1, [{ tx with input := ⟨2⟩ }]⟩
    let m := Modification.nonce 0 (some 0)
    let run := interleave cac (true :: false :: List.replicate 8 true ++ List.replicate 8 false)
      (RocksStorageState.empty.saveAccounts [⟨0, 0, 0⟩], .pending B1 none, .pending B2 none)
    Modifies (cac B1) m ∧ Modifies (cac B2) m ∧
      run.2.1.result? = some (.ok ()) ∧ run.2.2.result? = some (.ok ()) := by
  intro cac change tx B1 B2 m run
  exact ⟨by decide, by decide, rfl, rfl⟩

end RocksPermanentStorage

end Stratus
