import Stratus.Primitives.Transaction

/-!
# The TPS counter of `save_block`

Every `save_block` (`rocks_permanent.rs:153–222`) spawns a task (lines 198–218) that loads the
process-wide `TRANSACTIONS_COUNT` (line 37), adds the block's transaction count with a wrapping
`fetch_add`, prints the rate at multiples of `TRANSACTION_LOOP_THRESHOLD / 8` and stores zero at
multiples of `TRANSACTION_LOOP_THRESHOLD`. Its `Relaxed` accesses to one location are coherent,
so the tasks' steps interleave over one counter. The elapsed time and start time are left out.
-/

namespace Stratus

namespace RocksPermanentStorage

/-- `TRANSACTION_LOOP_THRESHOLD`, line 35. -/
def TRANSACTION_LOOP_THRESHOLD : UInt64 := 210000

/-- `multiple_to_print`, line 202. -/
def multipleToPrint : UInt64 := TRANSACTION_LOOP_THRESHOLD / 8

/-- Where a TPS task stands: each step makes one access to `TRANSACTIONS_COUNT`, the load of
line 199, the `fetch_add` of line 200, the print check of lines 205–210 (whose load of line 206
runs only when it prints) and the reset check of lines 213–217. -/
inductive TpsPc where
  | start
  | loaded (previousCount : UInt64)
  | added (previousCount currentCount : UInt64)
  | checked (previousCount currentCount : UInt64)
  | done
  deriving DecidableEq, Repr

/-- One spawned TPS task: the transaction count and number of the block it captured, and where
it stands. -/
structure TpsTask where
  transactions : UInt64
  number : BlockNumber
  pc : TpsPc
  deriving DecidableEq, Repr

/-- What a task does besides the counter: the line it prints, with the count it loaded for the
rate, and the reset of the start time. -/
inductive TpsEvent where
  | print (totalTransactions : UInt64) (number : BlockNumber)
  | reset
  deriving DecidableEq, Repr

namespace TpsTask

/-- The task `save_block(block)` spawns, before its first step. -/
def ofBlock (block : Block) : TpsTask :=
  ⟨block.transactions.length.toUInt64, block.number, .start⟩

/-- One step of the task over the counter: where it stands next, the counter after the step,
and what it prints or resets. -/
def step (task : TpsTask) (count : UInt64) : TpsPc × UInt64 × Option TpsEvent :=
  match task.pc with
  | .start => (.loaded count, count, none)
  | .loaded previousCount => (.added previousCount count, count + task.transactions, none)
  | .added previousCount currentCount =>
    (.checked previousCount currentCount, count,
      if previousCount % multipleToPrint > currentCount % multipleToPrint then
        some (.print count task.number)
      else none)
  | .checked previousCount currentCount =>
    if previousCount % TRANSACTION_LOOP_THRESHOLD > currentCount % TRANSACTION_LOOP_THRESHOLD then
      (.done, 0, some .reset)
    else (.done, count, none)
  | .done => (.done, count, none)

/-- A task whose `fetch_add` returned what its load had read, or that has finished. -/
def Quiet : TpsPc → Prop
  | .added previousCount currentCount | .checked previousCount currentCount =>
    previousCount = currentCount
  | .done => True
  | .start | .loaded _ => False

/-- A quiet task stays quiet, leaves the counter as it is and neither prints nor resets. -/
theorem step_quiet {task : TpsTask} (count : UInt64) (h : Quiet task.pc) :
    Quiet (task.step count).1 ∧ (task.step count).2.1 = count ∧ (task.step count).2.2 = none := by
  obtain ⟨transactions, number, pc⟩ := task
  cases pc with
  | added previousCount currentCount =>
    subst h
    exact ⟨rfl, rfl, if_neg (UInt64.lt_irrefl _)⟩
  | checked previousCount currentCount =>
    subst h
    dsimp only [step]
    rw [if_neg (UInt64.lt_irrefl _)]
    exact ⟨trivial, rfl, rfl⟩
  | done => exact ⟨trivial, rfl, rfl⟩
  | start | loaded _ => exact h.elim

end TpsTask

/-- The TPS tasks of several `save_block` calls over the one counter, with what each printed or
reset, tagged with its task. -/
structure TpsSystem where
  count : UInt64
  tasks : List TpsTask
  events : List (Nat × TpsEvent)
  deriving DecidableEq, Repr

namespace TpsSystem

open TpsTask

/-- The tasks of `save_block` calls on `blocks`, none started, over a counter at `count`. -/
def init (count : UInt64) (blocks : List Block) : TpsSystem :=
  ⟨count, blocks.map ofBlock, []⟩

/-- Task `i` takes one step; an index with no task takes none. -/
def step (sys : TpsSystem) (i : Nat) : TpsSystem :=
  match sys.tasks[i]? with
  | none => sys
  | some task =>
    let next := task.step sys.count
    ⟨next.2.1, sys.tasks.set i { task with pc := next.1 },
      sys.events ++ (next.2.2.map ((i, ·))).toList⟩

/-- The tasks step in the order of the schedule. -/
def run (sys : TpsSystem) (sched : List Nat) : TpsSystem := sched.foldl step sys

/-- Each task takes its four steps before the next one starts: the tasks of `save_block` calls
made one after another, each awaiting its own task in `join_all`. -/
def sequential (n : Nat) : List Nat := (List.range n).flatMap fun i => [i, i, i, i]

@[simp] theorem run_nil (sys : TpsSystem) : sys.run [] = sys := rfl

@[simp] theorem run_cons (sys : TpsSystem) (i : Nat) (sched : List Nat) :
    sys.run (i :: sched) = (sys.step i).run sched := rfl

theorem run_append (sys : TpsSystem) (s t : List Nat) : sys.run (s ++ t) = (sys.run s).run t :=
  List.foldl_append _ _ _ _

/-! ### One step -/

variable {sys : TpsSystem} {i : Nat} {task : TpsTask}

theorem step_of_none (h : sys.tasks[i]? = none) : sys.step i = sys := by
  simp only [step, h]

theorem step_of_some (h : sys.tasks[i]? = some task) :
    sys.step i = ⟨(task.step sys.count).2.1, sys.tasks.set i { task with pc := (task.step sys.count).1 },
      sys.events ++ ((task.step sys.count).2.2.map ((i, ·))).toList⟩ := by
  simp only [step, h]

/-- A step of one task leaves every other task where it stands. -/
theorem step_tasks_ne {j : Nat} (h : j ≠ i) : (sys.step i).tasks[j]? = sys.tasks[j]? := by
  cases hi : sys.tasks[i]? with
  | none => rw [step_of_none hi]
  | some task => rw [step_of_some hi, List.getElem?_set_ne (Ne.symm h)]

/-- A step of task `i` adds at most one event, tagged `i`. -/
theorem mem_step_events {e : Nat × TpsEvent} (he : e ∈ (sys.step i).events) :
    e ∈ sys.events ∨ e.1 = i := by
  cases hi : sys.tasks[i]? with
  | none => exact .inl (step_of_none hi ▸ he)
  | some task =>
    rw [step_of_some hi] at he
    rcases List.mem_append.mp he with he | he
    · exact .inl he
    · cases hev : (task.step sys.count).2.2 with
      | none => rw [hev] at he; nomatch he
      | some ev =>
        rw [hev] at he
        exact .inr (congrArg Prod.fst (List.mem_singleton.mp he))

/-- A quiet task stays quiet through its own step, which changes neither the counter nor the
events. -/
theorem step_self_quiet (h : sys.tasks[i]? = some task) (hq : Quiet task.pc) :
    ∃ task', (sys.step i).tasks[i]? = some task' ∧ Quiet task'.pc ∧
      (sys.step i).count = sys.count ∧ (sys.step i).events = sys.events := by
  obtain ⟨hq', hc, he⟩ := step_quiet sys.count hq
  refine ⟨{ task with pc := (task.step sys.count).1 }, ?_, hq', ?_, ?_⟩ <;> rw [step_of_some h]
  · exact List.getElem?_set_self (List.getElem?_eq_some_iff.mp h).1
  · exact hc
  · rw [he, Option.map_none', Option.toList_none, List.append_nil]

/-- The load and the `fetch_add` of a task, one right after the other: `fetch_add` returns what
the load read, so the task is quiet, and the counter grows by the task's transactions. -/
theorem run_pair_start (h : sys.tasks[i]? = some task) (hs : task.pc = .start) :
    ∃ task', (sys.run [i, i]).tasks[i]? = some task' ∧ Quiet task'.pc ∧
      (sys.run [i, i]).count = sys.count + task.transactions ∧
      (sys.run [i, i]).events = sys.events := by
  have hlt := (List.getElem?_eq_some_iff.mp h).1
  have h1 : sys.step i =
      ⟨sys.count, sys.tasks.set i { task with pc := .loaded sys.count }, sys.events⟩ := by
    rw [step_of_some h]
    simp only [TpsTask.step, hs, Option.map_none', Option.toList_none, List.append_nil]
  have h2 : (sys.step i).step i = ⟨sys.count + task.transactions,
      (sys.tasks.set i { task with pc := .loaded sys.count }).set i
        { task with pc := .added sys.count sys.count }, sys.events⟩ := by
    rw [h1, step_of_some (List.getElem?_set_self hlt)]
    simp only [TpsTask.step, Option.map_none', Option.toList_none, List.append_nil]
  rw [run_cons, run_cons, run_nil, h2]
  exact ⟨_, List.getElem?_set_self (by rw [List.length_set]; exact hlt), rfl, rfl, rfl⟩

/-- Run alone, a task adds its transactions to the counter and neither prints nor resets. -/
theorem run_alone (h : sys.tasks[i]? = some task) (hs : task.pc = .start) :
    (sys.run [i, i, i, i]).count = sys.count + task.transactions ∧
      (sys.run [i, i, i, i]).events = sys.events := by
  obtain ⟨t2, h2, hq2, hc2, he2⟩ := run_pair_start h hs
  rw [show [i, i, i, i] = [i, i] ++ [i, i] from rfl, run_append, run_cons, run_cons, run_nil]
  obtain ⟨t3, h3, hq3, hc3, he3⟩ := step_self_quiet h2 hq2
  obtain ⟨-, -, -, hc4, he4⟩ := step_self_quiet h3 hq3
  exact ⟨hc4.trans (hc3.trans hc2), he4.trans (he3.trans he2)⟩

/-! ### Runs -/

/-- A run that never schedules task `i` leaves it where it stands and adds no event of its. -/
theorem run_not_mem : ∀ {sys : TpsSystem} {sched : List Nat}, i ∉ sched →
    (sys.run sched).tasks[i]? = sys.tasks[i]? ∧
      ∀ e ∈ (sys.run sched).events, e.1 = i → e ∈ sys.events
  | _, [], _ => ⟨rfl, fun _ he _ => he⟩
  | sys, j :: sched, h => by
    have hj : i ≠ j := fun e => h (e ▸ List.mem_cons_self _ _)
    obtain ⟨ht, he⟩ := @run_not_mem (sys.step j) sched (fun hm => h (List.mem_cons_of_mem _ hm))
    refine ⟨ht.trans (step_tasks_ne hj), fun e hm hi => ?_⟩
    rcases mem_step_events (he e hm hi) with hm | hj'
    · exact hm
    · exact absurd (hi.symm.trans hj') hj

/-- Task `i` is quiet, if it exists. -/
def QuietAt (i : Nat) (sys : TpsSystem) : Prop := ∀ task, sys.tasks[i]? = some task → Quiet task.pc

/-- Once task `i` is quiet, every step of any task keeps it quiet and adds no event of its. -/
theorem step_quietAt (hq : QuietAt i sys) (j : Nat) :
    QuietAt i (sys.step j) ∧ ∀ e ∈ (sys.step j).events, e.1 = i → e ∈ sys.events := by
  by_cases hj : j = i
  · subst hj
    cases ht : sys.tasks[j]? with
    | none =>
      rw [step_of_none ht]
      exact ⟨hq, fun _ he _ => he⟩
    | some task =>
      obtain ⟨task', h', hq', -, he⟩ := step_self_quiet ht (hq task ht)
      exact ⟨fun t ht' => (Option.some.inj (ht'.symm.trans h')) ▸ hq', fun e hm _ => he ▸ hm⟩
  · refine ⟨fun t ht => hq t ((step_tasks_ne (Ne.symm hj)).symm.trans ht), fun e hm hi => ?_⟩
    rcases mem_step_events hm with hm | hj'
    · exact hm
    · exact absurd (hj'.symm.trans hi) hj

theorem run_quietAt : ∀ {sys : TpsSystem} (sched : List Nat), QuietAt i sys →
    QuietAt i (sys.run sched) ∧ ∀ e ∈ (sys.run sched).events, e.1 = i → e ∈ sys.events
  | _, [], hq => ⟨hq, fun _ he _ => he⟩
  | sys, j :: sched, hq => by
    obtain ⟨hq1, he1⟩ := step_quietAt hq j
    obtain ⟨hq2, he2⟩ := @run_quietAt (sys.step j) sched hq1
    exact ⟨hq2, fun e hm hi => he1 e (he2 e hm hi) hi⟩

theorem init_tasks (count : UInt64) (blocks : List Block) (i : Nat) :
    (init count blocks).tasks[i]? = blocks[i]?.map ofBlock :=
  List.getElem?_map _ _ _

/-- Whatever the other tasks do, a task whose load and `fetch_add` come one right after the
other in the schedule never prints the rate and never resets the counter. -/
theorem tpsSystem_silent_of_adjacent (count : UInt64) (blocks : List Block)
    (pre post : List Nat) (i : Nat) (hi : i ∉ pre) :
    ∀ e ∈ ((init count blocks).run (pre ++ i :: i :: post)).events, e.1 ≠ i := by
  obtain ⟨htasks, hevents⟩ := @run_not_mem i (init count blocks) pre hi
  set mid := (init count blocks).run pre
  -- after the load and the `fetch_add`, task `i` is quiet, if it exists
  have hq : QuietAt i (mid.run [i, i]) ∧ (mid.run [i, i]).events = mid.events := by
    cases ht : mid.tasks[i]? with
    | none =>
      have hid : mid.run [i, i] = mid := by
        rw [run_cons, run_cons, run_nil, step_of_none ht, step_of_none ht]
      rw [hid]
      exact ⟨(fun _ h => nomatch ht.symm.trans h), rfl⟩
    | some task =>
      have hs : task.pc = .start := by
        rw [htasks, init_tasks, Option.map_eq_some'] at ht
        obtain ⟨b, -, rfl⟩ := ht
        rfl
      obtain ⟨task', h', hq', -, he⟩ := run_pair_start ht hs
      exact ⟨fun t ht' => (Option.some.inj (ht'.symm.trans h')) ▸ hq', he⟩
  obtain ⟨-, hpost⟩ := run_quietAt post hq.1
  intro e he hi'
  have hmid := hevents e (hq.2 ▸ hpost e (by rwa [run_append] at he) hi') hi'
  nomatch hmid

/-- Two blocks of one transaction each, one short of a multiple of
`TRANSACTION_LOOP_THRESHOLD / 8`: task `0` loads and adds right after task `1` loaded, so task
`1` crosses the multiple, and the other steps interleave. -/
theorem tpsSystem_silent_of_adjacent_interleaved :
    let block : Block := ⟨BlockHeader.new (fun _ => 0) 1 0, [⟨⟨1⟩, ⟨[]⟩, [], 0, 1, 0⟩]⟩
    0 ∉ [1] ∧ ∀ e ∈ ((init 26249 [block, block]).run ([1] ++ 0 :: 0 :: [1, 0, 1, 0, 1])).events,
      e.1 ≠ 0 := by
  intro block
  exact ⟨by decide, tpsSystem_silent_of_adjacent 26249 [block, block] [1] [1, 0, 1, 0, 1] 0
    (by decide)⟩

/-- Another task's `fetch_add` between a task's load and its own makes it print, and reset
the counter, losing what that other task had added. -/
example :
    let block : Block := ⟨BlockHeader.new (fun _ => 0) 1 0, [⟨⟨1⟩, ⟨[]⟩, [], 0, 1, 0⟩]⟩
    ((init 209999 [block, block]).run [0, 1, 1, 0, 0, 0]).events =
        [(0, .print 210001 1), (0, .reset)] ∧
      ((init 209999 [block, block]).run [0, 1, 1, 0, 0, 0]).count = 0 :=
  ⟨rfl, rfl⟩

/-! ### Blocks saved one at a time -/

theorem sequential_succ (n : Nat) : sequential (n + 1) = sequential n ++ [n, n, n, n] := by
  rw [sequential, List.range_succ, List.flatMap_append, List.flatMap_singleton]
  rfl

theorem not_mem_sequential {n i : Nat} (h : n ≤ i) : i ∉ sequential n := by
  simp only [sequential, List.mem_flatMap, List.mem_range, List.mem_cons, List.mem_singleton,
    or_self, List.not_mem_nil, or_false]
  rintro ⟨j, hj, rfl⟩
  omega

/-- The TPS tasks of blocks saved one at a time never print and never reset, and the counter
ends at the sum of the blocks' transaction counts, wrapping at `2 ^ 64`. -/
theorem tpsSystem_sequential (count : UInt64) (blocks : List Block) :
    ((init count blocks).run (sequential blocks.length)).count.toNat =
        (count.toNat + (blocks.map fun block => block.transactions.length).sum) % 2 ^ 64 ∧
      ((init count blocks).run (sequential blocks.length)).events = [] := by
  suffices h : ∀ k ≤ blocks.length,
      ((init count blocks).run (sequential k)).count.toNat =
          (count.toNat + ((blocks.take k).map fun block => block.transactions.length).sum) % 2 ^ 64 ∧
        ((init count blocks).run (sequential k)).events = [] by
    simpa only [List.take_length] using h _ le_rfl
  intro k
  induction k with
  | zero => exact fun _ => ⟨(Nat.mod_eq_of_lt count.toNat_lt).symm, rfl⟩
  | succ k ih =>
    intro hk
    obtain ⟨hc, he⟩ := ih (Nat.le_of_succ_le hk)
    have hlt : k < blocks.length := hk
    have ht : ((init count blocks).run (sequential k)).tasks[k]? = some (ofBlock blocks[k]) := by
      rw [(run_not_mem (not_mem_sequential le_rfl)).1, init_tasks, List.getElem?_eq_getElem hlt]
      rfl
    obtain ⟨hc', he'⟩ := run_alone ht rfl
    rw [sequential_succ, run_append]
    refine ⟨?_, he'.trans he⟩
    rw [hc', UInt64.toNat_add, hc, List.take_succ, List.getElem?_eq_getElem hlt, List.map_append,
      List.sum_append]
    show ((count.toNat + _) % 2 ^ 64 + blocks[k].transactions.length % 2 ^ 64) % 2 ^ 64 = _
    rw [Nat.add_mod_mod, Nat.mod_add_mod, Option.toList_some, List.map_singleton,
      List.sum_singleton, Nat.add_assoc]

/-- Two blocks of one transaction each, saved one at a time from a counter at `26249`: the
count crosses `26250` and nothing is printed. -/
example :
    let block : Block := ⟨BlockHeader.new (fun _ => 0) 1 0, [⟨⟨1⟩, ⟨[]⟩, [], 0, 1, 0⟩]⟩
    (init 26249 [block, block]).run (sequential 2) = ⟨26251, [⟨1, 1, .done⟩, ⟨1, 1, .done⟩], []⟩ :=
  rfl

end TpsSystem

end RocksPermanentStorage

end Stratus
