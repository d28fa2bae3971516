import Stratus.Primitives.Transaction

/-!
# Reading a block back from Postgres

`PostgresPermanentStorage::read_block` (`postgres_permanent.rs:184–435`) with
`partition_logs` and `partition_topics` (lines 837–865), and `read_mined_block_number`
(lines 731–740). The SQL files are not in the source: every `select_*` query is a function of
the database and its parameter (`BlockQueries`), and `into_transaction_mined` is a parameter.
`Latest`, `Hash(_)` and `Number(_)` share one body (`blockOf`); `Earliest`, which `unwrap`s the
partitions, keeps its own.
-/

namespace Stratus

/-- How a call that returns no value ends: an `Err` carrying its message, or a panic. -/
inductive Failure where
  | err (msg : String)
  | panic (msg : String)
  deriving DecidableEq, Repr

/-- `PostgresTransaction` (`types.rs`, not in the source): the hash the reassembly keys on,
with the block number and index. The other columns only reach `into_transaction_mined` and
are left out. -/
structure PostgresTransaction where
  hash : Hash
  blockNumber : BlockNumber
  transactionIdx : Index
  deriving DecidableEq, Repr

/-- `PostgresLog`: the transaction hash the partition keys on, the log index and the block
number. -/
structure PostgresLog where
  transactionHash : Hash
  logIdx : Index
  blockNumber : BlockNumber
  deriving DecidableEq, Repr

/-- `PostgresTopic`: the topic, the transaction hash and log index the partition keys on, and
the block number. -/
structure PostgresTopic where
  topic : Hash
  transactionHash : Hash
  logIdx : Index
  blockNumber : BlockNumber
  deriving DecidableEq, Repr

/-- `BlockSelection`. -/
inductive BlockSelection where
  | latest
  | earliest
  | hash (hash : Hash)
  | number (number : BlockNumber)
  deriving DecidableEq, Repr

/-- The `select_*` queries of `read_block` (`sql/*.sql`, not in the source): each a function of
the database and its parameter, a failing query returning its error. -/
structure BlockQueries (Db : Type) where
  headerByNumber : Db → Int → Except String (Option BlockHeader)
  transactionsByNumber : Db → Int → Except String (List PostgresTransaction)
  logsByNumber : Db → Int → Except String (List PostgresLog)
  topicsByNumber : Db → Int → Except String (List PostgresTopic)
  headerByHash : Db → Hash → Except String (Option BlockHeader)
  transactionsByHash : Db → Hash → Except String (List PostgresTransaction)
  logsByHash : Db → Hash → Except String (List PostgresLog)
  topicsByHash : Db → Hash → Except String (List PostgresTopic)

namespace PostgresPermanentStorage

section Maps

variable {K V : Type} [DecidableEq K]

/-- `get_mut(key)` and an update in place, or `insert(key, new)` when the key is absent, on a
`HashMap` held as a list with one entry per key. -/
def upsert (key : K) (update : V → V) (new : V) : List (K × V) → List (K × V)
  | [] => [(key, new)]
  | (k, v) :: rest => if k = key then (k, update v) :: rest else (k, v) :: upsert key update new rest

/-- `HashMap::remove`: the value under the key, if any, and the map without it. -/
def remove (key : K) : List (K × V) → Option V × List (K × V)
  | [] => (none, [])
  | (k, v) :: rest =>
    if k = key then (some v, rest) else ((remove key rest).1, (k, v) :: (remove key rest).2)

end Maps

/-- `partition_logs`, lines 837–847: the log rows grouped by transaction hash, each group in
row order. -/
def partitionLogs (logs : List PostgresLog) : List (Hash × List PostgresLog) :=
  logs.foldl (fun partitions log => upsert log.transactionHash (· ++ [log]) [log] partitions) []

/-- `partition_topics`, lines 849–865: the topic rows grouped by transaction hash and then by
log index, each group in row order. -/
def partitionTopics (topics : List PostgresTopic) :
    List (Hash × List (Index × List PostgresTopic)) :=
  topics.foldl (fun partitions topic =>
    upsert topic.transactionHash (upsert topic.logIdx (· ++ [topic]) [topic])
      [(topic.logIdx, [topic])] partitions) []

/-- The signature of `PostgresTransaction::into_transaction_mined`. -/
abbrev IntoTransactionMined :=
  PostgresTransaction → List PostgresLog → List (Index × List PostgresTopic) → TransactionMined

variable (into : IntoTransactionMined)

/-- The reassembly of lines 238–245: each transaction in turn takes its logs and topics out of
the partitions, a missing entry read as empty (`unwrap_or_default`). -/
def reassemble : List PostgresTransaction → List (Hash × List PostgresLog) →
    List (Hash × List (Index × List PostgresTopic)) → List TransactionMined
  | [], _, _ => []
  | tx :: txs, logPartitions, topicPartitions =>
    let thisTxLogs := remove tx.hash logPartitions
    let thisTxTopics := remove tx.hash topicPartitions
    into tx (thisTxLogs.1.getD []) (thisTxTopics.1.getD []) ::
      reassemble txs thisTxLogs.2 thisTxTopics.2

/-- The reassembly of `Earliest`, lines 421–428: the same, but a missing entry panics
(`unwrap`). -/
def reassembleUnwrap : List PostgresTransaction → List (Hash × List PostgresLog) →
    List (Hash × List (Index × List PostgresTopic)) → Except Failure (List TransactionMined)
  | [], _, _ => .ok []
  | tx :: txs, logPartitions, topicPartitions =>
    let thisTxLogs := remove tx.hash logPartitions
    let thisTxTopics := remove tx.hash topicPartitions
    match thisTxLogs.1, thisTxTopics.1 with
    | some logs, some topics =>
      (reassembleUnwrap txs thisTxLogs.2 thisTxTopics.2).map (into tx logs topics :: ·)
    | _, _ => .error (.panic "called `Option::unwrap()` on a `None` value")

/-- The body the `Latest`, `Hash(_)` and `Number(_)` arms share once their queries have run
(lines 224–249): a failed header query is logged and returned with the arm's message, a
missing header is `None`, the other results pass through `?`. -/
def blockOf (msg : String) (header : Except String (Option BlockHeader))
    (transactions : Except String (List PostgresTransaction))
    (logs : Except String (List PostgresLog)) (topics : Except String (List PostgresTopic)) :
    Except Failure (Option Block) :=
  match header with
  | .error _ => .error (.err msg)
  | .ok none => .ok none
  | .ok (some header) => do
    let transactions ← transactions.mapError .err
    let logs ← logs.mapError .err
    let topics ← topics.mapError .err
    pure (some ⟨header, reassemble into transactions (partitionLogs logs) (partitionTopics topics)⟩)

/-- The body of the `Earliest` arm once its queries have run, lines 407–432. -/
def earliestBlockOf (header : Except String (Option BlockHeader))
    (transactions : Except String (List PostgresTransaction))
    (logs : Except String (List PostgresLog)) (topics : Except String (List PostgresTopic)) :
    Except Failure (Option Block) :=
  match header with
  | .error _ => .error (.err "failed to query block by earlist")
  | .ok none => .ok none
  | .ok (some header) => do
    let transactions ← transactions.mapError .err
    let logs ← logs.mapError .err
    let topics ← topics.mapError .err
    let transactions ← reassembleUnwrap into transactions (partitionLogs logs) (partitionTopics topics)
    pure (some ⟨header, transactions⟩)

/-- `PostgresPermanentStorage::read_mined_block_number`, lines 731–740: the current block
number query's `NUMERIC` as a `BigDecimal`, `BigDecimal::from(0)` when the query fails,
converted to a block number. -/
def readMinedBlockNumber (currval : Except String Int) : Except String BlockNumber :=
  BlockNumber.tryFromBigDecimal (match currval with
    | .ok v => .ofNumeric v
    | .error _ => .ofInt 0)

variable {Db : Type} (q : BlockQueries Db) (currentBlockNumber : Db → Except String Int)

/-- `PostgresPermanentStorage::read_block`, lines 184–435. `Latest` reads the mined block
number (`select_current_block_number`, the parameter `currentBlockNumber`) and converts it,
and `Number(_)` converts its number, to `i64` before querying. -/
def readBlock (db : Db) : BlockSelection → Except Failure (Option Block)
  | .latest => do
    let current ← (readMinedBlockNumber (currentBlockNumber db)).mapError .err
    let blockNumber ← (BlockNumber.toI64 current).mapError .err
    blockOf into "failed to query block by latest" (q.headerByNumber db blockNumber)
      (q.transactionsByNumber db blockNumber) (q.logsByNumber db blockNumber)
      (q.topicsByNumber db blockNumber)
  | .hash hash =>
    blockOf into "failed to query block by hash" (q.headerByHash db hash)
      (q.transactionsByHash db hash) (q.logsByHash db hash) (q.topicsByHash db hash)
  | .number number => do
    let blockNumber ← (BlockNumber.toI64 number).mapError .err
    blockOf into "failed to query block by number" (q.headerByNumber db blockNumber)
      (q.transactionsByNumber db blockNumber) (q.logsByNumber db blockNumber)
      (q.topicsByNumber db blockNumber)
  | .earliest =>
    earliestBlockOf into (q.headerByNumber db 0) (q.transactionsByNumber db 0)
      (q.logsByNumber db 0) (q.topicsByNumber db 0)

/-! ### The selectors compared -/

section Lemmas

variable {K V : Type} [DecidableEq K]

private theorem lookup_cons_ite (k key : K) (v : V) (m : List (K × V)) :
    ((key, v) :: m).lookup k = if k = key then some v else m.lookup k := by
  simp only [List.lookup]; split <;> simp_all

theorem lookup_upsert (key k : K) (update : V → V) (new : V) (m : List (K × V)) :
    (upsert key update new m).lookup k =
      if k = key then some (((m.lookup key).map update).getD new) else m.lookup k := by
  induction m with
  | nil => simp [upsert, lookup_cons_ite]
  | cons p m ih =>
    rcases p with ⟨k', v⟩
    by_cases h1 : k' = key
    · subst h1; by_cases h2 : k = k' <;> simp [upsert, lookup_cons_ite, h2]
    · simp only [upsert, h1, ↓reduceIte, lookup_cons_ite, ih]
      by_cases h2 : k = key <;> by_cases h3 : k = k' <;> simp_all [Ne.symm h1]

@[simp] theorem remove_fst (key : K) (m : List (K × V)) : (remove key m).1 = m.lookup key := by
  induction m with
  | nil => rfl
  | cons p m ih =>
    rcases p with ⟨k, v⟩
    by_cases h : k = key
    · simp [remove, lookup_cons_ite, h]
    · simp [remove, lookup_cons_ite, h, ih, Ne.symm h]

theorem lookup_remove_snd {key k : K} (h : k ≠ key) (m : List (K × V)) :
    (remove key m).2.lookup k = m.lookup k := by
  induction m with
  | nil => rfl
  | cons p m ih =>
    rcases p with ⟨k', v⟩
    by_cases h1 : k' = key
    · subst h1; simp [remove, lookup_cons_ite, h]
    · simp [remove, h1, lookup_cons_ite, ih]

/-- Appending a row under `key`: the group read at `key` (absent as empty) gains the row at
its end, and every other group is unchanged. -/
theorem getD_lookup_upsert_append {α : Type} (key k : K) (x : α) (m : List (K × List α)) :
    ((upsert key (· ++ [x]) [x] m).lookup k).getD [] =
      if k = key then (m.lookup k).getD [] ++ [x] else (m.lookup k).getD [] := by
  rw [lookup_upsert]
  split
  · next h => subst h; cases m.lookup k <;> rfl
  · rfl

end Lemmas

/-- A transaction hash has a log partition exactly when some log row carries it. -/
theorem lookup_partitionLogs_isSome (logs : List PostgresLog) (h : Hash) :
    ((partitionLogs logs).lookup h).isSome ↔ ∃ l ∈ logs, l.transactionHash = h := by
  suffices ∀ m : List (Hash × List PostgresLog), ((logs.foldl (fun partitions log =>
      upsert log.transactionHash (· ++ [log]) [log] partitions) m).lookup h).isSome ↔
        (m.lookup h).isSome ∨ ∃ l ∈ logs, l.transactionHash = h from
    (this []).trans (or_iff_right Bool.false_ne_true)
  induction logs with
  | nil => intro m; exact (or_iff_left fun ⟨_, h, _⟩ => List.not_mem_nil _ h).symm
  | cons l logs ih =>
    intro m
    rw [List.foldl_cons, ih, lookup_upsert, List.exists_mem_cons_iff]
    by_cases hl : h = l.transactionHash
    · rw [if_pos hl]; exact iff_of_true (.inl rfl) (.inr (.inl hl.symm))
    · rw [if_neg hl, eq_false fun e : l.transactionHash = h => hl e.symm, false_or]

/-- A transaction hash has a topic partition exactly when some topic row carries it. -/
theorem lookup_partitionTopics_isSome (topics : List PostgresTopic) (h : Hash) :
    ((partitionTopics topics).lookup h).isSome ↔ ∃ t ∈ topics, t.transactionHash = h := by
  suffices ∀ m : List (Hash × List (Index × List PostgresTopic)), ((topics.foldl
      (fun partitions topic => upsert topic.transactionHash (upsert topic.logIdx (· ++ [topic])
        [topic]) [(topic.logIdx, [topic])] partitions) m).lookup h).isSome ↔
        (m.lookup h).isSome ∨ ∃ t ∈ topics, t.transactionHash = h from
    (this []).trans (or_iff_right Bool.false_ne_true)
  induction topics with
  | nil => intro m; exact (or_iff_left fun ⟨_, h, _⟩ => List.not_mem_nil _ h).symm
  | cons t topics ih =>
    intro m
    rw [List.foldl_cons, ih, lookup_upsert, List.exists_mem_cons_iff]
    by_cases ht : h = t.transactionHash
    · rw [if_pos ht]; exact iff_of_true (.inl rfl) (.inr (.inl ht.symm))
    · rw [if_neg ht, eq_false fun e : t.transactionHash = h => ht e.symm, false_or]

/-- The log group of a hash (absent as empty) is the subsequence of the rows carrying it. -/
theorem getD_lookup_partitionLogs (logs : List PostgresLog) (h : Hash) :
    ((partitionLogs logs).lookup h).getD [] = logs.filter (·.transactionHash = h) := by
  suffices ∀ m : List (Hash × List PostgresLog), ((logs.foldl (fun partitions log =>
      upsert log.transactionHash (· ++ [log]) [log] partitions) m).lookup h).getD [] =
        (m.lookup h).getD [] ++ logs.filter (·.transactionHash = h) from this []
  induction logs with
  | nil => intro m; simp
  | cons l logs ih =>
    intro m
    rw [List.foldl_cons, ih, getD_lookup_upsert_append, List.filter_cons]
    by_cases hl : h = l.transactionHash
    · subst hl; simp
    · simp [hl, Ne.symm hl]

/-- The topic group of a hash and a log index (absent as empty) is the subsequence of the rows
carrying both. -/
theorem getD_lookup_partitionTopics (topics : List PostgresTopic) (h : Hash) (i : Index) :
    ((((partitionTopics topics).lookup h).getD []).lookup i).getD [] =
      topics.filter fun t => t.transactionHash = h ∧ t.logIdx = i := by
  suffices ∀ m : List (Hash × List (Index × List PostgresTopic)), ((((topics.foldl
      (fun partitions topic => upsert topic.transactionHash (upsert topic.logIdx (· ++ [topic])
        [topic]) [(topic.logIdx, [topic])] partitions) m).lookup h).getD []).lookup i).getD [] =
        (((m.lookup h).getD []).lookup i).getD [] ++
          topics.filter fun t => t.transactionHash = h ∧ t.logIdx = i from this []
  induction topics with
  | nil => intro m; simp
  | cons t topics ih =>
    intro m
    rw [List.foldl_cons, ih, lookup_upsert, List.filter_cons]
    by_cases hh : h = t.transactionHash
    · subst hh
      -- a new hash starts the one-entry map that upserting into an empty map gives
      have hmap : ((m.lookup t.transactionHash).map (upsert t.logIdx (· ++ [t]) [t])).getD
          [(t.logIdx, [t])] = upsert t.logIdx (· ++ [t]) [t] ((m.lookup t.transactionHash).getD []) := by
        cases m.lookup t.transactionHash <;> rfl
      rw [if_pos rfl, Option.getD_some, hmap, getD_lookup_upsert_append]
      by_cases hi : i = t.logIdx
      · subst hi; simp
      · simp [hi, Ne.symm hi]
    · simp [hh, Ne.symm hh]

/-- `partition_logs` and `partition_topics` lose, duplicate and reorder no row: the group read
for a hash, or for a hash and a log index, is exactly the rows carrying those keys, in row
order. -/
theorem partitions_eq_filter (logs : List PostgresLog) (topics : List PostgresTopic) (h : Hash)
    (i : Index) :
    ((partitionLogs logs).lookup h).getD [] = logs.filter (·.transactionHash = h) ∧
      ((((partitionTopics topics).lookup h).getD []).lookup i).getD [] =
        topics.filter fun t => t.transactionHash = h ∧ t.logIdx = i :=
  ⟨getD_lookup_partitionLogs logs h, getD_lookup_partitionTopics topics h i⟩

/-- Where the hashes are distinct and each has both partitions, `unwrap` finds every entry
and the two reassemblies agree. -/
theorem reassembleUnwrap_eq {txs : List PostgresTransaction}
    (hnd : (txs.map PostgresTransaction.hash).Nodup) :
    ∀ {lp : List (Hash × List PostgresLog)} {tp : List (Hash × List (Index × List PostgresTopic))},
      (∀ tx ∈ txs, (lp.lookup tx.hash).isSome ∧ (tp.lookup tx.hash).isSome) →
        reassembleUnwrap into txs lp tp = .ok (reassemble into txs lp tp) := by
  induction txs with
  | nil => intros; rfl
  | cons tx txs ih =>
    intro lp tp hp
    simp only [List.map_cons, List.nodup_cons, List.mem_map, not_exists, not_and] at hnd
    obtain ⟨logs, hl⟩ := Option.isSome_iff_exists.mp (hp tx (List.mem_cons_self _ _)).1
    obtain ⟨topics, ht⟩ := Option.isSome_iff_exists.mp (hp tx (List.mem_cons_self _ _)).2
    have hrest : ∀ t ∈ txs, ((remove tx.hash lp).2.lookup t.hash).isSome ∧
        ((remove tx.hash tp).2.lookup t.hash).isSome := fun t ht' => by
      have hne : t.hash ≠ tx.hash := fun e => hnd.1 t ht' e
      rw [lookup_remove_snd hne, lookup_remove_snd hne]
      exact hp t (List.mem_cons_of_mem _ ht')
    simp only [reassembleUnwrap, reassemble, remove_fst, hl, ht, ih hnd.2 hrest, Option.getD_some]
    rfl

/-- `Earliest` returns what `Number(0)` returns whenever the header query of block `0` does not
fail and its transactions have distinct hashes, each with at least one log row and one topic
row. -/
theorem readBlock_earliest_eq (db : Db) (hh : ∃ h, q.headerByNumber db 0 = .ok h)
    (hrows : ∀ txs logs topics, q.transactionsByNumber db 0 = .ok txs →
      q.logsByNumber db 0 = .ok logs → q.topicsByNumber db 0 = .ok topics →
      (txs.map PostgresTransaction.hash).Nodup ∧ ∀ tx ∈ txs,
        (∃ l ∈ logs, l.transactionHash = tx.hash) ∧ ∃ t ∈ topics, t.transactionHash = tx.hash) :
    readBlock into q currentBlockNumber db .earliest =
      readBlock into q currentBlockNumber db (.number 0) := by
  obtain ⟨h, hh⟩ := hh
  have h0 : BlockNumber.toI64 0 = .ok 0 := rfl
  simp only [readBlock, h0, Except.mapError, bind, Except.bind, earliestBlockOf, blockOf, hh]
  cases h with
  | none => rfl
  | some header =>
    cases htx : q.transactionsByNumber db 0 with
    | error e => rfl
    | ok txs =>
      cases hlogs : q.logsByNumber db 0 with
      | error e => rfl
      | ok logs =>
        cases htopics : q.topicsByNumber db 0 with
        | error e => rfl
        | ok topics =>
          obtain ⟨hnd, hp⟩ := hrows txs logs topics htx hlogs htopics
          dsimp only
          rw [reassembleUnwrap_eq into hnd fun tx htx' =>
            ⟨(lookup_partitionLogs_isSome logs tx.hash).mpr (hp tx htx').1,
              (lookup_partitionTopics_isSome topics tx.hash).mpr (hp tx htx').2⟩]

/-- `Earliest` and `Number(0)` on a block `0` whose one transaction has a log and a topic. -/
theorem readBlock_earliest_eq_logged :
    let q : BlockQueries Unit :=
      ⟨fun _ _ => .ok (some (BlockHeader.new (fun _ => 0) 0 0)), fun _ _ => .ok [⟨1, 0, 0⟩],
        fun _ _ => .ok [⟨1, 0, 0⟩], fun _ _ => .ok [⟨5, 1, 0, 0⟩], fun _ _ => .ok none,
        fun _ _ => .ok [], fun _ _ => .ok [], fun _ _ => .ok []⟩
    readBlock (fun tx _ _ => ⟨⟨tx.hash⟩, ⟨[]⟩, [], tx.transactionIdx, tx.blockNumber, 0⟩) q
        (fun _ => .ok 0) () .earliest =
      readBlock (fun tx _ _ => ⟨⟨tx.hash⟩, ⟨[]⟩, [], tx.transactionIdx, tx.blockNumber, 0⟩) q
        (fun _ => .ok 0) () (.number 0) :=
  readBlock_earliest_eq _ _ _ () ⟨_, rfl⟩ fun _ _ _ htx hlogs htopics => by
    cases htx; cases hlogs; cases htopics; decide

/-- A database whose block 0 has one transaction with no log and no topic rows: `Number(0)`
returns the block, while `Earliest` panics on the missing log partition. -/
theorem readBlock_earliest_panics (into : IntoTransactionMined)
    (currentBlockNumber : Unit → Except String Int) :
    let header := BlockHeader.new (fun _ => 0) 0 0
    let tx : PostgresTransaction := ⟨1, 0, 0⟩
    let q : BlockQueries Unit :=
      { headerByNumber := fun _ _ => .ok (some header)
        transactionsByNumber := fun _ _ => .ok [tx]
        logsByNumber := fun _ _ => .ok []
        topicsByNumber := fun _ _ => .ok []
        headerByHash := fun _ _ => .ok none
        transactionsByHash := fun _ _ => .ok []
        logsByHash := fun _ _ => .ok []
        topicsByHash := fun _ _ => .ok [] }
    readBlock into q currentBlockNumber () (.number 0) = .ok (some ⟨header, [into tx [] []]⟩) ∧
      readBlock into q currentBlockNumber () .earliest =
        .error (.panic "called `Option::unwrap()` on a `None` value") :=
  ⟨rfl, rfl⟩

end PostgresPermanentStorage

end Stratus
