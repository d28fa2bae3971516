import Stratus.Storage.Postgres.ReadBlock

/-!
# Reading one transaction back from Postgres

`PostgresPermanentStorage::read_mined_transaction` (`postgres_permanent.rs:437–474`) looks the
transaction row up by its hash (`RowNotFound` is `Ok(None)`), groups the topic rows of that hash
with `partition_topics` and passes the log rows on as the query returned them. The queries are
parameters as in `Stratus.Storage.Postgres.ReadBlock`; the module compares the two read paths.
-/

namespace Stratus

/-- How `fetch_one` fails: no row, or any other database error. -/
inductive SqlError where
  | rowNotFound
  | other (msg : String)
  deriving DecidableEq, Repr

/-- The by-hash queries of `read_mined_transaction` (`sql/select_transaction_by_hash.sql`,
`select_logs_by_transaction_hash.sql`, `select_topics_by_transaction_hash.sql`, not in the
source). -/
structure TransactionQueries (Db : Type) where
  transactionByHash : Db → Hash → Except SqlError PostgresTransaction
  logsByTransactionHash : Db → Hash → Except String (List PostgresLog)
  topicsByTransactionHash : Db → Hash → Except String (List PostgresTopic)

namespace PostgresPermanentStorage

variable (into : IntoTransactionMined) {Db : Type} (tq : TransactionQueries Db)

/-- `PostgresPermanentStorage::read_mined_transaction`, lines 437–474. -/
def readMinedTransaction (db : Db) (hash : Hash) : Except String (Option TransactionMined) :=
  match tq.transactionByHash db hash with
  | .error .rowNotFound => .ok none
  | .error (.other e) => .error e
  | .ok transaction => do
    let logs ← tq.logsByTransactionHash db hash
    let topics ← tq.topicsByTransactionHash db hash
    pure (some (into transaction logs ((remove hash (partitionTopics topics)).1.getD [])))

/-- The by-hash queries agree with the rows a block query returned: the transaction hashes are
distinct, and each transaction's hash finds that transaction, and the block's log and topic
rows of that hash in the block's order. -/
def RowsAgree (db : Db) (txs : List PostgresTransaction) (logs : List PostgresLog)
    (topics : List PostgresTopic) : Prop :=
  (txs.map PostgresTransaction.hash).Nodup ∧ ∀ tx ∈ txs,
    tq.transactionByHash db tx.hash = .ok tx ∧
      tq.logsByTransactionHash db tx.hash = .ok (logs.filter (·.transactionHash = tx.hash)) ∧
      tq.topicsByTransactionHash db tx.hash = .ok (topics.filter (·.transactionHash = tx.hash))

/-- The by-hash queries agree with the rows of every block query of `read_block`, by number and
by hash. -/
def QueriesAgree (q : BlockQueries Db) (db : Db) : Prop :=
  (∀ n txs logs topics, q.transactionsByNumber db n = .ok txs → q.logsByNumber db n = .ok logs →
      q.topicsByNumber db n = .ok topics → RowsAgree tq db txs logs topics) ∧
    ∀ h txs logs topics, q.transactionsByHash db h = .ok txs → q.logsByHash db h = .ok logs →
      q.topicsByHash db h = .ok topics → RowsAgree tq db txs logs topics

/-- The transaction rows the block query of a selection returned: `Latest` and `Number(_)` query
by the block number converted to `i64`, `Hash(_)` by the hash and `Earliest` by block `0`. -/
def SelectedRows (q : BlockQueries Db) (currentBlockNumber : Db → Except String Int) (db : Db)
    (txs : List PostgresTransaction) : BlockSelection → Prop
  | .latest => ∃ n i, readMinedBlockNumber (currentBlockNumber db) = .ok n ∧
      BlockNumber.toI64 n = .ok i ∧ q.transactionsByNumber db i = .ok txs
  | .hash hash => q.transactionsByHash db hash = .ok txs
  | .number number => ∃ i, BlockNumber.toI64 number = .ok i ∧ q.transactionsByNumber db i = .ok txs
  | .earliest => q.transactionsByNumber db 0 = .ok txs

/-! ### The reassembly as lookups -/

/-- With distinct hashes, taking each transaction's groups out of the partitions as
`read_block` does is looking each one up in the untouched partitions. -/
theorem reassemble_eq_map {txs : List PostgresTransaction}
    (hnd : (txs.map PostgresTransaction.hash).Nodup) :
    ∀ (lp : List (Hash × List PostgresLog)) (tp : List (Hash × List (Index × List PostgresTopic))),
      reassemble into txs lp tp =
        txs.map fun tx => into tx ((lp.lookup tx.hash).getD []) ((tp.lookup tx.hash).getD []) := by
  induction txs with
  | nil => intros; rfl
  | cons tx txs ih =>
    intro lp tp
    simp only [List.map_cons, List.nodup_cons, List.mem_map, not_exists, not_and] at hnd
    rw [reassemble, remove_fst, remove_fst, ih hnd.2, List.map_cons]
    congr 1
    refine List.map_congr_left fun t ht => ?_
    have hne : t.hash ≠ tx.hash := hnd.1 t ht
    rw [lookup_remove_snd hne, lookup_remove_snd hne]

/-- Grouping only the topic rows of one hash gives that hash the group that grouping every row
gives it. -/
theorem lookup_partitionTopics_filter (topics : List PostgresTopic) (h : Hash) :
    (partitionTopics (topics.filter (·.transactionHash = h))).lookup h =
      (partitionTopics topics).lookup h := by
  suffices ∀ m m' : List (Hash × List (Index × List PostgresTopic)), m'.lookup h = m.lookup h →
      ((topics.filter (·.transactionHash = h)).foldl (fun partitions topic =>
        upsert topic.transactionHash (upsert topic.logIdx (· ++ [topic]) [topic])
          [(topic.logIdx, [topic])] partitions) m').lookup h =
      (topics.foldl (fun partitions topic =>
        upsert topic.transactionHash (upsert topic.logIdx (· ++ [topic]) [topic])
          [(topic.logIdx, [topic])] partitions) m).lookup h from this [] [] rfl
  induction topics with
  | nil => intro m m' hm; exact hm
  | cons t topics ih =>
    intro m m' hm
    rw [List.filter_cons, List.foldl_cons]
    by_cases ht : t.transactionHash = h
    · -- both sides upsert the row under `h`, into maps that agree there
      rw [if_pos (decide_eq_true ht), List.foldl_cons]
      refine ih _ _ ?_
      rw [lookup_upsert, lookup_upsert, ht, hm]
    · -- only the full grouping sees the row, and under another hash
      rw [if_neg (by simpa using ht)]
      refine ih _ _ ?_
      rw [lookup_upsert, if_neg (Ne.symm ht), hm]

/-! ### Inversion of the block bodies -/

/-- A result after a conversion whose error is relabelled comes from the conversion's value. -/
theorem exists_ok_of_mapError_bind {α β : Type} {x : Except String α} {f : α → Except Failure β}
    {b : β} (h : (x.mapError .err >>= f) = .ok b) : ∃ a, x = .ok a ∧ f a = .ok b := by
  cases x with
  | error e => cases h
  | ok a => exact ⟨a, rfl, h⟩

/-- A block the shared body returns holds the reassembly of the rows its queries returned. -/
theorem blockOf_eq_some {msg : String} {header : Except String (Option BlockHeader)}
    {transactions : Except String (List PostgresTransaction)}
    {logs : Except String (List PostgresLog)} {topics : Except String (List PostgresTopic)}
    {block : Block} (h : blockOf into msg header transactions logs topics = .ok (some block)) :
    ∃ txs ls ts, transactions = .ok txs ∧ logs = .ok ls ∧ topics = .ok ts ∧
      block.transactions = reassemble into txs (partitionLogs ls) (partitionTopics ts) := by
  unfold blockOf at h
  split at h
  · cases h
  · cases h
  · cases transactions <;> cases logs <;> cases topics <;> cases h
    exact ⟨_, _, _, rfl, rfl, rfl, rfl⟩

/-- A reassembly that does not panic is the one that reads a missing group as empty. -/
theorem reassembleUnwrap_ok :
    ∀ {txs : List PostgresTransaction} {lp : List (Hash × List PostgresLog)}
      {tp : List (Hash × List (Index × List PostgresTopic))} {r : List TransactionMined},
      reassembleUnwrap into txs lp tp = .ok r → r = reassemble into txs lp tp
  | [], _, _, _, h => by cases h; rfl
  | tx :: txs, lp, tp, r, h => by
    simp only [reassembleUnwrap] at h
    split at h
    · next logs topics hl ht =>
      cases hrest : reassembleUnwrap into txs (remove tx.hash lp).2 (remove tx.hash tp).2 with
      | error e => rw [hrest] at h; cases h
      | ok rest =>
        rw [hrest] at h
        cases h
        rw [reassemble, hl, ht, reassembleUnwrap_ok hrest]
        rfl
    · cases h

/-- A block the `Earliest` body returns holds the reassembly of the rows its queries
returned. -/
theorem earliestBlockOf_eq_some {header : Except String (Option BlockHeader)}
    {transactions : Except String (List PostgresTransaction)}
    {logs : Except String (List PostgresLog)} {topics : Except String (List PostgresTopic)}
    {block : Block} (h : earliestBlockOf into header transactions logs topics = .ok (some block)) :
    ∃ txs ls ts, transactions = .ok txs ∧ logs = .ok ls ∧ topics = .ok ts ∧
      block.transactions = reassemble into txs (partitionLogs ls) (partitionTopics ts) := by
  unfold earliestBlockOf at h
  split at h
  · cases h
  · cases h
  · cases transactions <;> cases logs <;> cases topics <;> try cases h
    next txs ls ts =>
    cases hr : reassembleUnwrap into txs (partitionLogs ls) (partitionTopics ts) with
    | error e => simp only [hr, Except.mapError, bind, Except.bind] at h; cases h
    | ok r =>
      simp only [hr, Except.mapError, bind, Except.bind, pure, Except.pure] at h
      cases h
      exact ⟨_, _, _, rfl, rfl, rfl, reassembleUnwrap_ok into hr⟩

/-! ### The two read paths -/

/-- Under agreeing queries, reading a transaction of the block by its hash returns what the
block reassembly built for it. -/
theorem readMinedTransaction_of_rowsAgree {db : Db} {txs : List PostgresTransaction}
    {logs : List PostgresLog} {topics : List PostgresTopic} (hagree : RowsAgree tq db txs logs topics) :
    List.Forall₂ (fun tx t => readMinedTransaction into tq db tx.hash = .ok (some t)) txs
      (reassemble into txs (partitionLogs logs) (partitionTopics topics)) := by
  rw [reassemble_eq_map into hagree.1, List.forall₂_map_right_iff, List.forall₂_same]
  intro tx htx
  obtain ⟨htr, hl, ht⟩ := hagree.2 tx htx
  simp only [readMinedTransaction, htr, hl, ht, bind, Except.bind, pure, Except.pure, remove_fst,
    lookup_partitionTopics_filter, getD_lookup_partitionLogs]

variable {into} {tq}

/-- `read_block` and `read_mined_transaction` agree. For every selection, a block that
`read_block` returns is built from transaction rows its block query returned, one row per
transaction; under by-hash queries that return the block's rows of a hash in the block's order,
and distinct transaction hashes, reading each row's hash with `read_mined_transaction` returns
exactly the transaction the block holds at that position. -/
theorem readBlock_readMinedTransaction {q : BlockQueries Db} {currentBlockNumber : Db → Except String Int}
    (db : Db) (sel : BlockSelection) (block : Block) (hagree : QueriesAgree tq q db)
    (h : readBlock into q currentBlockNumber db sel = .ok (some block)) :
    ∃ txs : List PostgresTransaction, SelectedRows q currentBlockNumber db txs sel ∧
      List.Forall₂ (fun tx t => readMinedTransaction into tq db tx.hash = .ok (some t)) txs
        block.transactions := by
  cases sel with
  | latest =>
    obtain ⟨n, hn, h⟩ := exists_ok_of_mapError_bind h
    obtain ⟨i, hi, h⟩ := exists_ok_of_mapError_bind h
    obtain ⟨txs, ls, ts, htx, hl, ht, hb⟩ := blockOf_eq_some into h
    exact ⟨txs, ⟨n, i, hn, hi, htx⟩,
      hb ▸ readMinedTransaction_of_rowsAgree into tq (hagree.1 _ _ _ _ htx hl ht)⟩
  | earliest =>
    obtain ⟨txs, ls, ts, htx, hl, ht, hb⟩ := earliestBlockOf_eq_some into h
    exact ⟨txs, htx, hb ▸ readMinedTransaction_of_rowsAgree into tq (hagree.1 _ _ _ _ htx hl ht)⟩
  | hash hash =>
    obtain ⟨txs, ls, ts, htx, hl, ht, hb⟩ := blockOf_eq_some into h
    exact ⟨txs, htx, hb ▸ readMinedTransaction_of_rowsAgree into tq (hagree.2 _ _ _ _ htx hl ht)⟩
  | number number =>
    obtain ⟨i, hi, h⟩ := exists_ok_of_mapError_bind h
    obtain ⟨txs, ls, ts, htx, hl, ht, hb⟩ := blockOf_eq_some into h
    exact ⟨txs, ⟨i, hi, htx⟩,
      hb ▸ readMinedTransaction_of_rowsAgree into tq (hagree.1 _ _ _ _ htx hl ht)⟩

/-- The two paths on a block `0` with one transaction, a log of it, a log of no transaction of
the block and a topic. -/
theorem readBlock_readMinedTransaction_logged :
    let logs : List PostgresLog := [⟨1, 0, 0⟩, ⟨2, 0, 0⟩]
    let topics : List PostgresTopic := [⟨5, 1, 0, 0⟩]
    let q : BlockQueries Unit :=
      ⟨fun _ _ => .ok (some (BlockHeader.new (fun _ => 0) 0 0)), fun _ _ => .ok [⟨1, 0, 0⟩],
        fun _ _ => .ok logs, fun _ _ => .ok topics, fun _ _ => .ok none, fun _ _ => .ok [],
        fun _ _ => .ok [], fun _ _ => .ok []⟩
    let tq : TransactionQueries Unit :=
      ⟨fun _ h => if h = 1 then .ok ⟨1, 0, 0⟩ else .error .rowNotFound,
        fun _ h => .ok (logs.filter (·.transactionHash = h)),
        fun _ h => .ok (topics.filter (·.transactionHash = h))⟩
    let into : IntoTransactionMined := fun tx logs _ =>
      ⟨⟨tx.hash⟩, ⟨[]⟩, logs.map fun l => ⟨l.logIdx⟩, tx.transactionIdx, tx.blockNumber, 0⟩
    let block : Block := ⟨BlockHeader.new (fun _ => 0) 0 0, [⟨⟨1⟩, ⟨[]⟩, [⟨0⟩], 0, 0, 0⟩]⟩
    QueriesAgree tq q () ∧ readBlock into q (fun _ => .ok 0) () (.number 0) = .ok (some block) ∧
      ∃ txs : List PostgresTransaction, SelectedRows q (fun _ => .ok 0) () txs (.number 0) ∧
        List.Forall₂ (fun tx t => readMinedTransaction into tq () tx.hash = .ok (some t)) txs
          block.transactions := by
  intro logs topics q tq into block
  have hagree : QueriesAgree tq q () :=
    ⟨fun _ _ _ _ h1 h2 h3 => by
      cases h1; cases h2; cases h3
      exact ⟨List.nodup_singleton _, fun tx htx => List.mem_singleton.mp htx ▸ ⟨rfl, rfl, rfl⟩⟩,
     fun _ _ _ _ h1 _ _ => by cases h1; exact ⟨List.nodup_nil, nofun⟩⟩
  have hread : readBlock into q (fun _ => .ok 0) () (.number 0) = .ok (some block) := rfl
  exact ⟨hagree, hread, readBlock_readMinedTransaction () (.number 0) block hagree hread⟩

end PostgresPermanentStorage

end Stratus
