import Mathlib.Data.List.Forall2

/-!
# Forwarding entries to the followers

`Consensus::new` (`consensus.rs:39–80`) spawns a task that sends every message of its channel,
as one `Entry` with index `0`, to the followers it discovered once, through
`append_entries_to_followers` (lines 169–178): `append_entries` (lines 151–167) on each follower
in turn, its errors dropped. The network is a parameter: whether a client can be built and
whether a request is acknowledged may depend on everything sent before. Kubernetes discovery,
the sleeps between attempts and the log lines are left out.
-/

namespace Stratus

namespace Consensus

/-- `Entry`, lines 23–27. -/
structure Entry where
  index : UInt64
  data : String
  deriving DecidableEq, Repr

/-- One `append_entries` request the leader sent: to which follower, with which entries, and
whether the follower acknowledged it. -/
structure Sent where
  follower : String
  entries : List Entry
  acknowledged : Bool
  deriving DecidableEq, Repr

/-- The network as the task meets it, given every request sent before. -/
structure Network where
  /-- `BlockchainClient::new_http_ws(follower, None)`: a client, or its error. -/
  connect : List Sent → String → Except String Unit
  /-- `client.append_entries(entries)`: whether the follower acknowledged the request. -/
  appendEntries : List Sent → String → List Entry → Bool

/-- `RETRY_ATTEMPTS`, line 20. -/
def RETRY_ATTEMPTS : Nat := 3

variable (net : Network)

/-- The loop of `append_entries`, lines 154–164, with `attempts` attempts left: each attempt
sends the entries once, and the first acknowledged one ends the loop. -/
def retry (follower : String) (entries : List Entry) : Nat → List Sent → Bool × List Sent
  | 0, sent => (false, sent)
  | attempts + 1, sent =>
    let acknowledged := net.appendEntries sent follower entries
    let sent := sent ++ [⟨follower, entries, acknowledged⟩]
    if acknowledged then (true, sent) else retry follower entries attempts sent

/-- `Consensus::append_entries`, lines 151–167: the result, and every request sent after
`sent`. -/
def appendEntries (sent : List Sent) (follower : String) (entries : List Entry) :
    Except String Unit × List Sent :=
  match net.connect sent follower with
  | .error e => (.error e, sent)
  | .ok _ =>
    match retry net follower entries RETRY_ATTEMPTS sent with
    | (true, sent) => (.ok (), sent)
    | (false, sent) =>
      (.error ("Failed to append entries to " ++ follower ++ " after " ++
        toString RETRY_ATTEMPTS ++ " attempts"), sent)

/-- `Consensus::append_entries_to_followers`, lines 169–178: each entry to each follower in
turn, every error logged and dropped. -/
def appendEntriesToFollowers (sent : List Sent) (entries : List Entry) (followers : List String) :
    Except String Unit × List Sent :=
  (.ok (), entries.foldl (fun sent entry =>
    followers.foldl (fun sent follower => (appendEntries net sent follower [entry]).2) sent) sent)

/-- The task `Consensus::new` spawns, lines 52–73: every message of the channel, in order, goes to
the followers as one entry with index `0`; `append_entries_to_followers` always returns `Ok`. -/
def replicate (followers : List String) (messages : List String) : List Sent :=
  messages.foldl (fun sent data => (appendEntriesToFollowers net sent [⟨0, data⟩] followers).2) []

variable {net} {follower : String} {entries : List Entry}

/-- Over a network that builds the client and acknowledges the request, `append_entries`
sends the entries once and returns `Ok`. -/
theorem appendEntries_of_acknowledged {sent : List Sent}
    (hc : net.connect sent follower = .ok ()) (ha : net.appendEntries sent follower entries = true) :
    appendEntries net sent follower entries = (.ok (), sent ++ [⟨follower, entries, true⟩]) := by
  simp only [appendEntries, hc, RETRY_ATTEMPTS, retry, ha, if_true]

/-! ### Every follower, every message -/

section Blocks

variable {R : String → String → List Sent → Prop}

/-- Sending one entry to each follower in turn appends one block per follower. -/
theorem foldl_followers {P : String → List Sent → Prop} (entry : Entry)
    (hP : ∀ sent follower, ∃ block,
      (appendEntries net sent follower [entry]).2 = sent ++ block ∧ P follower block) :
    ∀ (followers : List String) (sent : List Sent), ∃ blocks, List.Forall₂ P followers blocks ∧
      followers.foldl (fun sent follower => (appendEntries net sent follower [entry]).2) sent =
        sent ++ blocks.flatten
  | [], sent => ⟨[], .nil, (List.append_nil _).symm⟩
  | g :: gs, sent => by
    obtain ⟨b, hb, hPb⟩ := hP sent g
    obtain ⟨bs, hbs, hfold⟩ := foldl_followers entry hP gs (sent ++ b)
    refine ⟨b :: bs, .cons hPb hbs, ?_⟩
    rw [List.foldl_cons, hb, hfold, List.flatten_cons, List.append_assoc]

/-- A follower not in the list receives none of the blocks. -/
theorem filter_flatten_of_not_mem {f : String} : ∀ {followers : List String}
    {blocks : List (List Sent)}, List.Forall₂ (fun g b => ∀ s ∈ b, s.follower = g) followers blocks →
      f ∉ followers → blocks.flatten.filter (fun s => s.follower = f) = []
  | _, _, .nil, _ => rfl
  | g :: _, b :: _, .cons hb hrest, hf => by
    rw [List.flatten_cons, List.filter_append, filter_flatten_of_not_mem hrest
      (fun h => hf (List.mem_cons_of_mem _ h)), List.append_nil, List.filter_eq_nil_iff]
    intro s hs
    rw [hb s hs, decide_eq_true_iff]
    exact fun h => hf (h ▸ List.mem_cons_self _ _)

/-- Of one block per follower, each sent to its own follower, a follower listed once receives
exactly its own block. -/
theorem filter_flatten_of_mem {P : String → List Sent → Prop} {f : String}
    (hto : ∀ g b, P g b → ∀ s ∈ b, s.follower = g) : ∀ {followers : List String}
    {blocks : List (List Sent)}, List.Forall₂ P followers blocks → followers.Nodup →
      f ∈ followers → ∃ b, P f b ∧ blocks.flatten.filter (fun s => s.follower = f) = b
  | _, _, .nil, _, hf => nomatch hf
  | g :: gs, b :: bs, .cons hb hrest, hnd, hf => by
    rw [List.flatten_cons, List.filter_append]
    obtain ⟨hg, hnd⟩ := List.nodup_cons.mp hnd
    by_cases hgf : g = f
    · subst hgf
      refine ⟨b, hb, ?_⟩
      rw [filter_flatten_of_not_mem (hrest.imp hto) hg, List.append_nil, List.filter_eq_self]
      exact fun s hs => decide_eq_true (hto _ _ hb s hs)
    · obtain ⟨b', hb', hfilter⟩ :=
        filter_flatten_of_mem hto hrest hnd ((List.mem_cons.mp hf).resolve_left (Ne.symm hgf))
      refine ⟨b', hb', ?_⟩
      rw [hfilter, List.filter_eq_nil_iff.mpr, List.nil_append]
      intro s hs
      rw [hto _ _ hb s hs, decide_eq_true_iff]
      exact hgf

/-- Over the whole channel, a follower listed once receives one block per message, in order. -/
theorem foldl_messages {followers : List String} {f : String} (hnd : followers.Nodup)
    (hf : f ∈ followers)
    (hR : ∀ sent g data, ∃ block,
      (appendEntries net sent g [⟨0, data⟩]).2 = sent ++ block ∧ R g data block)
    (hto : ∀ g data b, R g data b → ∀ s ∈ b, s.follower = g) :
    ∀ (messages : List String) (sent : List Sent), ∃ blocks,
      List.Forall₂ (R f) messages blocks ∧
        (messages.foldl (fun sent data =>
            (appendEntriesToFollowers net sent [⟨0, data⟩] followers).2) sent).filter
          (fun s => s.follower = f) = sent.filter (fun s => s.follower = f) ++ blocks.flatten
  | [], sent => ⟨[], .nil, (List.append_nil _).symm⟩
  | data :: messages, sent => by
    obtain ⟨bs, hbs, hfold⟩ := foldl_followers (P := fun g b => R g data b) ⟨0, data⟩
      (fun sent g => hR sent g data) followers sent
    obtain ⟨b, hb, hfilter⟩ := filter_flatten_of_mem (fun g => hto g data) hbs hnd hf
    obtain ⟨rest, hrest, hrun⟩ := foldl_messages hnd hf hR hto messages
      (appendEntriesToFollowers net sent [⟨0, data⟩] followers).2
    refine ⟨b :: rest, .cons hb hrest, ?_⟩
    rw [List.foldl_cons, hrun, appendEntriesToFollowers, List.foldl_cons, List.foldl_nil, hfold,
      List.filter_append, hfilter, List.flatten_cons, List.append_assoc]

end Blocks

/-- Over a network that builds every client and acknowledges every request, a follower listed
once receives each message of the channel exactly once, in order, as the single entry with
index `0`. -/
theorem replicate_reliable (net : Network) (followers messages : List String)
    (hnd : followers.Nodup) (hc : ∀ sent follower, net.connect sent follower = .ok ())
    (ha : ∀ sent follower entries, net.appendEntries sent follower entries = true)
    (f : String) (hf : f ∈ followers) :
    (replicate net followers messages).filter (fun s => s.follower = f) =
      messages.map fun data => ⟨f, [⟨0, data⟩], true⟩ := by
  obtain ⟨blocks, hblocks, hfilter⟩ :=
    foldl_messages (R := fun g data b => b = [⟨g, [⟨0, data⟩], true⟩]) hnd hf
      (fun sent g data => ⟨_, by rw [appendEntries_of_acknowledged (hc sent g) (ha sent g _)], rfl⟩)
      (fun g _ _ hb s hs => by rw [hb, List.mem_singleton] at hs; rw [hs])
      messages []
  rw [replicate, hfilter, List.filter_nil, List.nil_append]
  clear hfilter
  induction hblocks with
  | nil => rfl
  | cons hb _ ih => rw [List.flatten_cons, hb, ih]; rfl

/-- Two followers and two messages over a network that loses nothing. -/
theorem replicate_reliable_two :
    let net : Network := ⟨fun _ _ => .ok (), fun _ _ _ => true⟩
    ["a", "b"].Nodup ∧ "b" ∈ ["a", "b"] ∧
      (replicate net ["a", "b"] ["x", "y"]).filter (fun s => s.follower = "b") =
        [⟨"b", [⟨0, "x"⟩], true⟩, ⟨"b", [⟨0, "y"⟩], true⟩] :=
  ⟨by decide, by decide, replicate_reliable _ ["a", "b"] ["x", "y"] (by decide)
    (fun _ _ => rfl) (fun _ _ _ => rfl) "b" (by decide)⟩

end Consensus

end Stratus
