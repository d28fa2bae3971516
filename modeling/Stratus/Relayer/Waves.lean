import Stratus.Relayer.Construction

/-!
# Runs of `take_roots`

The relayer calls `TransactionDag::take_roots` until it returns `None`. `calls d k` is the
result of `k` successive calls from `d`; `Yields d waves` says those results are the waves in
order and then `None` forever. From a well-formed DAG the run always has that shape
(`WF.yields`): every call removes at least one node, so after at most one call per node the
DAG is empty and stays so, and the waves partition the nodes' transactions. `Reachable d d'`
says some run of calls from `d` leaves `d'`; every such DAG keeps the invariant
(`Reachable.wf`), so the next call cannot panic either.
-/

namespace Stratus

namespace TransactionDag

/-- `k` successive `take_roots` calls, each on the DAG the previous one left. -/
def calls (d : TransactionDag) : Nat → Except String (List (Option (List TransactionMined)))
  | 0 => .ok []
  | k + 1 => do
    let (wave, d) ← d.takeRoots
    let rest ← calls d k
    pure (wave :: rest)

/-- The `i`-th call returns the `i`-th wave, and `None` once the waves are exhausted. -/
def Yields (d : TransactionDag) (waves : List (List TransactionMined)) : Prop :=
  ∀ k, d.calls k = .ok ((List.range k).map fun i => waves[i]?)

/-- The DAGs that successive `take_roots` calls leave, starting from `d`. -/
inductive Reachable (d : TransactionDag) : TransactionDag → Prop
  | refl : Reachable d d
  | step {d' d'' : TransactionDag} {wave : Option (List TransactionMined)} :
      Reachable d d' → d'.takeRoots = .ok (wave, d'') → Reachable d d''

variable {d : TransactionDag}

section Reachable

variable {rank : TransactionMined → Nat}

/-- One `take_roots` call keeps the invariant. -/
theorem wf_takeRoots {wave : Option (List TransactionMined)} {d' : TransactionDag}
    (hg : d.dag.WF rank) (h : d.takeRoots = .ok (wave, d')) : d'.dag.WF rank := by
  rw [takeRoots_eq hg] at h
  obtain ⟨-, rfl⟩ := Prod.mk.inj (Except.ok.inj h)
  exact hg.removeAll _

/-- Every DAG reached by `take_roots` calls from a well-formed one is well-formed. -/
theorem Reachable.wf (hg : d.dag.WF rank) {d' : TransactionDag} (h : Reachable d d') :
    d'.dag.WF rank := by
  induction h with
  | refl => exact hg
  | step _ hstep ih => exact wf_takeRoots ih hstep

end Reachable

theorem calls_succ {wave : Option (List TransactionMined)} {d' : TransactionDag}
    (h : d.takeRoots = .ok (wave, d')) (k : Nat) :
    d.calls (k + 1) = (d'.calls k).map (wave :: ·) := by
  simp only [calls, h, bind, Except.bind, pure, Except.pure, Except.map]

/-- An empty DAG answers `None` to every call. -/
theorem yields_nil (hg : d.dag.WF TransactionMined.rank) (hnil : d.dag.nodes = []) :
    d.Yields [] := by
  have hroots : d.dag.roots = [] := by rw [StableDag.roots, hnil]; rfl
  have hfix : d.takeRoots = .ok (none, d) := by
    rw [takeRoots_eq hg, hroots, if_pos rfl, List.map_nil, StableDag.removeAll_nil]
  intro k
  induction k with
  | zero => rfl
  | succ k ih =>
    simp only [calls_succ hfix, ih, Except.map, List.range_succ_eq_map, List.map_cons,
      List.map_map, Function.comp_def, List.getElem?_nil]

/-- A call that returns a wave prepends it to the rest of the run. -/
theorem Yields.cons {wave : List TransactionMined} {d' : TransactionDag}
    {waves : List (List TransactionMined)} (h : d.takeRoots = .ok (some wave, d'))
    (hy : d'.Yields waves) : d.Yields (wave :: waves) := by
  intro k
  cases k with
  | zero => rfl
  | succ k =>
    simp only [calls_succ h, hy k, Except.map, List.range_succ_eq_map, List.map_cons,
      List.map_map, Function.comp_def, List.getElem?_cons_zero, List.getElem?_cons_succ]

/-- From a well-formed DAG, successive `take_roots` calls never panic, return at most one
non-empty wave per node and then `None` on every later call, and the waves partition the
DAG's transactions. -/
theorem WF.yields (hg : d.dag.WF TransactionMined.rank) :
    ∃ waves, d.Yields waves ∧ waves.length ≤ d.dag.nodes.length ∧ (∀ w ∈ waves, w ≠ []) ∧
      List.Perm waves.flatten (d.dag.nodes.map Prod.snd) := by
  obtain ⟨n, hn⟩ : ∃ n, d.dag.nodes.length = n := ⟨_, rfl⟩
  induction n using Nat.strong_induction_on generalizing d with
  | _ n ih =>
    by_cases hnil : d.dag.nodes = []
    · exact ⟨[], yields_nil hg hnil, Nat.zero_le _, nofun, by rw [hnil]; exact .nil⟩
    · have hroots := hg.roots_ne_nil hnil
      have hperm := d.dag.perm_roots
      have hstep : d.takeRoots = .ok (some (d.dag.roots.map Prod.snd).reverse,
          ⟨d.dag.removeAll (d.dag.roots.map Prod.fst)⟩) := by
        rw [takeRoots_eq hg, if_neg hroots]
      have hlen : (d.dag.removeAll (d.dag.roots.map Prod.fst)).nodes.length < n := by
        have := hperm.length_eq
        simp only [List.length_append] at this
        have := List.length_pos.mpr hroots
        omega
      obtain ⟨waves, hy, hwl, hne, hwp⟩ :=
        @ih _ hlen ⟨d.dag.removeAll (d.dag.roots.map Prod.fst)⟩ (hg.removeAll _) rfl
      refine ⟨_ :: waves, hy.cons hstep, ?_, ?_, ?_⟩
      · change waves.length ≤ (d.dag.removeAll (d.dag.roots.map Prod.fst)).nodes.length at hwl
        rw [List.length_cons]; omega
      · refine List.forall_mem_cons.mpr ⟨?_, hne⟩
        rw [Ne, List.reverse_eq_nil_iff, List.map_eq_nil_iff]
        exact hroots
      · have := (hperm.map Prod.snd).symm
        simp only [List.map_append] at this
        exact (List.reverse_perm _).append hwp |>.trans this

/-- For every list of transactions, duplicate indices included, `new` returns a DAG from
which successive `take_roots` calls return a non-empty wave at most once per transaction and
then `None` on every later call, and the waves concatenate to a permutation of the input. -/
theorem new_takeRoots_perm (txs : List TransactionMined) :
    ∃ d, new txs = .ok d ∧ ∃ waves, d.Yields waves ∧ waves.length ≤ txs.length ∧
      (∀ w ∈ waves, w ≠ []) ∧ List.Perm waves.flatten txs := by
  obtain ⟨waves, hy, hlen, hne, hperm⟩ := @WF.yields ⟨builtDag txs⟩ (wf_builtDag txs)
  have hnodes := nodes_builtDag txs
  refine ⟨_, new_eq txs, waves, hy, ?_, hne, hperm.trans hnodes⟩
  simpa [← hnodes.length_eq] using hlen

end TransactionDag

end Stratus
