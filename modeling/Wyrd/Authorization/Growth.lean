import Wyrd.Authorization.Lineage
import Wyrd.Membership.Canonical

/-! # Classification as the log and the DAG grow

What one more canonical transition, or one more snapshot, leaves as it was. An
advance of the log moves the tip epoch by one and takes no phase-1 verdict back;
a new snapshot changes nothing about those already observed.
-/

namespace Wyrd.Authorization

open Option List

open Wyrd.Membership

variable {P : Primitives} {log log' : MembershipLog P} {dag : SnapshotDag P}

lemma knownState_tip (atTip : log.knownState = some known) :
    (analyse log).status known.transitionId = some .canonical ∧
      (∃ t, log.transition known.transitionId = some t ∧ known.epoch = t.epoch) ∧
      tipEpoch log = some known.epoch := by
  have era : tipEpoch log = some known.epoch := by rw [tipEpoch, atTip, map_some]
  rw [MembershipLog.knownState] at atTip
  cases last : (analyse log).canonical.getLast? with
  | none => simp [last] at atTip
  | some tip =>
    cases hf : log.transition tip with
    | none => simp [last, hf] at atTip
    | some t =>
      simp only [last, hf, map_some, Option.some.injEq] at atTip
      subst atTip
      exact ⟨mem_canonical.mp (mem_of_getLast? last), ⟨t, hf, rfl⟩, era⟩

/-- The larger log extends the canonical chain by one transition. -/
structure Advances (log log' : MembershipLog P) (t : MembershipTransition) : Prop where
  grows : Grows log log'
  observed : log'.transition (P.transitionId t) = some t
  chain : (analyse log').canonical = (analyse log).canonical ++ [P.transitionId t]

lemma tipEpoch_eq (log : MembershipLog P) :
    tipEpoch log = (analyse log).canonical.getLast?.map (fun _ => (analyse log).canonical.length) := by
  obtain ⟨last, path, _⟩ := analyse_last log
  obtain ⟨hs, atLast⟩ := path.spine
  rw [tipEpoch, MembershipLog.knownState, atLast]
  cases last with
  | none => rfl
  | some tip =>
    obtain ⟨t, hf⟩ := isValid_observed (hs.valid tip (mem_of_getLast? atLast))
    have length := path.length_eq
    simp only [slotEpoch, elim_some, epochOf_of_transition hf] at length
    simp [hf, length]

lemma length_of_tipEpoch (tip : tipEpoch log = some k) : (analyse log).canonical.length = k := by
  rw [tipEpoch_eq] at tip
  obtain ⟨_, _, hl⟩ := map_eq_some_iff.mp tip
  exact hl

lemma canonical_valid {id} (hm : id ∈ (analyse log).canonical) :
    isValid (linkOf log) id = true := by
  obtain ⟨last, hp, _⟩ := analyse_last log
  exact hp.spine.1.valid id hm

lemma stateOf_grows (grow : Grows log log') {id} (hm : id ∈ (analyse log).canonical)
    (hm' : id ∈ (analyse log').canonical) : log'.stateOf id = log.stateOf id := by
  rw [MembershipLog.stateOf, MembershipLog.stateOf, states_of_canonical hm, states_of_canonical hm']
  obtain ⟨state, admitted, tie⟩ := isValid_iff.mp (canonical_valid hm)
  simp [linkState, tie, grow.link tie]

namespace Advances

variable {t : MembershipTransition}

section

variable (grown : Advances log log' t)
include grown

lemma canonical {id} (hm : id ∈ (analyse log).canonical) : id ∈ (analyse log').canonical := by
  rw [grown.chain]
  exact mem_append_left _ hm

lemma tipEpoch : tipEpoch log' = some ((analyse log).canonical.length + 1) := by
  rw [tipEpoch_eq, grown.chain]
  simp

lemma tipEpoch_succ (tip : Authorization.tipEpoch log = some k) :
    Authorization.tipEpoch log' = some (k + 1) := by
  rw [grown.tipEpoch, length_of_tipEpoch tip]

lemma tipEpoch_ne : Authorization.tipEpoch log ≠ Authorization.tipEpoch log' := by
  rw [grown.tipEpoch, tipEpoch_eq]
  cases (analyse log).canonical.getLast? <;> simp

lemma passesPhaseOne {drive s} (pass : PassesPhaseOne log drive s) :
    PassesPhaseOne log' drive s := by
  have hm := mem_canonical.mpr pass.canonical
  have hm' := grown.canonical hm
  obtain ⟨bound, hf, he⟩ := pass.epoch
  refine ⟨pass.signed, mem_canonical.mp hm', ⟨bound, grown.grows.transition hf, he⟩, ?_⟩
  rw [stateOf_grows grown.grows hm hm']
  exact pass.author

end

end Advances

lemma PassesPhaseOne.epoch_le (pass : PassesPhaseOne log drive s)
    (tip : tipEpoch log = some k) : s.epoch ≤ k := by
  obtain ⟨bound, hf, he⟩ := pass.epoch
  obtain ⟨last, hp, _⟩ := analyse_last log
  have hb := (hp.spine.1.epoch_mem (mem_canonical.mpr pass.canonical)).2
  rwa [epochOf_of_transition hf, length_of_tipEpoch tip, ← he] at hb

section Observe

variable {c : Snapshot}

lemma snapshot_observe (dag : SnapshotDag P) (c : Snapshot) (id : SnapshotId) :
    (dag.observe c).snapshot id = if id = P.snapshotId c then some c else dag.snapshot id :=
  Observed.lookup_observe dag.snapshots c id

lemma snapshot_observe_of_some (new : dag.snapshot (P.snapshotId c) = none) {id s}
    (hf : dag.snapshot id = some s) : (dag.observe c).snapshot id = some s := by
  rw [snapshot_observe, if_neg, hf]
  rintro rfl
  simp [new] at hf

lemma snapshot_observe_self (dag : SnapshotDag P) (c : Snapshot) :
    (dag.observe c).snapshot (P.snapshotId c) = some c :=
  Observed.lookup_observe_self dag.snapshots c

lemma ParentEdge.observe (new : dag.snapshot (P.snapshotId c) = none) {parent child}
    (edge : ParentEdge dag parent child) : ParentEdge (dag.observe c) parent child := by
  obtain ⟨s, hf, hn⟩ := edge
  exact ⟨s, snapshot_observe_of_some new hf, hn⟩

lemma parentEdge_observe (edge : ParentEdge (dag.observe c) parent child) :
    (child = P.snapshotId c ∧ parent ∈ c.parents) ∨ ParentEdge dag parent child := by
  obtain ⟨s, hf, hn⟩ := edge
  rw [snapshot_observe] at hf
  split_ifs at hf with isNew
  · cases hf
    exact .inl ⟨isNew, hn⟩
  · exact .inr ⟨s, hf, hn⟩

lemma preOf_observe (new : dag.snapshot (P.snapshotId c) = none) {id s}
    (hf : dag.snapshot id = some s) : preOf log (dag.observe c) id = preOf log dag id := by
  rw [preOf, preOf, snapshot_observe_of_some new hf, hf]
  rfl

lemma Acyclic.observe (acyclic : Acyclic dag)
    (unnamed : ∀ child, ¬ ParentEdge dag (P.snapshotId c) child)
    (alien : P.snapshotId c ∉ c.parents) : Acyclic (dag.observe c) := by
  have leaf : ∀ child, ¬ ParentEdge (dag.observe c) (P.snapshotId c) child := by
    intro child edge
    rcases parentEdge_observe edge with ⟨_, hn⟩ | old
    · exact alien hn
    · exact unnamed child old
  have older : ∀ {above below}, Relation.TransGen (ParentEdge (dag.observe c)) above below →
      below ≠ P.snapshotId c → Relation.TransGen (ParentEdge dag) above below := by
    intro above below path apart
    induction path with
    | single edge =>
      rcases parentEdge_observe edge with ⟨isNew, _⟩ | old
      · exact absurd isNew apart
      · exact .single old
    | @tail middle last _ edge ih =>
      have inner : middle ≠ P.snapshotId c := by
        rintro rfl
        exact leaf last edge
      rcases parentEdge_observe edge with ⟨isNew, _⟩ | old
      · exact absurd isNew apart
      · exact .tail (ih inner) old
  intro id cycle
  have apart : id ≠ P.snapshotId c := by
    rintro rfl
    obtain ⟨child, edge, _⟩ := Relation.TransGen.head'_iff.mp cycle
    exact leaf child edge
  exact acyclic id (older cycle apart)

end Observe

end Wyrd.Authorization
