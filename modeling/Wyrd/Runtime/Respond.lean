import Wyrd.Durable.Replay
import Wyrd.Membership.Resolution

/-! # Answering a reconciliation statement

A sender compares the evidence a recipient stated against the transitions it
still owes that recipient, and retires what the evidence covers. Coverage is
widened along the predecessor links of the sender's own log: an owed transition
is covered when the recipient holds it, or holds a transition the sender knows
whose predecessors pass through it.
-/

namespace Wyrd.Runtime

open List Option Finset

open Wyrd.Durable Wyrd.Membership

variable {P : Primitives}

/-- What the sender still owes one recipient, in order. -/
def outstandingTransitions (runtime : RuntimeState P) (recipient : DeviceId) : List TransitionId :=
  (runtime.pendingTransitions.filter (fun pair => decide (pair.2 = recipient))).map Prod.fst

/-- The predecessors met walking back from `cursor`; an unobserved one is met
    and ends the walk. `none` is a walk that outruns its fuel. -/
def prevWalk (log : MembershipLog P) : Nat → TransitionId → Option (List TransitionId)
  | 0, _ => none
  | fuel + 1, cursor =>
    match log.transition cursor with
    | none => some []
    | some t =>
      match t.prev with
      | none => some []
      | some prev => (prevWalk log fuel prev).map (prev :: ·)

/-- The ancestry pass of one statement: a walk from every stated transition the
    sender observed. -/
def ancestral (log : MembershipLog P) (evidence : ReconciliationEvidence) :
    Option (List TransitionId) :=
  ((evidence.transitions.docs.filter (fun id => (log.transition id).isSome)).mapM
    (prevWalk log (log.len + 1))).map List.flatten

/-- The outstanding transitions the evidence covers. -/
def coveredTransitions (outstanding : List TransitionId) (evidence : ReconciliationEvidence)
    (log : MembershipLog P) : Option (List TransitionId) :=
  if outstanding = [] then some []
  else (ancestral log evidence).map (fun marked => outstanding.filter (fun id =>
    decide (id ∈ evidence.transitions.docs) || decide (id ∈ marked)))

/-- `earlier` is the predecessor `later` names, and `later` is observed. -/
def Precedes (log : MembershipLog P) (earlier later : TransitionId) : Prop :=
  prevOf log later = some earlier

/-- No observed transition is its own ancestor, as hashing guarantees. -/
def PrevAcyclic (log : MembershipLog P) : Prop := ∀ id, ¬ Relation.TransGen (Precedes log) id id

lemma prevWalk_succ (log : MembershipLog P) (fuel : Nat) (cursor : TransitionId) :
    prevWalk log (fuel + 1) cursor =
      match prevOf log cursor with
      | none => some []
      | some prev => (prevWalk log fuel prev).map (prev :: ·) := by
  simp only [prevWalk, prevOf]
  cases log.transition cursor <;> rfl

variable {log : MembershipLog P}

lemma mem_prevWalk {fuel cursor id met} (walk : prevWalk log fuel cursor = some met) :
    id ∈ met ↔ Relation.TransGen (Precedes log) id cursor := by
  induction fuel generalizing cursor met with
  | zero => simp [prevWalk] at walk
  | succ fuel ih =>
    rw [prevWalk_succ] at walk
    rw [Relation.TransGen.tail'_iff]
    cases tied : prevOf log cursor with
    | none =>
      simp only [tied, Option.some.injEq] at walk
      subst walk
      simp [Precedes, tied]
    | some =>
      simp only [tied, Option.map_eq_some_iff] at walk
      obtain ⟨rest, hm, rfl⟩ := walk
      simp only [List.mem_cons, ih hm, Precedes, tied, Option.some.injEq]
      rw [exists_eq_right', Relation.reflTransGen_iff_eq_or_transGen, eq_comm]

/-- Without cycles the walk ends: it never meets an observed transition twice,
    so the observed ancestors of the cursor bound it. -/
lemma prevWalk_isSome (acyclic : PrevAcyclic log) {remaining : Finset TransitionId}
    (bounded : ∀ id, (log.transition id).isSome → Relation.ReflTransGen (Precedes log) id cursor →
      id ∈ remaining) : (prevWalk log (remaining.card + 1) cursor).isSome := by
  induction size : remaining.card generalizing remaining cursor with
  | zero =>
    have unseen : log.transition cursor = none := by
      by_contra observed
      have hm := bounded cursor (isSome_iff_ne_none.mpr observed) .refl
      rw [card_eq_zero.mp size] at hm
      exact notMem_empty _ hm
    simp [prevWalk, unseen]
  | succ size' ih =>
    rw [prevWalk_succ]
    cases tied : prevOf log cursor with
    | none => rfl
    | some prev =>
      have observed : (log.transition cursor).isSome := by
        cases hf : log.transition cursor with
        | none => simp [prevOf, hf] at tied
        | some => rfl
      have hh : cursor ∈ remaining := bounded cursor observed .refl
      -- an ancestor of the predecessor is not the cursor again
      have smaller : ∀ id, (log.transition id).isSome →
          Relation.ReflTransGen (Precedes log) id prev → id ∈ remaining.erase cursor := by
        intro id seen hb
        refine mem_erase.mpr ⟨?_, bounded id seen (hb.tail tied)⟩
        rintro rfl
        exact acyclic id (.tail' hb tied)
      have card : (remaining.erase cursor).card = size' := by
        rw [card_erase_of_mem hh, size]
        rfl
      rw [isSome_map]
      exact ih smaller card

lemma prevWalk_ends (acyclic : PrevAcyclic log) (cursor : TransitionId) :
    ∃ met, prevWalk log (log.len + 1) cursor = some met := by
  have bounded : ∀ id, (log.transition id).isSome →
      Relation.ReflTransGen (Precedes log) id cursor → id ∈ log.observedIds.toFinset := by
    intro id hs _
    exact mem_toFinset.mpr (Observed.mem_ids.mpr (isSome_iff_exists.mp hs))
  have ends := prevWalk_isSome acyclic bounded
  rw [MembershipLog.observedIds, toFinset_card_of_nodup log.transitions.ids_nodup,
    Observed.length_ids] at ends
  exact isSome_iff_exists.mp ends

/-- The pass marks the proper ancestors of the stated transitions. -/
lemma ancestral_spec (acyclic : PrevAcyclic log) (evidence : ReconciliationEvidence) :
    ∃ marked, ancestral log evidence = some marked ∧ ∀ id, id ∈ marked ↔
      ∃ successor ∈ evidence.transitions.docs, Relation.TransGen (Precedes log) id successor := by
  have ends : ∀ cursor ∈ evidence.transitions.docs.filter (fun id => (log.transition id).isSome),
      ∃ met, prevWalk log (log.len + 1) cursor = some met :=
    fun cursor _ => prevWalk_ends acyclic cursor
  obtain ⟨walks, all, hmem⟩ := mapM_total ends
  refine ⟨walks.flatten, by rw [ancestral, all, map_some], fun id => ?_⟩
  simp only [mem_flatten, hmem, mem_filter]
  constructor
  · rintro ⟨met, ⟨successor, ⟨stated, _⟩, walk⟩, hm⟩
    exact ⟨successor, stated, (mem_prevWalk walk).mp hm⟩
  · rintro ⟨successor, stated, hb⟩
    obtain ⟨met, walk⟩ := prevWalk_ends acyclic successor
    have seen : (log.transition successor).isSome := by
      obtain ⟨_, _, ht⟩ := Relation.TransGen.tail'_iff.mp hb
      cases hf : log.transition successor with
      | none => simp [Precedes, prevOf, hf] at ht
      | some => rfl
    exact ⟨met, ⟨successor, ⟨stated, seen⟩, walk⟩, (mem_prevWalk walk).mpr hb⟩

lemma coveredTransitions_spec (acyclic : PrevAcyclic log) (outstanding : List TransitionId)
    (evidence : ReconciliationEvidence) :
    ∃ covered, coveredTransitions outstanding evidence log = some covered ∧ ∀ id, id ∈ covered ↔
      id ∈ outstanding ∧ (id ∈ evidence.transitions.docs ∨
        ∃ successor ∈ evidence.transitions.docs, Relation.TransGen (Precedes log) id successor) := by
  unfold coveredTransitions
  split_ifs with hb
  · exact ⟨[], rfl, by simp [hb]⟩
  · obtain ⟨marked, hp, hmem⟩ := ancestral_spec acyclic evidence
    refine ⟨_, by rw [hp, map_some], fun id => ?_⟩
    simp only [mem_filter, Bool.or_eq_true, decide_eq_true_eq, hmem]

/-- The fact list commits a transition with this id. -/
def Holds (P : Primitives) (facts : List Fact) (id : TransitionId) : Prop :=
  ∃ t, .transition t ∈ facts ∧ P.transitionId t = id

lemma mem_derived_transitions {facts id} :
    id ∈ (deriveEvidence P facts).transitions.docs ↔ Holds P facts id := by
  simp [deriveEvidence, Holds]

/-- Everything a sender retires on a recipient's own statement is held by the
    recipient, exactly when the recipient holds every owed transition that lies
    below one it does hold. -/
theorem reconciled_held_iff {D : Digests} {drive : DriveId} {sender recipient : DeviceId}
    {held owed : List Fact} {rebuilt : Rebuilt P}
    (rebuilds : rebuildFacts P D drive owed sender = .ok rebuilt)
    (acyclic : PrevAcyclic rebuilt.log) :
    ∃ covered, coveredTransitions (outstandingTransitions rebuilt.runtime recipient)
        (deriveEvidence P held) rebuilt.log = some covered ∧
      ((∀ id ∈ covered, Holds P held id) ↔
        ∀ id ∈ outstandingTransitions rebuilt.runtime recipient,
          ∀ successor, Holds P held successor →
            Relation.TransGen (Precedes (logOf P drive owed)) id successor → Holds P held id) := by
  obtain ⟨covered, hm, hmem⟩ := coveredTransitions_spec acyclic
    (outstandingTransitions rebuilt.runtime recipient) (deriveEvidence P held)
  refine ⟨covered, hm, ?_⟩
  rw [(rebuildFacts_ok.mp rebuilds).2.2.1] at hmem
  simp only [hmem, mem_derived_transitions]
  constructor
  · intro safe id owes successor holds hb
    exact safe id ⟨owes, .inr ⟨successor, holds, hb⟩⟩
  · rintro hc id ⟨owes, holds | ⟨successor, holds, hb⟩⟩
    · exact holds
    · exact hc id owes successor holds hb

section Sample

/-- The sender rotated twice after the genesis and still owes the first
    rotation to device 2. -/
def owingFacts : List Fact :=
  [.transition sampleGenesis, .transition (rotation 2 (sampleId 10) [] 21 (.refl true)),
    .transition (rotation 3 (sampleId 21) [] 31 (.refl true)), .transitionQueued (sampleId 21) (sampleId 2)]

/-- The recipient received the second rotation and not the first. -/
def gapFacts : List Fact :=
  [.transition sampleGenesis, .transition (rotation 3 (sampleId 21) [] 31 (.refl true))]

def sampleDigests : Digests := ⟨fun _ => sampleId 0, fun _ _ => 0⟩

/-- The transitions a sender with `owed` retires on the statement of a recipient
    with `held`. -/
def retires (held owed : List Fact) : Option (List TransitionId) :=
  match rebuildFacts samplePrimitives sampleDigests (sampleId 0) owed (sampleId 1) with
  | .error _ => none
  | .ok rebuilt =>
    coveredTransitions (outstandingTransitions rebuilt.runtime (sampleId 2))
      (deriveEvidence samplePrimitives held) rebuilt.log

/-- The first rotation is retired although the recipient does not hold it; the
    second one is pending there for want of it. -/
theorem gap_retired :
    retires gapFacts owingFacts = some [sampleId 21] ∧
      ¬ Holds samplePrimitives gapFacts (sampleId 21) ∧
      (logOf samplePrimitives (sampleId 0) gapFacts).status (sampleId 31) = some .pending := by
  refine ⟨by decide +kernel, ?_, by decide +kernel⟩
  rintro ⟨t, hm, hn⟩
  simp only [gapFacts, List.mem_cons, Fact.transition.injEq, List.not_mem_nil, or_false] at hm
  rcases hm with rfl | rfl <;> exact absurd hn (by decide +kernel)

lemma owing_acyclic : PrevAcyclic (logOf samplePrimitives (sampleId 0) owingFacts) := by
  have falls : ∀ {a b : TransitionId},
      Precedes (logOf samplePrimitives (sampleId 0) owingFacts) a b → a < b := by
    intro a b tied
    have seen : b ∈ (logOf samplePrimitives (sampleId 0) owingFacts).observedIds := by
      refine Observed.mem_ids.mpr (isSome_iff_exists.mp ?_)
      cases hf : (logOf samplePrimitives (sampleId 0) owingFacts).transitions.lookup b with
      | none => simp [Precedes, prevOf, MembershipLog.transition, hf] at tied
      | some => rfl
    have hl : ∀ b ∈ (logOf samplePrimitives (sampleId 0) owingFacts).observedIds,
        ∀ a ∈ prevOf (logOf samplePrimitives (sampleId 0) owingFacts) b, a < b := by
      decide +kernel
    exact hl b seen a tied
  intro id cycle
  have hb : id < id := Relation.TransGen.trans_induction_on
    (motive := fun {a b} _ => a < b) cycle (fun tied => falls tied) (fun _ _ => lt_trans)
  exact lt_irrefl id hb

theorem reconciled_held_iff_owing :
    ∃ rebuilt covered,
      rebuildFacts samplePrimitives sampleDigests (sampleId 0) owingFacts (sampleId 1) =
          .ok rebuilt ∧
        coveredTransitions (outstandingTransitions rebuilt.runtime (sampleId 2))
          (deriveEvidence samplePrimitives owingFacts) rebuilt.log = some covered ∧
        ((∀ id ∈ covered, Holds samplePrimitives owingFacts id) ↔
          ∀ id ∈ outstandingTransitions rebuilt.runtime (sampleId 2),
            ∀ successor, Holds samplePrimitives owingFacts successor →
              Relation.TransGen (Precedes (logOf samplePrimitives (sampleId 0) owingFacts)) id
                successor → Holds samplePrimitives owingFacts id) := by
  have rebuilds : ∃ rebuilt,
      rebuildFacts samplePrimitives sampleDigests (sampleId 0) owingFacts (sampleId 1) =
        .ok rebuilt := ⟨_, rfl⟩
  obtain ⟨rebuilt, rebuilds⟩ := rebuilds
  have acyclic : PrevAcyclic rebuilt.log := by
    rw [(rebuildFacts_ok.mp rebuilds).2.2.1]
    exact owing_acyclic
  obtain ⟨covered, hm, iff⟩ := reconciled_held_iff rebuilds acyclic
  exact ⟨rebuilt, covered, rebuilds, hm, iff⟩

end Sample

end Wyrd.Runtime
