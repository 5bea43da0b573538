import Wyrd.Authorization.Growth
import Wyrd.Membership.Standing

/-! # Valid history

The classes other than rejected and pending are meant for valid history. Phase 1
returns at a voided binding before it compares epochs or looks at the author, so
a voided snapshot has only its signature behind it.
-/

namespace Wyrd.Authorization

open Wyrd.Membership Option

variable {P : Primitives} {log : MembershipLog P} {dag : SnapshotDag P} {id : SnapshotId}
  {s : Snapshot}

/-- The classes a snapshot outside rejected and pending can have. -/
def Classification.isHistory : Classification → Bool
  | .rejected _ | .pending _ => false
  | .voided | .eligible | .canonicalHistory | .superseded | .stranded => true

/-- The bound transition has a derived state, the snapshot carries its epoch and
    was made by one of its members. -/
def BoundToMember (log : MembershipLog P) (s : Snapshot) : Prop :=
  ∃ t state, log.transition s.membership = some t ∧ log.stateOf s.membership = some state ∧
    s.epoch = t.epoch ∧ s.author ∈ state.members

structure HistoricallyValid (log : MembershipLog P) (drive : DriveId) (s : Snapshot) : Prop where
  signed : verifySnapshot P drive s = .ok ()
  bound : BoundToMember log s

lemma PassesPhaseOne.historicallyValid (pass : PassesPhaseOne log drive s) :
    HistoricallyValid log drive s := by
  obtain ⟨t, hf, he⟩ := pass.epoch
  obtain ⟨state, hd, hm⟩ := pass.author
  exact ⟨pass.signed, t, state, hf, hd, he, hm⟩

lemma voided_observed (voided : (analyse log).status bound = some .voided) :
    ∃ t state, log.transition bound = some t ∧ log.stateOf bound = some state := by
  have isSettled : ((analyse log).status bound).any settled = true := by simp [voided, settled]
  have hv := valid_of_settled isSettled
  obtain ⟨t, hf⟩ := isValid_observed hv
  obtain ⟨state, admitted, ht⟩ := isValid_iff.mp hv
  refine ⟨t, state, hf, ?_⟩
  rw [MembershipLog.stateOf, states_eq, if_pos isSettled]
  exact linkState_eq_some.mpr ⟨admitted, ht⟩

lemma preverdict_voided {drive tipOwners} :
    preverdict drive log log.statuses s tipOwners = .voided ↔
      verifySnapshot P drive s = .ok () ∧ (analyse log).status s.membership = some .voided := by
  rw [← MembershipLog.statuses]
  constructor
  · intro ruled
    simp only [preverdict] at ruled
    cases signed : verifySnapshot P drive s with
    | error => simp [signed] at ruled
    | ok =>
      refine ⟨rfl, ?_⟩
      cases hf : log.transition s.membership with
      | none => simp [signed, hf] at ruled
      | some =>
        simp only [signed, hf] at ruled
        split at ruled
        · cases ruled
        · cases ruled
        · cases ruled
        · assumption
        · cases ruled
        · cases ruled
        · -- a canonical binding goes on to the checks, none of which voids
          split at ruled
          · cases ruled
          · split at ruled
            · cases ruled
            · split_ifs at ruled
  · rintro ⟨signed, voided⟩
    obtain ⟨t, _, hf, _⟩ := voided_observed voided
    simp only [preverdict, signed, hf, voided]

lemma finalClassification_history (noted : pre id = some verdict)
    (history : (finalClassification dag k pre live id s).isHistory = true) :
    verdict = .voided ∨ verdict = .authorized := by
  cases verdict with
  | rejected => simp [finalClassification, noted, Classification.isHistory] at history
  | pending => simp [finalClassification, noted, Classification.isHistory] at history
  | voided => exact .inl rfl
  | authorized => exact .inr rfl

lemma preOf_of_history (classed : classify log dag id = some c) (history : c.isHistory = true) :
    preOf log dag id = some .voided ∨ preOf log dag id = some .authorized := by
  rw [classify_eq, liveness_pre, map_eq_some_iff] at classed
  obtain ⟨s, hf, rfl⟩ := classed
  cases bars : recoveryRejects dag (tipEpoch log) (preOf log dag)
      (firstLive dag dag.ids (tipEpoch log) (preOf log dag)) id with
  | true =>
    rcases finalClassification_history (if_pos bars) history with absurdity | absurdity <;> cases absurdity
  | false =>
    have noted : preAfterRecovery dag (tipEpoch log) (preOf log dag)
        (firstLive dag dag.ids (tipEpoch log) (preOf log dag)) id =
          some (preverdict dag.drive log log.statuses s (tipOwners log)) := by
      rw [preAfterRecovery, if_neg (by simp [bars]), preOf, hf]
      rfl
    rw [preOf, hf, map_some, Option.some.injEq, Option.some.injEq]
    exact finalClassification_history noted history

lemma classify_of_voided (voided : preOf log dag id = some .voided) :
    classify log dag id = some .voided := by
  have hf := voided
  rw [preOf, map_eq_some_iff] at hf
  obtain ⟨s, hf, _⟩ := hf
  have hk : (liveness dag dag.ids (tipEpoch log) (preOf log dag)).1 id = some .voided := by
    rw [liveness_pre, preAfterRecovery, if_neg, voided]
    simp [recoveryRejects, hf, voided]
  simp [classify_eq, hf, finalClassification, hk]

/-- A snapshot classed as history is valid history, exactly when its binding, if
    that is a voided transition and the signature verifies, has its epoch and its
    author. -/
theorem history_valid_iff (found : dag.snapshot id = some s) :
    ((∃ c, classify log dag id = some c ∧ c.isHistory = true) →
      HistoricallyValid log dag.drive s) ↔
    (verifySnapshot P dag.drive s = .ok () → log.status s.membership = some .voided →
      BoundToMember log s) := by
  have noted : preOf log dag id =
      some (preverdict dag.drive log log.statuses s (tipOwners log)) := by rw [preOf, found]; rfl
  constructor
  · intro hv signed status
    have voided : (analyse log).status s.membership = some .voided := by
      rw [MembershipLog.status] at status
      split at status
      · cases status
      · exact status
    have hk := classify_of_voided (noted.trans (congrArg some (preverdict_voided.mpr ⟨signed, voided⟩)))
    exact (hv ⟨.voided, hk, rfl⟩).bound
  · rintro hb ⟨c, hc, hh⟩
    rcases preOf_of_history hc hh with voided | hl
    · obtain ⟨signed, status⟩ := preverdict_voided.mp (Option.some.inj (noted.symm.trans voided))
      obtain ⟨t, _, hs, _⟩ := voided_observed status
      exact ⟨signed, hb signed (by simp [MembershipLog.status, hs, status])⟩
    · obtain ⟨s', hf', hp, _⟩ := preOf_authorized.mp hl
      cases found.symm.trans hf'
      exact hp.historicallyValid

section Sample

/-- A stranger's snapshot, bound with the wrong epoch to the rotation that the
    resolution voids. -/
def strangerSnapshot : Snapshot :=
  { sampleSnapshot [] (sampleId 22) 9 5 (Nat.zero_le _) with author := sampleId 3 }

def loserSnapshot : Snapshot := sampleSnapshot [] (sampleId 22) 2 5 (Nat.zero_le _)

/-- The stranger's snapshot is classed as voided, with neither the epoch of the
    transition it names nor an author among its members. -/
theorem stranger_voided :
    (sampleDag [strangerSnapshot]).snapshot (sampleId 5) = some strangerSnapshot ∧
      classify resolvedLog (sampleDag [strangerSnapshot]) (sampleId 5) = some .voided ∧
      (resolvedLog.membersOf strangerSnapshot.membership).all (fun members =>
        strangerSnapshot.author ∉ members) = true ∧
      ¬ HistoricallyValid resolvedLog (sampleId 0) strangerSnapshot := by
  refine ⟨by decide +kernel, by decide +kernel, by decide +kernel, ?_⟩
  rintro ⟨_, t, _, hf, _, he, _⟩
  have bound : resolvedLog.transition strangerSnapshot.membership =
      some (rotation 2 (sampleId 10) [] 22 (.refl true)) := by decide +kernel
  cases hf.symm.trans bound
  exact absurd he (by decide)

theorem history_valid_iff_loser :
    ((∃ c, classify resolvedLog (sampleDag [loserSnapshot]) (sampleId 5) = some c ∧
        c.isHistory = true) → HistoricallyValid resolvedLog (sampleId 0) loserSnapshot) ↔
      (verifySnapshot samplePrimitives (sampleId 0) loserSnapshot = .ok () →
        resolvedLog.status loserSnapshot.membership = some .voided →
        BoundToMember resolvedLog loserSnapshot) :=
  history_valid_iff (show (sampleDag [loserSnapshot]).snapshot (sampleId 5) = some loserSnapshot by
    decide +kernel)

end Sample

end Wyrd.Authorization
