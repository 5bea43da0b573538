import Wyrd.Authorization.Race

/-! # The numeric order of the ids

The rounds of the fixed point visit the snapshots in the order of their ids, so
giving a DAG other ids is the same as visiting the original one in another
order.
-/

namespace Wyrd.Authorization

open List Function

open Wyrd.Membership

variable {P : Primitives} {dag : SnapshotDag P} {k : Option Nat}

/-- The same DAG under other ids. -/
structure Renames {P' : Primitives} (rename : SnapshotId ≃ SnapshotId) (dag : SnapshotDag P)
    (dag' : SnapshotDag P') : Prop where
  missing : ∀ id, dag.snapshot id = none → dag'.snapshot (rename id) = none
  observed : ∀ id s, dag.snapshot id = some s → ∃ s', dag'.snapshot (rename id) = some s' ∧
    s'.parents = s.parents.map rename ∧ s'.epoch = s.epoch ∧ s'.isRecovery = s.isRecovery

namespace Renames

variable {P' : Primitives} {rename : SnapshotId ≃ SnapshotId} {dag' : SnapshotDag P'}
  {pre' : SnapshotId → Option Pre}

section

variable (renames : Renames rename dag dag')
include renames

lemma edge : ParentEdge dag' (rename parent) (rename child) ↔ ParentEdge dag parent child := by
  cases hf : dag.snapshot child with
  | none => simp [ParentEdge, hf, renames.missing child hf]
  | some s =>
    obtain ⟨s', hf', hp, _⟩ := renames.observed child s hf
    simp [ParentEdge, hf, hf', hp]

lemma mem_ids (id : SnapshotId) : rename id ∈ dag'.ids ↔ id ∈ dag.ids := by
  rw [Authorization.mem_ids, Authorization.mem_ids]
  cases hf : dag.snapshot id with
  | none => simp [renames.missing id hf]
  | some s =>
    obtain ⟨s', hf', _⟩ := renames.observed id s hf
    simp [hf']

lemma fateOf (parents : List SnapshotId) :
    fateOf dag' pre' (parents.map rename) = fateOf dag (pre' ∘ rename) parents := by
  induction parents with
  | nil => rfl
  | cons parent rest ih =>
    rw [map_cons, Authorization.fateOf, Authorization.fateOf, ih]
    cases hf : dag.snapshot parent with
    | none => simp [renames.missing parent hf]
    | some s =>
      obtain ⟨s', hf', _⟩ := renames.observed parent s hf
      simp only [hf', comp_apply]

lemma seedLive (id : SnapshotId) :
    seedLive dag' pre' (rename id) = seedLive dag (pre' ∘ rename) id := by
  cases hf : dag.snapshot id with
  | none => simp [Authorization.seedLive, hf, renames.missing id hf]
  | some s =>
    obtain ⟨s', hf', parents, _⟩ := renames.observed id s hf
    simp [Authorization.seedLive, parentFate, hf, hf', parents, renames.fateOf]

lemma parentsVerdict (live : SnapshotId → Option Live) (epoch : Nat) (parents : List SnapshotId) :
    parentsVerdict dag' live epoch (parents.map rename) =
      parentsVerdict dag (live ∘ rename) epoch parents := by
  induction parents with
  | nil => rfl
  | cons parent rest ih =>
    rw [map_cons, Authorization.parentsVerdict, Authorization.parentsVerdict, ih]
    cases hf : dag.snapshot parent with
    | none => simp only [renames.missing parent hf, comp_apply]
    | some s =>
      obtain ⟨s', hf', _, he, _⟩ := renames.observed parent s hf
      simp only [hf', he, comp_apply]

lemma anyChild (live : SnapshotId → Option Live) (id : SnapshotId) :
    (childrenOf dag' (rename id)).any (fun c => decide (live c = some .live)) =
      (childrenOf dag id).any (fun c => decide ((live ∘ rename) c = some .live)) := by
  rw [Bool.eq_iff_iff, any_eq_true, any_eq_true]
  simp only [mem_childrenOf, decide_eq_true_eq]
  constructor
  · rintro ⟨child, edge, alive⟩
    obtain ⟨original, rfl⟩ := rename.surjective child
    exact ⟨original, renames.edge.mp edge, alive⟩
  · rintro ⟨child, edge, alive⟩
    exact ⟨rename child, renames.edge.mpr edge, alive⟩

lemma rederive (live : SnapshotId → Option Live) (id : SnapshotId) :
    rederive dag' k pre' live (rename id) =
      rederive dag k (pre' ∘ rename) (live ∘ rename) id := by
  rw [Authorization.rederive, Authorization.rederive, renames.anyChild]
  cases hf : dag.snapshot id with
  | none => simp only [renames.missing id hf, comp_apply]
  | some s =>
    obtain ⟨s', hf', parents, he, _⟩ := renames.observed id s hf
    simp only [hf', parents, he, renames.parentsVerdict, comp_apply]

lemma liveFixedPoint (order : List SnapshotId) (live : SnapshotId → Option Live) :
    liveFixedPoint dag' (order.map rename) k pre' live ∘ rename =
      liveFixedPoint dag order k (pre' ∘ rename) (live ∘ rename) := by
  rw [Authorization.liveFixedPoint, Authorization.liveFixedPoint, length_map]
  refine (Demotion.settle_rename rename (fun table id => ?_) _ live).symm
  rw [renames.rederive]

lemma firstLive (order : List SnapshotId) :
    firstLive dag' (order.map rename) k pre' ∘ rename =
      firstLive dag order k (pre' ∘ rename) := by
  rw [Authorization.firstLive, Authorization.firstLive, renames.liveFixedPoint]
  congr 1
  exact funext renames.seedLive

lemma recoveryRejects (live : SnapshotId → Option Live) (id : SnapshotId) :
    recoveryRejects dag' k pre' live (rename id) =
      recoveryRejects dag k (pre' ∘ rename) (live ∘ rename) id := by
  cases hf : dag.snapshot id with
  | none => simp [Authorization.recoveryRejects, hf, renames.missing id hf]
  | some s =>
    obtain ⟨s', hf', hp, _, hh⟩ := renames.observed id s hf
    have able : recoveryParentsEligible dag' k live (rename id) =
        recoveryParentsEligible dag k (live ∘ rename) id := by
      rw [Bool.eq_iff_iff, recoveryParentsEligible_iff hf', recoveryParentsEligible_iff hf,
        hp, forall_mem_map]
      refine forall₂_congr fun parent _ => and_congr ?_ (and_congr ?_ Iff.rfl)
      · cases atParent : dag.snapshot parent with
        | none => simp [renames.missing parent atParent]
        | some ps =>
          obtain ⟨ps', atParent', _, he, _⟩ := renames.observed parent ps atParent
          simp [atParent', he]
      · constructor
        · intro unnamed other apart edge
          exact unnamed (rename other) (rename.injective.ne apart) (renames.edge.mpr edge)
        · intro unnamed other apart edge
          obtain ⟨original, rfl⟩ := rename.surjective other
          exact unnamed original (fun hs => apart (congrArg rename hs)) (renames.edge.mp edge)
    simp only [Authorization.recoveryRejects, hf, hf', hh, able, comp_apply]

lemma preAfterRecovery (live : SnapshotId → Option Live) :
    preAfterRecovery dag' k pre' live ∘ rename =
      preAfterRecovery dag k (pre' ∘ rename) (live ∘ rename) := by
  funext id
  rw [comp_apply, Authorization.preAfterRecovery, Authorization.preAfterRecovery,
    renames.recoveryRejects, comp_apply]

lemma anyRejected (live : SnapshotId → Option Live) :
    dag'.ids.any (Authorization.recoveryRejects dag' k pre' live) =
      dag.ids.any (Authorization.recoveryRejects dag k (pre' ∘ rename) (live ∘ rename)) := by
  rw [Bool.eq_iff_iff, any_eq_true, any_eq_true]
  constructor
  · rintro ⟨id, hl, bars⟩
    obtain ⟨original, rfl⟩ := rename.surjective id
    exact ⟨original, (renames.mem_ids original).mp hl,
      (renames.recoveryRejects live original).symm.trans bars⟩
  · rintro ⟨id, hl, bars⟩
    exact ⟨rename id, (renames.mem_ids id).mpr hl, (renames.recoveryRejects live id).trans bars⟩

/-- Both runs of the fixed point commute with a renaming, the order of the visits
    renamed along. -/
lemma liveness (order : List SnapshotId) (id : SnapshotId) :
    (liveness dag' (order.map rename) k pre').2 (rename id) =
      (liveness dag order k (pre' ∘ rename)).2 id := by
  simp only [Authorization.liveness, renames.anyRejected, renames.firstLive]
  split_ifs
  · rw [← renames.firstLive, ← renames.preAfterRecovery, ← renames.liveFixedPoint]
    rfl
  · rw [← renames.firstLive]
    rfl

lemma visits : (dag'.ids.map rename.symm).Perm dag.ids := by
  refine (perm_ext_iff_of_nodup (dag'.snapshots.ids_nodup.map rename.symm.injective)
    dag.snapshots.ids_nodup).mpr fun id => ?_
  rw [mem_map]
  constructor
  · rintro ⟨renamed, hl, rfl⟩
    exact (renames.mem_ids _).mp (by rwa [Equiv.apply_symm_apply])
  · intro hl
    exact ⟨rename id, (renames.mem_ids id).mpr hl, by simp⟩

end

end Renames

/-- The kind of verdict each snapshot ends with is the same for every order of
    the visits, and under every renaming of the ids, exactly when no snapshot can
    be reached by both indecision and death. -/
theorem liveness_order_iff (log : MembershipLog P) (dag : SnapshotDag P) (k : Option Nat) :
    ((∀ order, order.Perm dag.ids → ∀ id,
        ((liveness dag order k (preOf log dag)).2 id).map Live.kind =
          ((liveness dag dag.ids k (preOf log dag)).2 id).map Live.kind) ∧
      ∀ (P' : Primitives) (log' : MembershipLog P') (dag' : SnapshotDag P')
        (rename : SnapshotId ≃ SnapshotId), Renames rename dag dag' →
        (∀ id, preOf log' dag' (rename id) = preOf log dag id) → ∀ id,
        ((liveness dag' dag'.ids k (preOf log' dag')).2 (rename id)).map Live.kind =
          ((liveness dag dag.ids k (preOf log dag)).2 id).map Live.kind) ↔
      NoRace dag k (preOf log dag) := by
  constructor
  · rintro ⟨hs, _⟩
    exact noRace_of_kind hs
  · intro noRace
    refine ⟨fun order perm id => noRace.liveness_kind (fun _ => perm.mem_iff.mpr)
      (fun _ hl => hl) id, ?_⟩
    intro P' log' dag' rename renames samePre id
    have pres : preOf log' dag' ∘ rename = preOf log dag := funext samePre
    have met : dag'.ids = (dag'.ids.map rename.symm).map rename := by simp
    rw [met, renames.liveness, pres]
    exact noRace.liveness_kind (fun _ => renames.visits.mem_iff.mpr) (fun _ hl => hl) id

/-- Three snapshots of epoch one in a row; the parent of the first is unknown. -/
def rumourDag (middle last : Signature) : SnapshotDag samplePrimitives :=
  sampleDag [sampleSnapshot [sampleId 4] (sampleId 10) 1 5 one_le_countLimit,
    sampleSnapshot [sampleId 5] (sampleId 10) 1 middle one_le_countLimit,
    sampleSnapshot [sampleId middle.val] (sampleId 10) 1 last one_le_countLimit]

/-- After a rotation, the last of them is found childless when it is visited
    before its parent and undecided when it is visited after it; with ids in the
    one or the other order it classifies as superseded or as pending. -/
theorem order_shows :
    Acyclic (rumourDag 6 7) ∧
      ((liveness (rumourDag 6 7) [sampleId 7, sampleId 6, sampleId 5] (tipEpoch rotatedLog)
          (preOf rotatedLog (rumourDag 6 7))).2 (sampleId 7)).map Live.kind = some .dead ∧
      ((liveness (rumourDag 6 7) (rumourDag 6 7).ids (tipEpoch rotatedLog)
          (preOf rotatedLog (rumourDag 6 7))).2 (sampleId 7)).map Live.kind = some .undecided ∧
      (rumourDag 6 7).ids = [sampleId 5, sampleId 6, sampleId 7] ∧
      classify rotatedLog (rumourDag 6 7) (sampleId 7) = some (.pending .unknownParent) ∧
      classify rotatedLog (rumourDag 7 6) (sampleId 6) = some .superseded :=
  ⟨acyclic_of_ascending (by decide +kernel), by decide +kernel⟩

end Wyrd.Authorization
