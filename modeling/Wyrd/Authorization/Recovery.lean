import Wyrd.Authorization.Growth

/-! # Recovery snapshots after the fact

The recovery parent rule is evaluated against the current tip and the current
heads on every classification, so it judges an old recovery snapshot by a state
it was never made for. The next rotation rejects every recovery snapshot that
names a parent, carried or not, and so does any later sibling.
-/

namespace Wyrd.Authorization

open Wyrd.Membership

variable {P : Primitives} {log log' : MembershipLog P} {dag : SnapshotDag P}

/-- The larger log extends the canonical chain by one rotation. -/
structure RotatesTo (log log' : MembershipLog P) (t : MembershipTransition) : Prop
    extends Advances log log' t where
  rotates : t.changes = [.rotate]

lemma apply_rotate (ran : apply before [.rotate] = .ok after) : after = before := by
  have shape : apply before [.rotate] =
      if before.owners ⊆ before.members then .ok before else .error .danglingOwner := rfl
  rw [shape] at ran
  split_ifs at ran
  exact (Except.ok.inj ran).symm

lemma tipOwners_eq (log : MembershipLog P) :
    tipOwners log = (analyse log).canonical.getLast?.bind (fun tip => log.ownersOf tip) := by
  obtain ⟨last, hp, _⟩ := analyse_last log
  obtain ⟨hs, atLast⟩ := hp.spine
  rw [tipOwners, MembershipLog.knownState, atLast]
  cases last with
  | none => rfl
  | some tip =>
    obtain ⟨t, hf⟩ := isValid_observed (hs.valid tip (List.mem_of_getLast? atLast))
    simp [hf]

namespace RotatesTo

variable {t : MembershipTransition}

lemma stateOf (turns : RotatesTo log log' t) (last : (analyse log).canonical.getLast? = some tip) :
    log'.stateOf (P.transitionId t) = log.stateOf tip := by
  have hm : P.transitionId t ∈ (analyse log').canonical := by simp [turns.chain]
  have before : tip ∈ (analyse log).canonical := List.mem_of_getLast? last
  obtain ⟨lastSlot, hp, _⟩ := analyse_last log'
  have tied : prevOf log' (P.transitionId t) = some tip := by
    rw [← last]
    exact (turns.chain ▸ hp.spine.1).linked
  obtain ⟨s, previous, state, hf, atPrev, hn, ran, _⟩ :=
    valid_derives (canonical_valid hm)
  cases turns.observed.symm.trans hf
  rw [← prevOf_of_transition hf, tied] at atPrev
  rw [turns.rotates] at ran
  rw [← stateOf_grows turns.grows before (turns.canonical before), MembershipLog.stateOf,
    MembershipLog.stateOf, states_of_canonical hm,
    states_of_canonical (turns.canonical before), hn, apply_rotate ran]
  exact atPrev.symm

lemma tipOwners (turns : RotatesTo log log' t)
    (last : (analyse log).canonical.getLast? = some tip) : tipOwners log' = tipOwners log := by
  rw [tipOwners_eq, tipOwners_eq, turns.chain, last]
  simp [MembershipLog.ownersOf, turns.stateOf last]

end RotatesTo

section Rule

variable {k : Option Nat} {pre : SnapshotId → Option Pre} {live : SnapshotId → Option Live}
  {r : SnapshotId} {rs : Snapshot}

lemma mem_referencedBeside {id parent} :
    parent ∈ referencedBeside dag id ↔ ∃ other, other ≠ id ∧ ParentEdge dag parent other := by
  simp only [referencedBeside, List.mem_flatMap, List.mem_filter, decide_eq_true_eq, mem_ids]
  constructor
  · rintro ⟨other, ⟨⟨s, hf⟩, apart⟩, hn⟩
    exact ⟨other, apart, s, hf, by simpa [hf] using hn⟩
  · rintro ⟨other, apart, s, hf, hn⟩
    exact ⟨other, ⟨⟨s, hf⟩, apart⟩, by simpa [hf] using hn⟩

lemma recoveryParentsEligible_iff (hf : dag.snapshot r = some rs) :
    recoveryParentsEligible dag k live r = true ↔
      ∀ parent ∈ rs.parents, (∃ ps, dag.snapshot parent = some ps ∧ some ps.epoch = k) ∧
        (∀ other, other ≠ r → ¬ ParentEdge dag parent other) ∧ live parent = some .live := by
  simp only [recoveryParentsEligible, hf, List.all_eq_true]
  refine forall₂_congr fun parent _ => ?_
  cases hs : dag.snapshot parent with
  | none => simp
  | some =>
    simp only [Bool.and_eq_true, decide_eq_true_eq, mem_referencedBeside, not_exists, not_and,
      Option.some.injEq, exists_eq_left']
    constructor
    · rintro ⟨⟨unnamed, now⟩, alive⟩
      exact ⟨now, unnamed, alive⟩
    · rintro ⟨now, unnamed, alive⟩
      exact ⟨⟨unnamed, now⟩, alive⟩

/-- A recovery snapshot that phase 1 authorized stays so exactly when the parent
    rule holds of it. -/
lemma preAfterRecovery_recovery (hf : dag.snapshot r = some rs) (heals : rs.isRecovery = true) :
    preAfterRecovery dag k pre live r = some .authorized ↔
      pre r = some .authorized ∧ recoveryParentsEligible dag k live r = true := by
  rw [preAfterRecovery_authorized]
  constructor
  · rintro ⟨legal, hk⟩
    exact ⟨legal, by simpa [recoveryRejects, hf, heals, legal] using hk⟩
  · rintro ⟨legal, ha⟩
    exact ⟨legal, by simp [recoveryRejects, hf, ha]⟩

end Rule

lemma live_recovery (hf : dag.snapshot r = some rs) (heals : rs.isRecovery = true)
    (alive : classify log dag r = some .eligible ∨ classify log dag r = some .canonicalHistory) :
    preOf log dag r = some .authorized ∧
      ∀ parent ∈ rs.parents, ∃ ps, dag.snapshot parent = some ps ∧
        some ps.epoch = tipEpoch log := by
  obtain ⟨lineage, hl, hm⟩ := classify_live.mp alive
  obtain ⟨legal, _⟩ := hl r hm
  rw [liveness_pre, preAfterRecovery_recovery hf heals, recoveryParentsEligible_iff hf] at legal
  exact ⟨legal.1, fun parent hn => (legal.2 parent hn).1⟩

section Fate

variable {r : SnapshotId} {rs c : Snapshot} {t : MembershipTransition}

lemma authorized_after_rotation (turns : RotatesTo log log' t)
    (hf : dag.snapshot r = some rs) (legal : preOf log dag r = some .authorized) :
    preOf log' dag r = some .authorized := by
  obtain ⟨s, hs, pass, ho⟩ := preOf_authorized.mp legal
  cases hf.symm.trans hs
  refine preOf_authorized.mpr ⟨rs, hf, turns.passesPhaseOne pass, fun hh => ?_⟩
  have hm := mem_canonical.mpr pass.canonical
  cases last : (analyse log).canonical.getLast? with
  | none =>
    rw [List.getLast?_eq_none_iff] at last
    simp [last] at hm
  | some =>
    rw [turns.tipOwners last]
    exact ho hh

lemma carried_lineage (turns : RotatesTo log log' t) (hf : dag.snapshot r = some rs)
    (heals : rs.isRecovery = true) (legal : preOf log dag r = some .authorized)
    (now : some rs.epoch = tipEpoch log) (orphan : rs.parents = [])
    (new : dag.snapshot (P.snapshotId c) = none) (onR : c.parents = [r])
    (usual : c.isRecovery = false) (pass : PassesPhaseOne log' dag.drive c)
    (tip : some c.epoch = tipEpoch log') (live : SnapshotId → Option Live) :
    SelfLive (dag.observe c) (tipEpoch log')
      (preAfterRecovery (dag.observe c) (tipEpoch log') (preOf log' (dag.observe c)) live)
      {r, P.snapshotId c} := by
  have hf' := snapshot_observe_of_some new hf
  have carried := snapshot_observe_self dag c
  have ordered : rs.epoch ≤ c.epoch := by
    rw [turns.tipEpoch_succ now.symm, Option.some.injEq] at tip
    omega
  intro id hm
  rcases Set.mem_insert_iff.mp hm with rfl | hi
  · refine ⟨?_, rs, hf', by simp [orphan], .inr ⟨P.snapshotId c, by simp, c, carried, ?_⟩⟩
    · rw [preAfterRecovery_recovery hf' heals, preOf_observe new hf, recoveryParentsEligible_iff hf']
      exact ⟨authorized_after_rotation turns hf legal, by simp [orphan]⟩
    · simp [onR]
  · cases Set.mem_singleton_iff.mp hi
    refine ⟨?_, c, carried, fun parent hn => ?_, .inl tip.symm⟩
    · rw [preAfterRecovery_authorized]
      refine ⟨preOf_authorized.mpr ⟨c, carried, pass, by simp [usual]⟩, ?_⟩
      simp [recoveryRejects, carried, usual]
    · rw [onR, List.mem_singleton] at hn
      subst hn
      exact ⟨by simp, rs, hf', ordered⟩

/-- After a rotation, a carried recovery snapshot is history under an eligible
    carry exactly when it names no parent and nothing names the carry. -/
lemma carried_recovery_iff (turns : RotatesTo log log' t) (hf : dag.snapshot r = some rs)
    (heals : rs.isRecovery = true) (able : classify log dag r = some .eligible)
    (new : dag.snapshot (P.snapshotId c) = none) (onR : c.parents = [r])
    (usual : c.isRecovery = false) (pass : PassesPhaseOne log' dag.drive c)
    (tip : some c.epoch = tipEpoch log') :
    (classify log' (dag.observe c) (P.snapshotId c) = some .eligible ∧
        classify log' (dag.observe c) r = some .canonicalHistory) ↔
      rs.parents = [] ∧ ∀ other, ¬ ParentEdge dag (P.snapshotId c) other := by
  have hf' := snapshot_observe_of_some new hf
  have carried := snapshot_observe_self dag c
  obtain ⟨hl, hp⟩ := live_recovery hf heals (.inl able)
  obtain ⟨_, ⟨s, hs, now⟩, _⟩ := classify_eligible.mp able
  cases hf.symm.trans hs
  constructor
  · rintro ⟨hc, hh⟩
    obtain ⟨_, _, unnamed⟩ := classify_eligible.mp hc
    refine ⟨?_, fun other edge => unnamed other (edge.observe new)⟩
    obtain ⟨_, hp'⟩ := live_recovery hf' heals (.inr hh)
    rw [List.eq_nil_iff_forall_not_mem]
    intro parent hn
    obtain ⟨ps, found, prior⟩ := hp parent hn
    obtain ⟨ps', found', ha⟩ := hp' parent hn
    cases (snapshot_observe_of_some new found).symm.trans found'
    exact turns.tipEpoch_ne (prior.symm.trans ha)
  · rintro ⟨ho, unnamed⟩
    have support := carried_lineage turns hf heals hl now ho new onR usual pass tip
    have inLine : ∀ id ∈ ({r, P.snapshotId c} : Set SnapshotId),
        classify log' (dag.observe c) id = some .eligible ∨
          classify log' (dag.observe c) id = some .canonicalHistory := by
      intro id hm
      rw [classify_live, liveness_pre]
      exact ⟨_, support _, hm⟩
    refine ⟨classify_eligible.mpr ⟨inLine _ (by simp), ⟨c, carried, tip⟩, ?_⟩, ?_⟩
    · intro other edge
      rcases parentEdge_observe edge with ⟨_, hn⟩ | prior
      · rw [onR, List.mem_singleton] at hn
        rw [hn, hf] at new
        cases new
      · exact unnamed other prior
    · refine (inLine r (by simp)).resolve_left fun stillHead => ?_
      exact (classify_eligible.mp stillHead).2.2 (P.snapshotId c) ⟨c, carried, by simp [onR]⟩

lemma SelfLive.observe (live : SelfLive dag k (preOf log dag) lineage)
    (new : dag.snapshot (P.snapshotId c) = none) :
    SelfLive (dag.observe c) k (preOf log (dag.observe c)) lineage := by
  intro id hm
  obtain ⟨hl, s, hf, hp, current⟩ := live id hm
  refine ⟨(preOf_observe new hf).trans hl, s, snapshot_observe_of_some new hf,
    fun parent hn => ?_, ?_⟩
  · obtain ⟨mem, ps, found, ho⟩ := hp parent hn
    exact ⟨mem, ps, snapshot_observe_of_some new found, ho⟩
  · rcases current with now | ⟨child, mem, cs, hc, hn⟩
    · exact .inl now
    · exact .inr ⟨child, mem, cs, snapshot_observe_of_some new hc, hn⟩

lemma SelfLive.epoch_le {k pre lineage} (live : SelfLive dag k pre lineage) {id ancestor}
    (hm : id ∈ lineage) (climb : AncestorOrSelf dag ancestor id) {s as}
    (hf : dag.snapshot id = some s) (above : dag.snapshot ancestor = some as) :
    as.epoch ≤ s.epoch := by
  induction climb using Relation.ReflTransGen.head_induction_on generalizing as with
  | refl =>
    cases hf.symm.trans above
    exact le_rfl
  | head he rest ih =>
    obtain ⟨cs, child, hn⟩ := he
    obtain ⟨_, cs', child', hp, _⟩ := live _ (live.ancestors hm rest)
    cases child.symm.trans child'
    obtain ⟨_, as', above', ho⟩ := hp _ hn
    cases above.symm.trans above'
    exact ho.trans (ih child)

/-- A newcomer on a parent of the recovery snapshot makes the parent rule fail. -/
lemma sibling_rejects (hf : dag.snapshot r = some rs) (heals : rs.isRecovery = true)
    (legal : preOf log dag r = some .authorized) (new : dag.snapshot (P.snapshotId c) = none)
    (shared : ∃ parent ∈ rs.parents, parent ∈ c.parents) (live : SnapshotId → Option Live) :
    preAfterRecovery (dag.observe c) (tipEpoch log) (preOf log (dag.observe c)) live r =
      some (.rejected .recoveryParentInvalid) := by
  have hf' := snapshot_observe_of_some new hf
  have hk := (preOf_observe new hf).trans legal
  rw [preAfterRecovery, if_pos]
  suffices fails : recoveryParentsEligible (dag.observe c) (tipEpoch log) live r = false by
    simp [recoveryRejects, hf', heals, hk, fails]
  rw [Bool.eq_false_iff]
  intro hh
  obtain ⟨parent, ofR, ofC⟩ := shared
  have apart : P.snapshotId c ≠ r := by
    rintro rfl
    simp [new] at hf
  exact ((recoveryParentsEligible_iff hf').mp hh parent ofR).2.1 _ apart
    ⟨c, snapshot_observe_self dag c, ofC⟩

lemma classify_of_pre {id s} (hf : dag.snapshot id = some s) {reason}
    (barred : (liveness dag dag.ids (tipEpoch log) (preOf log dag)).1 id =
      some (.rejected reason)) : classify log dag id = some (.rejected reason) := by
  simp [classify_eq, hf, finalClassification, barred]

lemma classify_of_dead {id s} (hf : dag.snapshot id = some s)
    (legal : preOf log dag id = some .authorized) (now : some s.epoch = tipEpoch log)
    (dead : (liveness dag dag.ids (tipEpoch log) (preOf log dag)).2 id = some .dead) :
    classify log dag id = some (.rejected .recoveryParentInvalid) ∨
      classify log dag id = some .stranded := by
  cases bars : recoveryRejects dag (tipEpoch log) (preOf log dag)
      (firstLive dag dag.ids (tipEpoch log) (preOf log dag)) id with
  | true =>
    refine .inl (classify_of_pre hf ?_)
    rw [liveness_pre, preAfterRecovery, if_pos bars]
  | false =>
    right
    have hk : (liveness dag dag.ids (tipEpoch log) (preOf log dag)).1 id = some .authorized := by
      rw [liveness_pre]
      exact preAfterRecovery_authorized.mpr ⟨legal, bars⟩
    simp only [classify_eq, hf, Option.map_some, finalClassification, hk, dead, Option.getD_some]
    simp [← now]

/-- Below a recovery snapshot with a parent, what is live is at the tip epoch. -/
lemma current_below (hf : dag.snapshot r = some rs) (heals : rs.isRecovery = true)
    (hn : rs.parents ≠ []) {lineage} (live : SelfLive dag (tipEpoch log)
      (liveness dag dag.ids (tipEpoch log) (preOf log dag)).1 lineage) {d ds} (hm : d ∈ lineage)
    (hb : AncestorOrSelf dag r d) (seen : dag.snapshot d = some ds) :
    some ds.epoch = tipEpoch log := by
  have above := live.ancestors hm hb
  obtain ⟨_, parents⟩ :=
    live_recovery hf heals (classify_live.mpr ⟨lineage, live, above⟩)
  obtain ⟨_, rs', hf', hr, _⟩ := live r above
  cases hf.symm.trans hf'
  obtain ⟨parent, isParent⟩ := List.exists_mem_of_ne_nil _ hn
  obtain ⟨ps, found, tip⟩ := parents parent isParent
  obtain ⟨_, ps', found', ho⟩ := hr parent isParent
  cases found.symm.trans found'
  have lower := live.epoch_le hm hb seen hf
  rw [liveness_pre] at live
  obtain ⟨s, sFound, hp, _⟩ := preOf_authorized.mp (live.weaken d hm).1
  cases seen.symm.trans sFound
  have upper := hp.epoch_le tip.symm
  rw [← tip, Option.some.injEq]
  omega

lemma sibling_kills (hf : dag.snapshot r = some rs) (heals : rs.isRecovery = true)
    (new : dag.snapshot (P.snapshotId c) = none)
    (shared : ∃ parent ∈ rs.parents, parent ∈ c.parents) {d} (hb : AncestorOrSelf dag r d)
    (alive : classify log dag d = some .eligible ∨ classify log dag d = some .canonicalHistory) :
    classify log (dag.observe c) d = some (.rejected .recoveryParentInvalid) ∨
      classify log (dag.observe c) d = some .stranded := by
  obtain ⟨lineage, live, hm⟩ := classify_live.mp alive
  obtain ⟨_, ds, seen, _⟩ := live d hm
  have hn : rs.parents ≠ [] := by
    obtain ⟨parent, hp, _⟩ := shared
    exact List.ne_nil_of_mem hp
  have now := current_below hf heals hn live hm hb seen
  obtain ⟨legal, _⟩ := live_recovery hf heals (classify_live.mpr ⟨lineage, live, live.ancestors hm hb⟩)
  rw [liveness_pre] at live
  have hk := live.weaken.observe new
  have first : firstLive (dag.observe c) (dag.observe c).ids (tipEpoch log)
      (preOf log (dag.observe c)) d = some .live :=
    (firstLive_live (fun _ hl => hl) d).mpr ⟨lineage, hk, hm⟩
  refine classify_of_dead (snapshot_observe_of_some new seen) (hk d hm).1 now
    ((liveness_settled (fun _ hl => hl) first).resolve_left fun still => ?_)
  obtain ⟨lineage', live', hm'⟩ := (liveness_live (fun _ hl => hl) d).mp still
  have inLine := live'.ancestors hm'
    (Relation.ReflTransGen.mono (fun _ _ he => ParentEdge.observe new he) _ _ hb)
  have clash := (live' r inLine).1
  rw [liveness_pre, sibling_rejects hf heals legal new shared] at clash
  cases clash

/-- Whether a recovery snapshot stays in the live lineage. Across a rotation with
    a carry on it, it does exactly when it names no parent and nothing names the
    carry beforehand; a newcomer on a parent of it always takes it and all that
    is live below it out. -/
theorem recovery_kept_iff (found : dag.snapshot r = some rs) (recovery : rs.isRecovery = true) :
    (classify log dag r = some .eligible →
      ∀ (log' : MembershipLog P) (t : MembershipTransition) (c : Snapshot),
        RotatesTo log log' t → dag.snapshot (P.snapshotId c) = none → c.parents = [r] →
        c.isRecovery = false → PassesPhaseOne log' dag.drive c → some c.epoch = tipEpoch log' →
        ((classify log' (dag.observe c) (P.snapshotId c) = some .eligible ∧
            classify log' (dag.observe c) r = some .canonicalHistory) ↔
          rs.parents = [] ∧
            ∀ other s, dag.snapshot other = some s → P.snapshotId c ∉ s.parents)) ∧
    (∀ n : Snapshot, dag.snapshot (P.snapshotId n) = none →
      (∃ parent ∈ rs.parents, parent ∈ n.parents) →
      (classify log dag r = some .eligible ∨ classify log dag r = some .canonicalHistory →
        classify log (dag.observe n) r = some (.rejected .recoveryParentInvalid)) ∧
      ∀ d, AncestorOrSelf dag r d →
        (classify log dag d = some .eligible ∨ classify log dag d = some .canonicalHistory) →
        classify log (dag.observe n) d = some (.rejected .recoveryParentInvalid) ∨
          classify log (dag.observe n) d = some .stranded) := by
  constructor
  · intro ha log' t c ht new onR hu hp tip
    rw [carried_recovery_iff ht found recovery ha new onR hu hp tip]
    simp only [ParentEdge, not_exists, not_and]
  · intro n new shared
    refine ⟨fun alive => ?_, fun d hb alive =>
      sibling_kills found recovery new shared hb alive⟩
    refine classify_of_pre (snapshot_observe_of_some new found) ?_
    rw [liveness_pre]
    exact sibling_rejects found recovery (live_recovery found recovery alive).1 new shared _

end Fate

section Sample

def recoverySnapshot (parents : List SnapshotId) (parentsFit : parents.length ≤ countLimit) :
    Snapshot :=
  { sampleSnapshot parents (sampleId 10) 1 6 parentsFit with flags := 1, flagsDefined := rfl }

/-- A recovery snapshot on the one head of epoch one. -/
def recoveredDag : SnapshotDag samplePrimitives :=
  sampleDag [sampleSnapshot [] (sampleId 10) 1 5 (Nat.zero_le _),
    recoverySnapshot [sampleId 5] one_le_countLimit]

def rotatedLog : MembershipLog samplePrimitives :=
  sampleLog [sampleGenesis, rotation 2 (sampleId 10) [] 21 (.refl true)]

def carrySnapshot : Snapshot := sampleSnapshot [sampleId 6] (sampleId 21) 2 7 one_le_countLimit

def siblingSnapshot : Snapshot := sampleSnapshot [sampleId 5] (sampleId 10) 1 8 one_le_countLimit

lemma rotatedLog_rotates :
    RotatesTo (sampleLog [sampleGenesis]) rotatedLog (rotation 2 (sampleId 10) [] 21 (.refl true)) where
  grows := .observe (by decide +kernel)
  observed := by decide +kernel
  chain := by decide +kernel
  rotates := rfl

lemma carry_passes : PassesPhaseOne rotatedLog (sampleId 0) carrySnapshot := by
  have legal : preOf rotatedLog (sampleDag [carrySnapshot]) (sampleId 7) =
      some .authorized := by decide +kernel
  have seen : (sampleDag [carrySnapshot]).snapshot (sampleId 7) = some carrySnapshot := by
    decide +kernel
  obtain ⟨s, hf, hp, _⟩ := preOf_authorized.mp legal
  cases hf.symm.trans seen
  exact hp

/-- The recovery snapshot is the live head; the next rotation rejects it and
    strands its carry, and so does a sibling without any rotation. -/
theorem recovery_lost :
    Acyclic recoveredDag ∧
      RotatesTo (sampleLog [sampleGenesis]) rotatedLog (rotation 2 (sampleId 10) [] 21 (.refl true)) ∧
      PassesPhaseOne rotatedLog (sampleId 0) carrySnapshot ∧ carrySnapshot.parents = [sampleId 6] ∧
      siblingSnapshot.isRecovery = false ∧
      classify (sampleLog [sampleGenesis]) recoveredDag (sampleId 6) = some .eligible ∧
      classify rotatedLog (recoveredDag.observe carrySnapshot) (sampleId 6) =
        some (.rejected .recoveryParentInvalid) ∧
      classify rotatedLog (recoveredDag.observe carrySnapshot) (sampleId 7) = some .stranded ∧
      classify (sampleLog [sampleGenesis]) (recoveredDag.observe siblingSnapshot) (sampleId 6) =
        some (.rejected .recoveryParentInvalid) :=
  ⟨acyclic_of_ascending (by decide +kernel), rotatedLog_rotates, carry_passes, by decide +kernel⟩

theorem recovery_kept_iff_sample :
    (classify rotatedLog ((sampleDag [recoverySnapshot [] (by decide)]).observe carrySnapshot)
          (samplePrimitives.snapshotId carrySnapshot) = some .eligible ∧
        classify rotatedLog ((sampleDag [recoverySnapshot [] (by decide)]).observe carrySnapshot)
          (sampleId 6) = some .canonicalHistory) ∧
      classify (sampleLog [sampleGenesis]) (recoveredDag.observe siblingSnapshot) (sampleId 6) =
        some (.rejected .recoveryParentInvalid) := by
  have orphan : (sampleDag [recoverySnapshot [] (by decide)]).snapshot (sampleId 6) =
      some (recoverySnapshot [] (by decide)) := by decide +kernel
  have onHead : recoveredDag.snapshot (sampleId 6) =
      some (recoverySnapshot [sampleId 5] one_le_countLimit) := by decide +kernel
  constructor
  · refine ((recovery_kept_iff orphan rfl).1 (by decide +kernel) rotatedLog _ carrySnapshot
      rotatedLog_rotates (by decide +kernel) rfl rfl carry_passes (by decide +kernel)).mpr
      ⟨rfl, fun other s hf => ?_⟩
    have unnamed : ∀ doc ∈ (sampleDag [recoverySnapshot [] (by decide)]).snapshots.docs,
        samplePrimitives.snapshotId carrySnapshot ∉ doc.parents := by decide +kernel
    exact unnamed s (Observed.lookup_eq_some.mp hf).1
  · exact ((recovery_kept_iff onHead rfl).2 siblingSnapshot (by decide +kernel)
      ⟨sampleId 5, by decide +kernel, by decide +kernel⟩).1 (.inl (by decide +kernel))

end Sample

end Wyrd.Authorization
