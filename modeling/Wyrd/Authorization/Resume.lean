import Wyrd.Authorization.Recovery

/-! # The seed set of an interrupted admission

Resume reads the heads of a past epoch off the present log and DAG. The horizon
is pinned, but heads, the references beside a recovery snapshot and the sole
owner are those of today, so the projection is the past one only as long as
nothing observed since names an old seed and the owner of old recovery snapshots
stayed.
-/

namespace Wyrd.Authorization

open List Option

open Wyrd.Membership

variable {P : Primitives} {log log' : MembershipLog P} {dag dag' : SnapshotDag P} {epoch : Nat}
  {head : SnapshotId}

/-- The recovery parent rule without its liveness test: the parents are current
    and named by nothing else. -/
def SoleChild (dag : SnapshotDag P) (epoch : Nat) (id : SnapshotId) (s : Snapshot) : Prop :=
  ∀ parent ∈ s.parents, (∃ ps, dag.snapshot parent = some ps ∧ ps.epoch = epoch) ∧
    ∀ other, other ≠ id → ¬ ParentEdge dag parent other

/-- A head at the epoch whose ancestry passes every check but the recovery
    ownership. -/
structure Candidate (log : MembershipLog P) (dag : SnapshotDag P) (epoch : Nat)
    (head : SnapshotId) : Prop where
  current : ∃ s, dag.snapshot head = some s ∧ s.epoch = epoch
  unnamed : ∀ other, ¬ ParentEdge dag head other
  ancestry : ∀ ancestor, AncestorOrSelf dag ancestor head → ∃ s, dag.snapshot ancestor = some s ∧
    PassesPhaseOne log dag.drive s ∧
    (∀ parent ∈ s.parents, ∀ ps, dag.snapshot parent = some ps → ps.epoch ≤ s.epoch) ∧
    (s.isRecovery = true → SoleChild dag epoch ancestor s)

/-- Every recovery snapshot in the ancestry is by the sole owner. -/
def RecoveredBy (owners : Option (Finset DeviceId)) (dag : SnapshotDag P) (head : SnapshotId) :
    Prop :=
  ∀ ancestor s, AncestorOrSelf dag ancestor head → dag.snapshot ancestor = some s →
    s.isRecovery = true → recoveryOwner owners s.author = true

/-- The ancestry of a candidate supports itself once its recovery snapshots are
    the owner's. -/
lemma Candidate.selfLive (picked : Candidate log dag epoch head)
    (owned : RecoveredBy (tipOwners log) dag head) :
    SelfLive dag (some epoch) (preOf log dag) {ancestor | AncestorOrSelf dag ancestor head} := by
  obtain ⟨s, hf, hn⟩ := picked.current
  refine selfLive_above ⟨s, hf, congrArg some hn⟩ fun ancestor above => ?_
  obtain ⟨s, hf, hp, ho, _⟩ := picked.ancestry ancestor above
  exact ⟨s, hf, preOf_authorized.mpr ⟨s, hf, hp, owned ancestor s above hf⟩, ho⟩

lemma Candidate.observed (picked : Candidate log dag epoch head)
    (path : AncestorOrSelf dag above head) : ∃ s, dag.snapshot above = some s := by
  obtain ⟨s, hf, _⟩ := picked.ancestry above path
  exact ⟨s, hf⟩

/-- The recovery parent rule takes nothing from the ancestry of a candidate. -/
lemma Candidate.selfLive_after (picked : Candidate log dag epoch head)
    (owned : RecoveredBy (tipOwners log) dag head) :
    SelfLive dag (some epoch) (preAfterRecovery dag (some epoch) (preOf log dag)
      (firstLive dag dag.ids (some epoch) (preOf log dag)))
      {ancestor | AncestorOrSelf dag ancestor head} := by
  have first := picked.selfLive owned
  intro ancestor above
  obtain ⟨legal, rest⟩ := first ancestor above
  refine ⟨?_, rest⟩
  obtain ⟨s, hf, _, _, alone⟩ := picked.ancestry ancestor above
  cases heals : s.isRecovery with
  | false =>
    exact preAfterRecovery_authorized.mpr ⟨legal, by simp [recoveryRejects, hf, heals]⟩
  | true =>
    rw [preAfterRecovery_recovery hf heals, recoveryParentsEligible_iff hf]
    refine ⟨legal, fun parent hn => ?_⟩
    obtain ⟨⟨ps, found, now⟩, ho⟩ := alone heals parent hn
    refine ⟨⟨ps, found, congrArg some now⟩, ho, ?_⟩
    rw [firstLive_live fun _ hl => hl]
    exact ⟨_, first, .head ⟨s, hf, hn⟩ above⟩

lemma candidate_of_selfLive (selfLive : SelfLive dag (some epoch)
      (preAfterRecovery dag (some epoch) (preOf log dag) live) lineage) (hm : head ∈ lineage)
    (now : ∃ s, dag.snapshot head = some s ∧ s.epoch = epoch)
    (unnamed : ∀ other, ¬ ParentEdge dag head other) :
    Candidate log dag epoch head ∧ RecoveredBy (tipOwners log) dag head := by
  have passed : ∀ ancestor, AncestorOrSelf dag ancestor head → ∃ s,
      dag.snapshot ancestor = some s ∧ PassesPhaseOne log dag.drive s ∧
        (s.isRecovery = true → recoveryOwner (tipOwners log) s.author = true) := by
    intro ancestor above
    exact preOf_authorized.mp (selfLive.weaken ancestor (selfLive.ancestors hm above)).1
  refine ⟨⟨now, unnamed, fun ancestor above => ?_⟩, fun ancestor s above hf => ?_⟩
  · obtain ⟨s, hf, legal, ho⟩ := selfLive.ordered (selfLive.ancestors hm above)
    obtain ⟨s', hf', hp, _⟩ := passed ancestor above
    cases hf.symm.trans hf'
    refine ⟨s, hf, hp, ho, fun hh parent hn => ?_⟩
    rw [preAfterRecovery_recovery hf hh, recoveryParentsEligible_iff hf] at legal
    obtain ⟨⟨ps, found, ha⟩, own, _⟩ := legal.2 parent hn
    exact ⟨⟨ps, found, Option.some.inj ha⟩, own⟩
  · obtain ⟨s', hf', _, owns⟩ := passed ancestor above
    cases hf.symm.trans hf'
    exact owns

/-- What is eligible as of an epoch, in closed form and on any DAG. -/
lemma classifyAtEpoch_eligible :
    classifyAtEpoch log dag (some epoch) head = some .eligible ↔
      Candidate log dag epoch head ∧ RecoveredBy (tipOwners log) dag head := by
  rw [classifyAtEpoch, show horizon log (some epoch) = some epoch from rfl]
  constructor
  · intro classed
    rw [map_eq_some_iff] at classed
    obtain ⟨s, hf, able⟩ := classed
    rw [finalClassification_eligible, mem_heads] at able
    obtain ⟨⟨_, ha⟩, ⟨_, hu⟩, now⟩ := able
    obtain ⟨lineage, live, hm⟩ := (liveness_live (fun _ hl => hl) head).mp ha
    rw [liveness_pre] at live
    exact candidate_of_selfLive live hm ⟨s, hf, Option.some.inj now⟩ hu
  · rintro ⟨picked, owned⟩
    have support := picked.selfLive_after owned
    obtain ⟨s, hf, now⟩ := picked.current
    rw [hf, map_some, Option.some.injEq, finalClassification_eligible, mem_heads,
      liveness_live fun _ hl => hl, liveness_pre]
    exact ⟨⟨(support head .refl).1, _, support, .refl⟩, ⟨⟨s, hf⟩, picked.unnamed⟩,
      congrArg some now⟩

/-- The state an admission walked and a later one: the canonical chain went on
    from the old tip, and what was observed since is bound above its epoch. -/
structure Resumed (log log' : MembershipLog P) (dag dag' : SnapshotDag P) (epoch : Nat) : Prop where
  tip : tipEpoch log = some epoch
  grows : Grows log log'
  chain : (analyse log).canonical <+: (analyse log').canonical
  drive : dag'.drive = dag.drive
  kept : ∀ id s, dag.snapshot id = some s → dag'.snapshot id = some s
  later : ∀ id s, dag'.snapshot id = some s → dag.snapshot id = none → epoch < s.epoch

/-- No snapshot observed since names the head, or a parent of a recovery snapshot
    in its ancestry. -/
def Untouched (dag dag' : SnapshotDag P) (head : SnapshotId) : Prop :=
  ∀ id s, dag'.snapshot id = some s → dag.snapshot id = none → head ∉ s.parents ∧
    ∀ ancestor as, AncestorOrSelf dag ancestor head → dag.snapshot ancestor = some as →
      as.isRecovery = true → ∀ parent ∈ as.parents, parent ∉ s.parents

namespace Resumed

section

variable (resumed : Resumed log log' dag dag' epoch)
include resumed

lemma canonical_before {id} (hm : id ∈ (analyse log').canonical)
    (hb : epochOf log' id ≤ epoch) : id ∈ (analyse log).canonical := by
  obtain ⟨rest, joined⟩ := resumed.chain
  rw [← joined, mem_append] at hm
  refine hm.resolve_right fun isNew => ?_
  obtain ⟨front, back, rfl⟩ := append_of_mem isNew
  obtain ⟨last, hp, _⟩ := analyse_last log'
  have whole : Spine log' ((analyse log).canonical ++ front ++ [id] ++ back) := by
    simpa [← joined] using hp.spine.1
  have upTo : Spine log' ((analyse log).canonical ++ front ++ [id]) := whole.of_append
  have length := upTo.length_eq
  rw [List.getLast?_concat, slotEpoch, elim_some, length_append, length_append,
    length_of_tipEpoch resumed.tip, length_singleton] at length
  omega

lemma passesPhaseOne_iff {drive s} (hb : s.epoch ≤ epoch) :
    PassesPhaseOne log' drive s ↔ PassesPhaseOne log drive s := by
  have moved : ∀ {t}, (analyse log).status s.membership = some .canonical →
      log.transition s.membership = some t →
      log'.transition s.membership = some t ∧ (analyse log').status s.membership = some .canonical ∧
        log'.stateOf s.membership = log.stateOf s.membership := by
    intro t canon hf
    have hm := mem_canonical.mpr canon
    have hm' := resumed.chain.subset hm
    exact ⟨resumed.grows.transition hf, mem_canonical.mp hm', stateOf_grows resumed.grows hm hm'⟩
  constructor
  · rintro ⟨signed, canon', ⟨t', hf', atEpoch⟩, author⟩
    have hm : s.membership ∈ (analyse log).canonical := by
      apply resumed.canonical_before (mem_canonical.mpr canon')
      rwa [epochOf_of_transition hf', ← atEpoch]
    obtain ⟨t, hf⟩ := isValid_observed (canonical_valid hm)
    obtain ⟨hs, _, states⟩ := moved (mem_canonical.mp hm) hf
    cases hf'.symm.trans hs
    exact ⟨signed, mem_canonical.mp hm, ⟨t', hf, atEpoch⟩, states ▸ author⟩
  · rintro ⟨signed, canon, ⟨t, hf, atEpoch⟩, author⟩
    obtain ⟨hf', canon', states⟩ := moved canon hf
    exact ⟨signed, canon', ⟨t, hf', atEpoch⟩, states ▸ author⟩

lemma edge (hn : ParentEdge dag parent child) : ParentEdge dag' parent child := by
  obtain ⟨s, hf, hl⟩ := hn
  exact ⟨s, resumed.kept child s hf, hl⟩

lemma edge_cases (hn : ParentEdge dag' parent child) :
    ParentEdge dag parent child ∨
      ∃ s, dag'.snapshot child = some s ∧ dag.snapshot child = none ∧ parent ∈ s.parents := by
  obtain ⟨s, hf, hl⟩ := hn
  cases prior : dag.snapshot child with
  | none => exact .inr ⟨s, hf, rfl, hl⟩
  | some s' =>
    cases (resumed.kept child s' prior).symm.trans hf
    exact .inl ⟨s, prior, hl⟩

lemma ancestor (path : AncestorOrSelf dag above below) : AncestorOrSelf dag' above below :=
  Relation.ReflTransGen.mono (fun _ _ hn => resumed.edge hn) _ _ path

/-- The ancestry of a candidate is complete, so it is the same later. -/
lemma ancestor_before (picked : Candidate log dag epoch head)
    (path : AncestorOrSelf dag' above head) : AncestorOrSelf dag above head := by
  induction path using Relation.ReflTransGen.head_induction_on with
  | refl => exact .refl
  | head hn _ ih =>
    rcases resumed.edge_cases hn with old | ⟨_, _, unseen, _⟩
    · exact .head old ih
    · obtain ⟨s, hf⟩ := picked.observed ih
      rw [hf] at unseen
      cases unseen

/-- A later candidate at the old epoch has an ancestry that was all observed
    before. -/
lemma observed_before (picked : Candidate log' dag' epoch head)
    (path : AncestorOrSelf dag' above head) :
    ∃ s, dag.snapshot above = some s ∧ s.epoch ≤ epoch := by
  have old : ∀ {id s}, dag'.snapshot id = some s → s.epoch ≤ epoch →
      ∃ s, dag.snapshot id = some s ∧ s.epoch ≤ epoch := by
    intro id s hf hb
    cases prior : dag.snapshot id with
    | none =>
      have above := resumed.later id s hf prior
      omega
    | some s' =>
      cases (resumed.kept id s' prior).symm.trans hf
      exact ⟨s, rfl, hb⟩
  induction path using Relation.ReflTransGen.head_induction_on with
  | refl =>
    obtain ⟨s, hf, now⟩ := picked.current
    exact old hf now.le
  | @head parent child hn rest ih =>
    obtain ⟨cs, hc, hb⟩ := ih
    obtain ⟨cs', child', hl⟩ := hn
    cases (resumed.kept child cs hc).symm.trans child'
    obtain ⟨cs', hc'', _, ho, _⟩ := picked.ancestry child rest
    cases child'.symm.trans hc''
    obtain ⟨ps, found, _⟩ := picked.ancestry parent (.head ⟨cs, child', hl⟩ rest)
    exact old found ((ho parent hl ps found).trans hb)

lemma candidate_before (picked : Candidate log' dag' epoch head) :
    Candidate log dag epoch head ∧ Untouched dag dag' head := by
  constructor
  · obtain ⟨s, hf, now⟩ := picked.current
    obtain ⟨s', hf', _⟩ := resumed.observed_before picked .refl
    cases (resumed.kept head s' hf').symm.trans hf
    refine ⟨⟨s, hf', now⟩, fun other hn => picked.unnamed other (resumed.edge hn),
      fun above path => ?_⟩
    obtain ⟨as, asFound, hb⟩ := resumed.observed_before picked (resumed.ancestor path)
    obtain ⟨as', asFound', pass, ho, alone⟩ :=
      picked.ancestry above (resumed.ancestor path)
    cases (resumed.kept above as asFound).symm.trans asFound'
    rw [resumed.drive] at pass
    refine ⟨as, asFound, (resumed.passesPhaseOne_iff hb).mp pass,
      fun parent hn ps found => ho parent hn ps (resumed.kept parent ps found),
      fun heals parent hn => ?_⟩
    obtain ⟨⟨ps, found, atEpoch⟩, own⟩ := alone heals parent hn
    have higher : AncestorOrSelf dag' parent head :=
      .head ⟨as, asFound', hn⟩ (resumed.ancestor path)
    obtain ⟨ps', found', _⟩ := resumed.observed_before picked higher
    cases (resumed.kept parent ps' found').symm.trans found
    exact ⟨⟨ps, found', atEpoch⟩, fun other ha he => own other ha (resumed.edge he)⟩
  · intro id s hf unseen
    refine ⟨fun hl => picked.unnamed id ⟨s, hf, hl⟩, ?_⟩
    intro above as path asFound heals parent hn hl
    obtain ⟨as', asFound', _, _, alone⟩ := picked.ancestry above (resumed.ancestor path)
    cases (resumed.kept above as asFound).symm.trans asFound'
    refine (alone heals parent hn).2 id ?_ ⟨s, hf, hl⟩
    rintro rfl
    rw [asFound] at unseen
    cases unseen

lemma candidate_after (picked : Candidate log dag epoch head) (whole : Untouched dag dag' head) :
    Candidate log' dag' epoch head := by
  obtain ⟨s, hf, now⟩ := picked.current
  refine ⟨⟨s, resumed.kept head s hf, now⟩, fun other hn => ?_, fun above path' => ?_⟩
  · rcases resumed.edge_cases hn with old | ⟨ns, newFound, unseen, hl⟩
    · exact picked.unnamed other old
    · exact (whole other ns newFound unseen).1 hl
  · have path := resumed.ancestor_before picked path'
    obtain ⟨as, asFound, pass, ho, alone⟩ := picked.ancestry above path
    have asFound' := resumed.kept above as asFound
    have hb : as.epoch ≤ epoch := pass.epoch_le resumed.tip
    refine ⟨as, asFound', ?_, fun parent hn ps found' => ?_, fun heals parent hn => ?_⟩
    · rw [resumed.drive]
      exact (resumed.passesPhaseOne_iff hb).mpr pass
    · obtain ⟨ps, found⟩ := picked.observed (.head ⟨as, asFound, hn⟩ path)
      cases (resumed.kept parent ps found).symm.trans found'
      exact ho parent hn ps found
    · obtain ⟨⟨ps, found, atEpoch⟩, own⟩ := alone heals parent hn
      refine ⟨⟨ps, resumed.kept parent ps found, atEpoch⟩, fun other ha he => ?_⟩
      rcases resumed.edge_cases he with old | ⟨ns, newFound, unseen, hl⟩
      · exact own other ha old
      · exact (whole other ns newFound unseen).2 above as path asFound heals parent hn hl

lemma recoveredBy_iff (picked : Candidate log dag epoch head) :
    RecoveredBy owners dag' head ↔ RecoveredBy owners dag head := by
  constructor
  · intro owned above s path hf
    exact owned above s (resumed.ancestor path) (resumed.kept above s hf)
  · intro owned above s path' hf'
    have path := resumed.ancestor_before picked path'
    obtain ⟨s', hf⟩ := picked.observed path
    cases (resumed.kept above s' hf).symm.trans hf'
    exact owned above s path hf

/-- What resume finds eligible at the old epoch, over the state the admission
    walked. -/
lemma eligible_iff :
    classifyAtEpoch log' dag' (some epoch) head = some .eligible ↔
      Candidate log dag epoch head ∧ RecoveredBy (tipOwners log') dag head ∧
        Untouched dag dag' head := by
  rw [classifyAtEpoch_eligible]
  constructor
  · rintro ⟨picked', owned⟩
    obtain ⟨picked, whole⟩ := resumed.candidate_before picked'
    exact ⟨picked, (resumed.recoveredBy_iff picked).mp owned, whole⟩
  · rintro ⟨picked, owned, whole⟩
    exact ⟨resumed.candidate_after picked whole, (resumed.recoveredBy_iff picked).mpr owned⟩

end

end Resumed

lemma Resumed.observe (tip : tipEpoch log = some epoch) (grows : Grows log log')
    (chain : (analyse log).canonical <+: (analyse log').canonical)
    (fresh : dag.snapshot (P.snapshotId c) = none) (above : epoch < c.epoch) :
    Resumed log log' dag (dag.observe c) epoch where
  tip := tip
  grows := grows
  chain := chain
  drive := rfl
  kept _ _ found := snapshot_observe_of_some fresh found
  later id s found unobserved := by
    rw [snapshot_observe] at found
    split_ifs at found with isNew
    · exact Option.some.inj found ▸ above
    · rw [unobserved] at found
      cases found

lemma mem_eligibleHeadsAtEpoch {id} :
    id ∈ eligibleHeadsAtEpoch log dag epoch ↔
      classifyAtEpoch log dag (some epoch) id = some .eligible := by
  simp only [eligibleHeadsAtEpoch, mem_filter, decide_eq_true_eq, and_iff_right_iff_imp]
  intro classed
  rw [classifyAtEpoch, map_eq_some_iff] at classed
  obtain ⟨s, hf, _⟩ := classed
  exact mem_ids.mpr ⟨s, hf⟩

lemma eligibleHeadsAtEpoch_tip (tip : tipEpoch log = some epoch) :
    eligibleHeadsAtEpoch log dag epoch = eligibleHeads log dag := by
  rw [tipEpoch] at tip
  simp only [eligibleHeadsAtEpoch, eligibleHeads, classify, tip]

/-- Resume reproduces the seed set exactly when, of every candidate seed, the
    recovery snapshots were the old owner's if and only if they are the present
    owner's and no newcomer touches it. -/
theorem resume_reproduces_iff (resumed : Resumed log log' dag dag' epoch) :
    eligibleHeadsAtEpoch log' dag' epoch = eligibleHeads log dag ↔
      ∀ head, Candidate log dag epoch head →
        (RecoveredBy (tipOwners log) dag head ↔
          RecoveredBy (tipOwners log') dag head ∧ Untouched dag dag' head) := by
  rw [← eligibleHeadsAtEpoch_tip resumed.tip]
  have rises : ∀ (log : MembershipLog P) (dag : SnapshotDag P),
      (eligibleHeadsAtEpoch log dag epoch).Pairwise (· < ·) :=
    fun _ dag => (Observed.ids_ascending dag.snapshots).filter _
  have byMembers : eligibleHeadsAtEpoch log' dag' epoch = eligibleHeadsAtEpoch log dag epoch ↔
      ∀ head, head ∈ eligibleHeadsAtEpoch log' dag' epoch ↔
        head ∈ eligibleHeadsAtEpoch log dag epoch :=
    ⟨fun hs head => by rw [hs], (rises log' dag').eq_of_mem_iff (rises log dag)⟩
  simp only [byMembers, mem_eligibleHeadsAtEpoch, resumed.eligible_iff, classifyAtEpoch_eligible]
  refine forall_congr' fun head => ?_
  tauto

section Sample

def sampleAdmission : MembershipTransition where
  epoch := 2
  prev := some (sampleId 10)
  resolves := []
  changes := [.admitMember ⟨sampleId 2, sampleId 2⟩]
  membersRoot := 12
  ownersRoot := 5
  readersRoot := 2
  author := sampleId 1
  signature := 21
  encodable := rfl

def admittedLog : MembershipLog samplePrimitives := sampleLog [sampleGenesis, sampleAdmission]

def seedDag : SnapshotDag samplePrimitives :=
  sampleDag [sampleSnapshot [] (sampleId 10) 1 5 (Nat.zero_le _)]

def seedCarry : Snapshot := sampleSnapshot [sampleId 5] (sampleId 21) 2 6 one_le_countLimit

lemma seedDag_resumed :
    Resumed (sampleLog [sampleGenesis]) admittedLog seedDag (seedDag.observe seedCarry) 1 :=
  .observe (by decide +kernel) (.observe (by decide +kernel)) (by decide +kernel)
    (by decide +kernel) (by decide)

/-- The carry names the seed, so resume finds none. -/
theorem carry_hides_seed :
    Resumed (sampleLog [sampleGenesis]) admittedLog seedDag (seedDag.observe seedCarry) 1 ∧
      (analyse admittedLog).canonical = [sampleId 10, samplePrimitives.transitionId sampleAdmission] ∧
      eligibleHeads (sampleLog [sampleGenesis]) seedDag = [sampleId 5] ∧
      eligibleHeads admittedLog (seedDag.observe seedCarry) = [sampleId 6] ∧
      eligibleHeadsAtEpoch admittedLog (seedDag.observe seedCarry) 1 = [] := by
  refine ⟨seedDag_resumed, by decide +kernel, by decide +kernel, by decide +kernel,
    by decide +kernel⟩

theorem resume_reproduces_iff_seed :
    eligibleHeadsAtEpoch admittedLog (seedDag.observe seedCarry) 1 =
        eligibleHeads (sampleLog [sampleGenesis]) seedDag ↔
      ∀ head, Candidate (sampleLog [sampleGenesis]) seedDag 1 head →
        (RecoveredBy (tipOwners (sampleLog [sampleGenesis])) seedDag head ↔
          RecoveredBy (tipOwners admittedLog) seedDag head ∧
            Untouched seedDag (seedDag.observe seedCarry) head) :=
  resume_reproduces_iff seedDag_resumed

end Sample

end Wyrd.Authorization
