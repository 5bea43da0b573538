import Wyrd.Authorization.Liveness
import Wyrd.Membership.Resolution

/-! # The closed form of the live lineage

Without recovery snapshots the live lineage is a plain reachability notion: the
snapshots below some current-epoch snapshot whose whole ancestry is observed,
authorized and never steps back in epoch.
-/

namespace Wyrd.Authorization

open Option List

open Wyrd.Membership

variable {P : Primitives} {log : MembershipLog P} {dag : SnapshotDag P}

def ParentEdge (dag : SnapshotDag P) (parent child : SnapshotId) : Prop :=
  ∃ s, dag.snapshot child = some s ∧ parent ∈ s.parents

def Acyclic (dag : SnapshotDag P) : Prop := ∀ id, ¬ Relation.TransGen (ParentEdge dag) id id

def AncestorOrSelf (dag : SnapshotDag P) : SnapshotId → SnapshotId → Prop :=
  Relation.ReflTransGen (ParentEdge dag)

def tipEpoch (log : MembershipLog P) : Option Nat := log.knownState.map KnownState.epoch

/-- The phase-1 verdict of an ordinary snapshot, spelled out. -/
structure PassesPhaseOne (log : MembershipLog P) (drive : DriveId) (s : Snapshot) : Prop where
  signed : verifySnapshot P drive s = .ok ()
  canonical : (analyse log).status s.membership = some .canonical
  epoch : ∃ t, log.transition s.membership = some t ∧ s.epoch = t.epoch
  author : ∃ state, log.stateOf s.membership = some state ∧ s.author ∈ state.members

/-- A current snapshot whose ancestry is observed, passes phase 1 and never
    steps back in epoch. -/
structure Anchor (log : MembershipLog P) (dag : SnapshotDag P) (id : SnapshotId) : Prop where
  current : ∃ s, dag.snapshot id = some s ∧ some s.epoch = tipEpoch log
  ancestry : ∀ ancestor, AncestorOrSelf dag ancestor id → ∃ s, dag.snapshot ancestor = some s ∧
    PassesPhaseOne log dag.drive s ∧
    ∀ parent ∈ s.parents, ∀ ps, dag.snapshot parent = some ps → ps.epoch ≤ s.epoch

lemma checkAuthor_ok :
    checkAuthor log transition author = .ok () ↔
      ∃ state, log.stateOf transition = some state ∧ author ∈ state.members := by
  rw [checkAuthor]
  cases hf : log.stateOf transition with
  | none => simp [MembershipLog.membersOf, MembershipLog.readersOf, hf]
  | some state =>
    by_cases hm : author ∈ state.members
    · simp [MembershipLog.membersOf, hf, hm]
    · simp only [MembershipLog.membersOf, MembershipLog.readersOf, hf, map_some,
        any_some, hm, decide_false, Bool.false_eq_true, if_false, Option.some.injEq,
        exists_eq_left', iff_false]
      split_ifs <;> simp

lemma preverdict_authorized {drive s tipOwners} :
    preverdict drive log log.statuses s tipOwners = .authorized ↔
      PassesPhaseOne log drive s ∧
        (s.isRecovery = true → recoveryOwner tipOwners s.author = true) := by
  constructor
  · intro verdict
    simp only [preverdict] at verdict
    cases signed : verifySnapshot P drive s with
    | error => simp [signed] at verdict
    | ok =>
      cases found : log.transition s.membership with
      | none => simp [signed, found] at verdict
      | some t =>
        cases status : log.statuses s.membership with
        | none => simp [signed, found, status] at verdict
        | some v =>
          cases v with
          | canonical =>
            simp only [signed, found, status] at verdict
            by_cases apart : s.epoch ≠ t.epoch
            · simp [apart] at verdict
            · cases author : checkAuthor log (P.transitionId t) s.author with
              | error => simp [apart, author] at verdict
              | ok =>
                have allowed := author
                rw [transition_key found] at allowed
                refine ⟨⟨signed, status, ⟨t, found, not_not.mp apart⟩,
                  checkAuthor_ok.mp allowed⟩, fun recovery => ?_⟩
                by_contra stranger
                simp [apart, author, recovery, stranger] at verdict
          | contested | voided | orphaned | pending | invalid =>
            simp [signed, found, status] at verdict
  · rintro ⟨⟨signed, canonical, ⟨t, found, epoch⟩, author⟩, owner⟩
    have status : log.statuses s.membership = some .canonical := canonical
    have allowed : checkAuthor log (P.transitionId t) s.author = .ok () := by
      rw [transition_key found]
      exact checkAuthor_ok.mpr author
    simp only [preverdict, signed, found, status, epoch, ne_eq, not_true_eq_false, if_false,
      allowed]
    cases recovery : s.isRecovery with
    | false => simp
    | true => simp [owner recovery]

variable {id : SnapshotId}

lemma preOf_authorized :
    preOf log dag id = some .authorized ↔ ∃ s, dag.snapshot id = some s ∧
      PassesPhaseOne log dag.drive s ∧
      (s.isRecovery = true → recoveryOwner (tipOwners log) s.author = true) := by
  rw [preOf]
  cases dag.snapshot id with
  | none => simp
  | some => simp [preverdict_authorized]

lemma mem_referenced : id ∈ dag.referenced ↔ ∃ other, ParentEdge dag id other := by
  simp only [SnapshotDag.referenced, mem_flatMap]
  constructor
  · rintro ⟨s, hm, hn⟩
    exact ⟨P.snapshotId s, s, Observed.lookup_eq_some.mpr ⟨hm, rfl⟩, hn⟩
  · rintro ⟨other, s, hf, hn⟩
    exact ⟨s, (Observed.lookup_eq_some.mp hf).1, hn⟩

lemma mem_heads :
    id ∈ dag.heads ↔ (∃ s, dag.snapshot id = some s) ∧ ∀ other, ¬ ParentEdge dag id other := by
  simp only [SnapshotDag.heads, mem_filter, decide_eq_true_eq, mem_ids, mem_referenced,
    not_exists]

section Final

variable {k : Option Nat} {pre : SnapshotId → Option Pre} {live : SnapshotId → Option Live}
  {id : SnapshotId} {s : Snapshot}

lemma finalClassification_of_live (legal : pre id = some .authorized)
    (alive : live id = some .live) :
    finalClassification dag k pre live id s =
      if id ∈ dag.heads ∧ some s.epoch = k then .eligible else .canonicalHistory := by
  simp [finalClassification, legal, alive]

lemma finalClassification_live : (finalClassification dag k pre live id s = .eligible ∨
        finalClassification dag k pre live id s = .canonicalHistory) ↔
      pre id = some .authorized ∧ live id = some .live := by
  constructor
  · intro classified
    cases verdict : pre id with
    | none => simp [finalClassification, verdict] at classified
    | some v =>
      cases v with
      | rejected | pending | voided => simp [finalClassification, verdict] at classified
      | authorized =>
        refine ⟨rfl, ?_⟩
        cases status : (live id).getD .dead with
        | live =>
          cases held : live id with
          | none => simp [held] at status
          | some => simpa [held] using status
        | undecided => simp [finalClassification, verdict, status] at classified
        | dead =>
          simp only [finalClassification, verdict, status] at classified
          cases k with
          | none => simp at classified
          | some =>
            dsimp only at classified
            split_ifs at classified <;> simp at classified
  · rintro ⟨authorized, isLive⟩
    rw [finalClassification_of_live authorized isLive]
    split_ifs
    · exact .inl rfl
    · exact .inr rfl

lemma finalClassification_eligible :
    finalClassification dag k pre live id s = .eligible ↔
      (pre id = some .authorized ∧ live id = some .live) ∧ id ∈ dag.heads ∧ some s.epoch = k := by
  constructor
  · intro classed
    have both := finalClassification_live.mp (.inl classed)
    rw [finalClassification_of_live both.1 both.2] at classed
    split_ifs at classed with heads
    exact ⟨both, heads⟩
  · rintro ⟨⟨hl, ha⟩, heads⟩
    rw [finalClassification_of_live hl ha, if_pos heads]

end Final

lemma horizon_tip (log : MembershipLog P) :
    horizon log (log.knownState.map KnownState.epoch) = tipEpoch log := by
  rw [horizon, tipEpoch]
  cases log.knownState <;> rfl

lemma classify_eq (log : MembershipLog P) (dag : SnapshotDag P) (id : SnapshotId) :
    classify log dag id = (dag.snapshot id).map (finalClassification dag (tipEpoch log)
      (liveness dag dag.ids (tipEpoch log) (preOf log dag)).1
      (liveness dag dag.ids (tipEpoch log) (preOf log dag)).2 id) := by
  rw [classify, classifyAtEpoch, horizon_tip]

/-- A snapshot classifies as live exactly when it belongs to some lineage that
    supports itself. -/
lemma classify_live :
    (classify log dag id = some .eligible ∨ classify log dag id = some .canonicalHistory) ↔
      ∃ lineage, SelfLive dag (tipEpoch log)
        (liveness dag dag.ids (tipEpoch log) (preOf log dag)).1 lineage ∧ id ∈ lineage := by
  rw [classify_eq]
  constructor
  · intro classed
    cases hf : dag.snapshot id with
    | none => simp [hf] at classed
    | some =>
      simp only [hf, map_some, Option.some.injEq] at classed
      exact (liveness_live (fun _ hl => hl) id).mp (finalClassification_live.mp classed).2
  · intro backed
    have alive := (liveness_live (fun _ hl => hl) id).mpr backed
    obtain ⟨lineage, live, hm⟩ := backed
    obtain ⟨legal, s, hf, _⟩ := live id hm
    simp only [hf, map_some, Option.some.injEq]
    exact finalClassification_live.mpr ⟨legal, alive⟩

lemma wellFounded_descendant (acyclic : Acyclic dag) :
    WellFounded (fun child parent => Relation.TransGen (ParentEdge dag) parent child) := by
  have finite : Finite SnapshotId := Finite.of_injective Id.raw (Id.raw_injective _)
  have trans : IsTrans SnapshotId
      (fun child parent => Relation.TransGen (ParentEdge dag) parent child) :=
    ⟨fun _ _ _ hf hs => hs.trans hf⟩
  have irrefl : Std.Irrefl
      (fun child parent => Relation.TransGen (ParentEdge dag) parent child) := ⟨acyclic⟩
  exact Finite.wellFounded_of_trans_of_irrefl _

section

variable {k : Option Nat} {pre : SnapshotId → Option Pre} {lineage : Set SnapshotId}
  {ancestor tip : SnapshotId}

/-- Following children, a self-supporting lineage of an acyclic DAG reaches the
    current epoch. -/
lemma SelfLive.reaches_tip (live : SelfLive dag k pre lineage) (acyclic : Acyclic dag)
    (hm : id ∈ lineage) :
    ∃ tip ∈ lineage, AncestorOrSelf dag id tip ∧
      ∃ s, dag.snapshot tip = some s ∧ k = some s.epoch := by
  induction id using (wellFounded_descendant acyclic).induction with
  | _ id ih =>
    obtain ⟨_, s, hf, _, now | ⟨child, mem, cs, hc, hn⟩⟩ := live id hm
    · exact ⟨id, hm, .refl, s, hf, now⟩
    · have edge : ParentEdge dag id child := ⟨cs, hc, hn⟩
      obtain ⟨tip, ht, path, atTip⟩ := ih child (.single edge) mem
      exact ⟨tip, ht, .head edge path, atTip⟩

/-- A self-supporting lineage holds all ancestors of its members. -/
lemma SelfLive.ancestors (live : SelfLive dag k pre lineage) (hm : id ∈ lineage)
    (above : AncestorOrSelf dag ancestor id) : ancestor ∈ lineage := by
  induction above using Relation.ReflTransGen.head_induction_on with
  | refl => exact hm
  | head he _ ih =>
    obtain ⟨cs, hc, hn⟩ := he
    obtain ⟨_, s, hf, hp, _⟩ := live _ ih
    cases hc.symm.trans hf
    exact (hp _ hn).1

/-- The snapshot is authorized and not older than its parents. -/
def Ordered (dag : SnapshotDag P) (pre : SnapshotId → Option Pre) (id : SnapshotId) : Prop :=
  ∃ s, dag.snapshot id = some s ∧ pre id = some .authorized ∧
    ∀ parent ∈ s.parents, ∀ ps, dag.snapshot parent = some ps → ps.epoch ≤ s.epoch

lemma SelfLive.ordered (live : SelfLive dag k pre lineage) (hm : id ∈ lineage) :
    Ordered dag pre id := by
  obtain ⟨hl, s, hf, hp, _⟩ := live id hm
  refine ⟨s, hf, hl, fun parent hn ps psFound => ?_⟩
  obtain ⟨_, other, found, ho⟩ := hp parent hn
  cases psFound.symm.trans found
  exact ho

/-- What is above a current snapshot supports itself where all of it is in order. -/
lemma selfLive_above (now : ∃ s, dag.snapshot tip = some s ∧ some s.epoch = k)
    (ancestry : ∀ ancestor, AncestorOrSelf dag ancestor tip → Ordered dag pre ancestor) :
    SelfLive dag k pre {ancestor | AncestorOrSelf dag ancestor tip} := by
  intro ancestor above
  obtain ⟨s, hf, hl, ho⟩ := ancestry ancestor above
  refine ⟨hl, s, hf, fun parent hn => ?_, ?_⟩
  · have higher : AncestorOrSelf dag parent tip := .head ⟨s, hf, hn⟩ above
    obtain ⟨ps, found, _⟩ := ancestry parent higher
    exact ⟨higher, ps, found, ho parent hn ps found⟩
  · rcases Relation.ReflTransGen.cases_head above with rfl | ⟨child, he, rest⟩
    · obtain ⟨other, otherFound, now⟩ := now
      cases hf.symm.trans otherFound
      exact .inl now.symm
    · obtain ⟨cs, hc, hn⟩ := he
      exact .inr ⟨child, rest, cs, hc, hn⟩

end

lemma classify_eligible :
    classify log dag id = some .eligible ↔
      (classify log dag id = some .eligible ∨ classify log dag id = some .canonicalHistory) ∧
        (∃ s, dag.snapshot id = some s ∧ some s.epoch = tipEpoch log) ∧
        ∀ other, ¬ ParentEdge dag id other := by
  rw [classify_eq]
  cases hf : dag.snapshot id with
  | none => simp
  | some s =>
    simp only [map_some, Option.some.injEq, exists_eq_left']
    rw [finalClassification_live, finalClassification_eligible, mem_heads]
    constructor
    · rintro ⟨both, ⟨_, unnamed⟩, now⟩
      exact ⟨both, now, unnamed⟩
    · rintro ⟨both, now, unnamed⟩
      exact ⟨both, ⟨⟨s, hf⟩, unnamed⟩, now⟩

lemma mem_eligibleHeads : id ∈ eligibleHeads log dag ↔ classify log dag id = some .eligible := by
  simp only [eligibleHeads, mem_filter, decide_eq_true_eq, mem_ids, and_iff_right_iff_imp]
  intro ha
  obtain ⟨-, ⟨s, hf, -⟩, -⟩ := classify_eligible.mp ha
  exact ⟨s, hf⟩

section

variable (ordinary : ∀ id s, dag.snapshot id = some s → s.isRecovery = false)
include ordinary

lemma liveness_pre_ordinary (order : List SnapshotId) (k : Option Nat)
    (pre : SnapshotId → Option Pre) : (liveness dag order k pre).1 = pre := by
  rw [liveness_pre]
  funext id
  rw [preAfterRecovery, if_neg]
  intro bars
  rw [recoveryRejects] at bars
  cases hf : dag.snapshot id with
  | none => simp [hf] at bars
  | some s => simp [hf, ordinary id s hf] at bars

lemma Anchor.selfLive (anchor : Anchor log dag tip) :
    SelfLive dag (tipEpoch log) (preOf log dag) {ancestor | AncestorOrSelf dag ancestor tip} := by
  refine selfLive_above anchor.current fun ancestor ha => ?_
  obtain ⟨s, hf, hp, ho⟩ := anchor.ancestry ancestor ha
  exact ⟨s, hf, preOf_authorized.mpr ⟨s, hf, hp, by simp [ordinary ancestor s hf]⟩, ho⟩

lemma selfLive_iff_anchor (acyclic : Acyclic dag) (id : SnapshotId) :
    (∃ lineage, SelfLive dag (tipEpoch log) (preOf log dag) lineage ∧ id ∈ lineage) ↔
      ∃ tip, AncestorOrSelf dag id tip ∧ Anchor log dag tip := by
  constructor
  · rintro ⟨lineage, live, hm⟩
    obtain ⟨tip, mem, path, s, hf, hn⟩ := live.reaches_tip acyclic hm
    refine ⟨tip, path, ⟨s, hf, hn.symm⟩, fun ancestor ha => ?_⟩
    obtain ⟨as, seen, hl, ho⟩ :=
      live.ordered (live.ancestors mem ha)
    obtain ⟨same, hs, hp, _⟩ := preOf_authorized.mp hl
    cases seen.symm.trans hs
    exact ⟨as, seen, hp, ho⟩
  · rintro ⟨tip, path, anchor⟩
    exact ⟨_, anchor.selfLive ordinary, path⟩

lemma classify_live_ordinary (id : SnapshotId) :
    (classify log dag id = some .eligible ∨ classify log dag id = some .canonicalHistory) ↔
      ∃ lineage, SelfLive dag (tipEpoch log) (preOf log dag) lineage ∧ id ∈ lineage := by
  rw [classify_live, liveness_pre_ordinary ordinary]

lemma classify_live_iff_anchor (acyclic : Acyclic dag) (id : SnapshotId) :
    (classify log dag id = some .eligible ∨ classify log dag id = some .canonicalHistory) ↔
      ∃ tip, AncestorOrSelf dag id tip ∧ Anchor log dag tip := by
  rw [classify_live_ordinary ordinary]
  exact selfLive_iff_anchor ordinary acyclic id

end

/-- The live lineage of an acyclic DAG without recovery snapshots, and the
    eligible heads in it. -/
theorem classify_closed_form
    (ordinary : ∀ id s, dag.snapshot id = some s → s.isRecovery = false)
    (acyclic : Acyclic dag) (id : SnapshotId) :
    ((classify log dag id = some .eligible ∨ classify log dag id = some .canonicalHistory) ↔
      ∃ tip, AncestorOrSelf dag id tip ∧ Anchor log dag tip) ∧
    (classify log dag id = some .eligible ↔
      (∃ tip, AncestorOrSelf dag id tip ∧ Anchor log dag tip) ∧
        (∃ s, dag.snapshot id = some s ∧ some s.epoch = tipEpoch log) ∧
        ∀ other s, dag.snapshot other = some s → id ∉ s.parents) := by
  refine ⟨classify_live_iff_anchor ordinary acyclic id, ?_⟩
  rw [classify_eligible, classify_live_iff_anchor ordinary acyclic]
  simp only [ParentEdge, not_exists, not_and]

section Sample

def sampleSnapshot (parents : List SnapshotId) (membership : TransitionId) (epoch : Nat)
    (signature : Signature) (parentsFit : parents.length ≤ countLimit) : Snapshot where
  parents := parents
  tree := sampleId 0
  author := sampleId 1
  membership := membership
  epoch := epoch
  flags := 0
  timestamp := 0
  signature := signature
  parentsFit := parentsFit
  flagsDefined := rfl

def sampleDag (observed : List Snapshot) : SnapshotDag samplePrimitives :=
  observed.foldl SnapshotDag.observe (.new samplePrimitives (sampleId 0))

lemma acyclic_of_ascending
    (rises : ∀ s ∈ dag.snapshots.docs, ∀ parent ∈ s.parents, parent < P.snapshotId s) :
    Acyclic dag := by
  have hb : ∀ a b, Relation.TransGen (ParentEdge dag) a b → a < b := by
    intro a b path
    induction path with
    | single edge =>
      obtain ⟨s, hf, hn⟩ := edge
      obtain ⟨hm, rfl⟩ := Observed.lookup_eq_some.mp hf
      exact rises s hm a hn
    | tail _ edge ih =>
      obtain ⟨s, hf, hn⟩ := edge
      obtain ⟨hm, rfl⟩ := Observed.lookup_eq_some.mp hf
      exact ih.trans (rises s hm _ hn)
  exact fun id cycle => lt_irrefl id (hb id id cycle)

lemma ordinary_of_docs (plain : ∀ s ∈ dag.snapshots.docs, s.isRecovery = false) :
    ∀ id s, dag.snapshot id = some s → s.isRecovery = false :=
  fun _ s hf => plain s (Observed.lookup_eq_some.mp hf).1

def twoSnapshots : SnapshotDag samplePrimitives :=
  sampleDag [sampleSnapshot [] (sampleId 10) 1 5 (Nat.zero_le _),
    sampleSnapshot [sampleId 5] (sampleId 10) 1 6 one_le_countLimit]

theorem classify_closed_form_twoSnapshots :
    ((classify (sampleLog [sampleGenesis]) twoSnapshots (sampleId 6) = some .eligible ∨
        classify (sampleLog [sampleGenesis]) twoSnapshots (sampleId 6) =
          some .canonicalHistory) ↔
      ∃ tip, AncestorOrSelf twoSnapshots (sampleId 6) tip ∧
        Anchor (sampleLog [sampleGenesis]) twoSnapshots tip) ∧
    (classify (sampleLog [sampleGenesis]) twoSnapshots (sampleId 6) = some .eligible ↔
      (∃ tip, AncestorOrSelf twoSnapshots (sampleId 6) tip ∧
        Anchor (sampleLog [sampleGenesis]) twoSnapshots tip) ∧
        (∃ s, twoSnapshots.snapshot (sampleId 6) = some s ∧
          some s.epoch = tipEpoch (sampleLog [sampleGenesis])) ∧
        ∀ other s, twoSnapshots.snapshot other = some s → sampleId 6 ∉ s.parents) :=
  classify_closed_form (ordinary_of_docs (by decide +kernel))
    (acyclic_of_ascending (by decide +kernel)) (sampleId 6)

end Sample

end Wyrd.Authorization
