import Wyrd.Authorization.Growth
import Wyrd.Runtime.Carry

/-! # Carry continuity

Runs of one engine: staging, transitions with their staging, authoring and
drains. A head survives a transition when its obligation is open at the drain.
An obligation discharged earlier, because the head was still eligible, is never
opened again, and the next transition then loses the head.
-/

namespace Wyrd.Runtime

open List Bool

open Wyrd.Membership Wyrd.Authorization

variable {P : Primitives}

def Engine.Member (engine : Engine P) : Prop :=
  ∃ known members, engine.log.knownState = some known ∧
    engine.log.membersOf known.transitionId = some members ∧ engine.device ∈ members

inductive Op where
  | stage
  | transition (t : MembershipTransition)
  | author (host : Host) (tree : ContentId) (now : Nat)
  | authorRecovery (host : Host) (tree : ContentId) (now : Nat)
  | drain (host : Host) (clock : SnapshotId → Nat)

/-- One successful operation. A transition is staged over the same state, extends
    the canonical chain and keeps the device a member; ids do not collide. -/
inductive Step : Engine P → Op → Engine P → Prop where
  | stage {engine} : Step engine .stage engine.stageCarryHeads.1
  | transition {engine t} : Advances engine.log (engine.log.observe t) t →
      (engine.stageCarryHeads.1.observeTransition t).Member →
      Step engine (.transition t) (engine.stageCarryHeads.1.observeTransition t)
  | author {engine host tree now s} : engine.author host tree now = .ok s →
      engine.dag.snapshot (P.snapshotId s) = none →
      Step engine (.author host tree now) (engine.commit s)
  | authorRecovery {engine host tree now s} : engine.authorRecovery host tree now = .ok s →
      engine.dag.snapshot (P.snapshotId s) = none →
      Step engine (.authorRecovery host tree now) (engine.commit s)
  | drain {engine host clock final report} :
      engine.carryPending host clock = (final, .ok report) →
      (∀ s ∈ report.authored, engine.dag.snapshot (P.snapshotId s) = none) →
      (report.authored.map P.snapshotId).Nodup →
      Step engine (.drain host clock) final

/-- No transition while the obligation of an eligible head is discharged, and no
    recovery snapshot. -/
def Safe (engine : Engine P) : Op → Prop
  | .transition _ => ∀ head ∈ engine.heads, head ∉ engine.carryDone.docs
  | .authorRecovery _ _ _ => False
  | _ => True

def SafeStep (before after : Engine P) : Prop := ∃ op, Safe before op ∧ Step before op after

/-- A safe step other than a drain. -/
def WaitStep (before after : Engine P) : Prop :=
  ∃ op, (∀ host clock, op ≠ .drain host clock) ∧ Safe before op ∧ Step before op after

variable {engine : Engine P}

/-- A member's engine without recovery snapshots. -/
structure Plain (engine : Engine P) : Prop where
  member : engine.Member
  ordinary : ∀ id s, engine.dag.snapshot id = some s → s.isRecovery = false

/-- The snapshot belongs to a set that holds its members' parents, at epochs no
    later, and passes phase 1. -/
def Grounded (engine : Engine P) (id : SnapshotId) : Prop :=
  ∃ lineage : Set SnapshotId, id ∈ lineage ∧ ∀ other ∈ lineage, ∃ s,
    engine.dag.snapshot other = some s ∧ PassesPhaseOne engine.log engine.dag.drive s ∧
    ∀ parent ∈ s.parents, parent ∈ lineage ∧
      ∃ ps, engine.dag.snapshot parent = some ps ∧ ps.epoch ≤ s.epoch

variable {head : SnapshotId}

lemma mem_heads : head ∈ engine.heads ↔ classify engine.log engine.dag head = some .eligible :=
  mem_eligibleHeads

lemma head_current (isHead : head ∈ engine.heads) :
    ∃ s, engine.dag.snapshot head = some s ∧ some s.epoch = tipEpoch engine.log :=
  (classify_eligible.mp (mem_heads.mp isHead)).2.1

variable {id : SnapshotId}

lemma Plain.grounded (plain : Plain engine)
    (live : classify engine.log engine.dag id = some .eligible ∨
      classify engine.log engine.dag id = some .canonicalHistory) : Grounded engine id := by
  obtain ⟨lineage, selfLive, hm⟩ := (classify_live_ordinary plain.ordinary id).mp live
  refine ⟨lineage, hm, fun other mem => ?_⟩
  obtain ⟨hl, s, hf, parents, _⟩ := selfLive other mem
  obtain ⟨same, hs, hp, _⟩ := preOf_authorized.mp hl
  cases hf.symm.trans hs
  exact ⟨s, hf, hp, parents⟩

namespace Grounded

variable {id : SnapshotId}

lemma ancestor (rests : Grounded engine id) {ancestor}
    (above : AncestorOrSelf engine.dag ancestor id) : Grounded engine ancestor := by
  obtain ⟨lineage, hm, holds⟩ := rests
  refine ⟨lineage, ?_, holds⟩
  induction above using Relation.ReflTransGen.head_induction_on with
  | refl => exact hm
  | head he _ ih =>
    obtain ⟨cs, hc, hn⟩ := he
    obtain ⟨s, hf, _, parents⟩ := holds _ ih
    cases hc.symm.trans hf
    exact (parents _ hn).1

lemma live (rests : Grounded engine id) (plain : Plain engine)
    (hf : engine.dag.snapshot id = some s) (now : some s.epoch = tipEpoch engine.log) :
    classify engine.log engine.dag id = some .eligible ∨
      classify engine.log engine.dag id = some .canonicalHistory := by
  have anchor : Anchor engine.log engine.dag id := by
    refine ⟨⟨s, hf, now⟩, fun ancestor ha => ?_⟩
    obtain ⟨lineage, hm, hh⟩ := rests.ancestor ha
    obtain ⟨as, hs, hp, parents⟩ := hh ancestor hm
    refine ⟨as, hs, hp, fun parent hn ps found => ?_⟩
    obtain ⟨_, ps', found', ho⟩ := parents parent hn
    cases found.symm.trans found'
    exact ho
  exact (classify_live_ordinary plain.ordinary id).mpr ⟨_, anchor.selfLive plain.ordinary, .refl⟩

end Grounded

/-- Every snapshot is an ordinary one that passes phase 1 and has its parents
    below it. -/
structure Sound (engine : Engine P) : Prop where
  member : engine.Member
  acyclic : Acyclic engine.dag
  snapshots : ∀ id s, engine.dag.snapshot id = some s → s.isRecovery = false ∧
    PassesPhaseOne engine.log engine.dag.drive s ∧
    ∀ parent ∈ s.parents, ∃ ps, engine.dag.snapshot parent = some ps ∧ ps.epoch ≤ s.epoch

lemma sound_of_empty (hm : engine.Member) (empty : engine.dag.snapshots.docs = []) :
    Sound engine := by
  have bare : ∀ id, engine.dag.snapshot id = none := fun id => by
    simp [SnapshotDag.snapshot, Observed.lookup, empty]
  refine ⟨hm, acyclic_of_ascending (by simp [empty]), fun id s hf => ?_⟩
  rw [bare id] at hf
  cases hf

namespace Sound

section

variable (sound : Sound engine)
include sound

lemma plain : Plain engine :=
  ⟨sound.member, fun id s hf => (sound.snapshots id s hf).1⟩

lemma grounded (hf : engine.dag.snapshot id = some s) : Grounded engine id := by
  refine ⟨{other | ∃ os, engine.dag.snapshot other = some os}, ⟨s, hf⟩, ?_⟩
  rintro other ⟨os, seen⟩
  obtain ⟨_, hp, parents⟩ := sound.snapshots other os seen
  refine ⟨os, seen, hp, fun parent hn => ?_⟩
  obtain ⟨ps, found, ho⟩ := parents parent hn
  exact ⟨⟨ps, found⟩, ps, found, ho⟩

lemma epoch_le (hf : engine.dag.snapshot id = some s) (tip : tipEpoch engine.log = some k) :
    s.epoch ≤ k := (sound.snapshots id s hf).2.1.epoch_le tip

/-- A snapshot at the tip epoch is below some eligible head. -/
lemma exists_head (hf : engine.dag.snapshot id = some s)
    (now : some s.epoch = tipEpoch engine.log) : ∃ head, head ∈ engine.heads := by
  induction id using (wellFounded_descendant sound.acyclic).induction generalizing s with
  | _ id ih =>
    by_cases hn : ∃ child, ParentEdge engine.dag id child
    · obtain ⟨child, cs, seen, parent⟩ := hn
      obtain ⟨s', hf', ho⟩ := (sound.snapshots child cs seen).2.2 id parent
      cases hf.symm.trans hf'
      have upper := sound.epoch_le seen now.symm
      refine ih child (.single ⟨cs, seen, parent⟩) seen ?_
      rw [← now, Option.some.injEq]
      omega
    · have live := (sound.grounded hf).live sound.plain hf now
      exact ⟨id, mem_heads.mpr (classify_eligible.mpr
        ⟨live, ⟨s, hf, now⟩, fun child he => hn ⟨child, he⟩⟩)⟩

end

end Sound

variable {s : Snapshot} {parents : List SnapshotId}

lemma Authored.tipEpoch {flags} (authored : Authored engine parents flags s) :
    some s.epoch = tipEpoch engine.log := by
  obtain ⟨known, ht, _, epoch⟩ := authored.tip
  rw [(knownState_tip ht).2.2, epoch]

lemma Authored.passes {flags} (authored : Authored engine parents flags s) :
    PassesPhaseOne engine.log engine.dag.drive s := by
  obtain ⟨known, ht, bound, epoch⟩ := authored.tip
  obtain ⟨hc, ⟨t, hf, hs⟩, _⟩ := knownState_tip ht
  obtain ⟨members, ofTip, hm⟩ := authored.member
  refine ⟨authored.signed, bound ▸ hc, ⟨t, bound ▸ hf, epoch.trans hs⟩, ?_⟩
  rw [MembershipLog.membersOf, Option.map_eq_some_iff] at ofTip
  obtain ⟨state, hn, rfl⟩ := ofTip
  exact ⟨state, hn, hm⟩

lemma isRecovery_of_flags (plain : s.flags = 0) : s.isRecovery = false := by
  rw [Snapshot.isRecovery, plain]
  decide

lemma Plain.commit (plain : Plain engine) (authored : Authored engine parents 0 s) :
    Plain (engine.commit s) := by
  refine ⟨plain.member, fun id other hf => ?_⟩
  rw [Engine.commit, snapshot_observe] at hf
  split_ifs at hf
  · cases hf
    exact isRecovery_of_flags authored.flags
  · exact plain.ordinary id other hf

lemma Grounded.commit (rests : Grounded engine id)
    (new : engine.dag.snapshot (P.snapshotId s) = none) : Grounded (engine.commit s) id := by
  obtain ⟨lineage, hm, hh⟩ := rests
  refine ⟨lineage, hm, fun other mem => ?_⟩
  obtain ⟨os, hf, hp, parents⟩ := hh other mem
  refine ⟨os, snapshot_observe_of_some new hf, hp, fun parent hn => ?_⟩
  obtain ⟨ha, ps, found, ho⟩ := parents parent hn
  exact ⟨ha, ps, snapshot_observe_of_some new found, ho⟩

lemma Grounded.carry (rests : Grounded engine head) (authored : Authored engine [head] 0 s)
    (new : engine.dag.snapshot (P.snapshotId s) = none)
    (hf : engine.dag.snapshot head = some hs) (ordered : hs.epoch ≤ s.epoch) :
    Grounded (engine.commit s) (P.snapshotId s) := by
  obtain ⟨lineage, hm, hh⟩ := rests.commit new
  refine ⟨insert (P.snapshotId s) lineage, Set.mem_insert _ _, fun other mem => ?_⟩
  rcases mem with rfl | mem
  · refine ⟨s, snapshot_observe_self engine.dag s, authored.passes, fun parent hn => ?_⟩
    rw [authored.parents, mem_singleton] at hn
    subst hn
    exact ⟨Set.mem_insert_of_mem _ hm, hs, snapshot_observe_of_some new hf, ordered⟩
  · obtain ⟨os, seen, hp, parents⟩ := hh other mem
    exact ⟨os, seen, hp, fun parent hn =>
      ⟨Set.mem_insert_of_mem _ (parents parent hn).1, (parents parent hn).2⟩⟩

lemma Sound.commit (sound : Sound engine) (authored : Authored engine parents 0 s)
    (seen : ∀ parent ∈ parents, ∃ ps, engine.dag.snapshot parent = some ps)
    (new : engine.dag.snapshot (P.snapshotId s) = none) : Sound (engine.commit s) := by
  have lost : ∀ ps, engine.dag.snapshot (P.snapshotId s) ≠ some ps := by simp [new]
  refine ⟨sound.member, sound.acyclic.observe (fun child he => ?_) (fun hn => ?_),
    fun id other hf => ?_⟩
  · obtain ⟨cs, hc, hn⟩ := he
    obtain ⟨ps, found, _⟩ := (sound.snapshots child cs hc).2.2 _ hn
    exact lost ps found
  · rw [authored.parents] at hn
    obtain ⟨ps, found⟩ := seen _ hn
    exact lost ps found
  · rw [Engine.commit, snapshot_observe] at hf
    split_ifs at hf with isNew
    · cases hf
      refine ⟨isRecovery_of_flags authored.flags, authored.passes, fun parent hn => ?_⟩
      rw [authored.parents] at hn
      obtain ⟨ps, found⟩ := seen parent hn
      exact ⟨ps, snapshot_observe_of_some new found, sound.epoch_le found authored.tipEpoch.symm⟩
    · obtain ⟨hu, hp, parents⟩ := sound.snapshots id other hf
      refine ⟨hu, hp, fun parent hn => ?_⟩
      obtain ⟨ps, found, ho⟩ := parents parent hn
      exact ⟨ps, snapshot_observe_of_some new found, ho⟩

lemma stageCarryHeads_eq (engine : Engine P) :
    engine.stageCarryHeads.1 = { engine with
      carryQueued := (engine.heads.filter (fun head => !engine.carryCovered head)).foldl
        Observed.observe engine.carryQueued } := by
  have fold : ∀ (heads : List SnapshotId) (engine : Engine P),
      heads.foldl Engine.recordCarryQueued engine =
        { engine with carryQueued := heads.foldl Observed.observe engine.carryQueued } := by
    intro heads
    induction heads with
    | nil => intro engine; rfl
    | cons head rest ih =>
      intro engine
      rw [foldl_cons, ih]
      rfl
  exact fold _ _

lemma mem_carryQueued_stage :
    id ∈ engine.stageCarryHeads.1.carryQueued.docs ↔
      id ∈ engine.carryQueued.docs ∨ (id ∈ engine.heads ∧ id ∉ engine.carryDone.docs) := by
  rw [stageCarryHeads_eq]
  dsimp only
  rw [Observed.mem_foldl_observe fun _ _ hs => hs]
  simp only [mem_filter, Engine.carryCovered, not_eq_true', or_eq_false_iff,
    decide_eq_false_iff_not]
  tauto

variable {t : MembershipTransition}

lemma Grounded.stage (rests : Grounded engine id) : Grounded engine.stageCarryHeads.1 id := by
  rw [stageCarryHeads_eq]
  exact rests

lemma Grounded.transition (rests : Grounded engine id)
    (grown : Advances engine.log (engine.log.observe t) t) :
    Grounded (engine.stageCarryHeads.1.observeTransition t) id := by
  obtain ⟨lineage, hm, hh⟩ := rests
  rw [stageCarryHeads_eq]
  refine ⟨lineage, hm, fun other mem => ?_⟩
  obtain ⟨os, hf, hp, parents⟩ := hh other mem
  exact ⟨os, hf, grown.passesPhaseOne hp, parents⟩

/-- The middle of a drain, with the snapshots still to be authored. -/
structure Draining (start engine : Engine P) (authored : List Snapshot) : Prop where
  sameLog : engine.log = start.log
  kept : ∀ id s, start.dag.snapshot id = some s → engine.dag.snapshot id = some s
  unseen : ∀ s ∈ authored, engine.dag.snapshot (P.snapshotId s) = none
  distinct : (authored.map P.snapshotId).Nodup

namespace Draining

variable {start : Engine P} {authored : List Snapshot} {s : Snapshot}

lemma fresh (drains : Draining start engine (s :: authored)) :
    engine.dag.snapshot (P.snapshotId s) = none := drains.unseen s mem_cons_self

lemma carry (drains : Draining start engine (s :: authored)) (head : SnapshotId) :
    Draining start ((engine.commit s).recordCarryDone head) authored := by
  obtain ⟨ha, ho⟩ := nodup_cons.mp drains.distinct
  refine ⟨drains.sameLog, fun id other hk =>
    snapshot_observe_of_some drains.fresh (drains.kept id other hk),
    fun other hm => ?_, ho⟩
  refine (snapshot_observe engine.dag s _).trans ?_
  rw [if_neg, drains.unseen other (mem_cons_of_mem _ hm)]
  intro hs
  exact ha (hs ▸ mem_map_of_mem hm)

end Draining

namespace Drained

variable {start final : Engine P} {epoch : Nat} {pending : List SnapshotId}
  {authored : List Snapshot}

/-- What discharging and carrying preserve, a drain preserves. -/
lemma preserves (invariant : Engine P → Prop)
    (paid : ∀ engine head, invariant engine → invariant (engine.recordCarryDone head))
    (carried : ∀ engine head s, (∃ body, engine.dag.snapshot head = some body) →
      Authored engine [head] 0 s → engine.dag.snapshot (P.snapshotId s) = none →
      invariant engine → invariant (engine.commit s))
    (drained : Drained start epoch pending engine authored final)
    (drains : Draining start engine authored) (holds : invariant engine) : invariant final := by
  induction drained with
  | nil => exact holds
  | discharge _ _ ih =>
    exact ih ⟨drains.sameLog, drains.kept, drains.unseen, drains.distinct⟩ (paid _ _ holds)
  | missing _ _ ih => exact ih drains holds
  | @carry head _ engine body s _ _ hf hw _ ih =>
    exact ih (drains.carry head) (paid _ _ (carried engine head s
      ⟨body, drains.kept head body hf⟩ hw drains.fresh holds))

section

variable (drained : Drained start epoch pending engine authored final)
include drained

lemma sameLog (drains : Draining start engine authored) : final.log = start.log :=
  drained.preserves (fun now => now.log = start.log) (fun _ _ hs => hs)
    (fun _ _ _ _ _ _ hs => hs) drains drains.sameLog

lemma kept (drains : Draining start engine authored) (hf : engine.dag.snapshot id = some s) :
    final.dag.snapshot id = some s :=
  drained.preserves (fun now => now.dag.snapshot id = some s) (fun _ _ known => known)
    (fun _ _ _ _ _ hn known => snapshot_observe_of_some hn known) drains hf

lemma grounded (drains : Draining start engine authored) (rests : Grounded engine id) :
    Grounded final id :=
  drained.preserves (Grounded · id) (fun _ _ known => known)
    (fun _ _ _ _ _ hn known => known.commit hn) drains rests

/-- Each grounded head of a past epoch that is not carried yet gets a grounded
    child at the tip. -/
lemma serves (drains : Draining start engine authored) (tip : tipEpoch start.log = some epoch)
    (hl : head ∈ pending) (hf : start.dag.snapshot head = some hs) (past : hs.epoch ≤ epoch)
    (rests : Grounded engine head) (lapsed : classify start.log start.dag head ≠ some .eligible) :
    start.alreadyCarried epoch head = true ∨
      ∃ child s, final.dag.snapshot child = some s ∧ head ∈ s.parents ∧ s.epoch = epoch ∧
        Grounded final child := by
  induction drained with
  | nil => simp at hl
  | discharge cause _ ih =>
    rcases mem_cons.mp hl with rfl | later
    · exact .inl (cause.resolve_left lapsed)
    · exact ih ⟨drains.sameLog, drains.kept, drains.unseen, drains.distinct⟩ later rests
  | missing gone _ ih =>
    rcases mem_cons.mp hl with rfl | later
    · rw [hf] at gone
      cases gone
    · exact ih drains later rests
  | @carry _ _ engine body s _ _ hb wrote rest ih =>
    rcases mem_cons.mp hl with rfl | later
    · have now := wrote.tipEpoch
      rw [drains.sameLog, tip, Option.some.injEq] at now
      have child := rests.carry wrote drains.fresh (drains.kept head hs hf) (now ▸ past)
      exact .inr ⟨P.snapshotId s, s, rest.kept (drains.carry head)
        (snapshot_observe_self engine.dag s), by simp [wrote.parents], now,
        rest.grounded (drains.carry head) child⟩
    · exact ih (drains.carry _) later (rests.commit drains.fresh)

end

end Drained

lemma alreadyCarried_child (carried : engine.alreadyCarried epoch head = true) :
    ∃ child s, engine.dag.snapshot child = some s ∧ head ∈ s.parents ∧ s.epoch = epoch ∧
      (classify engine.log engine.dag child = some .eligible ∨
        classify engine.log engine.dag child = some .canonicalHistory) := by
  rw [Engine.alreadyCarried, any_eq_true] at carried
  obtain ⟨child, _, both⟩ := carried
  rw [and_eq_true] at both
  cases hf : engine.dag.snapshot child with
  | none => simp [hf] at both
  | some s =>
    simp only [hf, Option.any_some, and_eq_true, or_eq_true, decide_eq_true_eq] at both
    exact ⟨child, s, hf, both.2.1, both.2.2, both.1⟩

/-- A successful drain of a member goes through its whole queue. -/
lemma carryPending_ok (hm : engine.Member)
    (hd : engine.carryPending host clock = (final, .ok report)) :
    ∃ epoch, tipEpoch engine.log = some epoch ∧
      Drained engine epoch engine.pendingCarries engine report.authored final := by
  obtain ⟨known, members, tip, ofTip, mem⟩ := hm
  refine ⟨known.epoch, (knownState_tip tip).2.2, ?_⟩
  rw [Engine.carryPending] at hd
  split_ifs at hd with idle
  · obtain ⟨rfl, hs⟩ := Prod.mk.inj hd
    cases hs
    rw [idle]
    exact .nil
  · simp only [tip, ofTip, if_pos mem] at hd
    obtain ⟨authored, drained, hl⟩ := carryLoop_ok hd
    rw [hl]
    exact drained

lemma draining_self (unseen : ∀ s ∈ authored, engine.dag.snapshot (P.snapshotId s) = none)
    (once : (authored.map P.snapshotId).Nodup) : Draining engine engine authored :=
  ⟨rfl, fun _ _ hf => hf, unseen, once⟩

variable {after : Engine P}

/-- What staging, observing and authoring keep, a safe run keeps. -/
lemma SafeStep.preserves {invariant : Engine P → Prop}
    (hm : ∀ {engine}, invariant engine → engine.Member)
    (framed : ∀ {engine} queued done, invariant engine →
      invariant { engine with carryQueued := queued, carryDone := done })
    (seen : ∀ {engine t}, invariant engine → Advances engine.log (engine.log.observe t) t →
      (engine.observeTransition t).Member → invariant (engine.observeTransition t))
    (authored : ∀ {engine parents s}, invariant engine → Authored engine parents 0 s →
      (∀ parent ∈ parents, ∃ ps, engine.dag.snapshot parent = some ps) →
      engine.dag.snapshot (P.snapshotId s) = none → invariant (engine.commit s))
    (run : Relation.ReflTransGen SafeStep engine after) (holds : invariant engine) :
    invariant after := by
  induction run with
  | refl => exact holds
  | tail _ moved holds =>
    obtain ⟨op, safe, hs⟩ := moved
    cases hs with
    | stage =>
      rw [stageCarryHeads_eq]
      exact framed _ _ holds
    | transition hg joined =>
      rw [stageCarryHeads_eq] at joined ⊢
      exact seen (framed _ _ holds) hg joined
    | author outcome new =>
      refine authored holds (Engine.authorOver_ok outcome) (fun parent hi => ?_) new
      obtain ⟨ps, hf, _⟩ := head_current hi
      exact ⟨ps, hf⟩
    | authorRecovery => exact safe.elim
    | drain done hu ho =>
      obtain ⟨_, _, drained⟩ := carryPending_ok (hm holds) done
      refine drained.preserves invariant (fun _ _ now => framed _ _ now)
        (fun _ _ _ hk hw new now => authored now hw ?_ new)
        (draining_self hu ho) holds
      simpa using hk

lemma Plain.run (plain : Plain engine) (run : Relation.ReflTransGen SafeStep engine after) :
    Plain after :=
  SafeStep.preserves Plain.member (fun _ _ plain => ⟨plain.member, plain.ordinary⟩)
    (fun plain _ hj => ⟨hj, plain.ordinary⟩)
    (fun plain hw _ _ => plain.commit hw) run plain

lemma Sound.run (sound : Sound engine) (run : Relation.ReflTransGen SafeStep engine after) :
    Sound after := by
  refine SafeStep.preserves Sound.member
    (fun _ _ sound => ⟨sound.member, sound.acyclic, sound.snapshots⟩)
    (fun sound hg hj => ⟨hj, sound.acyclic, fun id s hf => ?_⟩)
    (fun sound => sound.commit) run sound
  obtain ⟨hu, hp, parents⟩ := sound.snapshots id s hf
  exact ⟨hu, hg.passesPhaseOne hp, parents⟩

/-- An obligation that a drain has to serve. -/
structure Owed (engine : Engine P) (head : SnapshotId) : Prop where
  queued : head ∈ engine.carryQueued.docs
  undone : head ∉ engine.carryDone.docs
  past : ∃ s k, engine.dag.snapshot head = some s ∧ tipEpoch engine.log = some k ∧ s.epoch < k
  grounded : Grounded engine head

/-- A transition that finds no obligation discharged owes every eligible head. -/
lemma owed_of_transition (plain : Plain engine)
    (grown : Advances engine.log (engine.log.observe t) t)
    (undue : ∀ head ∈ engine.heads, head ∉ engine.carryDone.docs)
    (isHead : head ∈ engine.heads) : Owed (engine.stageCarryHeads.1.observeTransition t) head := by
  have undone := undue head isHead
  have rests := plain.grounded (.inl (mem_heads.mp isHead))
  refine ⟨mem_carryQueued_stage.mpr (.inr ⟨isHead, undone⟩), ?_, ?_, rests.transition grown⟩
  · rw [stageCarryHeads_eq]
    exact undone
  · obtain ⟨s, hf, hn⟩ := head_current isHead
    refine ⟨s, s.epoch + 1, ?_, ?_, Nat.lt_succ_self _⟩ <;> rw [stageCarryHeads_eq]
    · exact hf
    · exact grown.tipEpoch_succ hn.symm

lemma Owed.wait (owed : Owed engine head) (step : WaitStep engine after) : Owed after head := by
  obtain ⟨op, hw, safe, step⟩ := step
  obtain ⟨s, k, hf, tip, past⟩ := owed.past
  cases step with
  | stage =>
    refine ⟨mem_carryQueued_stage.mpr (.inl owed.queued), ?_, ⟨s, k, ?_, ?_, past⟩,
      owed.grounded.stage⟩ <;> rw [stageCarryHeads_eq]
    · exact owed.undone
    · exact hf
    · exact tip
  | transition grown =>
    refine ⟨mem_carryQueued_stage.mpr (.inl owed.queued), ?_, ⟨s, k + 1, ?_, ?_, by omega⟩,
      owed.grounded.transition grown⟩ <;> rw [stageCarryHeads_eq]
    · exact owed.undone
    · exact hf
    · exact grown.tipEpoch_succ tip
  | author _ new =>
    exact ⟨owed.queued, owed.undone, ⟨s, k, snapshot_observe_of_some new hf, tip, past⟩,
      owed.grounded.commit new⟩
  | authorRecovery => exact safe.elim
  | drain => exact absurd rfl (hw _ _)

lemma Owed.waits (owed : Owed engine head) (run : Relation.ReflTransGen WaitStep engine after) :
    Owed after head := by
  induction run with
  | refl => exact owed
  | tail _ hs ih => exact ih.wait hs

lemma WaitStep.safe (step : WaitStep before after) : SafeStep before after := by
  obtain ⟨op, _, safe, hm⟩ := step
  exact ⟨op, safe, hm⟩

lemma Owed.drained (owed : Owed engine head) (plain : Plain engine)
    (hd : engine.carryPending host clock = (final, .ok report))
    (unseen : ∀ s ∈ report.authored, engine.dag.snapshot (P.snapshotId s) = none)
    (once : (report.authored.map P.snapshotId).Nodup) :
    ∃ child s, final.dag.snapshot child = some s ∧ head ∈ s.parents ∧
      some s.epoch = tipEpoch final.log ∧ Grounded final child := by
  obtain ⟨epoch, tip, drained⟩ := carryPending_ok plain.member hd
  have drains := draining_self unseen once
  obtain ⟨s, k, hf, current, past⟩ := owed.past
  cases tip.symm.trans current
  have pending : head ∈ engine.pendingCarries := by
    simp [Engine.pendingCarries, owed.queued, owed.undone]
  have lapsed : classify engine.log engine.dag head ≠ some .eligible := by
    intro ha
    obtain ⟨_, ⟨s', hf', now⟩, _⟩ := classify_eligible.mp ha
    cases hf.symm.trans hf'
    rw [current, Option.some.injEq] at now
    omega
  rw [drained.sameLog drains, tip]
  rcases drained.serves drains tip pending hf past.le owed.grounded lapsed with
    hc | ⟨child, cs, childFound, hn, atEpoch, hr⟩
  · obtain ⟨child, cs, childFound, hn, atEpoch, live⟩ := alreadyCarried_child hc
    exact ⟨child, cs, drained.kept drains childFound, hn, congrArg some atEpoch,
      drained.grounded drains (plain.grounded live)⟩
  · exact ⟨child, cs, childFound, hn, congrArg some atEpoch, hr⟩

/-- In every safe run of a member's engine without recovery snapshots, a
    transition and the next drain leave each head that was eligible before the
    transition with a live child at the current epoch. When the run starts with
    sound snapshots, such as none, a drive that had heads has heads. -/
theorem carry_continuity {start before after waited final : Engine P} (plain : Plain start)
    (run : Relation.ReflTransGen SafeStep start before) {t : MembershipTransition}
    (safe : Safe before (.transition t)) (moved : Step before (.transition t) after)
    (waits : Relation.ReflTransGen WaitStep after waited) {host : Host}
    {clock : SnapshotId → Nat} (drain : Step waited (.drain host clock) final) :
    (∀ head ∈ before.heads, ∃ child s, final.dag.snapshot child = some s ∧ head ∈ s.parents ∧
        some s.epoch = tipEpoch final.log ∧
        (classify final.log final.dag child = some .eligible ∨
          classify final.log final.dag child = some .canonicalHistory)) ∧
      (Sound start → before.heads ≠ [] → final.heads ≠ []) := by
  have toAfter : Relation.ReflTransGen SafeStep start after := .tail run ⟨_, safe, moved⟩
  have toWaited : Relation.ReflTransGen SafeStep start waited :=
    toAfter.trans (Relation.ReflTransGen.mono (fun _ _ => WaitStep.safe) _ _ waits)
  have toFinal : Relation.ReflTransGen SafeStep start final :=
    .tail toWaited ⟨.drain host clock, trivial, drain⟩
  have served : ∀ head ∈ before.heads, ∃ child s, final.dag.snapshot child = some s ∧
      head ∈ s.parents ∧ some s.epoch = tipEpoch final.log ∧ Grounded final child := by
    intro head isHead
    cases moved with
    | transition hg =>
      cases drain with
      | drain hd hu ho =>
        have owed := owed_of_transition (plain.run run) hg safe isHead
        exact (owed.waits waits).drained (plain.run toWaited) hd hu ho
  constructor
  · intro head isHead
    obtain ⟨child, s, hf, hn, now, hr⟩ := served head isHead
    exact ⟨child, s, hf, hn, now, hr.live (plain.run toFinal) hf now⟩
  · intro sound hh
    obtain ⟨head, isHead⟩ := exists_mem_of_ne_nil _ hh
    obtain ⟨child, s, hf, _, now, _⟩ := served head isHead
    obtain ⟨next, hi⟩ := (sound.run toFinal).exists_head hf now
    exact ne_nil_of_mem hi

section Sample

/-- A host that signs with the timestamp, which the sample's ids are read from. -/
def sampleHost : Host where
  openRoot _ := .ok ()
  sign s _ := Fin.ofNat _ s.timestamp
  holdsSecret _ := true
  authorManifests _ := .ok ()

def freshEngine : Engine samplePrimitives where
  device := sampleId 1
  log := sampleLog [sampleGenesis]
  dag := .new samplePrimitives (sampleId 0)
  carryQueued := .empty
  carryDone := .empty

def firstSnapshot : Snapshot :=
  { sampleSnapshot [] (sampleId 10) 1 1 (Nat.zero_le _) with timestamp := 1 }

def servingEngine : Engine samplePrimitives := freshEngine.commit firstSnapshot

def sampleRotation : MembershipTransition := rotation 2 (sampleId 10) [] 21 (.refl true)

def Engine.rotated (engine : Engine samplePrimitives) : Engine samplePrimitives :=
  engine.stageCarryHeads.1.observeTransition sampleRotation

def Engine.drained (engine : Engine samplePrimitives) : Engine samplePrimitives :=
  (engine.carryPending sampleHost (fun _ => 0)).1

/-- A head discharged while it was eligible, before any transition. -/
def dischargedEngine : Engine samplePrimitives := servingEngine.stageCarryHeads.1.drained

lemma member_of_any
    (holds : (engine.log.knownState.bind fun known => engine.log.membersOf known.transitionId).any
      (fun members => decide (engine.device ∈ members)) = true) : engine.Member := by
  cases tip : engine.log.knownState with
  | none => simp [tip] at holds
  | some known =>
    cases ofTip : engine.log.membersOf known.transitionId with
    | none => simp [tip, ofTip] at holds
    | some members =>
      exact ⟨known, members, tip, ofTip, by simpa [tip, ofTip] using holds⟩

lemma drained_step (engine : Engine samplePrimitives) (report : CarryReport)
    (hd : (engine.carryPending sampleHost (fun _ => 0)).2 = .ok report)
    (unseen : ∀ s ∈ report.authored, engine.dag.snapshot (samplePrimitives.snapshotId s) = none)
    (once : (report.authored.map samplePrimitives.snapshotId).Nodup) :
    Step engine (.drain sampleHost (fun _ => 0)) engine.drained :=
  .drain (Prod.ext rfl hd) unseen once

lemma serving_step : Step freshEngine (.author sampleHost (sampleId 0) 0) servingEngine :=
  .author (by decide +kernel) (by decide +kernel)

lemma serving_rotates : Step servingEngine (.transition sampleRotation) servingEngine.rotated :=
  .transition ⟨.observe (by decide +kernel), by decide +kernel, by decide +kernel⟩
    (member_of_any (by decide +kernel))

lemma discharged_rotates :
    Step dischargedEngine (.transition sampleRotation) dischargedEngine.rotated :=
  .transition ⟨.observe (by decide +kernel), by decide +kernel, by decide +kernel⟩
    (member_of_any (by decide +kernel))

/-- The carry the drain authors after a rotation. -/
def secondSnapshot : Snapshot :=
  { sampleSnapshot [sampleId 1] (sampleId 21) 2 2 one_le_countLimit with timestamp := 2 }

/-- A head, a rotation and a drain: the head is carried. -/
theorem carry_continuity_rotated :
    servingEngine.heads = [sampleId 1] ∧ servingEngine.rotated.drained.heads ≠ [] := by
  have heads : servingEngine.heads = [sampleId 1] := by decide +kernel
  have drains := drained_step servingEngine.rotated ⟨[secondSnapshot], 0⟩ (by decide +kernel)
    (by decide +kernel) (by decide +kernel)
  have undue : ∀ head ∈ servingEngine.heads, head ∉ servingEngine.carryDone.docs := by
    decide +kernel
  have sound : Sound freshEngine := sound_of_empty (member_of_any (by decide +kernel)) rfl
  exact ⟨heads, (carry_continuity sound.plain
    (.single ⟨.author sampleHost (sampleId 0) 0, trivial, serving_step⟩) undue
    serving_rotates .refl drains).2 sound (by simp [heads])⟩

/-- The same with a staging and a drain before the rotation: the obligation is
    discharged while the head still serves, the staging of the rotation finds it
    covered, and after the last drain the drive has no eligible head. -/
theorem carry_lost :
    Step freshEngine (.author sampleHost (sampleId 0) 0) servingEngine ∧
      Step servingEngine .stage servingEngine.stageCarryHeads.1 ∧
      Step servingEngine.stageCarryHeads.1 (.drain sampleHost (fun _ => 0)) dischargedEngine ∧
      Step dischargedEngine (.transition sampleRotation) dischargedEngine.rotated ∧
      Step dischargedEngine.rotated (.drain sampleHost (fun _ => 0))
        dischargedEngine.rotated.drained ∧
      dischargedEngine.heads = [sampleId 1] ∧ dischargedEngine.rotated.drained.heads = [] ∧
      dischargedEngine.rotated.drained.dag.ids = [sampleId 1] ∧
      classify dischargedEngine.rotated.drained.log dischargedEngine.rotated.drained.dag
        (sampleId 1) = some .superseded := by
  refine ⟨serving_step, .stage, drained_step _ ⟨[], 1⟩ ?_ ?_ ?_, discharged_rotates,
    drained_step _ ⟨[], 0⟩ ?_ ?_ ?_, ?_⟩
  all_goals decide +kernel

end Sample

end Wyrd.Runtime
