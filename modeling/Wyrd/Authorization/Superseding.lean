import Wyrd.Authorization.Recovery

/-! # A snapshot over all eligible heads

What is authored over every eligible head supersedes them: once observed, it is the only
eligible head, be it an ordinary snapshot or a recovery.
-/

namespace Wyrd.Authorization

open Wyrd.Membership List

variable {P : Primitives} {log : MembershipLog P} {dag : SnapshotDag P} {c : Snapshot}
  {id : SnapshotId} {lineage : Set SnapshotId}

lemma selfLive_together (dag : SnapshotDag P) (k : Option Nat) (pre : SnapshotId → Option Pre) :
    SelfLive dag k pre { id | ∃ lineage, SelfLive dag k pre lineage ∧ id ∈ lineage } := by
  rintro id ⟨lineage, live, hm⟩
  obtain ⟨hl, s, hf, parents, now⟩ := live id hm
  refine ⟨hl, s, hf, fun parent hn => ?_, now.imp_right ?_⟩
  · exact ⟨⟨lineage, live, (parents parent hn).1⟩, (parents parent hn).2⟩
  · rintro ⟨child, mem, hn⟩
    exact ⟨child, ⟨lineage, live, mem⟩, hn⟩

/-- A new snapshot at the tip that phase 1 authorizes, on exactly the eligible heads. -/
structure Supersedes (log : MembershipLog P) (dag : SnapshotDag P) (c : Snapshot) : Prop where
  fresh : dag.snapshot (P.snapshotId c) = none
  unnamed : ∀ other, ¬ ParentEdge dag (P.snapshotId c) other
  passes : PassesPhaseOne log dag.drive c
  owner : c.isRecovery = true → recoveryOwner (tipOwners log) c.author = true
  current : some c.epoch = tipEpoch log
  parents : c.parents = eligibleHeads log dag

namespace Supersedes

variable (atop : Supersedes log dag c)
include atop

lemma head (hn : parent ∈ c.parents) : classify log dag parent = some .eligible :=
  mem_eligibleHeads.mp (atop.parents ▸ hn)

omit atop in
lemma before (apart : id ≠ P.snapshotId c) (hf : (dag.observe c).snapshot id = some s) :
    dag.snapshot id = some s := by
  rwa [snapshot_observe, if_neg apart] at hf

lemma parent_ne (hf : dag.snapshot id = some s) (hn : parent ∈ s.parents) :
    parent ≠ P.snapshotId c := by
  rintro rfl
  exact atop.unnamed id ⟨s, hf, hn⟩

/-- What supports itself with the newcomer does so without it: its parents are current. -/
lemma forget (hk : ∀ id s, dag.snapshot id = some s → pre id = some .authorized →
      pre' id = some .authorized) (live : SelfLive (dag.observe c) (tipEpoch log) pre lineage) :
    SelfLive dag (tipEpoch log) pre' { id ∈ lineage | id ≠ P.snapshotId c } := by
  rintro id ⟨hm, ha⟩
  obtain ⟨hl, s, hf, hp, current⟩ := live id hm
  have hf := before ha hf
  refine ⟨hk id s hf hl, s, hf, fun parent hn => ?_, ?_⟩
  · obtain ⟨mem, ps, found, ho⟩ := hp parent hn
    have apart := atop.parent_ne hf hn
    exact ⟨⟨mem, apart⟩, ps, before apart found, ho⟩
  · rcases current with now | ⟨child, mem, cs, childFound, hn⟩
    · exact .inl now
    · by_cases fresh : child = P.snapshotId c
      · rw [fresh, snapshot_observe_self, Option.some.injEq] at childFound
        subst childFound
        obtain ⟨-, ⟨s', hf', now⟩, -⟩ := classify_eligible.mp (atop.head hn)
        cases hf.symm.trans hf'
        exact .inl now.symm
      · exact .inr ⟨child, ⟨mem, fresh⟩, cs, before fresh childFound, hn⟩

lemma firstLive_iff (apart : id ≠ P.snapshotId c) :
    firstLive (dag.observe c) (dag.observe c).ids (tipEpoch log) (preOf log (dag.observe c)) id =
        some .live ↔
      firstLive dag dag.ids (tipEpoch log) (preOf log dag) id = some .live := by
  rw [firstLive_live fun _ hl => hl, firstLive_live fun _ hl => hl]
  constructor
  · rintro ⟨lineage, live, hm⟩
    exact ⟨_, atop.forget (fun id s hf => (preOf_observe atop.fresh hf).symm.trans) live, hm, apart⟩
  · rintro ⟨lineage, live, hm⟩
    exact ⟨lineage, live.observe atop.fresh, hm⟩

/-- The recovery rule decides as before: what another recovery names was no head. -/
lemma pre_iff (hf : dag.snapshot id = some s) :
    (liveness (dag.observe c) (dag.observe c).ids (tipEpoch log)
        (preOf log (dag.observe c))).1 id = some .authorized ↔
      (liveness dag dag.ids (tipEpoch log) (preOf log dag)).1 id = some .authorized := by
  have hf' := snapshot_observe_of_some atop.fresh hf
  rw [liveness_pre, liveness_pre]
  cases heals : s.isRecovery with
  | false =>
    rw [preAfterRecovery_authorized, preAfterRecovery_authorized, preOf_observe atop.fresh hf]
    simp [recoveryRejects, hf, hf', heals]
  | true =>
    rw [preAfterRecovery_recovery hf' heals, preAfterRecovery_recovery hf heals,
      recoveryParentsEligible_iff hf', recoveryParentsEligible_iff hf,
      preOf_observe atop.fresh hf]
    refine and_congr_right fun _ => forall₂_congr fun parent hn => ?_
    have apart := atop.parent_ne hf hn
    rw [atop.firstLive_iff apart, snapshot_observe, if_neg apart]
    refine and_congr_right fun _ => and_congr_left fun _ => ?_
    refine forall₂_congr fun other _ => not_congr ⟨fun he => ?_, .observe atop.fresh⟩
    refine (parentEdge_observe he).resolve_left fun fresh => ?_
    exact (classify_eligible.mp (atop.head fresh.2)).2.2 id ⟨s, hf, hn⟩

lemma pre_self :
    (liveness (dag.observe c) (dag.observe c).ids (tipEpoch log)
      (preOf log (dag.observe c))).1 (P.snapshotId c) = some .authorized := by
  have hf := snapshot_observe_self dag c
  have legal : preOf log (dag.observe c) (P.snapshotId c) = some .authorized :=
    preOf_authorized.mpr ⟨c, hf, atop.passes, atop.owner⟩
  rw [liveness_pre]
  cases heals : c.isRecovery with
  | false =>
    rw [preAfterRecovery_authorized]
    exact ⟨legal, by simp [recoveryRejects, hf, heals]⟩
  | true =>
    rw [preAfterRecovery_recovery hf heals, recoveryParentsEligible_iff hf]
    refine ⟨legal, fun parent hn => ?_⟩
    obtain ⟨alive, ⟨ps, found, now⟩, hu⟩ := classify_eligible.mp (atop.head hn)
    refine ⟨⟨ps, snapshot_observe_of_some atop.fresh found, now⟩, fun other ha edge => ?_, ?_⟩
    · rcases parentEdge_observe edge with ⟨hs, -⟩ | edge
      · exact ha hs
      · exact hu other edge
    · obtain ⟨lineage, live, hm⟩ := classify_live.mp alive
      rw [liveness_pre] at live
      exact (firstLive_live (fun _ hl => hl) parent).mpr
        ⟨lineage, live.weaken.observe atop.fresh, hm⟩

lemma eligible_self : classify log (dag.observe c) (P.snapshotId c) = some .eligible := by
  have hf := snapshot_observe_self dag c
  refine classify_eligible.mpr ⟨classify_live.mpr ⟨insert (P.snapshotId c)
    { id | ∃ lineage, SelfLive dag (tipEpoch log)
      (liveness dag dag.ids (tipEpoch log) (preOf log dag)).1 lineage ∧ id ∈ lineage }, ?_,
    Set.mem_insert _ _⟩, ⟨c, hf, atop.current⟩, fun other edge => ?_⟩
  · rintro id (rfl | hm)
    · refine ⟨atop.pre_self, c, hf, fun parent hn => ?_, .inl atop.current.symm⟩
      obtain ⟨ha, ⟨ps, found, now⟩, -⟩ := classify_eligible.mp (atop.head hn)
      refine ⟨.inr (classify_live.mp ha), ps, snapshot_observe_of_some atop.fresh found, ?_⟩
      exact (Option.some.inj (now.trans atop.current.symm)).le
    · obtain ⟨hl, s, sFound, hp, now⟩ := selfLive_together _ _ _ id hm
      refine ⟨(atop.pre_iff sFound).mpr hl, s, snapshot_observe_of_some atop.fresh sFound,
        fun parent hn => ?_, now.imp_right ?_⟩
      · obtain ⟨mem, ps, found, ordered⟩ := hp parent hn
        exact ⟨.inr mem, ps, snapshot_observe_of_some atop.fresh found, ordered⟩
      · rintro ⟨child, mem, cs, hc, hn⟩
        exact ⟨child, .inr mem, cs, snapshot_observe_of_some atop.fresh hc, hn⟩
  · rcases parentEdge_observe edge with ⟨-, ho⟩ | edge
    · obtain ⟨-, ⟨s, hs, -⟩, -⟩ := classify_eligible.mp (atop.head ho)
      cases atop.fresh.symm.trans hs
    · exact atop.unnamed other edge

lemma only_eligible (able : classify log (dag.observe c) id = some .eligible) :
    id = P.snapshotId c := by
  by_contra apart
  obtain ⟨ha, ⟨s, hf, hn⟩, unnamed⟩ := classify_eligible.mp able
  obtain ⟨lineage, hl, hm⟩ := classify_live.mp ha
  have lived := classify_live.mpr ⟨_, atop.forget (fun id s hf => (atop.pre_iff hf).mp) hl,
    hm, apart⟩
  have wasHead : classify log dag id = some .eligible :=
    classify_eligible.mpr ⟨lived, ⟨s, before apart hf, hn⟩, fun other he =>
      unnamed other (he.observe atop.fresh)⟩
  refine unnamed (P.snapshotId c) ⟨c, snapshot_observe_self dag c, ?_⟩
  rw [atop.parents]
  exact mem_eligibleHeads.mpr wasHead

lemma eligibleHeads_observe : eligibleHeads log (dag.observe c) = [P.snapshotId c] := by
  have nodup : (eligibleHeads log (dag.observe c)).Nodup := (Observed.ids_nodup _).filter _
  refine perm_singleton.mp ((perm_ext_iff_of_nodup nodup (nodup_singleton _)).mpr
    fun id => ?_)
  rw [mem_eligibleHeads, mem_singleton]
  constructor
  · exact atop.only_eligible
  · rintro rfl
    exact atop.eligible_self

end Supersedes

end Wyrd.Authorization
