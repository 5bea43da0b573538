import Wyrd.Runtime.Continuity

/-! # The devices of one drive

At one membership state, devices author over the heads they know and receive what others
authored, late, twice and in any order. The ledger, which no device has, holds all of it.
-/

namespace Wyrd.Runtime

open Wyrd.Membership Wyrd.Authorization Function

variable {P : Primitives} {Device : Type} {ledger engine : Engine P} {s : Snapshot}
  {id : SnapshotId}

/-- A member whose snapshots are in the ledger. -/
structure Shares (ledger engine : Engine P) : Prop where
  member : engine.Member
  log : engine.log = ledger.log
  drive : engine.dag.drive = ledger.dag.drive
  held : ∀ id s, engine.dag.snapshot id = some s → ledger.dag.snapshot id = some s

/-- The ledger and the devices after any run. Ids do not collide. -/
inductive Fleet [DecidableEq Device] : Engine P → (Device → Engine P) → Prop
  | boot {ledger engines} (sound : Sound ledger) (shares : ∀ device, Shares ledger (engines device)) :
      Fleet ledger engines
  | author {ledger engines host tree now s} (run : Fleet ledger engines) (device : Device)
      (authored : (engines device).author host tree now = .ok s)
      (fresh : ledger.dag.snapshot (P.snapshotId s) = none) :
      Fleet (ledger.commit s) (update engines device ((engines device).commit s))
  | receive {ledger engines id s} (run : Fleet ledger engines) (device : Device)
      (sent : ledger.dag.snapshot id = some s) :
      Fleet ledger (update engines device ((engines device).commit s))

/-- No named parent is missing. -/
def Gapless (dag : SnapshotDag P) : Prop :=
  ∀ parent child, ParentEdge dag parent child → ∃ s, dag.snapshot parent = some s

namespace Shares

variable (less : Shares ledger engine)
include less

lemma authored {parents flags} (wrote : Authored engine parents flags s) :
    Authored ledger parents flags s := by
  obtain ⟨tip, hmem, hp, whole, signed⟩ := wrote
  rw [less.log] at tip hmem
  rw [less.drive] at signed
  exact ⟨tip, hmem, hp, whole, signed⟩

lemma grow (new : ledger.dag.snapshot (P.snapshotId s) = none) : Shares (ledger.commit s) engine :=
  ⟨less.member, less.log, less.drive, fun id other hf =>
    snapshot_observe_of_some new (less.held id other hf)⟩

lemma commit (hsent : ledger.dag.snapshot (P.snapshotId s) = some s) :
    Shares ledger (engine.commit s) := by
  refine ⟨less.member, less.log, less.drive, fun id other hf => ?_⟩
  rw [Engine.commit, snapshot_observe] at hf
  split_ifs at hf with fresh
  · cases hf
    rwa [fresh]
  · exact less.held id other hf

lemma edge {parent child} (link : ParentEdge engine.dag parent child) :
    ParentEdge ledger.dag parent child := by
  obtain ⟨s, hf, hn⟩ := link
  exact ⟨s, less.held child s hf, hn⟩

lemma sound (whole : Sound ledger) (shut : Gapless engine.dag) : Sound engine := by
  refine ⟨less.member, fun id cycle => whole.acyclic id ?_, fun id s hf => ?_⟩
  · exact Relation.TransGen.mono (fun _ _ he => less.edge he) _ _ cycle
  obtain ⟨ho, hp, parents⟩ := whole.snapshots id s (less.held id s hf)
  rw [less.log, less.drive]
  refine ⟨ho, hp, fun parent hn => ?_⟩
  obtain ⟨ps, found⟩ := shut parent id ⟨s, hf, hn⟩
  obtain ⟨ps', found', hle⟩ := parents parent hn
  cases (less.held parent ps found).symm.trans found'
  exact ⟨ps, found, hle⟩

end Shares

variable [DecidableEq Device] {engines : Device → Engine P} {device other : Device}

lemma Fleet.invariant (run : Fleet ledger engines) :
    Sound ledger ∧ ∀ device, Shares ledger (engines device) := by
  induction run with
  | boot sound shares => exact ⟨sound, shares⟩
  | @author ledger engines _ _ _ s _ device authored fresh ih =>
    obtain ⟨hs, less⟩ := ih
    have wrote := (less device).authored (Engine.authorOver_ok authored)
    refine ⟨hs.commit wrote (fun parent hi => ?_) fresh,
      (forall_update_iff engines fun _ => Shares _).mpr ⟨?_, fun other _ => ?_⟩⟩
    · obtain ⟨ps, hf, -⟩ := head_current hi
      exact ⟨ps, (less device).held parent ps hf⟩
    · exact ((less device).grow fresh).commit (snapshot_observe_self ledger.dag s)
    · exact (less other).grow fresh
  | @receive ledger engines id s _ device sent ih =>
    refine ⟨ih.1, (forall_update_iff engines fun _ => Shares _).mpr
      ⟨(ih.2 device).commit ?_, fun other _ => ih.2 other⟩⟩
    rwa [Observed.key_of_lookup sent]

section Sample

end Sample

end Wyrd.Runtime
