import Wyrd.Lib.Fallible
import Wyrd.Authorization.Classify

/-! # Authoring and the carry queue

One engine: the membership log, the snapshot DAG and the two sets of the carry
queue, with snapshot authoring over them. Before a transition the eligible heads
are staged as obligations; afterwards the drain re-authors each staged head at
the new epoch. The object store, the keyring and the manifest walk are oracles
of a `Host`: they decide whether an authoring goes through, never what it
contains.
-/

namespace Wyrd.Runtime

open Wyrd.Membership Wyrd.Authorization

variable {P : Primitives}

/-- What authoring and draining can fail with. -/
inductive EngineError where
  | objectStore (message : String)
  | treeUnavailable (tree : ContentId)
  | treeMismatch (tree : ContentId)
  | invalidTree (tree : ContentId)
  | ingest
  | noCanonicalMembership
  | readerCannotAuthor
  | notAMember
  | recoveryNotOwner
  | invalidSnapshot (error : SnapshotError)
  | invalidHead (rejection : Rejection)
  | missingEpochKey (epoch : Nat)
  | vault
  | chunksUnavailable (missing : List ContentId)
  | crypto
  | closure
  deriving DecidableEq

/-- The outside of one authoring call: the object store's answer on a root tree,
    the identity secret, the keyring, and the vault with the manifest walk. -/
structure Host where
  openRoot : ContentId → Except EngineError Unit
  sign : Snapshot → DriveId → Signature
  holdsSecret : Nat → Bool
  authorManifests : Snapshot → Except EngineError Unit

def Host.checkSecret (host : Host) (epoch : Nat) : Except EngineError Unit :=
  if host.holdsSecret epoch then .ok () else .error (.missingEpochKey epoch)

/-- The durable state of one engine, as a rebuild presents it. -/
structure Engine (P : Primitives) where
  device : DeviceId
  log : MembershipLog P
  dag : SnapshotDag P
  carryQueued : Observed (fun id : SnapshotId => id)
  carryDone : Observed (fun id : SnapshotId => id)

def nextTimestamp (maxSeen now : Nat) : Nat := max now (saturatingAdd maxSeen 1)

def demand {α : Type} (error : EngineError) : Option α → Except EngineError α
  | none => .error error
  | some a => .ok a

/-- The role predicate of authoring: readers are refused by name. -/
def checkRole (device : DeviceId) (members readers : Finset DeviceId) : Except EngineError Unit :=
  if device ∈ members then .ok ()
  else if device ∈ readers then .error .readerCannotAuthor
  else .error .notAMember

namespace Engine

variable (engine : Engine P)

def maxSeen : Nat := ((engine.dag.snapshots.docs.map Snapshot.timestamp).max?).getD 0

/-- Author a snapshot over explicit parents; the caller commits the result. -/
def authorOver (host : Host) (tree : ContentId) (parents : List SnapshotId) (flags : UInt8)
    (now : Nat) : Except EngineError Snapshot := do
  host.openRoot tree
  let known ← demand .noCanonicalMembership engine.log.knownState
  let members ← demand .noCanonicalMembership (engine.log.membersOf known.transitionId)
  let readers ← demand .noCanonicalMembership (engine.log.readersOf known.transitionId)
  checkRole engine.device members readers
  let draft ← (Snapshot.new parents tree engine.device known.transitionId known.epoch flags
    (nextTimestamp engine.maxSeen now)).mapError .invalidSnapshot
  let signed := { draft with signature := host.sign draft engine.dag.drive }
  (verifySnapshot P engine.dag.drive signed).mapError .invalidHead
  host.checkSecret known.epoch
  host.authorManifests signed
  return signed

def heads : List SnapshotId := eligibleHeads engine.log engine.dag

def author (host : Host) (tree : ContentId) (now : Nat) : Except EngineError Snapshot :=
  engine.authorOver host tree engine.heads 0 now

/-- The recovery author must be the current canonical owner. -/
def checkRecoveryOwner : Except EngineError Unit := do
  let known ← demand .noCanonicalMembership engine.log.knownState
  if recoveryOwner (engine.log.ownersOf known.transitionId) engine.device then pure ()
  else throw .recoveryNotOwner

/-- Author a recovery snapshot over the current eligible heads. -/
def authorRecovery (host : Host) (tree : ContentId) (now : Nat) : Except EngineError Snapshot := do
  engine.checkRecoveryOwner
  engine.authorOver host tree engine.heads recoveryFlag now

def commit (s : Snapshot) : Engine P := { engine with dag := engine.dag.observe s }

def observeTransition (t : MembershipTransition) : Engine P :=
  { engine with log := engine.log.observe t }

def recordCarryQueued (head : SnapshotId) : Engine P :=
  { engine with carryQueued := engine.carryQueued.observe head }

def recordCarryDone (head : SnapshotId) : Engine P :=
  { engine with carryDone := engine.carryDone.observe head }

/-- The still-undischarged obligations, ascending. -/
def pendingCarries : List SnapshotId :=
  engine.carryQueued.docs.filter (fun head => decide (head ∉ engine.carryDone.docs))

def carryCovered (head : SnapshotId) : Bool :=
  decide (head ∈ engine.carryQueued.docs) || decide (head ∈ engine.carryDone.docs)

/-- Stage the eligible heads that are not covered yet; also returns how many. -/
def stageCarryHeads : Engine P × Nat :=
  let staged := engine.heads.filter (fun head => !engine.carryCovered head)
  (staged.foldl recordCarryQueued engine, staged.length)

/-- A child at the epoch that classifies as live. -/
def alreadyCarried (epoch : Nat) (head : SnapshotId) : Bool :=
  engine.dag.ids.any (fun id =>
    (decide (classify engine.log engine.dag id = some .eligible) ||
      decide (classify engine.log engine.dag id = some .canonicalHistory)) &&
    (engine.dag.snapshot id).any (fun s =>
      decide (head ∈ s.parents) && decide (s.epoch = epoch)))

end Engine

structure CarryReport where
  authored : List Snapshot
  discharged : Nat
  deriving DecidableEq

/-- The drain loop. The DAG and its classification are those of the start; the
    engine moves with every commit, and an error keeps what was committed. -/
def carryLoop (host : Host) (clock : SnapshotId → Nat) (start : Engine P) (epoch : Nat) :
    List SnapshotId → Engine P → CarryReport → Engine P × Except EngineError CarryReport
  | [], engine, report => (engine, .ok report)
  | head :: rest, engine, report =>
    if classify start.log start.dag head = some .eligible then
      carryLoop host clock start epoch rest (engine.recordCarryDone head)
        { report with discharged := report.discharged + 1 }
    else if start.alreadyCarried epoch head then
      carryLoop host clock start epoch rest (engine.recordCarryDone head)
        { report with discharged := report.discharged + 1 }
    else match start.dag.snapshot head with
      | none => carryLoop host clock start epoch rest engine report
      | some body =>
        match engine.authorOver host body.tree [head] 0 (clock head) with
        | .error error => (engine, .error error)
        | .ok s =>
          carryLoop host clock start epoch rest ((engine.commit s).recordCarryDone head)
            { report with authored := report.authored ++ [s] }

/-- Drain the carry queue; `clock` is the wall clock when a head is carried. -/
def Engine.carryPending (engine : Engine P) (host : Host) (clock : SnapshotId → Nat) :
    Engine P × Except EngineError CarryReport :=
  if engine.pendingCarries = [] then (engine, .ok ⟨[], 0⟩)
  else match engine.log.knownState with
    | none => (engine, .error .noCanonicalMembership)
    | some known =>
      match engine.log.membersOf known.transitionId with
      | none => (engine, .error .noCanonicalMembership)
      | some members =>
        if engine.device ∈ members then
          carryLoop host clock engine known.epoch engine.pendingCarries engine ⟨[], 0⟩
        else (engine, .ok ⟨[], 0⟩)

lemma demand_ok {α : Type} {error : EngineError} {found : Option α} {value : α} :
    demand error found = .ok value ↔ found = some value := by
  cases found <;> simp [demand]

lemma checkRole_ok : checkRole device members readers = .ok () ↔ device ∈ members := by
  rw [checkRole]
  split_ifs <;> simp_all

/-- An authored snapshot: signed by the device, bound to the tip. -/
structure Authored (engine : Engine P) (parents : List SnapshotId) (flags : UInt8)
    (s : Snapshot) : Prop where
  tip : ∃ known, engine.log.knownState = some known ∧ s.membership = known.transitionId ∧
    s.epoch = known.epoch
  member : ∃ members, engine.log.membersOf s.membership = some members ∧ s.author ∈ members
  parents : s.parents = parents
  flags : s.flags = flags
  signed : verifySnapshot P engine.dag.drive s = .ok ()

lemma Engine.authorOver_ok {engine : Engine P} {host : Host} {tree : ContentId}
    {parents : List SnapshotId} {flags : UInt8} {now : Nat} {s : Snapshot}
    (wrote : engine.authorOver host tree parents flags now = .ok s) :
    Authored engine parents flags s := by
  simp only [authorOver, bind_ok, demand_ok, mapError_ok] at wrote
  obtain ⟨_, _, known, ht, members, ofTip, readers, _, _, role, draft, drafted, _, hs, _,
    _, _, _, hd⟩ := wrote
  cases hd
  rw [Snapshot.new] at drafted
  split_ifs at drafted
  cases drafted
  exact ⟨⟨known, ht, rfl, rfl⟩, ⟨members, ofTip, checkRole_ok.mp role⟩, rfl, rfl, hs⟩

/-- The successful drain of a list of heads, with the snapshots it authored. -/
inductive Drained (start : Engine P) (epoch : Nat) :
    List SnapshotId → Engine P → List Snapshot → Engine P → Prop where
  | nil {engine} : Drained start epoch [] engine [] engine
  | discharge {head rest engine authored final} :
      (classify start.log start.dag head = some .eligible ∨
        start.alreadyCarried epoch head = true) →
      Drained start epoch rest (engine.recordCarryDone head) authored final →
      Drained start epoch (head :: rest) engine authored final
  | missing {head rest engine authored final} : start.dag.snapshot head = none →
      Drained start epoch rest engine authored final →
      Drained start epoch (head :: rest) engine authored final
  | carry {head rest engine body s authored final} : start.dag.snapshot head = some body →
      Authored engine [head] 0 s →
      Drained start epoch rest ((engine.commit s).recordCarryDone head) authored final →
      Drained start epoch (head :: rest) engine (s :: authored) final

lemma carryLoop_ok {host : Host} {clock : SnapshotId → Nat} {start : Engine P} {epoch : Nat}
    {pending : List SnapshotId} {engine final : Engine P} {report result : CarryReport}
    (hd : carryLoop host clock start epoch pending engine report = (final, .ok result)) :
    ∃ authored, Drained start epoch pending engine authored final ∧
      result.authored = report.authored ++ authored := by
  induction pending generalizing engine report with
  | nil =>
    obtain ⟨rfl, hs⟩ := Prod.mk.inj hd
    cases hs
    exact ⟨[], .nil, by simp⟩
  | cons head rest ih =>
    simp only [carryLoop] at hd
    split_ifs at hd with ha hc
    · obtain ⟨authored, drained, hl⟩ := ih hd
      exact ⟨authored, .discharge (.inl ha) drained, hl⟩
    · obtain ⟨authored, drained, hl⟩ := ih hd
      exact ⟨authored, .discharge (.inr hc) drained, hl⟩
    · cases hf : start.dag.snapshot head with
      | none =>
        simp only [hf] at hd
        obtain ⟨authored, drained, hl⟩ := ih hd
        exact ⟨authored, .missing hf drained, hl⟩
      | some body =>
        simp only [hf] at hd
        cases outcome : engine.authorOver host body.tree [head] 0 (clock head) with
        | error => simp [outcome] at hd
        | ok s =>
          simp only [outcome] at hd
          obtain ⟨authored, drained, hl⟩ := ih hd
          refine ⟨s :: authored, .carry hf (Engine.authorOver_ok outcome) drained, ?_⟩
          rw [hl, List.append_assoc, List.singleton_append]

end Wyrd.Runtime
