import Wyrd.Lib.Demotion
import Wyrd.Membership.Chain

/-! # Snapshot classification

The observed snapshot DAG and its classification against the membership log:
intrinsic verdicts first, then the liveness fixed point with the recovery parent
rule between its two runs, then the final mapping. A table that a loop fills
without reading it back is a function here; the fixed point, which does read it
back, is the in-place loop of the source over the ids in ascending order.
-/

namespace Wyrd.Authorization

open Wyrd.Membership

inductive Rejection where
  | badSignature
  | invalidAuthorKey
  | authorNotMember
  | authorIsReader
  | epochMismatch
  | transitionInvalid
  | recoveryNotOwner
  | recoveryParentInvalid
  deriving DecidableEq

inductive Pendency where
  | unknownTransition
  | transitionPending
  | orphanedTransition
  | contestedTransition
  | unknownParent
  | futureEpoch
  deriving DecidableEq

/-- Only `rejected` means invalid; the others are valid historical states. -/
inductive Classification where
  | rejected (reason : Rejection)
  | pending (reason : Pendency)
  | voided
  | eligible
  | canonicalHistory
  | superseded
  | stranded
  deriving DecidableEq

/-- What phase 1 established about a snapshot, before lineage. -/
inductive Pre where
  | rejected (reason : Rejection)
  | pending (reason : Pendency)
  | voided
  | authorized
  deriving DecidableEq

/-- The outcome of the liveness computation. -/
inductive Live where
  | live
  | dead
  | undecided (reason : Pendency)
  deriving DecidableEq

/-- What the parents' pre-verdicts imply before any liveness iteration. -/
inductive ParentFate where
  | ok
  | dead
  | undecided (reason : Pendency)
  deriving DecidableEq

structure SnapshotDag (P : Primitives) where
  drive : DriveId
  snapshots : Observed P.snapshotId

variable {P : Primitives}

namespace SnapshotDag

def new (P : Primitives) (drive : DriveId) : SnapshotDag P := ⟨drive, .empty⟩

def observe (dag : SnapshotDag P) (s : Snapshot) : SnapshotDag P :=
  { dag with snapshots := dag.snapshots.observe s }

def snapshot (dag : SnapshotDag P) (id : SnapshotId) : Option Snapshot := dag.snapshots.lookup id

def ids (dag : SnapshotDag P) : List SnapshotId := dag.snapshots.ids

/-- Every id some observed snapshot names as a parent. -/
def referenced (dag : SnapshotDag P) : List SnapshotId :=
  dag.snapshots.docs.flatMap Snapshot.parents

/-- Observed snapshots no observed snapshot names as a parent, ascending. -/
def heads (dag : SnapshotDag P) : List SnapshotId :=
  dag.ids.filter (fun id => decide (id ∉ dag.referenced))

end SnapshotDag

/-- Whether the snapshot's signature verifies; a malformed author key is
    reported as such. -/
def verifySnapshot (P : Primitives) (drive : DriveId) (s : Snapshot) : Except Rejection Unit :=
  if P.validDeviceKey s.author = false then .error .invalidAuthorKey
  else if P.parsesSignature s.signature = false then .error .badSignature
  else if P.verifySchnorr s.signature (P.snapshotChallenge s drive) s.author = false then
    .error .badSignature
  else .ok ()

/-- The members check, with the reason a non-member gets. -/
def checkAuthor (log : MembershipLog P) (transition : TransitionId) (author : DeviceId) :
    Except Rejection Unit :=
  if (log.membersOf transition).any (fun members => decide (author ∈ members)) then .ok ()
  else if (log.readersOf transition).any (fun readers => decide (author ∈ readers)) then
    .error .authorIsReader
  else .error .authorNotMember

/-- The recovery author must be the current canonical owner. -/
def recoveryOwner (tipOwners : Option (Finset DeviceId)) (author : DeviceId) : Bool :=
  tipOwners.any (fun owners => decide (owners.card = 1) && decide (author ∈ owners))

/-- Phase 1: everything intrinsic to one snapshot against the log. -/
def preverdict (drive : DriveId) (log : MembershipLog P)
    (statuses : TransitionId → Option TransitionStatus) (s : Snapshot)
    (tipOwners : Option (Finset DeviceId)) : Pre :=
  match verifySnapshot P drive s with
  | .error rejection => .rejected rejection
  | .ok () =>
    match log.transition s.membership with
    | none => .pending .unknownTransition
    | some t =>
      match statuses s.membership with
      | some .pending => .pending .transitionPending
      | some .orphaned => .pending .orphanedTransition
      | some .contested => .pending .contestedTransition
      | some .voided => .voided
      | some (.invalid _) => .rejected .transitionInvalid
      | none => .pending .unknownTransition
      | some .canonical =>
        if s.epoch ≠ t.epoch then .rejected .epochMismatch
        else match checkAuthor log (P.transitionId t) s.author with
          | .error rejection => .rejected rejection
          | .ok () =>
            if s.isRecovery && !recoveryOwner tipOwners s.author then
              .rejected .recoveryNotOwner
            else .authorized

def tipOwners (log : MembershipLog P) : Option (Finset DeviceId) :=
  log.knownState.bind (fun known => log.ownersOf known.transitionId)

section Engine

variable (log : MembershipLog P) (dag : SnapshotDag P)

def preOf (id : SnapshotId) : Option Pre :=
  (dag.snapshot id).map (fun s => preverdict dag.drive log log.statuses s (tipOwners log))

/-- The parent loop of `compute_parent_fate`. -/
def fateOf (pre : SnapshotId → Option Pre) : List SnapshotId → ParentFate
  | [] => .ok
  | parent :: rest =>
    match dag.snapshot parent with
    | none => .undecided .unknownParent
    | some _ =>
      match pre parent with
      | some (.pending reason) => .undecided reason
      | some (.rejected _) | some .voided => .dead
      | _ => fateOf pre rest

def parentFate (pre : SnapshotId → Option Pre) (id : SnapshotId) : Option ParentFate :=
  (dag.snapshot id).map (fun s => fateOf dag pre s.parents)

/-- Start optimistic: every authorized snapshot with authorized parents. -/
def seedLive (pre : SnapshotId → Option Pre) (id : SnapshotId) : Option Live :=
  (dag.snapshot id).map (fun _ =>
    match pre id, parentFate dag pre id with
    | some .authorized, some .ok => .live
    | some .authorized, some .dead => .dead
    | some .authorized, some (.undecided reason) => .undecided reason
    | some (.pending reason), _ => .undecided reason
    | _, _ => .dead)

/-- Children of each observed snapshot, in ascending order. -/
def childrenOf (id : SnapshotId) : List SnapshotId :=
  dag.ids.flatMap (fun child =>
    match dag.snapshot child with
    | none => []
    | some s => (s.parents.filter (fun parent => decide (parent = id))).map (fun _ => child))

/-- The parent loop of `rederive`: the verdict of the first parent that is not
    live at an epoch at most this one. -/
def parentsVerdict (live : SnapshotId → Option Live) (epoch : Nat) :
    List SnapshotId → Option Live
  | [] => none
  | parent :: rest =>
    match live parent with
    | some (.undecided reason) => some (.undecided reason)
    | some .dead => some .dead
    | none => some (.undecided .unknownParent)
    | some .live =>
      match dag.snapshot parent with
      | none => some .dead
      | some ps => if ps.epoch > epoch then some .dead else parentsVerdict live epoch rest

def rederive (k : Option Nat) (pre : SnapshotId → Option Pre) (live : SnapshotId → Option Live)
    (id : SnapshotId) : Live :=
  match pre id with
  | some (.pending reason) => .undecided reason
  | some .authorized =>
    match dag.snapshot id with
    | none => .dead
    | some s =>
      match parentsVerdict dag live s.epoch s.parents with
      | some verdict => verdict
      | none =>
        if k ≠ some s.epoch ∧
            (childrenOf dag id).any (fun c => decide (live c = some .live)) = false then
          .dead
        else .live
  | _ => .dead

/-- The fixed point loop, visiting ids in the given order. Each round but the
    last demotes an id, so a round more than there are ids is enough. -/
def liveFixedPoint (order : List SnapshotId) (k : Option Nat) (pre : SnapshotId → Option Pre)
    (live : SnapshotId → Option Live) : SnapshotId → Option Live :=
  Demotion.settle (some .live) (fun live id => some (rederive dag k pre live id)) order
    (order.length + 1) live

/-- Every id named as a parent by an observed snapshot other than one. -/
def referencedBeside (id : SnapshotId) : List SnapshotId :=
  (dag.ids.filter (fun other => decide (other ≠ id))).flatMap (fun other =>
    (dag.snapshot other).elim [] Snapshot.parents)

/-- Whether every parent of the recovery snapshot is a current eligible head,
    the snapshot itself left out of the head computation. -/
def recoveryParentsEligible (k : Option Nat) (live : SnapshotId → Option Live)
    (id : SnapshotId) : Bool :=
  match dag.snapshot id with
  | none => false
  | some s => s.parents.all (fun parent =>
    match dag.snapshot parent with
    | none => false
    | some ps => decide (parent ∉ referencedBeside dag id) && decide (some ps.epoch = k) &&
        decide (live parent = some .live))

/-- The recovery snapshots the parent rule rejects. -/
def recoveryRejects (k : Option Nat) (pre : SnapshotId → Option Pre)
    (live : SnapshotId → Option Live) (id : SnapshotId) : Bool :=
  match dag.snapshot id with
  | none => false
  | some s => s.isRecovery && decide (pre id = some .authorized) &&
      !recoveryParentsEligible dag k live id

/-- Pre-verdicts after the recovery parent rule. -/
def preAfterRecovery (k : Option Nat) (pre : SnapshotId → Option Pre)
    (live : SnapshotId → Option Live) (id : SnapshotId) : Option Pre :=
  if recoveryRejects dag k pre live id then some (.rejected .recoveryParentInvalid) else pre id

def firstLive (order : List SnapshotId) (k : Option Nat) (pre : SnapshotId → Option Pre) :
    SnapshotId → Option Live :=
  liveFixedPoint dag order k pre (seedLive dag pre)

/-- Both runs of the fixed point, with the recovery rule between them. The
    second run is made only when a recovery snapshot was rejected. -/
def liveness (order : List SnapshotId) (k : Option Nat) (pre : SnapshotId → Option Pre) :
    (SnapshotId → Option Pre) × (SnapshotId → Option Live) :=
  let live := firstLive dag order k pre
  let pre' := preAfterRecovery dag k pre live
  if dag.ids.any (recoveryRejects dag k pre live) then
    (pre', liveFixedPoint dag order k pre' live)
  else (pre', live)

def finalClassification (k : Option Nat) (pre : SnapshotId → Option Pre)
    (live : SnapshotId → Option Live) (id : SnapshotId) (s : Snapshot) : Classification :=
  match pre id with
  | none => .stranded
  | some (.rejected reason) => .rejected reason
  | some (.pending reason) => .pending reason
  | some .voided => .voided
  | some .authorized =>
    match (live id).getD .dead with
    | .undecided reason => .pending reason
    | .dead =>
      match k with
      | some k =>
        if s.epoch < k then .superseded
        else if s.epoch > k then .pending .futureEpoch
        else .stranded
      | none => .stranded
    | .live =>
      if id ∈ dag.heads ∧ some s.epoch = k then .eligible else .canonicalHistory

def horizon (epoch : Option Nat) : Option Nat :=
  epoch.or (log.knownState.map KnownState.epoch)

/-- Classify the DAG as of an epoch, or as of the tip. -/
def classifyAtEpoch (epoch : Option Nat) (id : SnapshotId) : Option Classification :=
  (dag.snapshot id).map (fun s =>
    let result := liveness dag dag.ids (horizon log epoch) (preOf log dag)
    finalClassification dag (horizon log epoch) result.1 result.2 id s)

def classify (id : SnapshotId) : Option Classification :=
  classifyAtEpoch log dag (log.knownState.map KnownState.epoch) id

def eligibleHeads : List SnapshotId :=
  dag.ids.filter (fun id => decide (classify log dag id = some .eligible))

def eligibleHeadsAtEpoch (epoch : Nat) : List SnapshotId :=
  dag.ids.filter (fun id => decide (classifyAtEpoch log dag (some epoch) id = some .eligible))

end Engine

end Wyrd.Authorization
