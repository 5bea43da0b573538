import Wyrd.Lib.Effect
import Wyrd.Authorization.Classify
import Wyrd.Intake.Engine
import Wyrd.Outbox.Announcements

/-! # Announcing snapshots

An announcement is sealed once per snapshot, and once more per further route,
so that a retry resends the bytes of the first send. Each relay-accepted send
commits a delivery marker with the route it is counted under. `announceSnapshot`
announces one snapshot of this device; `announcePending` resumes everything that
may be sent under the present route, snapshots of other authors included.
-/

namespace Wyrd.Outbox

open Wyrd.Authorization Wyrd.Control Wyrd.Durable Wyrd.Intake Wyrd.Keys Wyrd.Membership

variable {P : Primitives}

/-- What sending takes from outside besides the wire: the control seal under its
    nonce, the endpoint a route names, the signer and the transport root. -/
structure Postal extends Intake.Wire where
  sealControl : ControlKey → DriveId → Nat → Nat → Message → Option Bytes
  endpointId : Bytes → Option EndpointId
  signAnnouncement : DriveId → SnapshotAnnouncement → Signature
  bodyRoot : Snapshot → BaoRoot

/-- Why sealed bytes read back from the outbox are not the obligation's. -/
inductive SealedMismatch where
  | undecodable
  | unopenable (error : ControlError)
  | foreignDrive (drive : DriveId)
  | otherKind
  | otherSnapshot (snapshot : SnapshotId)
  | otherEpoch (sealed expected : Nat)
  | otherRoute
  deriving DecidableEq

inductive AnnounceError where
  | durable
  | rebuild (error : DurableError)
  | notAnnounceAuthor (snapshot : SnapshotId)
  | missingEpochKey (epoch : Nat)
  | rootManifestUnavailable (snapshot : SnapshotId)
  | noCanonicalMembership
  | invalidHead (rejection : Rejection)
  | sealedOutboxMismatch (mismatch : SealedMismatch)
  | control
  | oversize (bytes : Nat)
  | invalidKey
  | mailbox
  deriving DecidableEq

/-- What the outside sees of a sender: bytes handed to the mailbox, and facts
    that became durable. -/
inductive Event where
  | handed (snapshot : SnapshotId) (recipient : DeviceId) (bytes : Bytes)
  | committed (facts : List OutboxFact)
  deriving DecidableEq

/-- The sending side of an engine. `seals` numbers the nonces drawn, `trace`
    records what happened. -/
structure Sender (P : Primitives) where
  drive : DriveId
  device : DeviceId
  durable : List Fact
  outbox : List OutboxFact
  epochKeys : Nat → Option ControlKey
  seals : Nat
  trace : List Event

/-- The relays and the disk during one call: how many relays accept a send, or
    that the mailbox fails. -/
structure Post where
  send : List Event → DeviceId → Bytes → Option Nat
  commit : List OutboxFact → List OutboxFact → CommitAnswer
  loads : List OutboxFact → Bool

abbrev Sending (P : Primitives) := Effect (Sender P) AnnounceError

open Effect

def Sender.append (sender : Sender P) (facts : List OutboxFact) : Sender P :=
  { sender with outbox := sender.outbox ++ facts, trace := sender.trace ++ [.committed facts] }

variable (W : Postal) (post : Post)

def commitFacts (facts : List OutboxFact) : Sending P Unit := fun sender =>
  match post.commit sender.outbox facts with
  | .refused => (sender, .error .durable)
  | .unreported => (sender.append facts, .error .durable)
  | .landed => (sender.append facts, .ok ())

def rebuild (W : Postal) (post : Post) : Sending P (Rebuilt P × AnnouncementOutbox) := fun sender =>
  (sender,
    if post.loads sender.outbox then
      match rebuildFacts P W.toDigests sender.drive sender.durable sender.device with
      | .error error => .error (.rebuild error)
      | .ok rebuilt => .ok (rebuilt, replayOutbox sender.outbox)
    else .error .durable)

/-- The serving endpoint behind route bytes; a malformed route has none. -/
def routeIdOf (nodeAddr : Option Bytes) : Option EndpointId :=
  nodeAddr.bind W.endpointId

variable (outbox : AnnouncementOutbox) (keyring : DriveKeyring) (snapshot : SnapshotId)
  (routeId : Option EndpointId)

/-- What a delivery under a route is recorded as. -/
def recordedRoute : EndpointId := routeId.getD withdrawnRoute

/-- The recorded bodies as a DAG. -/
def recordedDag (drive : DriveId) (state : RuntimeState P) : SnapshotDag P :=
  state.snapshotBodies.docs.foldl SnapshotDag.observe (.new P drive)

def recordedParents (state : RuntimeState P) (snapshot : SnapshotId) : List SnapshotId :=
  (state.snapshotBody snapshot).elim [] Snapshot.parents

/-- The live heads and what they reach through recorded bodies. -/
def redeliveryScope (drive : DriveId) (rebuilt : Rebuilt P) : Finset SnapshotId :=
  let heads := eligibleHeads rebuilt.log (recordedDag drive rebuilt.runtime)
  let named := rebuilt.runtime.snapshotBodies.docs.flatMap Snapshot.parents
  Worklist.explore (recordedParents rebuilt.runtime) (heads.length + named.length) heads.reverse
    heads.toFinset

def deliveryFacts (recipient : DeviceId) : List OutboxFact :=
  [.announcementDelivered snapshot recipient,
    .announcementDeliveredRoute snapshot recipient (recordedRoute routeId)]

/-- One recipient: the outer seal refuses oversize bytes and a recipient that is
    no curve point; a send no relay accepts leaves the obligation as it was. -/
def sendTo (bytes : Bytes) (routeId : Option EndpointId) (recipient : DeviceId) : Sending P Nat :=
  if bytes.length > maxMailboxOpenBytes then fail (.oversize bytes.length)
  else if P.validDeviceKey recipient = false then fail .invalidKey
  else do
    let sender ← get
    set { sender with trace := sender.trace ++ [.handed snapshot recipient bytes] }
    match post.send sender.trace recipient bytes with
    | none => fail .mailbox
    | some 0 => return 0
    | some (_ + 1) =>
      commitFacts post (deliveryFacts snapshot routeId recipient)
      return 1

def sendSealedTo (bytes : Bytes) (routeId : Option EndpointId) (recipients : List DeviceId) :
    Sending P Nat :=
  tally (sendTo post snapshot bytes routeId) recipients

/-- Send to every recipient of one snapshot that the committed facts make
    eligible now. -/
def sendPendingFor (bytes : Bytes) (routeId : Option EndpointId) (scope : Finset SnapshotId) :
    Sending P Nat := do
  let (_, outbox) ← rebuild W post
  let recipients := ((outbox.announceEligibleFor routeId scope).filter
    (fun pair => decide (pair.1 = snapshot))).map Prod.snd
  sendSealedTo post snapshot bytes routeId recipients

/-- The control key of an epoch, derived from the keyring when it is not held. -/
def controlKeyFor (epoch : Nat) : Sending P ControlKey := do
  let sender ← get
  match sender.epochKeys epoch with
  | some key => return key
  | none =>
    match keyring.secret epoch with
    | none => fail (.missingEpochKey epoch)
    | some secret =>
      let key := W.controlKey secret sender.drive epoch
      set { sender with epochKeys := Function.update sender.epochKeys epoch (some key) }
      return key

/-- Seal under a fresh nonce; oversize bytes are refused before they persist. -/
def sealFresh (key : ControlKey) (epoch : Nat) (message : Message) :
    Sending P Bytes := do
  let sender ← get
  set { sender with seals := sender.seals + 1 }
  match W.sealControl key sender.drive epoch sender.seals message with
  | none => fail .control
  | some bytes =>
    if bytes.length > maxMailboxOpenBytes then fail (.oversize bytes.length) else return bytes

/-- Open bytes read back from the outbox. A missing key is no corruption. -/
def openReusedSealed (bytes : Bytes) : Sending P (Option (Nat × Message)) :=
  match W.decodeControl bytes with
  | .error _ => fail (.sealedOutboxMismatch .undecodable)
  | .ok header => do
      match ← (controlKeyFor W keyring header.epoch).attempt with
      | .error (.missingEpochKey _) => return none
      | .error other => fail other
      | .ok key =>
        match W.openControl key bytes with
        | .error error => fail (.sealedOutboxMismatch (.unopenable error))
        | .ok message =>
          let sender ← get
          if header.drive ≠ sender.drive then
            fail (.sealedOutboxMismatch (.foreignDrive header.drive))
          else return some (header.epoch, message)

/-- The opened message is this snapshot's announcement under its epoch. -/
def correlate (epoch : Nat) (opened : Nat × Message) : Except AnnounceError SnapshotAnnouncement :=
  match opened.2 with
  | .snapshotAnnouncement a =>
    if a.snapshot ≠ snapshot then .error (.sealedOutboxMismatch (.otherSnapshot a.snapshot))
    else if opened.1 ≠ epoch then .error (.sealedOutboxMismatch (.otherEpoch opened.1 epoch))
    else .ok a
  | _ => .error (.sealedOutboxMismatch .otherKind)

def signed (drive : DriveId) (a : SnapshotAnnouncement) : SnapshotAnnouncement :=
  { a with signature := W.signAnnouncement drive a }

/-- The root manifest a snapshot is served from: the announced one when it is
    recorded as a root, else the first. -/
def rootManifestRecord (state : RuntimeState P) (snapshot : SnapshotId) : Option ManifestRecord :=
  let roots := state.rootManifestsBySnapshot snapshot
  let announced := (state.announcement snapshot).bind (fun a =>
    if a.rootManifest ∈ roots then some a.rootManifest else none)
  (announced.or (ascending roots).head?).bind state.manifestRecord

/-- The author's statement about a body it holds, with its present route. -/
def statement (P : Primitives) (W : Postal) (drive : DriveId) (body : Snapshot)
    (root : ManifestRecord) (nodeAddr : Option Bytes) : SnapshotAnnouncement :=
  signed W drive ⟨P.snapshotId body, body.author, body.epoch, body.membership, W.bodyRoot body,
    root.manifestId, root.transport, nodeAddr, 0⟩

/-- The recipients an announcement tops its queue up with. -/
def uncovered (device : DeviceId) (snapshot : SnapshotId) (members readers : Finset DeviceId) :
    List OutboxFact :=
  ((ascending members ++ ascending readers).filter (fun recipient =>
    decide (recipient ≠ device) && !outbox.announcementCovered snapshot recipient)).map
    (OutboxFact.announcementQueued snapshot)

/-- Announce a snapshot of this device. Bytes sealed by an earlier attempt are
    sent as they are. -/
def announce (body : Snapshot) (nodeAddr : Option Bytes) (scope : Finset SnapshotId) :
    Sending P Nat := do
  let sender ← get
  let snapshot := P.snapshotId body
  if body.author ≠ sender.device then fail (.notAnnounceAuthor snapshot)
  else match sender.epochKeys body.epoch with
    | none => fail (.missingEpochKey body.epoch)
    | some key =>
      let (rebuilt, outbox) ← rebuild W post
      match rootManifestRecord rebuilt.runtime snapshot, rebuilt.log.membersOf body.membership,
          rebuilt.log.readersOf body.membership with
      | none, _, _ => fail (.rootManifestUnavailable snapshot)
      | some root, some members, some readers =>
        let obligation := uncovered outbox sender.device snapshot members readers
        match outbox.announcementSealed snapshot with
        | some bytes =>
          if obligation = [] then
            sendPendingFor W post snapshot bytes (routeIdOf W nodeAddr) scope
          else
            commitFacts post obligation
            sendPendingFor W post snapshot bytes (routeIdOf W nodeAddr) scope
        | none =>
          let bytes ← sealFresh W key body.epoch
            (.snapshotAnnouncement (statement P W sender.drive body root nodeAddr))
          commitFacts post (obligation ++ [.announcementSealed snapshot bytes])
          sendPendingFor W post snapshot bytes (routeIdOf W nodeAddr) scope
      | some _, _, _ => fail .noCanonicalMembership

/-- The persisted reseal for the live route, or a fresh one. -/
def reuseOrSealRoute (epoch : Nat) (nodeAddr : Option Bytes) (announcement : SnapshotAnnouncement) :
    Sending P (Option Bytes) :=
  let route := nodeAddr.getD []
  match outbox.announcementRouteSealed (snapshot, route) with
  | some persisted => do
      match ← openReusedSealed W keyring persisted with
      | none => return none
      | some opened =>
        let resealed ← lift (correlate snapshot epoch opened)
        if resealed.nodeAddr ≠ nodeAddr then fail (.sealedOutboxMismatch .otherRoute)
        else return some persisted
  | none => do
      let sender ← get
      let message := signed W sender.drive { announcement with nodeAddr := nodeAddr }
      let key ← controlKeyFor W keyring epoch
      let bytes ← sealFresh W key epoch (.snapshotAnnouncement message)
      commitFacts post [.announcementRouteSealed snapshot route bytes]
      return some bytes

/-- The persisted seal when it carries the live route, else the reseal for that
    route. -/
def liveBytes (epoch : Nat) (sealedBytes : Bytes) (nodeAddr : Option Bytes)
    (announcement : SnapshotAnnouncement) : Sending P (Option Bytes) :=
  if announcement.nodeAddr = nodeAddr then return some sealedBytes
  else reuseOrSealRoute W post outbox keyring snapshot epoch nodeAddr announcement

/-- Send what carries the live route. `none` is a sealing key that is not held. -/
def sendWithLiveRoute (sealedBytes : Bytes) (nodeAddr : Option Bytes) (epoch : Nat)
    (scope : Finset SnapshotId) :
    Sending P (Option Nat) := do
  match ← openReusedSealed W keyring sealedBytes with
  | none => return none
  | some opened =>
    let announcement ← lift (correlate snapshot epoch opened)
    match ← liveBytes W post outbox keyring snapshot epoch sealedBytes nodeAddr announcement with
    | none => return none
    | some bytes =>
      let sent ← sendPendingFor W post snapshot bytes (routeIdOf W nodeAddr) scope
      return some sent

/-- The author's statement sealed under its own epoch, persisted bytes first. -/
def reannounceSealedBytes (known : SnapshotAnnouncement) : Sending P (Option Bytes) :=
  match outbox.announcementSealed snapshot with
  | some bytes => do
      match ← openReusedSealed W keyring bytes with
      | none => return none
      | some opened =>
        let _ ← lift (correlate snapshot known.epoch opened)
        return some bytes
  | none => do
      match ← (controlKeyFor W keyring known.epoch).attempt with
      | .error (.missingEpochKey _) => return none
      | .error other => fail other
      | .ok key =>
        let bytes ← sealFresh W key known.epoch (.snapshotAnnouncement known)
        commitFacts post [.announcementSealed snapshot bytes]
        return some bytes

/-- Resend a statement of another author. It carries that author's route, so the
    send counts as one without a route. -/
def reannounceOne (rebuilt : Rebuilt P) (outbox : AnnouncementOutbox) (snapshot : SnapshotId)
    (scope : Finset SnapshotId) : Sending P Nat :=
  match rebuilt.runtime.announcement snapshot with
  | none => return 0
  | some known => do
      match ← reannounceSealedBytes W post outbox rebuilt.keyring snapshot known with
      | none => return 0
      | some bytes => sendPendingFor W post snapshot bytes none scope

/-- One snapshot of a resume pass. A missing sealing key skips it. -/
def resume (rebuilt : Rebuilt P) (outbox : AnnouncementOutbox) (nodeAddr : Option Bytes)
    (scope : Finset SnapshotId) (snapshot : SnapshotId) :
    Sending P Nat := do
  let sender ← get
  match rebuilt.runtime.snapshotBody snapshot with
  | none => reannounceOne W post rebuilt outbox snapshot scope
  | some body =>
    if body.author ≠ sender.device then reannounceOne W post rebuilt outbox snapshot scope
    else match verifySnapshot P sender.drive body with
      | .error rejection => fail (.invalidHead rejection)
      | .ok () =>
        match outbox.announcementSealed snapshot with
        | some bytes =>
          let sent ← sendWithLiveRoute W post outbox rebuilt.keyring snapshot bytes nodeAddr
            body.epoch scope
          return sent.getD 0
        | none =>
          match ← (announce W post body nodeAddr scope).attempt with
          | .ok sent => return sent
          | .error (.missingEpochKey _) => return 0
          | .error other => fail other

/-- The snapshots a pass resumes, each once, in id order. -/
def resumable (scope : Finset SnapshotId) : List SnapshotId :=
  ((outbox.announceEligibleFor routeId scope).map Prod.fst).destutter (· ≠ ·)

def announcePending (nodeAddr : Option Bytes) : Sending P Nat := do
  let (rebuilt, outbox) ← rebuild W post
  let sender ← get
  let scope := redeliveryScope sender.drive rebuilt
  tally (resume W post rebuilt outbox nodeAddr scope) (resumable outbox (routeIdOf W nodeAddr) scope)

def announceSnapshot (body : Snapshot) (nodeAddr : Option Bytes) :
    Sending P Nat := do
  let (rebuilt, _) ← rebuild W post
  let sender ← get
  announce W post body nodeAddr (redeliveryScope sender.drive rebuilt)

/-- The snapshots of this device in scope that some recipient last got with a
    real route. -/
def routeWithdrawalOutstanding (state : RuntimeState P) (outbox : AnnouncementOutbox)
    (device : DeviceId) (scope : Finset SnapshotId) : Nat :=
  let snapshots := ((outbox.announcementQueued.docs.map Prod.fst).filter
    (fun snapshot => decide (snapshot ∈ scope))).destutter (· ≠ ·)
  snapshots.countP (fun snapshot =>
    (state.snapshotBody snapshot).any (fun body => decide (body.author = device)) &&
      outbox.announcementQueued.docs.any (fun pair => decide (pair.1 = snapshot) &&
        (outbox.announcementDeliveredRoute pair).any (fun known => decide (known ≠ withdrawnRoute))))

end Wyrd.Outbox
