import Wyrd.Durable.Replay

/-! # The inbox and the held-message queue

Sealed deliveries are deduplicated by an id over their bytes. The inbox keeps
the ids it has taken in and, apart, a bounded cache of suppression verdicts; the
queue holds messages whose transition is not usable yet, in arrival order. The
byte codecs, the seals and the curve enter as `Wire`, with one law: a payload
opens only in an envelope of the epoch it repeats.
-/

namespace Wyrd.Intake

open Function

open Wyrd.Control Wyrd.Keys Wyrd.Membership

abbrev ControlKey := Digest

/-- The relay handover: sender and recipient are transport metadata. -/
structure MailboxEnvelope where
  sender : DeviceId
  recipient : DeviceId
  ciphertext : Bytes
  deriving DecidableEq

/-- The clear header fields of a sealed frame that an ingest reads. -/
structure FrameHeader where
  version : UInt8
  drive : DriveId
  epoch : Nat
  deriving DecidableEq

structure RotationDelivery where
  drive : DriveId
  device : DeviceId
  epoch : Nat
  transition : Bytes
  wrapped : Bytes
  ownerProof : Bytes
  deriving DecidableEq

/-- An owner's authorization of one secret vector; the signer is a claim. -/
structure OwnerProof where
  signer : DeviceId
  signature : Signature
  deriving DecidableEq

inductive ControlError where
  | truncated
  | trailingBytes
  | unknownKind (byte : UInt8)
  | unknownVersion (version : UInt8)
  | wrongDrive
  | unknownEpoch (epoch : Nat)
  | crypto
  deriving DecidableEq

/-- What the intake takes from outside: the seals under this device's own
    secrets, the byte codecs, and the challenges the curve verifies. -/
structure Wire extends Digests where
  decrypt : DeviceId → Bytes → Option Bytes
  messageId : Bytes → ControlMessageId
  decodeControl : Bytes → Except ControlError FrameHeader
  openControl : ControlKey → Bytes → Except ControlError Message
  decodeRotation : Bytes → Except ControlError FrameHeader
  openRotation : Bytes → Except ControlError RotationDelivery
  decodeTransition : Bytes → Option MembershipTransition
  unwrap : Bytes → Option Capability
  controlKey : EpochSecret → DriveId → Nat → ControlKey
  decodeEvidence : Bytes → Option ReconciliationEvidence
  decodeProof : Bytes → Option OwnerProof
  announcementChallenge : SnapshotAnnouncement → DriveId → Digest
  proofChallenge : DriveId → DeviceId → TransitionId → Nat → List EpochSecret → Digest
  epochBound : ∀ {bytes header key message}, decodeControl bytes = .ok header →
    openControl key bytes = .ok message → ∀ epoch ∈ message.payloadEpoch, epoch = header.epoch

def maxMailboxCiphertextLen : Nat := 96 * 1024

def maxMailboxOpenBytes : Nat := 64 * 1024

/-- Open the outer seal of an envelope addressed to this device. -/
def openFromSender (W : Wire) (device : DeviceId) (envelope : MailboxEnvelope) : Option Bytes :=
  if envelope.recipient ≠ device then none
  else if envelope.ciphertext.length > maxMailboxCiphertextLen then none
  else match W.decrypt envelope.sender envelope.ciphertext with
    | none => none
    | some opened => if opened.length > maxMailboxOpenBytes then none else some opened

def verifyAnnouncement (P : Primitives) (W : Wire) (drive : DriveId) (a : SnapshotAnnouncement) :
    Bool :=
  P.validDeviceKey a.author && P.parsesSignature a.signature &&
    P.verifySchnorr a.signature (W.announcementChallenge a drive) a.author

/-- The proof is by its claimed signer over exactly this material. -/
def OwnerProof.verify (P : Primitives) (W : Wire) (proof : OwnerProof) (drive : DriveId)
    (recipient : DeviceId) (transition : TransitionId) (epoch : Nat) (secrets : List EpochSecret) :
    Bool :=
  P.validDeviceKey proof.signer && P.parsesSignature proof.signature &&
    P.verifySchnorr proof.signature (W.proofChallenge drive recipient transition epoch secrets)
      proof.signer

def controlVersion : UInt8 := 0x00

def rotationVersion : UInt8 := 0x02

def maxSuppressedIds : Nat := 4096

structure ControlInbox where
  drive : DriveId
  keys : Nat → Option ControlKey
  seen : Finset ControlMessageId
  suppressed : Finset ControlMessageId
  suppressedOrder : List ControlMessageId

inductive IngestReport where
  | duplicate
  | accepted (id : ControlMessageId) (message : Message)

inductive RotationIngest where
  | duplicate
  | accepted (id : ControlMessageId) (delivery : RotationDelivery)

/-- Drop the oldest verdicts past the bound. -/
def evict (suppressed : Finset ControlMessageId) :
    List ControlMessageId → Finset ControlMessageId × List ControlMessageId
  | [] => (suppressed, [])
  | oldest :: rest =>
    if (oldest :: rest).length > maxSuppressedIds then evict (suppressed.erase oldest) rest
    else (suppressed, oldest :: rest)

namespace ControlInbox

def new (drive : DriveId) : ControlInbox := ⟨drive, fun _ => none, ∅, ∅, []⟩

variable (inbox : ControlInbox)

def addEpochKey (epoch : Nat) (key : ControlKey) : ControlInbox :=
  { inbox with keys := update inbox.keys epoch (some key) }

def remember (id : ControlMessageId) : ControlInbox := { inbox with seen := insert id inbox.seen }

/-- Withdraw an id that will never commit, so that a redelivery ingests fresh. -/
def forget (id : ControlMessageId) : ControlInbox := { inbox with seen := inbox.seen.erase id }

/-- Record a suppression verdict: the id leaves the seen set. -/
def suppress (id : ControlMessageId) : ControlInbox :=
  if id ∈ inbox.suppressed then { inbox with seen := inbox.seen.erase id }
  else
    let kept := evict (insert id inbox.suppressed) (inbox.suppressedOrder ++ [id])
    { inbox with seen := inbox.seen.erase id, suppressed := kept.1, suppressedOrder := kept.2 }

/-- Framing first (version, drive), then the epoch key, then a remembered
    suppression, then the seal; an id already seen is reported last. -/
def ingest (W : Wire) (bytes : Bytes) : Except ControlError (ControlInbox × IngestReport) :=
  match W.decodeControl bytes with
  | .error error => .error error
  | .ok header =>
    if header.version ≠ controlVersion then .error (.unknownVersion header.version)
    else if header.drive ≠ inbox.drive then .error .wrongDrive
    else match inbox.keys header.epoch with
      | none => .error (.unknownEpoch header.epoch)
      | some key =>
        if W.messageId bytes ∈ inbox.suppressed then .ok (inbox, .duplicate)
        else match W.openControl key bytes with
          | .error error => .error error
          | .ok message =>
            if W.messageId bytes ∈ inbox.seen then .ok (inbox, .duplicate)
            else .ok (inbox.remember (W.messageId bytes), .accepted (W.messageId bytes) message)

def ingestRotation (W : Wire) (bytes : Bytes) :
    Except ControlError (ControlInbox × RotationIngest) :=
  match W.decodeRotation bytes with
  | .error error => .error error
  | .ok header =>
    if header.version ≠ rotationVersion then .error (.unknownVersion header.version)
    else if header.drive ≠ inbox.drive then .error .wrongDrive
    else match W.openRotation bytes with
      | .error error => .error error
      | .ok delivery =>
        if W.messageId bytes ∈ inbox.suppressed then .ok (inbox, .duplicate)
        else if W.messageId bytes ∈ inbox.seen then .ok (inbox, .duplicate)
        else .ok (inbox.remember (W.messageId bytes), .accepted (W.messageId bytes) delivery)

end ControlInbox

/-- What a held message waits for: the arrival of a transition, or any change of
    an observed one's standing. -/
inductive DeferredWait where
  | unseen (transition : TransitionId)
  | statusBlocked (transition : TransitionId)
  deriving DecidableEq

structure PendingEntry where
  id : ControlMessageId
  message : Message
  wait : DeferredWait
  deriving DecidableEq

/-- Entries by arrival sequence, with an index by id and one by dependency. -/
structure PendingQueue where
  nextSeq : Nat
  bySeq : Observed (Prod.fst : Nat × PendingEntry → Nat)
  byId : ControlMessageId → Option Nat
  unseen : TransitionId → OrderedSet ControlMessageId
  statusBlocked : OrderedSet ControlMessageId

namespace PendingQueue

def new : PendingQueue := ⟨0, .empty, fun _ => none, fun _ => .empty, .empty⟩

variable (queue : PendingQueue)

def len : Nat := queue.bySeq.size

def index (id : ControlMessageId) : DeferredWait → PendingQueue
  | .unseen dependency => { queue with
      unseen := update queue.unseen dependency ((queue.unseen dependency).observe id) }
  | .statusBlocked _ => { queue with statusBlocked := queue.statusBlocked.observe id }

def unindex (id : ControlMessageId) : DeferredWait → PendingQueue
  | .unseen dependency => { queue with
      unseen := update queue.unseen dependency ((queue.unseen dependency).erase id) }
  | .statusBlocked _ => { queue with statusBlocked := queue.statusBlocked.erase id }

/-- Put an entry at a sequence number and index it. -/
def restore (seq : Nat) (entry : PendingEntry) : PendingQueue :=
  ({ queue with
    bySeq := queue.bySeq.observe (seq, entry)
    byId := update queue.byId entry.id (some seq) } : PendingQueue).index
    entry.id entry.wait

/-- Take the next sequence number for a new entry. -/
def append (entry : PendingEntry) : PendingQueue :=
  { queue with nextSeq := queue.nextSeq + 1 }.restore queue.nextSeq entry

/-- Hold an entry: a new id takes the next slot, a known one is replaced in
    place with its dependency refreshed. -/
def insert (entry : PendingEntry) : PendingQueue :=
  match queue.byId entry.id with
  | none => queue.append entry
  | some seq =>
    match queue.bySeq.lookup seq with
    | none => { queue with byId := update queue.byId entry.id none }.append entry
    | some (_, old) =>
      let replaced : PendingQueue := { queue with
        bySeq := queue.bySeq.observe (seq, { old with message := entry.message,
                                                      wait := entry.wait }) }
      if old.wait = entry.wait then replaced
      else (replaced.unindex entry.id old.wait).index entry.id entry.wait

def removeSeq (seq : Nat) : Option (PendingEntry × PendingQueue) :=
  (queue.bySeq.lookup seq).map (fun found =>
    (found.2, ({ queue with
      bySeq := queue.bySeq.erase seq
      byId := update queue.byId found.2.id none } : PendingQueue).unindex
      found.2.id found.2.wait))

/-- Take an entry by id. When the maps disagree the id is forgotten and nothing
    is returned. -/
def remove (id : ControlMessageId) : Option PendingEntry × PendingQueue :=
  match queue.byId id with
  | none => (none, queue)
  | some seq =>
    let forgotten : PendingQueue := { queue with byId := update queue.byId id none }
    match queue.bySeq.lookup seq with
    | none => (none, forgotten)
    | some (_, entry) =>
      (some entry, ({ forgotten with bySeq := queue.bySeq.erase seq } : PendingQueue).unindex
        id entry.wait)

/-- The sequences a committed transition wakes, in arrival order; every entry
    when the trigger is not known. -/
def wakeSeqs : Option TransitionId → List Nat
  | none => queue.bySeq.ids
  | some committed =>
    ((queue.unseen committed).docs.filterMap queue.byId ++
      queue.statusBlocked.docs.filterMap queue.byId).insertionSort (· ≤ ·)

end PendingQueue

end Wyrd.Intake
