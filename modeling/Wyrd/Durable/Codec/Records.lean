import Wyrd.Durable.Codec.Documents

/-! # Fact records

One record per durable fact: a tag and the bytes of its kind. The encoder runs the
commit-time checks; the decoder runs the load-time checks and refuses everything
else. What the encoder accepts the decoder reads back, with one exception: a
capability is sealed whatever drive and device key it names, and read only for the
drive of the store and with keys that are curve points.
-/

namespace Wyrd

open List

open Reader Keys

namespace Control

inductive ControlKind where
  | capability
  | membershipTransition
  | keyRotation
  | snapshotAnnouncement
  | reconciliationRequest
  deriving DecidableEq

def ControlKind.fromByte (byte : UInt8) : Option ControlKind :=
  if byte = 0x00 then some .capability
  else if byte = 0x01 then some .membershipTransition
  else if byte = 0x02 then some .keyRotation
  else if byte = 0x03 then some .snapshotAnnouncement
  else if byte = 0x04 then some .reconciliationRequest
  else none

/-- The sealed, deliverable form of a control message. -/
structure SealedControl where
  version : UInt8
  drive : DriveId
  kind : ControlKind
  epoch : Nat
  nonce : Bytes
  ciphertext : Bytes

def SealedControl.read : Reader SealedControl := do
  let version ← byte
  let drive ← Id.read
  let kindByte ← byte
  let epoch ← word 8
  let nonce ← take 24
  let ciphertext ← rest
  let kind ← lift (ControlKind.fromByte kindByte)
  return ⟨version, drive, kind, epoch, nonce, ciphertext⟩

/-- Sixty-six octets of header and a tag at least. -/
def SealedControl.decode (bytes : Bytes) : Option SealedControl :=
  if bytes.length < 66 + 16 then none else parse read bytes

/-- The sealed, deliverable form of a rotation. -/
structure SealedRotation where
  version : UInt8
  drive : DriveId
  ephemeral : Digest
  recipient : DeviceId
  encryptionKey : DeviceEncryptionKey
  epoch : Nat
  nonce : Bytes
  ciphertext : Bytes

/-- The ephemeral key must be a curve point. -/
def SealedRotation.read (xOnlyPoint : Digest → Bool) : Reader SealedRotation := do
  let version ← byte
  let drive ← Id.read
  let ephemeral ← readDigest
  let recipient ← Id.read
  let encryptionKey ← Id.read
  let epoch ← word 8
  let nonce ← take 24
  let ciphertext ← rest
  require (xOnlyPoint ephemeral = true)
  return ⟨version, drive, ephemeral, recipient, encryptionKey, epoch, nonce, ciphertext⟩

def SealedRotation.decode (xOnlyPoint : Digest → Bool) (bytes : Bytes) : Option SealedRotation :=
  if bytes.length < 161 + 16 then none else parse (read xOnlyPoint) bytes

end Control

namespace Durable

open Control

structure StoreKit where
  contentId : ObjectKind → Bytes → ContentId
  commitHash : Bytes → Digest
  aeadSeal : Bytes → Bytes → Bytes → Bytes → Option Bytes
  aeadOpen : Bytes → Bytes → Bytes → Bytes → Option Bytes
  xOnlyPoint : Digest → Bool

/-- The cipher: what it seals under a key, nonce and associated data opens under
    the same, and the tag adds sixteen octets. -/
structure StoreKit.Lawful (K : StoreKit) : Prop where
  opens : ∀ key nonce plaintext aad ciphertext,
    K.aeadSeal key nonce plaintext aad = some ciphertext →
      K.aeadOpen key nonce ciphertext aad = some plaintext
  grows : ∀ key nonce plaintext aad ciphertext,
    K.aeadSeal key nonce plaintext aad = some ciphertext →
      ciphertext.length = plaintext.length + 16

abbrev Nonce := { bytes : Bytes // bytes.length = 24 }

/-- A capability that passed authorization, for the drive its caller named. An unwrapped
    one never met `Capability::new`, and a member's own key is not tested either. -/
structure AuthorizedCapability (P : Primitives) where
  cap : Capability
  authorized : ∃ drive log transition,
    Capability.authorizeAgainst (P := P) cap drive log transition = .ok ()

inductive EvidenceSection where
  | transitions
  | snapshots
  | capabilities
  deriving DecidableEq

inductive StoreError where
  | manifestIdentityMismatch (manifest derived : ContentId)
  | transportNotRepresented (manifest : ContentId)
  | invalidOutbox
  | oversizedView (part : EvidenceSection) (count max : Nat)
  | crypto
  | tooManyRecords (count max : Nat)
  | commitTooLarge (bytes max : Nat)
  | sequenceExhausted
  | corruptCurrent
  | io
  | missingCommit (seq : Nat)
  | corruptCommit (seq : Nat)
  deriving DecidableEq

/-- One durable record; `C` is the form its capabilities take. -/
inductive Record (C : Type) where
  | transition (transition : MembershipTransition)
  | capability (capability : C)
  | announcement (announcement : SnapshotAnnouncement)
  | snapshotBody (snapshot : Snapshot)
  | manifest (record : ManifestRecord)
  | localObject (content : ContentId)
  | objectRemoved (content : ContentId)
  | materialization (content : ContentId) (state : MaterializationState)
  | controlMessage (id : ControlMessageId)
  | announcementQueued (snapshot : SnapshotId) (recipient : DeviceId)
  | announcementSealed (snapshot : SnapshotId) (envelope : Bytes)
  | announcementRouteSealed (snapshot : SnapshotId) (route envelope : Bytes)
  | announcementDelivered (snapshot : SnapshotId) (recipient : DeviceId)
  | announcementDeliveredRoute (snapshot : SnapshotId) (recipient : DeviceId) (endpoint : Digest)
  | transitionQueued (id : TransitionId) (recipient : DeviceId)
  | transitionSealed (id : TransitionId) (envelope : Bytes)
  | transitionDelivered (id : TransitionId) (recipient : DeviceId)
  | capabilityQueued (epoch : Nat) (recipient : DeviceId)
  | capabilitySealed (epoch : Nat) (recipient : DeviceId) (envelope : Bytes)
  | capabilitySealedReplaced (epoch : Nat) (recipient : DeviceId) (supersedes : Digest)
      (replacement : Bytes)
  | capabilityDelivered (epoch : Nat) (recipient : DeviceId)
  | bootstrapPending (wrapped : Bytes)
  | carryQueued (head : SnapshotId)
  | carryDone (head : SnapshotId)
  | reconciliationView (evidence : ReconciliationEvidence)
  | reconciliationRequestReceived (requester : DeviceId) (evidence : ReconciliationEvidence)
  | transitionReconciled (id : TransitionId) (recipient : DeviceId) (statement : Digest)
  | capabilityReconciled (epoch : Nat) (recipient : DeviceId) (statement : Digest)
  | announcementReconciled (snapshot : SnapshotId) (recipient : DeviceId) (statement : Digest)
  deriving DecidableEq

abbrev CommitFact (P : Primitives) := Record (AuthorizedCapability P)

abbrev DecodedFact := Record Capability

inductive Tag where
  | transition
  | capability
  | announcement
  | manifest
  | localObject
  | materialization
  | controlMessage
  | objectRemoved
  | snapshotBody
  | announcementQueued
  | announcementSealed
  | announcementDelivered
  | transitionQueued
  | transitionSealed
  | transitionDelivered
  | capabilityQueued
  | capabilitySealed
  | capabilityDelivered
  | capabilitySealedReplaced
  | bootstrapPending
  | carryQueued
  | carryDone
  | announcementRouteSealed
  | reconciliationView
  | reconciliationRequest
  | transitionReconciled
  | capabilityReconciled
  | announcementDeliveredRoute
  | announcementReconciled
  deriving DecidableEq

namespace Tag

def byte : Tag → UInt8
  | .transition => 0x01
  | .capability => 0x02
  | .announcement => 0x03
  | .manifest => 0x04
  | .localObject => 0x05
  | .materialization => 0x06
  | .controlMessage => 0x07
  | .objectRemoved => 0x08
  | .snapshotBody => 0x09
  | .announcementQueued => 0x0A
  | .announcementSealed => 0x0B
  | .announcementDelivered => 0x0C
  | .transitionQueued => 0x0D
  | .transitionSealed => 0x0E
  | .transitionDelivered => 0x0F
  | .capabilityQueued => 0x10
  | .capabilitySealed => 0x11
  | .capabilityDelivered => 0x12
  | .capabilitySealedReplaced => 0x16
  | .bootstrapPending => 0x13
  | .carryQueued => 0x14
  | .carryDone => 0x15
  | .announcementRouteSealed => 0x17
  | .reconciliationView => 0x18
  | .reconciliationRequest => 0x19
  | .transitionReconciled => 0x1A
  | .capabilityReconciled => 0x1B
  | .announcementDeliveredRoute => 0x1C
  | .announcementReconciled => 0x1D

def known : List Tag :=
  [.transition, .capability, .announcement, .manifest, .localObject, .materialization,
    .controlMessage, .objectRemoved, .snapshotBody, .announcementQueued, .announcementSealed,
    .announcementDelivered, .transitionQueued, .transitionSealed, .transitionDelivered,
    .capabilityQueued, .capabilitySealed, .capabilityDelivered, .capabilitySealedReplaced,
    .bootstrapPending, .carryQueued, .carryDone, .announcementRouteSealed, .reconciliationView,
    .reconciliationRequest, .transitionReconciled, .capabilityReconciled,
    .announcementDeliveredRoute, .announcementReconciled]

/-- The known tag of a byte; a record under any other byte is skipped. -/
def ofByte (byte : UInt8) : Option Tag := known.find? (fun tag => tag.byte = byte)

@[simp] lemma ofByte_byte (tag : Tag) : ofByte tag.byte = some tag := by
  cases tag <;> rfl

end Tag

namespace Record

variable {C D : Type}

def tag : Record C → Tag
  | .transition _ => .transition
  | .capability _ => .capability
  | .announcement _ => .announcement
  | .snapshotBody _ => .snapshotBody
  | .manifest _ => .manifest
  | .localObject _ => .localObject
  | .objectRemoved _ => .objectRemoved
  | .materialization _ _ => .materialization
  | .controlMessage _ => .controlMessage
  | .announcementQueued _ _ => .announcementQueued
  | .announcementSealed _ _ => .announcementSealed
  | .announcementRouteSealed _ _ _ => .announcementRouteSealed
  | .announcementDelivered _ _ => .announcementDelivered
  | .announcementDeliveredRoute _ _ _ => .announcementDeliveredRoute
  | .transitionQueued _ _ => .transitionQueued
  | .transitionSealed _ _ => .transitionSealed
  | .transitionDelivered _ _ => .transitionDelivered
  | .capabilityQueued _ _ => .capabilityQueued
  | .capabilitySealed _ _ _ => .capabilitySealed
  | .capabilitySealedReplaced _ _ _ _ => .capabilitySealedReplaced
  | .capabilityDelivered _ _ => .capabilityDelivered
  | .bootstrapPending _ => .bootstrapPending
  | .carryQueued _ => .carryQueued
  | .carryDone _ => .carryDone
  | .reconciliationView _ => .reconciliationView
  | .reconciliationRequestReceived _ _ => .reconciliationRequest
  | .transitionReconciled _ _ _ => .transitionReconciled
  | .capabilityReconciled _ _ _ => .capabilityReconciled
  | .announcementReconciled _ _ _ => .announcementReconciled

def map (convert : C → D) : Record C → Record D
  | .transition t => .transition t
  | .capability cap => .capability (convert cap)
  | .announcement a => .announcement a
  | .snapshotBody s => .snapshotBody s
  | .manifest record => .manifest record
  | .localObject content => .localObject content
  | .objectRemoved content => .objectRemoved content
  | .materialization content state => .materialization content state
  | .controlMessage id => .controlMessage id
  | .announcementQueued snapshot recipient => .announcementQueued snapshot recipient
  | .announcementSealed snapshot envelope => .announcementSealed snapshot envelope
  | .announcementRouteSealed snapshot route envelope =>
    .announcementRouteSealed snapshot route envelope
  | .announcementDelivered snapshot recipient => .announcementDelivered snapshot recipient
  | .announcementDeliveredRoute snapshot recipient endpoint =>
    .announcementDeliveredRoute snapshot recipient endpoint
  | .transitionQueued id recipient => .transitionQueued id recipient
  | .transitionSealed id envelope => .transitionSealed id envelope
  | .transitionDelivered id recipient => .transitionDelivered id recipient
  | .capabilityQueued epoch recipient => .capabilityQueued epoch recipient
  | .capabilitySealed epoch recipient envelope => .capabilitySealed epoch recipient envelope
  | .capabilitySealedReplaced epoch recipient supersedes replacement =>
    .capabilitySealedReplaced epoch recipient supersedes replacement
  | .capabilityDelivered epoch recipient => .capabilityDelivered epoch recipient
  | .bootstrapPending wrapped => .bootstrapPending wrapped
  | .carryQueued head => .carryQueued head
  | .carryDone head => .carryDone head
  | .reconciliationView evidence => .reconciliationView evidence
  | .reconciliationRequestReceived requester evidence =>
    .reconciliationRequestReceived requester evidence
  | .transitionReconciled id recipient statement => .transitionReconciled id recipient statement
  | .capabilityReconciled epoch recipient statement =>
    .capabilityReconciled epoch recipient statement
  | .announcementReconciled snapshot recipient statement =>
    .announcementReconciled snapshot recipient statement

/-- Every 64-bit field holds a 64-bit value. -/
def Sized : Record C → Prop
  | .transition t => Fits64 t.epoch
  | .announcement a => Fits64 a.epoch
  | .snapshotBody s => Fits64 s.epoch ∧ Fits64 s.timestamp
  | .manifest record => record.manifest.Sized
  | .capabilityQueued epoch _ => Fits64 epoch
  | .capabilitySealed epoch _ _ => Fits64 epoch
  | .capabilitySealedReplaced epoch _ _ _ => Fits64 epoch
  | .capabilityDelivered epoch _ => Fits64 epoch
  | .capabilityReconciled epoch _ _ => Fits64 epoch
  | .reconciliationView evidence => ∀ install ∈ evidence.capabilities.docs, Fits64 install.2
  | .reconciliationRequestReceived _ evidence =>
    ∀ install ∈ evidence.capabilities.docs, Fits64 install.2
  | _ => True

end Record

def CommitFact.decoded {P : Primitives} (fact : CommitFact P) : DecodedFact :=
  fact.map AuthorizedCapability.cap

/-- The load of a store of this drive reads the fact back. -/
def CommitFact.readable {P : Primitives} (drive : DriveId) : CommitFact P → Bool
  | .capability authorized => decide (authorized.cap.Built P ∧ authorized.cap.drive = drive)
  | _ => true

def maxRecordsPerCommit : Nat := 65536

section Codec

variable {P : Primitives} (K : StoreKit) (key : Bytes) (drive : DriveId)

def capabilityAad : Bytes :=
  "wyrd capability store v1".toUTF8.toList ++ drive.asBytes

/-- The envelope decodes, as a message of the kind. -/
def sealedAs (kind : ControlKind) (envelope : Bytes) : Bool :=
  match SealedControl.decode envelope with
  | some decoded => decide (decoded.kind = kind)
  | none => false

/-- The envelope names the owed grant: an epoch-sealed capability of the drive and
    epoch, or a rotation delivery to the recipient as well. -/
def namesGrant (epoch : Nat) (recipient : DeviceId) (envelope : Bytes) : Bool :=
  (match SealedControl.decode envelope with
    | some decoded => decide (decoded.kind = .capability) && decide (decoded.drive = drive) &&
        decide (decoded.epoch = epoch)
    | none => false) ||
  (match SealedRotation.decode K.xOnlyPoint envelope with
    | some delivery => decide (delivery.drive = drive) && decide (delivery.epoch = epoch) &&
        decide (delivery.recipient = recipient)
    | none => false)

def materializationByte : MaterializationState → UInt8
  | .remoteOnly => 0
  | .cached => 1
  | .pinned => 2

def installBytes (install : DeviceId × Nat) : Bytes := install.1.asBytes ++ leBytes 8 install.2

/-- Counted sections in set order, without any ceiling. -/
def encodeEvidence (evidence : ReconciliationEvidence) : Bytes :=
  (leBytes 4 evidence.transitions.docs.length ++ evidence.transitions.docs.flatMap Id.asBytes) ++
    (leBytes 4 evidence.snapshots.docs.length ++ evidence.snapshots.docs.flatMap Id.asBytes) ++
    (leBytes 4 evidence.capabilities.docs.length ++ evidence.capabilities.docs.flatMap installBytes)

/-- The same under the ceiling of one record: the first section above it is
    named. -/
def encodeReconciliationView (evidence : ReconciliationEvidence) : Except StoreError Bytes :=
  if maxRecordsPerCommit < evidence.transitions.docs.length then
    .error (.oversizedView .transitions evidence.transitions.docs.length maxRecordsPerCommit)
  else if maxRecordsPerCommit < evidence.snapshots.docs.length then
    .error (.oversizedView .snapshots evidence.snapshots.docs.length maxRecordsPerCommit)
  else if maxRecordsPerCommit < evidence.capabilities.docs.length then
    .error (.oversizedView .capabilities evidence.capabilities.docs.length maxRecordsPerCommit)
  else .ok (encodeEvidence evidence)

def encodeManifestRecord (record : ManifestRecord) : Bytes :=
  record.manifestId.asBytes ++ [if record.isRoot then 1 else 0] ++ digestBytes record.transport ++
    (leBytes 4 record.representations.docs.length ++ record.representations.docs.flatMap
      (fun pair => pair.1.asBytes ++ digestBytes pair.2)) ++
    record.manifest.canonicalBytes

/-- The bytes of a record, after the commit-time checks of its kind. -/
def encodeBody (drawn : Option Nonce) : CommitFact P → Except StoreError Bytes
  | .transition t => .ok t.canonicalBytes
  | .capability authorized =>
    -- neither the drive nor the keys of the capability are tested here
    match drawn with
    | none => .error .crypto
    | some nonce =>
      match K.aeadSeal key nonce.1 authorized.cap.plaintextBytes (capabilityAad drive) with
      | none => .error .crypto
      | some ciphertext => .ok (nonce.1 ++ ciphertext)
  | .announcement a => .ok a.encodePayload
  | .snapshotBody s => .ok s.encode
  | .manifest record =>
    let derived := K.contentId .manifest record.manifest.canonicalBytes
    if record.manifestId ≠ derived then
      .error (.manifestIdentityMismatch record.manifestId derived)
    else if transportIsRepresented record = false then
      .error (.transportNotRepresented record.manifestId)
    else .ok (encodeManifestRecord record)
  | .localObject content => .ok content.asBytes
  | .objectRemoved content => .ok content.asBytes
  | .materialization content state => .ok (content.asBytes ++ [materializationByte state])
  | .controlMessage id => .ok (digestBytes id)
  | .announcementQueued snapshot recipient => .ok (snapshot.asBytes ++ recipient.asBytes)
  | .announcementSealed snapshot envelope =>
    if sealedAs .snapshotAnnouncement envelope = false then .error .invalidOutbox
    else .ok (snapshot.asBytes ++ envelope)
  | .announcementRouteSealed snapshot route envelope =>
    if sealedAs .snapshotAnnouncement envelope = false then .error .invalidOutbox
    else .ok (snapshot.asBytes ++ (leBytes 4 route.length ++ route) ++ envelope)
  | .announcementDelivered snapshot recipient => .ok (snapshot.asBytes ++ recipient.asBytes)
  | .announcementDeliveredRoute snapshot recipient endpoint =>
    .ok (snapshot.asBytes ++ recipient.asBytes ++ digestBytes endpoint)
  | .transitionQueued id recipient => .ok (id.asBytes ++ recipient.asBytes)
  | .transitionSealed id envelope =>
    if sealedAs .membershipTransition envelope = false then .error .invalidOutbox
    else .ok (id.asBytes ++ envelope)
  | .transitionDelivered id recipient => .ok (id.asBytes ++ recipient.asBytes)
  | .capabilityQueued epoch recipient => .ok (leBytes 8 epoch ++ recipient.asBytes)
  | .capabilitySealed epoch recipient envelope =>
    if namesGrant K drive epoch recipient envelope = false then .error .invalidOutbox
    else .ok (leBytes 8 epoch ++ recipient.asBytes ++ envelope)
  | .capabilitySealedReplaced epoch recipient supersedes replacement =>
    if namesGrant K drive epoch recipient replacement = false then .error .invalidOutbox
    else .ok (leBytes 8 epoch ++ recipient.asBytes ++ digestBytes supersedes ++ replacement)
  | .capabilityDelivered epoch recipient => .ok (leBytes 8 epoch ++ recipient.asBytes)
  | .bootstrapPending wrapped => if wrapped = [] then .error .invalidOutbox else .ok wrapped
  | .carryQueued head => .ok head.asBytes
  | .carryDone head => .ok head.asBytes
  | .reconciliationView evidence => encodeReconciliationView evidence
  | .reconciliationRequestReceived requester evidence => do
      let body ← encodeReconciliationView evidence
      return requester.asBytes ++ body
  | .transitionReconciled id recipient statement =>
    .ok (id.asBytes ++ recipient.asBytes ++ digestBytes statement)
  | .capabilityReconciled epoch recipient statement =>
    .ok (leBytes 8 epoch ++ recipient.asBytes ++ digestBytes statement)
  | .announcementReconciled snapshot recipient statement =>
    .ok (snapshot.asBytes ++ recipient.asBytes ++ digestBytes statement)

def encodeFact (drawn : Option Nonce) (fact : CommitFact P) : Except StoreError (Tag × Bytes) := do
  let body ← encodeBody K key drive drawn fact
  return (fact.tag, body)

section Shapes

variable {α : Type} {kind : IdKind}

def readOne (build : Id kind → α) : Reader α := do
  let id ← Id.read
  return build id

def readPair (build : Id kind → DeviceId → α) : Reader α := do
  let id ← Id.read
  let recipient ← Id.read
  return build id recipient

def readTriple (build : Id kind → DeviceId → Digest → α) : Reader α := do
  let id ← Id.read
  let recipient ← Id.read
  let digest ← readDigest
  return build id recipient digest

def readGrant (build : Nat → DeviceId → α) : Reader α := do
  let epoch ← word 8
  let recipient ← Id.read
  return build epoch recipient

def readSealed (as : ControlKind) (build : Id kind → Bytes → α) : Reader α := do
  let id ← Id.read
  let envelope ← rest
  require (sealedAs as envelope = true)
  return build id envelope

end Shapes

def readMaterialization (byte : UInt8) : Option MaterializationState :=
  if byte = 0 then some .remoteOnly
  else if byte = 1 then some .cached
  else if byte = 2 then some .pinned
  else none

def readIsRoot (byte : UInt8) : Option Bool :=
  if byte = 0 then some false else if byte = 1 then some true else none

/-- One section, under the ceiling the encoder enforces. -/
def readSection {α : Type} (read : Reader α) : Reader (List α) := do
  let count ← word 4
  require (count ≤ maxRecordsPerCommit)
  times read count

def readInstall : Reader (DeviceId × Nat) := do
  let device ← Id.read
  let epoch ← word 8
  return (device, epoch)

def readEvidence : Reader ReconciliationEvidence := do
  let transitions ← readSection Id.read
  let snapshots ← readSection Id.read
  let capabilities ← readSection readInstall
  return ⟨.ofList _ transitions, .ofList _ snapshots, .ofList _ capabilities⟩

def readRepresentation : Reader (StorageId × BaoRoot) := do
  let storage ← Id.read
  let transport ← readDigest
  return (storage, transport)

/-- A repeated storage address, a foreign identity and an eager root that is not
    represented are refused. -/
def readManifestRecord : Reader ManifestRecord := do
  let manifestId ← Id.read
  let isRoot ← lift (readIsRoot (← byte))
  let transport ← readDigest
  let pairs ← counted readRepresentation
  let representations ← lift (Observed.ofDistinct _ pairs)
  let body ← rest
  let manifest ← lift (Manifest.fromCanonicalBytes body)
  require (manifestId = K.contentId .manifest manifest.canonicalBytes)
  let record : ManifestRecord := ⟨isRoot, manifestId, representations, transport, manifest⟩
  require (transportIsRepresented record = true)
  return record

variable (P)

/-- A record of a known tag; anything it does not accept poisons the file. -/
def readRecord : Tag → Reader DecodedFact
  | .transition => do
      let bytes ← rest
      lift ((MembershipTransition.fromCanonicalBytes bytes).map .transition)
  | .capability => do
      let nonce ← take 24
      let ciphertext ← rest
      require (16 ≤ ciphertext.length)
      let plaintext ← lift (K.aeadOpen key nonce ciphertext (capabilityAad drive))
      let cap ← lift (Capability.parsePlaintext P plaintext)
      require (cap.drive = drive)
      return .capability cap
  | .announcement => do
      let bytes ← rest
      lift ((SnapshotAnnouncement.decodePayload bytes).map .announcement)
  | .snapshotBody => do
      let bytes ← rest
      lift ((Snapshot.decode bytes).map .snapshotBody)
  | .manifest => do return .manifest (← readManifestRecord K)
  | .localObject => readOne .localObject
  | .objectRemoved => readOne .objectRemoved
  | .materialization => do
      let content ← Id.read
      let state ← lift (readMaterialization (← byte))
      return .materialization content state
  | .controlMessage => do return .controlMessage (← readDigest)
  | .announcementQueued => readPair .announcementQueued
  | .announcementSealed => readSealed .snapshotAnnouncement .announcementSealed
  | .announcementDelivered => readPair .announcementDelivered
  | .announcementDeliveredRoute => readTriple .announcementDeliveredRoute
  | .announcementRouteSealed => do
      let snapshot ← Id.read
      let route ← blob
      let envelope ← rest
      require (sealedAs .snapshotAnnouncement envelope = true)
      return .announcementRouteSealed snapshot route envelope
  | .transitionQueued => readPair .transitionQueued
  | .transitionSealed => readSealed .membershipTransition .transitionSealed
  | .transitionDelivered => readPair .transitionDelivered
  | .capabilityQueued => readGrant .capabilityQueued
  | .capabilitySealed => do
      let epoch ← word 8
      let recipient ← Id.read
      let envelope ← rest
      require (namesGrant K drive epoch recipient envelope = true)
      return .capabilitySealed epoch recipient envelope
  | .capabilitySealedReplaced => do
      let epoch ← word 8
      let recipient ← Id.read
      let supersedes ← readDigest
      let replacement ← rest
      require (namesGrant K drive epoch recipient replacement = true)
      return .capabilitySealedReplaced epoch recipient supersedes replacement
  | .capabilityDelivered => readGrant .capabilityDelivered
  | .bootstrapPending => do
      let wrapped ← rest
      require (wrapped ≠ [])
      return .bootstrapPending wrapped
  | .carryQueued => readOne .carryQueued
  | .carryDone => readOne .carryDone
  | .reconciliationView => do return .reconciliationView (← readEvidence)
  | .reconciliationRequest => do
      let requester ← Id.read
      let evidence ← readEvidence
      return .reconciliationRequestReceived requester evidence
  | .transitionReconciled => readTriple .transitionReconciled
  | .capabilityReconciled => do
      let epoch ← word 8
      let recipient ← Id.read
      let statement ← readDigest
      return .capabilityReconciled epoch recipient statement
  | .announcementReconciled => readTriple .announcementReconciled

def decodeRecord (tag : Tag) (record : Bytes) : Option DecodedFact :=
  parse (readRecord P K key drive tag) record

end Codec

section ReadBack

variable {α : Type} {kind : IdKind}

lemma reads_one (build : Id kind → α) (id : Id kind) :
    Reads (readOne build) id.asBytes (some (build id)) := id.reads.map build

lemma reads_pair (build : Id kind → DeviceId → α) (id : Id kind) (recipient : DeviceId) :
    Reads (readPair build) (id.asBytes ++ recipient.asBytes) (some (build id recipient)) :=
  id.reads.bind (recipient.reads.map _)

lemma reads_triple (build : Id kind → DeviceId → Digest → α) (id : Id kind)
    (recipient : DeviceId) (digest : Digest) :
    Reads (readTriple build) (id.asBytes ++ recipient.asBytes ++ digestBytes digest)
      (some (build id recipient digest)) := by
  rw [append_assoc]
  exact id.reads.bind (recipient.reads.bind ((reads_digest digest).map _))

lemma reads_grant (build : Nat → DeviceId → α) (recipient : DeviceId) (fits : Fits64 epoch) :
    Reads (readGrant build) (leBytes 8 epoch ++ recipient.asBytes) (some (build epoch recipient)) :=
  (reads_word64 fits).bind (recipient.reads.map _)

lemma parse_sealed (build : Id kind → Bytes → α) (id : Id kind)
    (gate : sealedAs as envelope = true) :
    parse (readSealed as build) (id.asBytes ++ envelope) = some (build id envelope) := by
  rw [readSealed, parse_bind id.reads, parse_rest, parse_require _ gate, parse_pure]

lemma reads_section {read encode} {items : List α} (few : items.length ≤ maxRecordsPerCommit)
    (each : ∀ item ∈ items, Reads read (encode item) (some item)) :
    Reads (readSection read) (leBytes 4 items.length ++ items.flatMap encode) (some items) := by
  have fits : items.length < 256 ^ 4 := by
    unfold maxRecordsPerCommit at few
    omega
  refine (reads_word fits).bind ((reads_require few).skip ?_)
  exact reads_items each

structure Sections where
  transitions : List TransitionId
  snapshots : List SnapshotId
  capabilities : List (DeviceId × Nat)

namespace Sections

def read : Reader Sections := do
  let transitions ← readSection Id.read
  let snapshots ← readSection Id.read
  let capabilities ← readSection readInstall
  return ⟨transitions, snapshots, capabilities⟩

def encode (listed : Sections) : Bytes :=
  (leBytes 4 listed.transitions.length ++ listed.transitions.flatMap Id.asBytes) ++
    (leBytes 4 listed.snapshots.length ++ listed.snapshots.flatMap Id.asBytes) ++
    (leBytes 4 listed.capabilities.length ++ listed.capabilities.flatMap installBytes)

/-- What one record may list. -/
structure Within (listed : Sections) : Prop where
  transitions : listed.transitions.length ≤ maxRecordsPerCommit
  snapshots : listed.snapshots.length ≤ maxRecordsPerCommit
  capabilities : listed.capabilities.length ≤ maxRecordsPerCommit
  epochs : ∀ install ∈ listed.capabilities, Fits64 install.2

lemma reads {listed : Sections} (hw : listed.Within) : Reads read listed.encode (some listed) := by
  simp only [encode, append_assoc]
  rw [← append_assoc (leBytes 4 listed.transitions.length),
    ← append_assoc (leBytes 4 listed.snapshots.length)]
  refine (reads_section hw.transitions fun id _ => id.reads).bind ?_
  refine (reads_section hw.snapshots fun id _ => id.reads).bind ?_
  refine (reads_section hw.capabilities fun install hm => ?_).map _
  exact install.1.reads.bind ((reads_word64 (hw.epochs install hm)).map _)

def evidence (listed : Sections) : ReconciliationEvidence :=
  ⟨.ofList _ listed.transitions, .ofList _ listed.snapshots, .ofList _ listed.capabilities⟩

lemma readEvidence_eq : readEvidence = read >>= fun listed => pure listed.evidence := by
  simp only [readEvidence, read, bind_assoc, pure_bind]
  rfl

def of (evidence : ReconciliationEvidence) : Sections :=
  ⟨evidence.transitions.docs, evidence.snapshots.docs, evidence.capabilities.docs⟩

lemma evidence_of (evidence : ReconciliationEvidence) : (of evidence).evidence = evidence := by
  rw [of, Sections.evidence, Observed.ofList_docs, Observed.ofList_docs, Observed.ofList_docs]

end Sections

lemma reads_evidence (hsz : ∀ install ∈ evidence.capabilities.docs, Fits64 install.2)
    (coded : encodeReconciliationView evidence = .ok body) :
    Reads readEvidence body (some evidence) := by
  unfold encodeReconciliationView at coded
  split_ifs at coded with hm hs hc
  cases coded
  have hw : (Sections.of evidence).Within :=
    ⟨not_lt.mp hm, not_lt.mp hs, not_lt.mp hc, hsz⟩
  have read := (Sections.reads hw).map Sections.evidence
  rwa [Sections.evidence_of, ← Sections.readEvidence_eq] at read

variable {P : Primitives} {K : StoreKit} {key : Bytes} {drive : DriveId}

lemma parse_manifestRecord (hsz : record.manifest.Sized)
    (self : record.manifestId = K.contentId .manifest record.manifest.canonicalBytes)
    (shown : transportIsRepresented record = true)
    (fits : (encodeManifestRecord record).length < 2 ^ 32) :
    parse (readManifestRecord K) (encodeManifestRecord record) = some record := by
  have size : (encodeManifestRecord record).length = 69 +
      64 * record.representations.docs.length + record.manifest.canonicalBytes.length := by
    simp only [encodeManifestRecord, length_append, Id.length_asBytes, length_leBytes,
      length_digestBytes, length_singleton, length_flatMap, map_const',
      sum_replicate, smul_eq_mul]
    omega
  have pair : ∀ item ∈ record.representations.docs,
      Reads readRepresentation (item.1.asBytes ++ digestBytes item.2) (some item) := fun item _ =>
    item.1.reads.bind ((reads_digest item.2).map _)
  have root : readIsRoot (if record.isRoot then 1 else 0) = some record.isRoot := by
    cases record.isRoot <;> rfl
  simp only [encodeManifestRecord, append_assoc]
  rw [← append_assoc (leBytes 4 _), readManifestRecord, parse_bind (Id.reads _),
    parse_bind (reads_byte _), root, parse_lift, parse_bind (reads_digest _),
    parse_bind (reads_counted (by omega) pair), Observed.ofDistinct_docs, parse_lift, parse_rest,
    Manifest.fromCanonicalBytes_canonicalBytes hsz (Manifest.counted_of_length (by omega)),
    parse_lift, parse_require _ self, parse_require _ shown, parse_pure]

/-- A sealed capability opens under the store key, and is then refused unless its keys
    are curve points and it names the drive of the store. -/
lemma decodeRecord_capability (lawful : K.Lawful) {nonce : Nonce}
    {authorized : AuthorizedCapability P}
    (encrypted : K.aeadSeal key nonce.1 authorized.cap.plaintextBytes (capabilityAad drive) =
      some ciphertext) (short : (nonce.1 ++ ciphertext).length < 2 ^ 32) :
    decodeRecord P K key drive .capability (nonce.1 ++ ciphertext) =
      if authorized.cap.Built P ∧ authorized.cap.drive = drive then
        some (.capability authorized.cap) else none := by
  have tag := lawful.grows _ _ _ _ _ encrypted
  have fits : authorized.cap.plaintextBytes.length < 2 ^ 32 := by
    rw [length_append, tag] at short
    omega
  rw [decodeRecord, readRecord, parse_bind (reads_take nonce.2), parse_rest,
    parse_require _ (by omega : 16 ≤ ciphertext.length), lawful.opens _ _ _ _ _ encrypted,
    parse_lift, Capability.parsePlaintext_plaintextBytes fits]
  by_cases built : authorized.cap.Built P
  · rw [if_pos built, parse_lift]
    by_cases same : authorized.cap.drive = drive
    · rw [if_pos ⟨built, same⟩, parse_require _ same, parse_pure]
    · rw [if_neg fun both => same both.2]
      exact parse_require_not _ same
  · rw [if_neg built, if_neg fun both => built both.1]
    rfl

lemma eq_true_of_gate
    (passed : (if gate = false then .error error else .ok body : Except StoreError Bytes) =
      .ok encoded) : gate = true ∧ body = encoded := by
  split_ifs at passed with hd
  · cases passed
    exact ⟨by simpa using hd, rfl⟩

/-- Whatever the encoder accepts, the decoder reads back, except a capability for
    another drive or with a key that is no curve point. -/
lemma decodeRecord_encodeBody (lawful : K.Lawful) {fact : CommitFact P} {body : Bytes}
    (hsz : fact.Sized) (coded : encodeBody K key drive drawn fact = .ok body)
    (fits : body.length < 2 ^ 32) :
    decodeRecord P K key drive fact.tag body =
      if fact.readable drive = true then some fact.decoded else none := by
  cases fact with
  | transition t =>
    cases coded
    show parse (rest >>= _) _ = _
    rw [parse_rest, MembershipTransition.fromCanonicalBytes_canonicalBytes t hsz]
    rfl
  | capability authorized =>
    unfold encodeBody at coded
    cases drawn with
    | none => cases coded
    | some nonce =>
      cases sealed : K.aeadSeal key nonce.1 authorized.cap.plaintextBytes (capabilityAad drive) with
      | none => simp [sealed] at coded
      | some =>
        simp only [sealed, Except.ok.injEq] at coded
        subst coded
        have read := decodeRecord_capability lawful sealed fits
        simp only [CommitFact.readable, decide_eq_true_eq]
        exact read
  | announcement =>
    cases coded
    show parse (rest >>= _) _ = _
    rw [parse_rest, SnapshotAnnouncement.decodePayload_encodePayload hsz fits]
    rfl
  | snapshotBody s =>
    cases coded
    show parse (rest >>= _) _ = _
    rw [parse_rest, Snapshot.decode_encode s hsz.1 hsz.2]
    rfl
  | manifest record =>
    simp only [encodeBody] at coded
    split_ifs at coded with self shown
    cases coded
    have read := parse_manifestRecord hsz (not_not.mp self) (by simpa using shown) fits
    show parse (readManifestRecord K >>= fun record => pure (Record.manifest record)) _ = _
    rw [parse_map, read]
    rfl
  | localObject | objectRemoved | carryQueued | carryDone =>
    cases coded; exact parse_of_reads (reads_one _ _)
  | materialization content state =>
    cases coded
    have byte : readMaterialization (materializationByte state) = some state := by
      cases state <;> rfl
    show parse (Id.read >>= _) _ = _
    rw [parse_bind content.reads, ← append_nil [_], parse_bind (reads_byte _), byte, parse_lift]
    rfl
  | controlMessage id => cases coded; exact parse_of_reads ((reads_digest id).map _)
  | announcementQueued | announcementDelivered | transitionQueued | transitionDelivered =>
    cases coded; exact parse_of_reads (reads_pair _ _ _)
  | announcementSealed | transitionSealed =>
    obtain ⟨gate, rfl⟩ := eq_true_of_gate coded
    exact parse_sealed _ _ gate
  | announcementRouteSealed snapshot route =>
    obtain ⟨gate, rfl⟩ := eq_true_of_gate coded
    have short : route.length < 2 ^ 32 := by
      simp only [length_append] at fits
      omega
    show parse (Id.read >>= _) _ = _
    rw [append_assoc, parse_bind snapshot.reads, parse_bind (reads_blob short), parse_rest,
      parse_require _ gate]
    rfl
  | announcementDeliveredRoute | transitionReconciled | announcementReconciled =>
    cases coded; exact parse_of_reads (reads_triple _ _ _ _)
  | capabilityQueued | capabilityDelivered =>
    cases coded; exact parse_of_reads (reads_grant _ _ hsz)
  | capabilitySealed epoch recipient =>
    obtain ⟨gate, rfl⟩ := eq_true_of_gate coded
    show parse (word 8 >>= _) _ = _
    rw [append_assoc, parse_bind (reads_word64 hsz), parse_bind recipient.reads, parse_rest,
      parse_require _ gate]
    rfl
  | capabilitySealedReplaced epoch recipient supersedes =>
    obtain ⟨gate, rfl⟩ := eq_true_of_gate coded
    show parse (word 8 >>= _) _ = _
    rw [append_assoc, append_assoc, parse_bind (reads_word64 hsz),
      parse_bind recipient.reads, parse_bind (reads_digest supersedes), parse_rest,
      parse_require _ gate]
    rfl
  | bootstrapPending =>
    simp only [encodeBody] at coded
    split_ifs at coded with he
    cases coded
    show parse (rest >>= _) _ = _
    rw [parse_rest, parse_require _ he]
    rfl
  | reconciliationView => exact parse_of_reads ((reads_evidence hsz coded).map _)
  | reconciliationRequestReceived requester =>
    obtain ⟨view, hv, hs⟩ := bind_ok.mp coded
    cases hs
    exact parse_of_reads (requester.reads.bind ((reads_evidence hsz hv).map _))
  | capabilityReconciled epoch recipient statement =>
    cases coded
    rw [append_assoc]
    exact parse_of_reads
      ((reads_word64 hsz).bind (recipient.reads.bind ((reads_digest statement).map _)))

end ReadBack

end Durable

end Wyrd
