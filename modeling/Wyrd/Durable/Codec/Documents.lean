import Wyrd.Lib.Codec
import Wyrd.Seal.Envelope

/-! # Canonical bytes of the documents

The encodings of transitions, snapshots, manifests, announcements, evidence and
capability plaintexts, field by field in the order the format declares, and the
decoders that accept them. Identifiers travel as 32 raw octets; counts are 32-bit
and epochs 64-bit little-endian words. Every decoder reads its encoder back.
-/

namespace Wyrd

open List

open Reader Control Keys

def Fits64 (n : Nat) : Prop := n < 2 ^ 64

instance (n : Nat) : Decidable (Fits64 n) := inferInstanceAs (Decidable (n < 2 ^ 64))

lemma reads_word64 (fits : Fits64 n) : Reads (word 8) (leBytes 8 n) (some n) :=
  reads_word (by unfold Fits64 at fits; omega)

def textBytes (text : String) : Bytes := text.toUTF8.data.toList

/-- A hash takes these two byte strings apart, if they differ. -/
def CollisionFree {κ : Type} (hash : Bytes → κ) (bytes other : Bytes) : Prop :=
  hash bytes = hash other → bytes = other

namespace Id

variable {kind : IdKind}

def asBytes (id : Id kind) : Bytes := beBytes 32 id.raw

def read : Reader (Id kind) := do
  let raw ← fixed 32 (2 ^ 256)
  return ⟨raw⟩

@[simp] lemma length_asBytes (id : Id kind) : id.asBytes.length = 32 := length_beBytes 32 _

lemma reads (id : Id kind) : Reads read id.asBytes (some id) :=
  (reads_fixed (by norm_num) id.raw).map Id.mk

lemma spells : Spells [] read fun id : Id kind => id.asBytes :=
  (spells_fixed (by norm_num)).bind fun _ => spells_pure rfl

end Id

def digestBytes (digest : Digest) : Bytes := beBytes 32 digest

def readDigest : Reader Digest := fixed 32 (2 ^ 256)

def signatureBytes (signature : Signature) : Bytes := beBytes 64 signature

def readSignature : Reader Signature := fixed 64 (2 ^ 512)

@[simp] lemma length_digestBytes (digest : Digest) : (digestBytes digest).length = 32 :=
  length_beBytes 32 _

lemma reads_digest (digest : Digest) : Reads readDigest (digestBytes digest) (some digest) :=
  reads_fixed (by norm_num) digest

lemma reads_signature (signature : Signature) :
    Reads readSignature (signatureBytes signature) (some signature) :=
  reads_fixed (by rw [show 256 = 2 ^ 8 from rfl, ← pow_mul]) signature

lemma spells_digest : Spells [] readDigest digestBytes := spells_fixed (by norm_num)

lemma spells_signature : Spells [] readSignature signatureBytes :=
  spells_fixed (by rw [show 256 = 2 ^ 8 from rfl, ← pow_mul])

namespace Admission

def encode (admission : Admission) : Bytes :=
  admission.device.asBytes ++ admission.encryptionKey.asBytes

def read : Reader Admission := do
  let device ← Id.read
  let encryptionKey ← Id.read
  return ⟨device, encryptionKey⟩

lemma reads (admission : Admission) : Reads read admission.encode (some admission) :=
  (Id.reads _).bind ((Id.reads _).map _)

lemma spells : Spells [] read encode :=
  Id.spells.bind fun _ => Id.spells.bind fun _ => spells_pure rfl

end Admission

namespace Change

def encode : Change → Bytes
  | .admitMember admission => [0x00] ++ admission.encode
  | .remove device => [0x01] ++ device.asBytes
  | .rotate => [0x02]
  | .setOwners owners => [0x03] ++ (leBytes 4 owners.length ++ owners.flatMap Id.asBytes)
  | .admitReader admission => [0x04] ++ admission.encode

/-- What follows a change tag; unknown tags are refused. -/
def readBody (tag : UInt8) : Reader Change :=
  if tag = 0x00 then do return .admitMember (← Admission.read)
  else if tag = 0x01 then do return .remove (← Id.read)
  else if tag = 0x02 then return .rotate
  else if tag = 0x03 then do return .setOwners (← counted Id.read)
  else if tag = 0x04 then do return .admitReader (← Admission.read)
  else lift none

def read : Reader Change := do
  let tag ← byte
  readBody tag

lemma reads (fits : ∀ owners, change = .setOwners owners → owners.length ≤ countLimit) :
    Reads read change.encode (some change) := by
  cases change with
  | admitMember => exact (reads_byte _).bind ((Admission.reads _).map _)
  | remove => exact (reads_byte _).bind ((Id.reads _).map _)
  | rotate => exact (reads_byte _).bind (reads_pure _)
  | setOwners owners =>
    have few : owners.length < 2 ^ 32 := by
      have := fits owners rfl
      unfold countLimit at this
      omega
    exact (reads_byte _).bind ((reads_counted few fun owner _ => owner.reads).map _)
  | admitReader => exact (reads_byte _).bind ((Admission.reads _).map _)

lemma spells : Spells [] read encode := by
  refine spells_byte.bind fun tag => ?_
  unfold readBody
  split_ifs with ha revokes rotates ho hr
  · exact Admission.spells.bind fun _ => spells_pure (by rw [ha]; rfl)
  · exact Id.spells.bind fun _ => spells_pure (by rw [revokes]; rfl)
  · exact spells_pure (by rw [rotates]; rfl)
  · exact (spells_counted Id.spells).bind fun _ => spells_pure (by rw [ho]; rfl)
  · exact Admission.spells.bind fun _ => spells_pure (by rw [hr]; rfl)
  · exact spells_lifted nofun

end Change

lemma checkCounts_iff :
    checkCounts resolves changes = true ↔ resolves.length ≤ countLimit ∧
      changes.length ≤ countLimit ∧
      ∀ change ∈ changes, ∀ owners, change = .setOwners owners → owners.length ≤ countLimit := by
  simp only [checkCounts, Bool.and_eq_true, decide_eq_true_eq, all_eq_true, and_assoc]
  refine and_congr_right fun _ => and_congr_right fun _ => forall₂_congr fun change _ => ?_
  cases change <;> simp

namespace MembershipTransition

def encodePrev : Option TransitionId → Bytes
  | some id => [0x01] ++ id.asBytes
  | none => [0x00]

def readPrevBody (flag : UInt8) : Reader (Option TransitionId) :=
  if flag = 0x00 then return none
  else if flag = 0x01 then do return some (← Id.read)
  else lift none

def readPrev : Reader (Option TransitionId) := do
  let flag ← byte
  readPrevBody flag

/-- Every signed field in declared order, the epoch last. -/
def signingPreimage (t : MembershipTransition) : Bytes :=
  encodePrev t.prev ++ (leBytes 4 t.resolves.length ++ t.resolves.flatMap Id.asBytes) ++
    (leBytes 4 t.changes.length ++ t.changes.flatMap Change.encode) ++
    digestBytes t.membersRoot ++ digestBytes t.ownersRoot ++ digestBytes t.readersRoot ++
    t.author.asBytes ++ leBytes 8 t.epoch

def canonicalBytes (t : MembershipTransition) : Bytes :=
  t.signingPreimage ++ signatureBytes t.signature

/-- The counts came from 32-bit words, so the last test never fails. -/
def read : Reader MembershipTransition := do
  let prev ← readPrev
  let resolves ← counted Id.read
  let changes ← counted Change.read
  let membersRoot ← readDigest
  let ownersRoot ← readDigest
  let readersRoot ← readDigest
  let author ← Id.read
  let epoch ← word 8
  let signature ← readSignature
  lift (if encodable : checkCounts resolves changes = true then
    some ⟨epoch, prev, resolves, changes, membersRoot, ownersRoot, readersRoot, author, signature,
      encodable⟩
  else none)

def fromCanonicalBytes (bytes : Bytes) : Option MembershipTransition := parse read bytes

lemma reads_prev (prev : Option TransitionId) : Reads readPrev (encodePrev prev) (some prev) := by
  cases prev with
  | none => exact (reads_byte _).bind (reads_pure _)
  | some id => exact (reads_byte _).bind (id.reads.map _)

lemma fromCanonicalBytes_canonicalBytes (t : MembershipTransition) (fits : Fits64 t.epoch) :
    fromCanonicalBytes t.canonicalBytes = some t := by
  obtain ⟨fewResolves, hf, fewOwners⟩ := checkCounts_iff.mp t.encodable
  unfold countLimit at fewResolves hf
  apply parse_of_reads
  simp only [canonicalBytes, signingPreimage, append_assoc]
  rw [← append_assoc (leBytes 4 t.resolves.length), ← append_assoc (leBytes 4 t.changes.length)]
  refine (reads_prev _).bind ?_
  refine (reads_counted (by omega) fun id _ => id.reads).bind ?_
  refine (reads_counted (by omega) fun change hm => Change.reads (fewOwners change hm)).bind ?_
  refine (reads_digest _).bind ((reads_digest _).bind ((reads_digest _).bind ?_))
  refine t.author.reads.bind ((reads_word64 fits).bind ?_)
  rw [← append_nil (signatureBytes _)]
  refine (reads_signature _).bind ?_
  rw [dif_pos t.encodable]
  exact reads_lift _

lemma spells_prev : Spells [] readPrev encodePrev := by
  refine spells_byte.bind fun flag => ?_
  unfold readPrevBody
  split_ifs with hg ht
  · exact spells_pure (by rw [hg]; rfl)
  · exact Id.spells.bind fun _ => spells_pure (by rw [ht]; rfl)
  · exact spells_lifted nofun

lemma canonicalBytes_fromCanonicalBytes (decoded : fromCanonicalBytes bytes = some t) :
    t.canonicalBytes = bytes := by
  refine Spells.parse ?_ decoded
  refine spells_prev.bind fun _ => (spells_counted Id.spells).bind fun _ => ?_
  refine (spells_counted Change.spells).bind fun _ => ?_
  refine spells_digest.bind fun _ => spells_digest.bind fun _ => spells_digest.bind fun _ => ?_
  refine Id.spells.bind fun _ => (spells_word 8).bind fun _ => ?_
  refine spells_signature.bind fun _ => spells_lifted fun t made => ?_
  split_ifs at made
  cases made
  rfl

end MembershipTransition

namespace Snapshot

def signingPreimage (s : Snapshot) : Bytes :=
  (leBytes 4 s.parents.length ++ s.parents.flatMap Id.asBytes) ++ s.tree.asBytes ++
    s.author.asBytes ++ s.membership.asBytes ++ leBytes 8 s.epoch ++ [s.flags] ++
    leBytes 8 s.timestamp

def encode (s : Snapshot) : Bytes := s.signingPreimage ++ signatureBytes s.signature

def read : Reader Snapshot := do
  let parents ← counted Id.read
  let tree ← Id.read
  let author ← Id.read
  let membership ← Id.read
  let epoch ← word 8
  let flags ← byte
  let timestamp ← word 8
  let signature ← readSignature
  lift (if flagsDefined : flags &&& reservedFlagMask = 0 then
    if parentsFit : parents.length ≤ countLimit then
      some ⟨parents, tree, author, membership, epoch, flags, timestamp, signature, parentsFit,
        flagsDefined⟩
    else none
  else none)

def decode (payload : Bytes) : Option Snapshot := parse read payload

lemma decode_encode (s : Snapshot) (epoch : Fits64 s.epoch) (timestamp : Fits64 s.timestamp) :
    decode s.encode = some s := by
  have few := s.parentsFit
  unfold countLimit at few
  apply parse_of_reads
  simp only [encode, signingPreimage, append_assoc]
  rw [← append_assoc (leBytes 4 s.parents.length)]
  refine (reads_counted (by omega) fun id _ => id.reads).bind ?_
  refine s.tree.reads.bind (s.author.reads.bind (s.membership.reads.bind ?_))
  refine (reads_word64 epoch).bind ((reads_byte _).bind ((reads_word64 timestamp).bind ?_))
  rw [← append_nil (signatureBytes _)]
  refine (reads_signature _).bind ?_
  rw [dif_pos s.flagsDefined, dif_pos s.parentsFit]
  exact reads_lift _

lemma encode_decode (decoded : decode payload = some s) : s.encode = payload := by
  refine Spells.parse ?_ decoded
  refine (spells_counted Id.spells).bind fun _ => Id.spells.bind fun _ => ?_
  refine Id.spells.bind fun _ => Id.spells.bind fun _ => (spells_word 8).bind fun _ => ?_
  refine spells_byte.bind fun _ => (spells_word 8).bind fun _ => ?_
  refine spells_signature.bind fun _ => spells_lifted fun s made => ?_
  split_ifs at made
  cases made
  rfl

end Snapshot

instance : DecidableRel fun a b : ManifestEntry => a.sortKey < b.sortKey := fun a b =>
  inferInstanceAs (Decidable
    (Prod.Lex (· < ·) (Prod.Lex (· < ·) (· < ·)) (ofLex a.sortKey) (ofLex b.sortKey)))

namespace ManifestEntry

def encode (entry : ManifestEntry) : Bytes :=
  entry.contentId.asBytes ++ [entry.kind.byte] ++ [entry.version] ++ entry.storageId.asBytes ++
    leBytes 8 entry.encryptionEpoch ++ leBytes 8 entry.size ++ digestBytes entry.transport

def read : Reader ManifestEntry := do
  let contentId ← Id.read
  let kindByte ← byte
  let version ← byte
  let storageId ← Id.read
  let encryptionEpoch ← word 8
  let size ← word 8
  let transport ← readDigest
  let kind ← lift (ObjectKind.fromByte kindByte)
  return ⟨contentId, kind, version, storageId, encryptionEpoch, size, transport⟩

def Sized (entry : ManifestEntry) : Prop := Fits64 entry.encryptionEpoch ∧ Fits64 entry.size

@[simp] lemma length_encode (entry : ManifestEntry) : entry.encode.length = 114 := by
  simp [encode]

lemma reads (hsz : entry.Sized) : Reads read entry.encode (some entry) := by
  simp only [encode, append_assoc]
  refine (Id.reads _).bind ((reads_byte _).bind ((reads_byte _).bind ((Id.reads _).bind ?_)))
  refine (reads_word64 hsz.1).bind ((reads_word64 hsz.2).bind ?_)
  rw [← append_nil (digestBytes _)]
  refine (reads_digest _).bind ?_
  rw [ObjectKind.fromByte_byte]
  exact (reads_lift _).map _

lemma spells : Spells [] read encode := by
  refine Id.spells.bind fun _ => spells_byte.bind fun octet => spells_byte.bind fun _ => ?_
  refine Id.spells.bind fun _ => (spells_word 8).bind fun _ => (spells_word 8).bind fun _ => ?_
  refine spells_digest.bind fun _ => spells_lift fun kind hn => spells_pure ?_
  rw [← ObjectKind.byte_fromByte hn]
  rfl

end ManifestEntry

namespace ChildManifest

def encode (child : ChildManifest) : Bytes :=
  child.tree.asBytes ++ child.manifest.asBytes ++ child.storage.asBytes ++
    digestBytes child.transport

def read : Reader ChildManifest := do
  let tree ← Id.read
  let manifest ← Id.read
  let storage ← Id.read
  let transport ← readDigest
  return ⟨tree, manifest, storage, transport⟩

@[simp] lemma length_encode (child : ChildManifest) : child.encode.length = 128 := by
  simp [encode]

lemma reads (child : ChildManifest) : Reads read child.encode (some child) := by
  simp only [encode, append_assoc]
  exact (Id.reads _).bind ((Id.reads _).bind ((Id.reads _).bind ((reads_digest _).map _)))

lemma spells : Spells [] read encode :=
  Id.spells.bind fun _ => Id.spells.bind fun _ => Id.spells.bind fun _ =>
    spells_digest.bind fun _ => spells_pure rfl

end ChildManifest

namespace Manifest

/-- Snapshot, counted entries, counted children. -/
def canonicalBytes (manifest : Manifest) : Bytes :=
  manifest.snapshot.asBytes ++
    (leBytes 4 manifest.entries.length ++ manifest.entries.flatMap ManifestEntry.encode) ++
    (leBytes 4 manifest.children.length ++ manifest.children.flatMap ChildManifest.encode)

def read : Reader Manifest := do
  let snapshot ← Id.read
  let entries ← counted ManifestEntry.read
  let children ← counted ChildManifest.read
  lift (if entriesSorted : entries.Pairwise (fun a b => a.sortKey < b.sortKey) then
    if childrenSorted : children.Pairwise (fun a b => a.tree < b.tree) then
      some ⟨snapshot, entries, children, entriesSorted, childrenSorted⟩
    else none
  else none)

def fromCanonicalBytes (bytes : Bytes) : Option Manifest := parse read bytes

def Sized (manifest : Manifest) : Prop := ∀ entry ∈ manifest.entries, entry.Sized

lemma length_canonicalBytes (manifest : Manifest) : manifest.canonicalBytes.length =
    40 + 114 * manifest.entries.length + 128 * manifest.children.length := by
  simp only [canonicalBytes, length_append, Id.length_asBytes, length_leBytes,
    length_flatMap, ManifestEntry.length_encode, ChildManifest.length_encode, map_const',
    sum_replicate, smul_eq_mul]
  omega

def Counted (manifest : Manifest) : Prop :=
  manifest.entries.length ≤ countLimit ∧ manifest.children.length ≤ countLimit

lemma counted_of_length {manifest : Manifest} (fits : manifest.canonicalBytes.length < 2 ^ 32) :
    manifest.Counted := by
  rw [length_canonicalBytes] at fits
  unfold Counted countLimit
  omega

lemma fromCanonicalBytes_canonicalBytes (hsz : manifest.Sized) (counts : manifest.Counted) :
    fromCanonicalBytes manifest.canonicalBytes = some manifest := by
  obtain ⟨few, fewer⟩ := counts
  unfold countLimit at few fewer
  apply parse_of_reads
  simp only [canonicalBytes, append_assoc]
  rw [← append_assoc (leBytes 4 manifest.entries.length)]
  refine (Id.reads _).bind ?_
  refine (reads_counted (by omega) fun entry hm => ManifestEntry.reads (hsz entry hm)).bind ?_
  rw [← append_nil (leBytes 4 manifest.children.length ++ _)]
  refine (reads_counted (by omega) fun child _ => child.reads).bind ?_
  rw [dif_pos manifest.entriesSorted, dif_pos manifest.childrenSorted]
  exact reads_lift _

lemma canonicalBytes_fromCanonicalBytes (decoded : fromCanonicalBytes bytes = some manifest) :
    manifest.canonicalBytes = bytes := by
  refine Spells.parse ?_ decoded
  refine Id.spells.bind fun _ => (spells_counted ManifestEntry.spells).bind fun _ => ?_
  refine (spells_counted ChildManifest.spells).bind fun _ => spells_lifted fun manifest made => ?_
  split_ifs at made
  cases made
  rfl

end Manifest

namespace Control.SnapshotAnnouncement

def encodeAddr : Option Bytes → Bytes
  | none => [0x00]
  | some addr => [0x01] ++ (leBytes 4 addr.length ++ addr)

def readAddrBody (flag : UInt8) : Reader (Option Bytes) :=
  if flag = 0x00 then return none
  else if flag = 0x01 then do return some (← blob)
  else lift none

def readAddr : Reader (Option Bytes) := do
  let flag ← byte
  readAddrBody flag

/-- The payload of an announcement message: the signed region, then the
    signature. -/
def encodePayload (a : SnapshotAnnouncement) : Bytes :=
  a.snapshot.asBytes ++ a.author.asBytes ++ leBytes 8 a.epoch ++ a.membership.asBytes ++
    digestBytes a.bodyRoot ++ a.rootManifest.asBytes ++ digestBytes a.rootManifestTransport ++
    encodeAddr a.nodeAddr ++ signatureBytes a.signature

def read : Reader SnapshotAnnouncement := do
  let snapshot ← Id.read
  let author ← Id.read
  let epoch ← word 8
  let membership ← Id.read
  let bodyRoot ← readDigest
  let rootManifest ← Id.read
  let rootManifestTransport ← readDigest
  let nodeAddr ← readAddr
  let signature ← readSignature
  return ⟨snapshot, author, epoch, membership, bodyRoot, rootManifest, rootManifestTransport,
    nodeAddr, signature⟩

def decodePayload (bytes : Bytes) : Option SnapshotAnnouncement := parse read bytes

lemma reads_addr (fits : ∀ blob ∈ addr, blob.length < 2 ^ 32) :
    Reads readAddr (encodeAddr addr) (some addr) := by
  cases addr with
  | none => exact (reads_byte _).bind (reads_pure _)
  | some addr => exact (reads_byte _).bind ((reads_blob (fits addr rfl)).map _)

lemma reads (epoch : Fits64 a.epoch) (fits : ∀ addr ∈ a.nodeAddr, addr.length < 2 ^ 32) :
    Reads read a.encodePayload (some a) := by
  simp only [encodePayload, append_assoc]
  refine (Id.reads _).bind ((Id.reads _).bind ((reads_word64 epoch).bind ((Id.reads _).bind ?_)))
  refine (reads_digest _).bind ((Id.reads _).bind ((reads_digest _).bind ?_))
  exact (reads_addr fits).bind ((reads_signature _).map _)

lemma decodePayload_encodePayload (era : Fits64 a.epoch)
    (fits : a.encodePayload.length < 2 ^ 32) : decodePayload a.encodePayload = some a := by
  refine parse_of_reads (reads era fun addr hr => ?_)
  simp only [encodePayload, Option.mem_def.mp hr, encodeAddr, length_append] at fits
  omega

lemma spells_addr : Spells [] readAddr encodeAddr := by
  refine spells_byte.bind fun flag => ?_
  unfold readAddrBody
  split_ifs with hg ht
  · exact spells_pure (by rw [hg]; rfl)
  · exact spells_blob.bind fun _ => spells_pure (by rw [ht]; rfl)
  · exact spells_lifted nofun

lemma spells : Spells [] read encodePayload := by
  refine Id.spells.bind fun _ => Id.spells.bind fun _ => (spells_word 8).bind fun _ => ?_
  refine Id.spells.bind fun _ => spells_digest.bind fun _ => Id.spells.bind fun _ => ?_
  refine spells_digest.bind fun _ => spells_addr.bind fun _ => ?_
  exact spells_signature.bind fun _ => spells_pure rfl

end Control.SnapshotAnnouncement

namespace Keys.Capability

/-- `Capability::new`: the declared epoch counts the secrets, there is one at
    least, and both keys are curve points. -/
def new? (P : Primitives) (drive : DriveId) (device : DeviceId)
    (encryptionKey : DeviceEncryptionKey) (transition : TransitionId) (epoch : Nat)
    (secrets : List EpochSecret) : Option Capability :=
  if secrets = [] then none
  else if secrets.length ≠ epoch then none
  else if P.validEncryptionKey encryptionKey = false then none
  else if P.validDeviceKey device = false then none
  else some ⟨drive, device, encryptionKey, transition, secrets⟩

/-- The value is one that `Capability::new` accepts. -/
def Built (P : Primitives) (cap : Capability) : Prop :=
  new? P cap.drive cap.device cap.encryptionKey cap.transition cap.coveredEpoch cap.secrets =
    some cap

instance (P : Primitives) (cap : Capability) : Decidable (cap.Built P) :=
  inferInstanceAs (Decidable (_ = _))

def plaintextBytes (cap : Capability) : Bytes :=
  cap.drive.asBytes ++ cap.device.asBytes ++ cap.encryptionKey.asBytes ++ cap.transition.asBytes ++
    leBytes 8 cap.coveredEpoch ++
    (leBytes 4 cap.secrets.length ++ cap.secrets.flatMap digestBytes)

def readPlaintext (P : Primitives) : Reader Capability := do
  let drive ← Id.read
  let device ← Id.read
  let encryptionKey ← Id.read
  let transition ← Id.read
  let epoch ← word 8
  let secrets ← counted readDigest
  lift (new? P drive device encryptionKey transition epoch secrets)

def parsePlaintext (P : Primitives) (bytes : Bytes) : Option Capability :=
  parse (readPlaintext P) bytes

lemma length_plaintextBytes (cap : Capability) :
    cap.plaintextBytes.length = 140 + 32 * cap.secrets.length := by
  simp only [plaintextBytes, length_append, Id.length_asBytes, length_leBytes,
    length_flatMap, length_digestBytes, map_const', sum_replicate, smul_eq_mul]
  omega

lemma parsePlaintext_plaintextBytes (short : cap.plaintextBytes.length < 2 ^ 32) :
    parsePlaintext P cap.plaintextBytes = if cap.Built P then some cap else none := by
  have built : new? P cap.drive cap.device cap.encryptionKey cap.transition cap.coveredEpoch
      cap.secrets = if cap.Built P then some cap else none := by
    unfold Built new?
    split_ifs <;> simp_all
  rw [length_plaintextBytes] at short
  apply parse_of_reads
  simp only [plaintextBytes, append_assoc]
  refine (Id.reads _).bind ((Id.reads _).bind ((Id.reads _).bind ((Id.reads _).bind ?_)))
  refine (reads_word64 (by unfold Fits64 coveredEpoch; omega)).bind ?_
  rw [← append_nil (leBytes 4 _ ++ _)]
  refine (reads_counted (by omega) fun secret _ => reads_digest secret).bind ?_
  rw [← built]
  exact reads_lift _

end Keys.Capability

end Wyrd
