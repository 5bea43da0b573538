import Wyrd.Intake.Inbox

/-! # Sealed objects

Everything a vault stores is an envelope `version ‖ kind ‖ nonce ‖ ciphertext`.
The associated data binds version, kind and content identity. The cipher, the
hashes, the key derivations and the document codecs enter as `Sealing`.
-/

namespace Wyrd

/-- The kind an envelope byte names. -/
def ObjectKind.fromByte (byte : UInt8) : Option ObjectKind :=
  if byte = 0x00 then some .chunk
  else if byte = 0x01 then some .tree
  else if byte = 0x02 then some .snapshot
  else if byte = 0x03 then some .manifest
  else none

@[simp] lemma ObjectKind.fromByte_byte (kind : ObjectKind) :
    ObjectKind.fromByte kind.byte = some kind := by
  cases kind <;> rfl

lemma ObjectKind.byte_fromByte {byte kind} (hn : ObjectKind.fromByte byte = some kind) :
    kind.byte = byte := by
  unfold ObjectKind.fromByte at hn
  split_ifs at hn with chunk tree hs hm <;> cases hn <;> symm <;> assumption

namespace Seal

inductive CryptoError where
  | openFailed
  | sealFailed
  | malformed
  | headerMismatch
  | identityMismatch
  deriving DecidableEq

def sealVersion : UInt8 := 0x00

def sealNonceLen : Nat := 24

structure EncryptedObject where
  version : UInt8
  kind : ObjectKind
  nonce : Bytes
  ciphertext : Bytes
  nonceLength : nonce.length = sealNonceLen
  deriving DecidableEq

/-- The associated data: three fields of fixed width. -/
structure SealAad where
  version : UInt8
  kind : ObjectKind
  contentId : ContentId
  deriving DecidableEq

/-- What sealing takes from outside: the hashes and derivations, the cipher, and
    the codecs of the two documents that are fetched by identity. -/
structure Sealing extends Intake.Wire where
  contentId : ObjectKind → Bytes → ContentId
  storageId : Bytes → StorageId
  blobRoot : Bytes → BaoRoot
  manifestKey : EpochSecret → DriveId → Nat → SnapshotId → Digest
  objectKey : EpochSecret → DriveId → Nat → ContentId → ObjectKind → UInt8 → Digest
  aeadSeal : Digest → Bytes → Bytes → SealAad → Option Bytes
  aeadOpen : Digest → Bytes → Bytes → SealAad → Option Bytes
  encodeManifest : Manifest → Bytes
  decodeManifest : Bytes → Option Manifest
  encodeSnapshot : Snapshot → Bytes
  decodeSnapshot : Bytes → Option Snapshot

namespace EncryptedObject

def encode (obj : EncryptedObject) : Bytes :=
  obj.version :: obj.kind.byte :: (obj.nonce ++ obj.ciphertext)

/-- The vault-visible address of this representation. -/
def storageId (K : Sealing) (obj : EncryptedObject) : StorageId := K.storageId obj.encode

end EncryptedObject

def sealAad (version : UInt8) (kind : ObjectKind) (contentId : ContentId) : SealAad :=
  ⟨version, kind, contentId⟩

/-- The transport root of a representation, over its sealed bytes. -/
def transportRoot (K : Sealing) (obj : EncryptedObject) : BaoRoot := K.blobRoot obj.encode

end Seal

end Wyrd
