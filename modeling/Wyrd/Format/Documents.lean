import Mathlib

/-! # Signed documents and the primitives they rest on

The identities, membership transitions and snapshots of the format crate, as
the state machines above read them. Hashing and the curve library are outside
this repository: they enter as `Primitives`, with no assumption on what they
compute. Epochs are natural numbers; the two places where the 64-bit bound
shows (`checkedAdd`, `saturatingAdd`) say so explicitly.
-/

namespace Wyrd

/-- Which question an identifier answers. Identifiers of different kinds are
    different types, as the source's newtypes are. -/
inductive IdKind where
  | content
  | storage
  | snapshot
  | drive
  | device
  | transition
  | deviceEncryptionKey
  deriving DecidableEq

/-- Thirty-two raw bytes, read as one big-endian number: the derived bytewise
    order of the source is the order of these numbers. -/
structure Id (kind : IdKind) where
  raw : Fin (2 ^ 256)

lemma Id.raw_injective (kind : IdKind) : Function.Injective (Id.raw : Id kind → _) := by
  intro a b hs
  cases a
  cases b
  exact congrArg Id.mk hs

instance (kind : IdKind) : LinearOrder (Id kind) := LinearOrder.lift' Id.raw (Id.raw_injective kind)

instance Id.lawful (kind : IdKind) : LawfulBEq (Id kind) := inferInstance

instance Id.numbered (kind : IdKind) : LawfulBEq (Id kind × Nat) := inferInstance

abbrev ContentId := Id .content
abbrev SnapshotId := Id .snapshot
abbrev DriveId := Id .drive
abbrev DeviceId := Id .device
abbrev TransitionId := Id .transition
abbrev DeviceEncryptionKey := Id .deviceEncryptionKey

/-- A 32-byte digest: set roots and signing challenges. -/
abbrev Digest := Fin (2 ^ 256)

instance digests : NeZero (2 ^ 256) := ⟨(Nat.two_pow_pos 256).ne'⟩

/-- A 64-byte BIP-340 signature. -/
abbrev Signature := Fin (2 ^ 512)

instance signatures : NeZero (2 ^ 512) := ⟨(Nat.two_pow_pos 512).ne'⟩

/-- `u64::checked_add`. -/
def checkedAdd (a b : Nat) : Option Nat := if a + b < 2 ^ 64 then some (a + b) else none

/-- `u64::saturating_add`. -/
def saturatingAdd (a b : Nat) : Nat := min (a + b) (2 ^ 64 - 1)

lemma checkedAdd_eq_some : checkedAdd a b = some c ↔ a + b = c ∧ c < 2 ^ 64 := by
  simp only [checkedAdd]
  split_ifs with fits
  · simp only [Option.some.injEq]
    constructor
    · rintro rfl
      exact ⟨rfl, fits⟩
    · exact And.left
  · simp only [false_iff, not_and, not_lt]
    rintro rfl
    exact not_lt.mp fits

/-- `u32::MAX`, the largest count the wire format carries. -/
def countLimit : Nat := 2 ^ 32 - 1

lemma one_le_countLimit : 1 ≤ countLimit := by decide

/-- What an admission registers: the identity key signs, the encryption key
    receives. -/
structure Admission where
  device : DeviceId
  encryptionKey : DeviceEncryptionKey
  deriving DecidableEq

inductive Change where
  | admitMember (admission : Admission)
  | remove (device : DeviceId)
  | rotate
  | setOwners (owners : List DeviceId)
  | admitReader (admission : Admission)
  deriving DecidableEq

/-- Every vector the encoders narrow to 32 bits fits. -/
def checkCounts (resolves : List TransitionId) (changes : List Change) : Bool :=
  decide (resolves.length ≤ countLimit) && decide (changes.length ≤ countLimit) &&
    changes.all (fun change => match change with
      | .setOwners owners => decide (owners.length ≤ countLimit)
      | _ => true)

structure MembershipTransition where
  epoch : Nat
  prev : Option TransitionId
  resolves : List TransitionId
  changes : List Change
  membersRoot : Digest
  ownersRoot : Digest
  readersRoot : Digest
  author : DeviceId
  signature : Signature
  encodable : checkCounts resolves changes = true
  deriving DecidableEq

def recoveryFlag : UInt8 := 0x01

def reservedFlagMask : UInt8 := ~~~recoveryFlag

/-- One signed node of the snapshot DAG. -/
structure Snapshot where
  parents : List SnapshotId
  tree : ContentId
  author : DeviceId
  membership : TransitionId
  epoch : Nat
  flags : UInt8
  timestamp : Nat
  signature : Signature
  parentsFit : parents.length ≤ countLimit
  flagsDefined : flags &&& reservedFlagMask = 0
  deriving DecidableEq

inductive SnapshotError where
  | reservedFlags (flags : UInt8)
  | countOverflow (count : Nat)
  deriving DecidableEq

/-- A snapshot with an all-zero signature. -/
def Snapshot.new (parents : List SnapshotId) (tree : ContentId) (author : DeviceId)
    (membership : TransitionId) (epoch : Nat) (flags : UInt8) (timestamp : Nat) :
    Except SnapshotError Snapshot :=
  if flagsDefined : flags &&& reservedFlagMask = 0 then
    if parentsFit : parents.length ≤ countLimit then
      .ok ⟨parents, tree, author, membership, epoch, flags, timestamp, 0, parentsFit, flagsDefined⟩
    else .error (.countOverflow parents.length)
  else .error (.reservedFlags flags)

/-- The test `flags & RECOVERY_FLAG != 0`. -/
def Snapshot.isRecovery (s : Snapshot) : Bool := s.flags &&& recoveryFlag != 0

/-- The derivation contexts of the three set roots. -/
inductive SetContext where
  | members
  | owners
  | readers
  deriving DecidableEq

/-- What the documents take from outside: the BLAKE3 identities and roots and
    the secp256k1 library. `setRoot` sorts and deduplicates its input, so it is
    a function of the set; it fails on sets too large to count. -/
structure Primitives where
  transitionId : MembershipTransition → TransitionId
  snapshotId : Snapshot → SnapshotId
  membershipChallenge : MembershipTransition → DriveId → Digest
  snapshotChallenge : Snapshot → DriveId → Digest
  setRoot : SetContext → Finset DeviceId → Option Digest
  validDeviceKey : DeviceId → Bool
  validEncryptionKey : DeviceEncryptionKey → Bool
  parsesSignature : Signature → Bool
  verifySchnorr : Signature → Digest → DeviceId → Bool

end Wyrd
