import Wyrd.Durable.Codec.Records
import Wyrd.Format.Canonical

/-! # Payloads of control messages

Each kind of message has one payload encoding, and the decoder of a kind accepts nothing
else. The signed region of an announcement is its payload without the signature.
-/

namespace Wyrd.Control

open Reader Durable Intake List

namespace SnapshotAnnouncement

/-- The region the author signs. -/
def coveredPayload (a : SnapshotAnnouncement) : Bytes :=
  a.snapshot.asBytes ++ a.author.asBytes ++ leBytes 8 a.epoch ++ a.membership.asBytes ++
    digestBytes a.bodyRoot ++ a.rootManifest.asBytes ++ digestBytes a.rootManifestTransport ++
    encodeAddr a.nodeAddr

def signingMessage (a : SnapshotAnnouncement) (drive : DriveId) : Bytes :=
  signedMessage "wyrd announcement v1" drive a.coveredPayload

/-- The statement that was signed. -/
def unsigned (a : SnapshotAnnouncement) : SnapshotAnnouncement := { a with signature := 0 }

/-- The epoch is a 64-bit word, and the address fits a counted blob. -/
def Fits (a : SnapshotAnnouncement) : Prop :=
  Fits64 a.epoch ∧ ∀ addr ∈ a.nodeAddr, addr.length < 2 ^ 32

variable {a a' : SnapshotAnnouncement}

lemma coveredPayload_inj (fits : a.Fits) (fits' : a'.Fits)
    (hs : a.coveredPayload = a'.coveredPayload) : a.unsigned = a'.unsigned := by
  have bytes : a.unsigned.encodePayload = a'.unsigned.encodePayload :=
    congrArg (· ++ signatureBytes 0) hs
  have first := parse_of_reads (reads (a := a.unsigned) fits.1 fits.2)
  have second := parse_of_reads (reads (a := a'.unsigned) fits'.1 fits'.2)
  rw [bytes, second] at first
  exact (Option.some.inj first).symm

end SnapshotAnnouncement

namespace Message

def kind : Message → ControlKind
  | .capability _ => .capability
  | .membershipTransition _ => .membershipTransition
  | .keyRotation _ => .keyRotation
  | .snapshotAnnouncement _ => .snapshotAnnouncement
  | .reconciliationRequest _ => .reconciliationRequest

/-- Octets behind their length in 32 bits. -/
def blobBytes (blob : Bytes) : Bytes := leBytes 4 blob.length ++ blob

def encodePayload : Message → Bytes
  | .capability m => m.device.asBytes ++ leBytes 8 m.epoch ++ blobBytes m.wrapped
  | .membershipTransition transition => blobBytes transition
  | .keyRotation transition => transition.asBytes
  | .snapshotAnnouncement a => a.encodePayload
  | .reconciliationRequest m => m.requester.asBytes ++ blobBytes m.evidence

def readPayload : ControlKind → Reader Message
  | .capability => do
      let device ← Id.read
      let epoch ← word 8
      let wrapped ← blob
      return .capability ⟨device, epoch, wrapped⟩
  | .membershipTransition => do return .membershipTransition (← blob)
  | .keyRotation => do return .keyRotation (← Id.read)
  | .snapshotAnnouncement => do return .snapshotAnnouncement (← SnapshotAnnouncement.read)
  | .reconciliationRequest => do
      let requester ← Id.read
      let evidence ← blob
      return .reconciliationRequest ⟨requester, evidence⟩

/-- Whatever cannot be read counts as truncated, an unknown presence byte too. -/
def decodePayload (kind : ControlKind) (bytes : Bytes) : Except ControlError Message :=
  match readPayload kind bytes with
  | none => .error .truncated
  | some (message, []) => .ok message
  | some _ => .error .trailingBytes

/-- The epoch is a 64-bit word, and every blob fits its count. -/
def Fits : Message → Prop
  | .capability m => Fits64 m.epoch ∧ m.wrapped.length < 2 ^ 32
  | .membershipTransition transition => transition.length < 2 ^ 32
  | .keyRotation _ => True
  | .snapshotAnnouncement a => a.Fits
  | .reconciliationRequest m => m.evidence.length < 2 ^ 32

lemma reads_payload (fits : m.Fits) : Reads (readPayload m.kind) m.encodePayload (some m) := by
  cases m with
  | capability m =>
    simp only [encodePayload, append_assoc]
    exact m.device.reads.bind ((reads_word64 fits.1).bind ((reads_blob fits.2).map _))
  | membershipTransition => exact (reads_blob fits).map _
  | keyRotation transition => exact transition.reads.map _
  | snapshotAnnouncement => exact (SnapshotAnnouncement.reads fits.1 fits.2).map _
  | reconciliationRequest m => exact m.requester.reads.bind ((reads_blob fits).map _)

lemma spells_payload (kind : ControlKind) : Spells [] (readPayload kind) encodePayload := by
  cases kind with
  | capability =>
    exact Id.spells.bind fun _ => (spells_word 8).bind fun _ => spells_blob.bind fun _ =>
      spells_pure rfl
  | membershipTransition => exact spells_blob.bind fun _ => spells_pure rfl
  | keyRotation => exact Id.spells.bind fun _ => spells_pure rfl
  | snapshotAnnouncement => exact SnapshotAnnouncement.spells.bind fun _ => spells_pure rfl
  | reconciliationRequest => exact Id.spells.bind fun _ => spells_blob.bind fun _ => spells_pure rfl

lemma decodePayload_ok {kind bytes m} :
    decodePayload kind bytes = .ok m ↔ parse (readPayload kind) bytes = some m := by
  unfold decodePayload parse
  rcases readPayload kind bytes with _ | ⟨message, _ | _⟩ <;> simp

end Message

open SnapshotAnnouncement Message

/-- Payloads decode from their own encoding and from nothing else, and what an author signs
    determines the announcement up to the signature. -/
theorem payload_framed_once {m : Message} (fits : m.Fits) {a a' : SnapshotAnnouncement}
    (small : a.Fits) (small' : a'.Fits) (kind : ControlKind) (bytes : Bytes) (drive : DriveId) :
    decodePayload m.kind m.encodePayload = .ok m ∧
      (∀ decoded, decodePayload kind bytes = .ok decoded → decoded.encodePayload = bytes) ∧
      a.coveredPayload = a.encodePayload.take (a.encodePayload.length - 64) ∧
      (a.coveredPayload = a'.coveredPayload → a.unsigned = a'.unsigned) ∧
      (a.unsigned ≠ a'.unsigned → a.signingMessage drive ≠ a'.signingMessage drive) := by
  have split : a.encodePayload = a.coveredPayload ++ signatureBytes a.signature := rfl
  refine ⟨decodePayload_ok.mpr (parse_of_reads (reads_payload fits)), fun decoded hok => ?_, ?_,
    coveredPayload_inj small small', fun hd hs => ?_⟩
  · exact (spells_payload kind).parse (decodePayload_ok.mp hok)
  · rw [split, length_append, signatureBytes, length_beBytes, Nat.add_sub_cancel,
      take_left]
  · exact hd (coveredPayload_inj small small' (signedMessage_inj hs).2)

def announced (signature : Signature) : SnapshotAnnouncement :=
  ⟨⟨1⟩, ⟨2⟩, 3, ⟨4⟩, 5, ⟨6⟩, 7, some [8], signature⟩

def signed : SnapshotAnnouncement := announced ⟨0, Nat.two_pow_pos 512⟩

def resigned : SnapshotAnnouncement := announced ⟨1, Nat.one_lt_two_pow (by decide)⟩

/-- Announcements that differ in the signature alone share a signing message. -/
theorem resigned_shares_message : signed ≠ resigned ∧
    signed.signingMessage ⟨9⟩ = resigned.signingMessage ⟨9⟩ := by
  refine ⟨fun hs => ?_, rfl⟩
  have value : 0 = 1 := congrArg (fun a => a.signature.val) hs
  cases value

theorem payload_framed_once_signed :
    decodePayload .snapshotAnnouncement signed.encodePayload = .ok (.snapshotAnnouncement signed) := by
  have small : signed.Fits := ⟨by decide, by rintro _ ⟨⟩; decide⟩
  exact (payload_framed_once (m := .snapshotAnnouncement signed) small small small .capability [] ⟨9⟩).1

end Wyrd.Control
