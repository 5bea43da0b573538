import Wyrd.Format.Documents

/-! # Control messages

The five message kinds the mailbox delivers, and the rule by which a second
announcement for one snapshot is read against the first. A message is evidence,
not authority: every arm of the intake checks it again.
-/

namespace Wyrd

abbrev StorageId := Id .storage

abbrev Bytes := List UInt8

/-- The transport root (Bao root) over one representation's bytes. -/
abbrev BaoRoot := Digest

abbrev EpochSecret := Digest

/-- The dedupe id of a sealed delivery: a hash over its bytes. -/
abbrev ControlMessageId := Digest

namespace Control

/-- What an author states about one snapshot. `nodeAddr` is routing only. -/
structure SnapshotAnnouncement where
  snapshot : SnapshotId
  author : DeviceId
  epoch : Nat
  membership : TransitionId
  bodyRoot : BaoRoot
  rootManifest : ContentId
  rootManifestTransport : BaoRoot
  nodeAddr : Option Bytes
  signature : Signature
  deriving DecidableEq

inductive AnnouncementUpdate where
  | same
  | routeUpdate
  | fork
  deriving DecidableEq

namespace SnapshotAnnouncement

/-- The identity fields, which no reannouncement may change. -/
def immutableAgrees (known candidate : SnapshotAnnouncement) : Bool :=
  decide (known.author = candidate.author) && decide (known.epoch = candidate.epoch) &&
    decide (known.membership = candidate.membership) &&
    decide (known.bodyRoot = candidate.bodyRoot) &&
    decide (known.rootManifest = candidate.rootManifest) &&
    decide (known.rootManifestTransport = candidate.rootManifestTransport)

/-- What a second announcement for the same snapshot means. -/
def checkUpdate (known candidate : SnapshotAnnouncement) : AnnouncementUpdate :=
  if known = candidate then .same
  else if known.immutableAgrees candidate then .routeUpdate
  else .fork

/-- One statement up to routing. -/
structure Agrees (a b : SnapshotAnnouncement) : Prop where
  author : a.author = b.author
  epoch : a.epoch = b.epoch
  membership : a.membership = b.membership
  bodyRoot : a.bodyRoot = b.bodyRoot
  rootManifest : a.rootManifest = b.rootManifest
  rootManifestTransport : a.rootManifestTransport = b.rootManifestTransport

variable {known candidate : SnapshotAnnouncement}

lemma immutableAgrees_iff : known.immutableAgrees candidate = true ↔ known.Agrees candidate := by
  simp only [immutableAgrees, Bool.and_eq_true, decide_eq_true_eq]
  constructor
  · rintro ⟨⟨⟨⟨⟨author, era⟩, member⟩, bodyRoot⟩, rootManifest⟩, transport⟩
    exact ⟨author, era, member, bodyRoot, rootManifest, transport⟩
  · rintro ⟨author, era, member, bodyRoot, rootManifest, transport⟩
    exact ⟨⟨⟨⟨⟨author, era⟩, member⟩, bodyRoot⟩, rootManifest⟩, transport⟩

lemma Agrees.refl (a : SnapshotAnnouncement) : a.Agrees a := ⟨rfl, rfl, rfl, rfl, rfl, rfl⟩

lemma Agrees.symm {a b : SnapshotAnnouncement} (agree : a.Agrees b) : b.Agrees a :=
  ⟨agree.author.symm, agree.epoch.symm, agree.membership.symm, agree.bodyRoot.symm,
    agree.rootManifest.symm, agree.rootManifestTransport.symm⟩

lemma Agrees.trans {a b c : SnapshotAnnouncement} (first : a.Agrees b) (second : b.Agrees c) :
    a.Agrees c :=
  ⟨first.author.trans second.author, first.epoch.trans second.epoch,
    first.membership.trans second.membership, first.bodyRoot.trans second.bodyRoot,
    first.rootManifest.trans second.rootManifest,
    first.rootManifestTransport.trans second.rootManifestTransport⟩

instance (a b : SnapshotAnnouncement) : Decidable (a.Agrees b) :=
  decidable_of_iff _ immutableAgrees_iff

/-- A reannouncement is a fork exactly when it changes an identity field. -/
lemma checkUpdate_fork : known.checkUpdate candidate = .fork ↔ ¬ known.Agrees candidate := by
  rw [checkUpdate, ← immutableAgrees_iff]
  split_ifs with hs agree
  · subst hs
    simp [immutableAgrees_iff, Agrees.refl]
  · simp [agree]
  · simp [agree]

lemma checkUpdate_same : known.checkUpdate candidate = .same ↔ known = candidate := by
  rw [checkUpdate]
  split_ifs with hs <;> simp [hs]

lemma agrees_of_not_fork (update : known.checkUpdate candidate ≠ .fork) : known.Agrees candidate :=
  not_not.mp (mt checkUpdate_fork.mpr update)

end SnapshotAnnouncement

structure CapabilityPayload where
  device : DeviceId
  epoch : Nat
  wrapped : Bytes
  deriving DecidableEq

structure ReconciliationRequestPayload where
  requester : DeviceId
  evidence : Bytes
  deriving DecidableEq

/-- One opened control message. Transitions and wraps stay opaque bytes here. -/
inductive Message where
  | capability (payload : CapabilityPayload)
  | membershipTransition (transition : Bytes)
  | keyRotation (transition : TransitionId)
  | snapshotAnnouncement (announcement : SnapshotAnnouncement)
  | reconciliationRequest (payload : ReconciliationRequestPayload)
  deriving DecidableEq

/-- The epoch a payload repeats. A request names none: its sets span epochs. -/
def Message.payloadEpoch : Message → Option Nat
  | .capability payload => some payload.epoch
  | .snapshotAnnouncement announcement => some announcement.epoch
  | .membershipTransition _ | .keyRotation _ | .reconciliationRequest _ => none

end Control

end Wyrd
