import Wyrd.Author.Manifests

/-! # One encoding for each document

Transitions, snapshots and manifests decode from their canonical bytes and from nothing
else. The signed region of a document determines every field but the signature, and a
manifest is the same whichever way it is built.
-/

namespace Wyrd

open List

open Author

/-- `ASCII(context) ‖ DriveId ‖ region`, the BIP-340 message of a signed region. -/
def signedMessage (context : String) (drive : DriveId) (region : Bytes) : Bytes :=
  textBytes context ++ drive.asBytes ++ region

lemma signedMessage_inj
    (hs : signedMessage context drive region = signedMessage context drive' region') :
    drive = drive' ∧ region = region' := by
  obtain ⟨front, rest⟩ := append_inj hs (by simp)
  refine ⟨?_, rest⟩
  have read := drive.reads []
  rw [append_cancel_left front, drive'.reads []] at read
  cases read
  rfl

namespace MembershipTransition

def signingMessage (t : MembershipTransition) (drive : DriveId) : Bytes :=
  signedMessage "wyrd membership v1" drive t.signingPreimage

/-- Over a hash that derives 32 octets. -/
def transitionId (hash : Bytes → TransitionId) (t : MembershipTransition) : TransitionId :=
  hash (t.signingPreimage ++ signatureBytes t.signature)

def unsigned (t : MembershipTransition) : MembershipTransition := { t with signature := 0 }

lemma signingPreimage_inj {t t' : MembershipTransition} (fits : Fits64 t.epoch)
    (fits' : Fits64 t'.epoch) (hs : t.signingPreimage = t'.signingPreimage) :
    t.unsigned = t'.unsigned := by
  have bytes : t.unsigned.canonicalBytes = t'.unsigned.canonicalBytes :=
    congrArg (· ++ signatureBytes 0) hs
  have read := fromCanonicalBytes_canonicalBytes t.unsigned fits
  rw [bytes, fromCanonicalBytes_canonicalBytes t'.unsigned fits'] at read
  exact (Option.some.inj read).symm

end MembershipTransition

namespace Snapshot

def signingMessage (s : Snapshot) (drive : DriveId) : Bytes :=
  signedMessage "wyrd snapshot v1" drive s.signingPreimage

/-- Over a hash that derives 32 octets. -/
def snapshotId (hash : Bytes → SnapshotId) (s : Snapshot) : SnapshotId := hash s.encode

def unsigned (s : Snapshot) : Snapshot := { s with signature := 0 }

def Sized (s : Snapshot) : Prop := Fits64 s.epoch ∧ Fits64 s.timestamp

lemma signingPreimage_inj {s s' : Snapshot} (fits : s.Sized) (fits' : s'.Sized)
    (hs : s.signingPreimage = s'.signingPreimage) : s.unsigned = s'.unsigned := by
  have bytes : s.unsigned.encode = s'.unsigned.encode := congrArg (· ++ signatureBytes 0) hs
  have read := decode_encode s.unsigned fits.1 fits.2
  rw [bytes, decode_encode s'.unsigned fits'.1 fits'.2] at read
  exact (Option.some.inj read).symm

end Snapshot

/-- The two contexts part at their sixth octet. -/
lemma signingMessage_apart (t : MembershipTransition) (s : Snapshot) (drive drive' : DriveId) :
    t.signingMessage drive ≠ s.signingMessage drive' := by
  intro hs
  have octet := congrArg (·[5]?) hs
  simp only [MembershipTransition.signingMessage, Snapshot.signingMessage, signedMessage,
    append_assoc] at octet
  rw [List.getElem?_append_left (by decide), List.getElem?_append_left (by decide)] at octet
  revert octet
  decide

/-- Each of the two documents has one encoding, and what is signed or hashed determines it. -/
theorem documents_spelled_once {t t' : MembershipTransition} {s s' : Snapshot}
    (fits : Fits64 t.epoch) (fits' : Fits64 t'.epoch) (sized : s.Sized) (sized' : s'.Sized)
    {transitionHash : Bytes → TransitionId} {snapshotHash : Bytes → SnapshotId}
    (free : CollisionFree transitionHash t.canonicalBytes t'.canonicalBytes)
    (free' : CollisionFree snapshotHash s.encode s'.encode) (bytes : Bytes) (drive drive' : DriveId) :
    MembershipTransition.fromCanonicalBytes t.canonicalBytes = some t ∧
      Snapshot.decode s.encode = some s ∧
      (∀ decoded, MembershipTransition.fromCanonicalBytes bytes = some decoded →
        decoded.canonicalBytes = bytes) ∧
      (∀ decoded, Snapshot.decode bytes = some decoded → decoded.encode = bytes) ∧
      (t.signingPreimage = t'.signingPreimage → t.unsigned = t'.unsigned) ∧
      (s.signingPreimage = s'.signingPreimage → s.unsigned = s'.unsigned) ∧
      (t.signingMessage drive = t'.signingMessage drive' → drive = drive' ∧ t.unsigned = t'.unsigned) ∧
      (s.signingMessage drive = s'.signingMessage drive' → drive = drive' ∧ s.unsigned = s'.unsigned) ∧
      t.signingMessage drive ≠ s.signingMessage drive' ∧
      (t.transitionId transitionHash = t'.transitionId transitionHash → t = t') ∧
      (s.snapshotId snapshotHash = s'.snapshotId snapshotHash → s = s') := by
  have move := MembershipTransition.fromCanonicalBytes_canonicalBytes t fits
  have snapshot := Snapshot.decode_encode s sized.1 sized.2
  refine ⟨move, snapshot, fun _ => MembershipTransition.canonicalBytes_fromCanonicalBytes,
    fun _ => Snapshot.encode_decode, MembershipTransition.signingPreimage_inj fits fits',
    Snapshot.signingPreimage_inj sized sized', fun hs => ?_, fun hs => ?_,
    signingMessage_apart t s drive drive', fun hs => ?_, fun hs => ?_⟩
  · obtain ⟨hh, region⟩ := signedMessage_inj hs
    exact ⟨hh, MembershipTransition.signingPreimage_inj fits fits' region⟩
  · obtain ⟨hh, region⟩ := signedMessage_inj hs
    exact ⟨hh, Snapshot.signingPreimage_inj sized sized' region⟩
  · rw [free hs, MembershipTransition.fromCanonicalBytes_canonicalBytes t' fits'] at move
    exact (Option.some.inj move).symm
  · rw [free' hs, Snapshot.decode_encode s' sized'.1 sized'.2] at snapshot
    exact (Option.some.inj snapshot).symm

def draftTransition (epoch : Nat) : MembershipTransition :=
  ⟨epoch, none, [], [.rotate], 0, 0, 0, ⟨0⟩, 0, by decide⟩

def draftSnapshot (timestamp : Nat) : Snapshot :=
  ⟨[⟨1⟩], ⟨0⟩, ⟨0⟩, ⟨0⟩, 1, 0, timestamp, 0, by decide, by decide⟩

/-- The sum of the octets. -/
def sumId {kind : IdKind} (bytes : Bytes) : Id kind :=
  ⟨Fin.ofNat (2 ^ 256) (bytes.map UInt8.toNat).sum⟩

theorem documents_spelled_once_drafts :
    Snapshot.decode (draftSnapshot 7).encode = some (draftSnapshot 7) ∧
      (draftTransition 1).transitionId sumId ≠ (draftTransition 2).transitionId sumId ∧
      (draftSnapshot 7).snapshotId sumId ≠ (draftSnapshot 8).snapshotId sumId := by
  have free : CollisionFree (sumId : Bytes → TransitionId)
      (draftTransition 1).canonicalBytes (draftTransition 2).canonicalBytes := fun same => absurd same (by decide +kernel)
  have free' : CollisionFree (sumId : Bytes → SnapshotId) (draftSnapshot 7).encode
      (draftSnapshot 8).encode := fun same => absurd same (by decide +kernel)
  have spelled := documents_spelled_once (show Fits64 (draftTransition 1).epoch by decide)
    (show Fits64 (draftTransition 2).epoch by decide)
    (show (draftSnapshot 7).Sized from ⟨by decide, by decide⟩)
    (show (draftSnapshot 8).Sized from ⟨by decide, by decide⟩) free free' [] ⟨0⟩ ⟨0⟩
  obtain ⟨-, reads, -, -, -, -, -, -, -, transitions, snapshots⟩ := spelled
  refine ⟨reads, fun same => ?_, fun same => ?_⟩
  · exact absurd (congrArg MembershipTransition.epoch (transitions same)) (by decide)
  · exact absurd (congrArg Snapshot.timestamp (snapshots same)) (by decide)

instance byteOrder : LinearOrder UInt8 where
  le_refl := UInt8.le_refl
  le_trans _ _ _ := UInt8.le_trans
  le_antisymm _ _ := UInt8.le_antisymm
  le_total := UInt8.le_total
  lt_iff_le_not_ge _ _ := by
    rw [UInt8.not_le]
    exact ⟨fun below => ⟨UInt8.le_of_lt below, below⟩, And.right⟩
  toDecidableLE := inferInstance

namespace Manifest

/-- Strictly ascending sections, or the first section that is not. -/
def checkSorted (snapshot : SnapshotId) (entries : List ManifestEntry)
    (children : List ChildManifest) : Except ManifestError Manifest :=
  if entriesSorted : entries.Pairwise (fun a b => a.sortKey < b.sortKey) then
    if childrenSorted : children.Pairwise (fun a b => a.tree < b.tree) then
      .ok ⟨snapshot, entries, children, entriesSorted, childrenSorted⟩
    else .error .unsortedChildren
  else .error .unsortedEntries

/-- Sorts its parts, and refuses equal keys. -/
def new (snapshot : SnapshotId) (entries : List ManifestEntry) (children : List ChildManifest) :
    Except ManifestError Manifest :=
  if countLimit < entries.length then .error (.countOverflow entries.length)
  else if countLimit < children.length then .error (.countOverflow children.length)
  else checkSorted snapshot (entries.mergeSort fun a b => a.sortKey ≤ b.sortKey)
    (children.mergeSort fun a b => a.tree ≤ b.tree)

variable {snapshot : SnapshotId} {manifest : Manifest}

lemma new_ok {entries children} (made : new snapshot entries children = .ok manifest) :
    manifest.Counted ∧ manifest.entries.Perm entries ∧ manifest.children.Perm children := by
  unfold new checkSorted at made
  split_ifs at made with wide broad
  cases made
  have entries := entries.mergeSort_perm fun a b => a.sortKey ≤ b.sortKey
  have children := children.mergeSort_perm fun a b => a.tree ≤ b.tree
  refine ⟨⟨?_, ?_⟩, entries, children⟩
  · rw [entries.length_eq]
    exact not_lt.mp wide
  · rw [children.length_eq]
    exact not_lt.mp broad

lemma fromSorted_ok {entries links} (made : fromSorted snapshot entries links = .ok manifest) :
    manifest.Counted ∧ manifest.snapshot = snapshot ∧
      manifest.entries = entries.docs.map Prod.snd ∧
      manifest.children = links.docs.map Prod.snd := by
  unfold fromSorted at made
  split_ifs at made with wide broad
  cases made
  refine ⟨⟨?_, ?_⟩, rfl, rfl, rfl⟩
  · rw [length_map]
    exact not_lt.mp wide
  · rw [length_map]
    exact not_lt.mp broad

/-- Any order of the parts of a counted manifest makes it again. -/
lemma new_of_perm (counts : manifest.Counted) {entries children}
    (hl : entries.Perm manifest.entries) (tied : children.Perm manifest.children) :
    new manifest.snapshot entries children = .ok manifest := by
  unfold new checkSorted
  rw [if_neg (not_lt.mpr (hl.length_eq ▸ counts.1)),
    if_neg (not_lt.mpr (tied.length_eq ▸ counts.2)),
    mergeSort_of_perm hl manifest.entriesSorted, mergeSort_of_perm tied manifest.childrenSorted,
    dif_pos manifest.entriesSorted, dif_pos manifest.childrenSorted]

/-- A manifest is sorted, checked as sorted, or decoded. -/
inductive Made (manifest : Manifest) : Prop where
  | new {snapshot : SnapshotId} {entries : List ManifestEntry} {children : List ChildManifest}
      (built : new snapshot entries children = .ok manifest)
  | fromSorted {snapshot : SnapshotId} {entries : Mappings} {links : Links}
      (built : fromSorted snapshot entries links = .ok manifest)
  | decoded {bytes : Bytes} (read : fromCanonicalBytes bytes = some manifest)

/-- Every manifest reads back, whatever is accepted is its canonical bytes, and the two
    constructors agree. -/
theorem manifest_codec_bijective (made : manifest.Made) (sized : manifest.Sized) :
    fromCanonicalBytes manifest.canonicalBytes = some manifest ∧
      (manifest.entries.Pairwise fun a b => a.sortKey < b.sortKey) ∧
      (manifest.children.Pairwise fun a b => a.tree < b.tree) ∧
      (∀ bytes, fromCanonicalBytes bytes = some manifest → manifest.canonicalBytes = bytes) ∧
      ∀ snapshot (mappings : Mappings) (links : Links),
        Author.fromSorted snapshot mappings links = .ok manifest →
        ∀ entries children, entries.Perm (mappings.docs.map Prod.snd) →
          children.Perm (links.docs.map Prod.snd) → new snapshot entries children = .ok manifest := by
  refine ⟨?_, manifest.entriesSorted, manifest.childrenSorted,
    fun _ => canonicalBytes_fromCanonicalBytes, ?_⟩
  · cases made with
    | new built => exact fromCanonicalBytes_canonicalBytes sized (new_ok built).1
    | fromSorted built => exact fromCanonicalBytes_canonicalBytes sized (fromSorted_ok built).1
    | decoded hr => rwa [canonicalBytes_fromCanonicalBytes hr]
  · intro snapshot mappings links built entries children hl tied
    obtain ⟨hc, rfl, hs, hs'⟩ := fromSorted_ok built
    rw [← hs] at hl
    rw [← hs'] at tied
    exact new_of_perm hc hl tied

def sampleMappings : Mappings :=
  .ofList _ [(⟨1⟩, ⟨⟨1⟩, .chunk, 0, ⟨6⟩, 1, 7, 8⟩), (⟨2⟩, ⟨⟨2⟩, .tree, 0, ⟨7⟩, 1, 4, 9⟩)]

def sampleLinks : Links := .ofList _ [(⟨2⟩, ⟨⟨2⟩, ⟨3⟩, ⟨6⟩, 8⟩), (⟨4⟩, ⟨⟨4⟩, ⟨3⟩, ⟨6⟩, 8⟩)]

theorem manifest_codec_bijective_linked : ∃ manifest,
    Author.fromSorted ⟨5⟩ sampleMappings sampleLinks = .ok manifest ∧
      fromCanonicalBytes manifest.canonicalBytes = some manifest ∧
      new ⟨5⟩ (sampleMappings.docs.map Prod.snd).reverse (sampleLinks.docs.map Prod.snd).reverse =
        .ok manifest := by
  have fine : (Author.fromSorted ⟨5⟩ sampleMappings sampleLinks).isOk = true := by decide +kernel
  obtain ⟨manifest, built⟩ : ∃ manifest,
      Author.fromSorted ⟨5⟩ sampleMappings sampleLinks = .ok manifest := by
    cases built : Author.fromSorted ⟨5⟩ sampleMappings sampleLinks with
    | error => rw [built] at fine; cases fine
    | ok manifest => exact ⟨manifest, rfl⟩
  have sized : manifest.Sized := by
    rw [Sized, (fromSorted_ok built).2.2.1]
    unfold ManifestEntry.Sized Fits64
    decide +kernel
  obtain ⟨reads, -, -, -, agree⟩ := manifest_codec_bijective (.fromSorted built) sized
  exact ⟨manifest, built, reads, agree _ _ _ built _ _ (reverse_perm _) (reverse_perm _)⟩

end Manifest

end Wyrd
