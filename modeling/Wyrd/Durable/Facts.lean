import Wyrd.Keys.Capability

/-! # Durable facts

The records a drive commits, one constructor per kind. Loading sorts them into
buckets by kind and keeps the commit order inside each; a bucket is therefore
the sublist of its kind. Evidence of one's own state is computed from buckets.
-/

namespace Wyrd

open Control Keys

inductive ObjectKind where
  | chunk
  | tree
  | snapshot
  | manifest
  deriving DecidableEq

def ObjectKind.byte : ObjectKind → UInt8
  | .chunk => 0x00
  | .tree => 0x01
  | .snapshot => 0x02
  | .manifest => 0x03

/-- One content-to-storage mapping: a hint, checked wherever it is acted on. -/
structure ManifestEntry where
  contentId : ContentId
  kind : ObjectKind
  version : UInt8
  storageId : StorageId
  encryptionEpoch : Nat
  size : Nat
  transport : BaoRoot
  deriving DecidableEq

/-- Content identity, then kind, then version. -/
def ManifestEntry.sortKey (entry : ManifestEntry) : ContentId ×ₗ UInt8 ×ₗ UInt8 :=
  toLex (entry.contentId, toLex (entry.kind.byte, entry.version))

structure ChildManifest where
  tree : ContentId
  manifest : ContentId
  storage : StorageId
  transport : BaoRoot
  deriving DecidableEq

/-- One subtree's manifest, canonical by construction. -/
structure Manifest where
  snapshot : SnapshotId
  entries : List ManifestEntry
  children : List ChildManifest
  entriesSorted : entries.Pairwise (fun a b => a.sortKey < b.sortKey)
  childrenSorted : children.Pairwise (fun a b => a.tree < b.tree)
  deriving DecidableEq

lemma noEntries : ([] : List ManifestEntry).Pairwise (fun a b => a.sortKey < b.sortKey) := .nil

lemma noChildren : ([] : List ChildManifest).Pairwise (fun a b => a.tree < b.tree) := .nil

/-- Sealed representations of one manifest: each storage address with its own
    transport root. -/
abbrev Representations := Observed (Prod.fst : StorageId × BaoRoot → StorageId)

structure ManifestRecord where
  isRoot : Bool
  manifestId : ContentId
  representations : Representations
  transport : BaoRoot
  manifest : Manifest
  deriving DecidableEq

/-- An empty map is a representationless root; otherwise the eager root is one
    of the recorded values. -/
def transportIsRepresented (record : ManifestRecord) : Bool :=
  decide (record.representations.docs = []) ||
    record.representations.docs.any (fun pair => decide (pair.2 = record.transport))

inductive MaterializationState where
  | remoteOnly
  | cached
  | pinned
  deriving DecidableEq

/-- What a device states about its own durable state. -/
structure ReconciliationEvidence where
  transitions : OrderedSet TransitionId
  snapshots : OrderedSet SnapshotId
  capabilities : Observed (fun install : DeviceId × Nat => toLex install)
  deriving DecidableEq

/-- The digests of the durable layer's own documents. -/
structure Digests where
  manifestId : Manifest → ContentId
  statementDigest : DeviceId → ReconciliationEvidence → Digest

/-- One durable record. The outbox facts that only the send paths read are left
    out, except the transition obligations. -/
inductive Fact where
  | transition (transition : MembershipTransition)
  | capability (capability : Capability)
  | announcement (announcement : SnapshotAnnouncement)
  | snapshotBody (snapshot : Snapshot)
  | manifest (record : ManifestRecord)
  | localObject (content : ContentId)
  | objectRemoved (content : ContentId)
  | materialization (content : ContentId) (state : MaterializationState)
  | controlMessage (id : ControlMessageId)
  | announcementQueued (snapshot : SnapshotId) (recipient : DeviceId)
  | transitionQueued (id : TransitionId) (recipient : DeviceId)
  | transitionDelivered (id : TransitionId) (recipient : DeviceId)
  | transitionReconciled (id : TransitionId) (recipient : DeviceId) (statement : Digest)
  | reconciliationRequestReceived (requester : DeviceId) (evidence : ReconciliationEvidence)
  deriving DecidableEq

namespace Fact

def transition? : Fact → Option MembershipTransition
  | .transition t => some t
  | _ => none

def capability? : Fact → Option Capability
  | .capability cap => some cap
  | _ => none

def announcement? : Fact → Option SnapshotAnnouncement
  | .announcement a => some a
  | _ => none

def snapshotBody? : Fact → Option Snapshot
  | .snapshotBody s => some s
  | _ => none

def controlMessage? : Fact → Option ControlMessageId
  | .controlMessage id => some id
  | _ => none

def request? : Fact → Option (DeviceId × ReconciliationEvidence)
  | .reconciliationRequestReceived requester evidence => some (requester, evidence)
  | _ => none

end Fact

def transitionsIn (facts : List Fact) : List MembershipTransition := facts.filterMap Fact.transition?

def capabilitiesIn (facts : List Fact) : List Capability := facts.filterMap Fact.capability?

def announcementsIn (facts : List Fact) : List SnapshotAnnouncement :=
  facts.filterMap Fact.announcement?

def snapshotBodiesIn (facts : List Fact) : List Snapshot := facts.filterMap Fact.snapshotBody?

def seenIn (facts : List Fact) : List ControlMessageId := facts.filterMap Fact.controlMessage?

def requestsIn (facts : List Fact) : List (DeviceId × ReconciliationEvidence) :=
  facts.filterMap Fact.request?

variable {facts : List Fact}

lemma mem_bucket {α : Type} {pick : Fact → Option α} {build : α → Fact}
    (picks : ∀ fact value, pick fact = some value ↔ fact = build value) {value} :
    value ∈ facts.filterMap pick ↔ build value ∈ facts := by
  simp only [List.mem_filterMap, picks, exists_eq_right]

@[simp] lemma mem_transitionsIn {t} : t ∈ transitionsIn facts ↔ .transition t ∈ facts :=
  mem_bucket (fun fact _ => by cases fact <;> simp [Fact.transition?])

@[simp] lemma mem_capabilitiesIn {cap} : cap ∈ capabilitiesIn facts ↔ .capability cap ∈ facts :=
  mem_bucket (fun fact _ => by cases fact <;> simp [Fact.capability?])

@[simp] lemma mem_announcementsIn {a} : a ∈ announcementsIn facts ↔ .announcement a ∈ facts :=
  mem_bucket (fun fact _ => by cases fact <;> simp [Fact.announcement?])

@[simp] lemma mem_seenIn {id} : id ∈ seenIn facts ↔ .controlMessage id ∈ facts :=
  mem_bucket (fun fact _ => by cases fact <;> simp [Fact.controlMessage?])

@[simp] lemma mem_requestsIn {request : DeviceId × ReconciliationEvidence} :
    request ∈ requestsIn facts ↔ .reconciliationRequestReceived request.1 request.2 ∈ facts := by
  have picks : ∀ fact request, Fact.request? fact = some request ↔
      fact = .reconciliationRequestReceived request.1 request.2 := by
    intro fact request
    cases fact <;> simp [Fact.request?, Prod.ext_iff]
  exact mem_bucket picks

def installsOf (cap : Capability) : List (DeviceId × Nat) :=
  (List.range' 1 cap.secrets.length).map (fun epoch => (cap.device, epoch))

def deriveEvidence (P : Primitives) (facts : List Fact) : ReconciliationEvidence where
  transitions := .ofList _ ((transitionsIn facts).map P.transitionId)
  snapshots := .ofList _
    ((announcementsIn facts).map (·.snapshot) ++ (snapshotBodiesIn facts).map P.snapshotId)
  capabilities := .ofList _ ((capabilitiesIn facts).flatMap installsOf)

end Wyrd
