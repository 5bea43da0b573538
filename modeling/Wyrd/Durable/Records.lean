import Wyrd.Durable.Facts

/-! # The runtime projection

What replay builds from the runtime facts: announcements, bodies, manifests with
their derived indexes, locality, and the transition outbox. The mutators check a
new record against what is there and return an error without changing anything;
the fetch plan and replay use the same ones.
-/

namespace Wyrd.Durable

open Function

open Control

/-- Obligations keyed by transition, then recipient. -/
abbrev TransitionOutbox := Observed (fun pair : TransitionId × DeviceId => toLex pair)

structure RuntimeState (P : Primitives) where
  seenControlMessages : Finset ControlMessageId
  announcements : Observed SnapshotAnnouncement.snapshot
  snapshotBodies : Observed P.snapshotId
  manifests : Observed ManifestRecord.manifestId
  rootManifestsBySnapshot : SnapshotId → Finset ContentId
  childParentByManifest : ContentId → Option SnapshotId
  localObjects : Finset ContentId
  materialization : ContentId → Option MaterializationState
  transitionQueued : TransitionOutbox
  transitionDelivered : Finset (TransitionId × DeviceId)
  transitionReconciledPairs : Finset (TransitionId × DeviceId)
  transitionReconciled : Finset (TransitionId × DeviceId × Digest)

inductive RuntimeError where
  | conflictingAnnouncement (snapshot : SnapshotId)
  | announcementBodyMismatch (snapshot : SnapshotId)
  | conflictingManifest (manifest : ContentId)
  | conflictingChildParent (manifest : ContentId)
  | manifestIdentityMismatch (manifest derived : ContentId)
  | transportNotRepresented (manifest : ContentId)
  deriving DecidableEq

variable {P : Primitives}

/-- The announcement and the body name one author, epoch and membership. -/
def bodyAgrees (a : SnapshotAnnouncement) (body : Snapshot) : Bool :=
  decide (a.author = body.author) && decide (a.epoch = body.epoch) &&
    decide (a.membership = body.membership)

namespace RuntimeState

def new (P : Primitives) : RuntimeState P where
  seenControlMessages := ∅
  announcements := .empty
  snapshotBodies := .empty
  manifests := .empty
  rootManifestsBySnapshot := fun _ => ∅
  childParentByManifest := fun _ => none
  localObjects := ∅
  materialization := fun _ => none
  transitionQueued := .empty
  transitionDelivered := ∅
  transitionReconciledPairs := ∅
  transitionReconciled := ∅

variable (state : RuntimeState P)

def announcement (snapshot : SnapshotId) : Option SnapshotAnnouncement :=
  state.announcements.lookup snapshot

def snapshotBody (snapshot : SnapshotId) : Option Snapshot := state.snapshotBodies.lookup snapshot

def manifestRecord (manifest : ContentId) : Option ManifestRecord := state.manifests.lookup manifest

def rememberControlMessage (id : ControlMessageId) : RuntimeState P :=
  { state with seenControlMessages := insert id state.seenControlMessages }

def acceptAnnouncement (a : SnapshotAnnouncement) : Except RuntimeError (RuntimeState P) :=
  match state.announcements.lookup a.snapshot with
  | none => .ok { state with announcements := state.announcements.observe a }
  | some known =>
    match known.checkUpdate a with
    | .same => .ok state
    | .routeUpdate => .ok { state with announcements := state.announcements.observe a }
    | .fork => .error (.conflictingAnnouncement a.snapshot)

def recordAnnouncement (a : SnapshotAnnouncement) : Except RuntimeError (RuntimeState P) :=
  match state.snapshotBodies.lookup a.snapshot with
  | some body =>
    if bodyAgrees a body then state.acceptAnnouncement a
    else .error (.announcementBodyMismatch a.snapshot)
  | none => state.acceptAnnouncement a

def recordSnapshotBody (s : Snapshot) : Except RuntimeError (RuntimeState P) :=
  let recorded := { state with snapshotBodies := state.snapshotBodies.observe s }
  match state.announcements.lookup (P.snapshotId s) with
  | some a =>
    if bodyAgrees a s then .ok recorded
    else .error (.announcementBodyMismatch (P.snapshotId s))
  | none => .ok recorded

/-- A representation held under another root. -/
def representationConflict (held incoming : Representations) : Bool :=
  incoming.docs.any (fun pair =>
    (held.lookup pair.1).any (fun known => decide (known.2 ≠ pair.2)))

/-- A second record of a known manifest: merge the representation sets. -/
def mergeManifest (known record : ManifestRecord) : Except RuntimeError (RuntimeState P) :=
  if known.manifest ≠ record.manifest ∨ known.isRoot ≠ record.isRoot then
    .error (.conflictingManifest record.manifestId)
  else if representationConflict known.representations record.representations then
    .error (.conflictingManifest record.manifestId)
  else
    let completesEmpty := decide (known.representations.docs = []) &&
      decide (record.representations.docs ≠ [])
    if completesEmpty && !transportIsRepresented record then
      .error (.transportNotRepresented record.manifestId)
    else
      let merged : ManifestRecord := { known with
        representations := record.representations.docs.foldl Observed.observe known.representations
        transport := if completesEmpty then record.transport else known.transport }
      .ok { state with manifests := state.manifests.observe merged }

/-- The first child of the manifest that another snapshot's manifest already
    lists. -/
def foreignChild (manifest : Manifest) : Option ChildManifest :=
  manifest.children.find? (fun child =>
    (state.childParentByManifest child.manifest).any (fun owner => decide (owner ≠ manifest.snapshot)))

/-- A manifest not recorded before, with its derived indexes. -/
def insertManifest (record : ManifestRecord) : RuntimeState P :=
  { state with
    manifests := state.manifests.observe record
    rootManifestsBySnapshot :=
      if record.isRoot then
        update state.rootManifestsBySnapshot record.manifest.snapshot
          (insert record.manifestId (state.rootManifestsBySnapshot record.manifest.snapshot))
      else state.rootManifestsBySnapshot
    childParentByManifest := record.manifest.children.foldl
      (fun parents child => update parents child.manifest (some record.manifest.snapshot))
      state.childParentByManifest }

def recordManifest (D : Digests) (record : ManifestRecord) :
    Except RuntimeError (RuntimeState P) :=
  if record.manifestId ≠ D.manifestId record.manifest then
    .error (.manifestIdentityMismatch record.manifestId (D.manifestId record.manifest))
  else match state.manifests.lookup record.manifestId with
    | some known => state.mergeManifest known record
    | none =>
      if transportIsRepresented record then
        match state.foreignChild record.manifest with
        | some child => .error (.conflictingChildParent child.manifest)
        | none => .ok (state.insertManifest record)
      else .error (.transportNotRepresented record.manifestId)

def markLocalObject (content : ContentId) : RuntimeState P :=
  { state with localObjects := insert content state.localObjects }

def removeLocalObject (content : ContentId) : RuntimeState P :=
  { state with localObjects := state.localObjects.erase content }

def setMaterialization (content : ContentId) (desired : MaterializationState) : RuntimeState P :=
  { state with materialization := update state.materialization content (some desired) }

def recordTransitionQueued (id : TransitionId) (recipient : DeviceId) : RuntimeState P :=
  { state with transitionQueued := state.transitionQueued.observe (id, recipient) }

def recordTransitionDelivered (id : TransitionId) (recipient : DeviceId) : RuntimeState P :=
  { state with transitionDelivered := insert (id, recipient) state.transitionDelivered }

/-- Retire an obligation; the first statement to do so is kept. -/
def recordTransitionReconciled (id : TransitionId) (recipient : DeviceId) (statement : Digest) :
    RuntimeState P :=
  if (id, recipient) ∈ state.transitionReconciledPairs then state
  else { state with
    transitionReconciledPairs := insert (id, recipient) state.transitionReconciledPairs
    transitionReconciled := insert (id, recipient, statement) state.transitionReconciled }

/-- Queued minus delivered and reconciled, in order. -/
def pendingTransitions : List (TransitionId × DeviceId) :=
  state.transitionQueued.docs.filter (fun pair =>
    decide (pair ∉ state.transitionDelivered) && decide (pair ∉ state.transitionReconciledPairs))

section Recording

variable {state next : RuntimeState P} {a : SnapshotAnnouncement}

lemma acceptAnnouncement_ok (accepted : state.acceptAnnouncement a = .ok next) :
    (∀ known, state.announcement a.snapshot = some known → known.Agrees a) ∧
      next.announcement = update state.announcement a.snapshot (some a) ∧
      next = { state with announcements := next.announcements } := by
  have observed : (state.announcements.observe a).lookup =
      update state.announcement a.snapshot (some a) := by
    funext snapshot
    rw [Observed.lookup_observe, update_apply]
    rfl
  unfold acceptAnnouncement at accepted
  cases found : state.announcements.lookup a.snapshot with
  | none =>
    simp only [found] at accepted
    cases accepted
    exact ⟨by simp [announcement, found], observed, rfl⟩
  | some known =>
    simp only [found] at accepted
    cases update : known.checkUpdate a with
    | same =>
      simp only [update] at accepted
      cases accepted
      obtain rfl := SnapshotAnnouncement.checkUpdate_same.mp update
      refine ⟨?_, (update_eq_self_iff.mpr found.symm).symm, rfl⟩
      intro other same
      cases found.symm.trans same
      exact .refl _
    | routeUpdate =>
      simp only [update] at accepted
      cases accepted
      refine ⟨?_, observed, rfl⟩
      intro other same
      cases found.symm.trans same
      exact SnapshotAnnouncement.agrees_of_not_fork (by simp [update])
    | fork =>
      simp only [update] at accepted
      cases accepted

/-- An announcement that was recorded agrees with the body and the announcement
    there before, and is now the one its snapshot has. -/
lemma recordAnnouncement_ok (noted : state.recordAnnouncement a = .ok next) :
    (∀ body, state.snapshotBody a.snapshot = some body → bodyAgrees a body = true) ∧
      (∀ known, state.announcement a.snapshot = some known → known.Agrees a) ∧
      next.announcement = update state.announcement a.snapshot (some a) ∧
      next = { state with announcements := next.announcements } := by
  unfold recordAnnouncement at noted
  cases hf : state.snapshotBodies.lookup a.snapshot with
  | none =>
    simp only [hf] at noted
    exact ⟨by simp [snapshotBody, hf], acceptAnnouncement_ok noted⟩
  | some =>
    simp only [hf] at noted
    split_ifs at noted with ha
    refine ⟨?_, acceptAnnouncement_ok noted⟩
    intro other hs
    cases hf.symm.trans hs
    exact ha

end Recording

end RuntimeState

end Wyrd.Durable
