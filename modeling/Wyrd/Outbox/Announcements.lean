import Wyrd.Control.Message
import Wyrd.Membership.Resolution

/-! # The announcement outbox

Obligations to announce one snapshot to one recipient, as the committed facts
leave them: queued, sealed, delivered under a route, retired by reconciliation.
Two projections read them. The pending list is what is still owed; the eligible
list is what a send pass may send under one route, which reopens pairs that were
delivered under another one.
-/

namespace Wyrd.Outbox

open Wyrd.Membership List Function

/-- One obligation: a snapshot owed to a recipient. -/
abbrev Pair := SnapshotId × DeviceId

abbrev EndpointId := Digest

/-- The route record of a send that carried no route. -/
def withdrawnRoute : EndpointId := 0

/-- The facts the announcement outbox is replayed from. -/
inductive OutboxFact where
  | announcementQueued (snapshot : SnapshotId) (recipient : DeviceId)
  | announcementSealed (snapshot : SnapshotId) (bytes : Bytes)
  | announcementRouteSealed (snapshot : SnapshotId) (route : Bytes) (bytes : Bytes)
  | announcementDelivered (snapshot : SnapshotId) (recipient : DeviceId)
  | announcementDeliveredRoute (snapshot : SnapshotId) (recipient : DeviceId)
      (endpoint : EndpointId)
  | announcementReconciled (snapshot : SnapshotId) (recipient : DeviceId) (statement : Digest)
  deriving DecidableEq

/-- Obligations iterated in snapshot, then recipient order. -/
abbrev PairSet := Observed (fun pair : Pair => toLex pair)

structure AnnouncementOutbox where
  announcementQueued : PairSet
  announcementSealed : SnapshotId → Option Bytes
  announcementRouteSealed : SnapshotId × Bytes → Option Bytes
  announcementDelivered : PairSet
  announcementDeliveredRoute : Pair → Option EndpointId
  announcementReconciledPairs : Finset Pair
  announcementReconciled : Finset (SnapshotId × DeviceId × Digest)

namespace AnnouncementOutbox

def new : AnnouncementOutbox := ⟨.empty, fun _ => none, fun _ => none, .empty, fun _ => none, ∅, ∅⟩

variable (outbox : AnnouncementOutbox)

variable (snapshot : SnapshotId) (recipient : DeviceId)

def recordAnnouncementQueued : AnnouncementOutbox :=
  { outbox with announcementQueued := outbox.announcementQueued.observe (snapshot, recipient) }

/-- First seal wins. -/
def recordAnnouncementSealed (bytes : Bytes) : AnnouncementOutbox :=
  if (outbox.announcementSealed snapshot).isSome then outbox
  else { outbox with
    announcementSealed := update outbox.announcementSealed snapshot (some bytes) }

/-- First seal per snapshot and route wins. -/
def recordAnnouncementRouteSealed (route bytes : Bytes) : AnnouncementOutbox :=
  if (outbox.announcementRouteSealed (snapshot, route)).isSome then outbox
  else { outbox with
    announcementRouteSealed :=
      update outbox.announcementRouteSealed (snapshot, route) (some bytes) }

def recordAnnouncementDelivered : AnnouncementOutbox :=
  { outbox with
    announcementDelivered := outbox.announcementDelivered.observe (snapshot, recipient) }

/-- Last write wins. -/
def recordAnnouncementDeliveredRoute (endpoint : EndpointId) : AnnouncementOutbox :=
  { outbox with
    announcementDeliveredRoute :=
      update outbox.announcementDeliveredRoute (snapshot, recipient) (some endpoint) }

/-- The first marker of a pair wins; the statement digest is audit. -/
def recordAnnouncementReconciled (statement : Digest) : AnnouncementOutbox :=
  if (snapshot, recipient) ∈ outbox.announcementReconciledPairs then outbox
  else { outbox with
    announcementReconciledPairs := insert (snapshot, recipient) outbox.announcementReconciledPairs
    announcementReconciled :=
      insert (snapshot, recipient, statement) outbox.announcementReconciled }

def record : OutboxFact → AnnouncementOutbox
  | .announcementQueued snapshot recipient => outbox.recordAnnouncementQueued snapshot recipient
  | .announcementSealed snapshot bytes => outbox.recordAnnouncementSealed snapshot bytes
  | .announcementRouteSealed snapshot route bytes =>
    outbox.recordAnnouncementRouteSealed snapshot route bytes
  | .announcementDelivered snapshot recipient =>
    outbox.recordAnnouncementDelivered snapshot recipient
  | .announcementDeliveredRoute snapshot recipient endpoint =>
    outbox.recordAnnouncementDeliveredRoute snapshot recipient endpoint
  | .announcementReconciled snapshot recipient statement =>
    outbox.recordAnnouncementReconciled snapshot recipient statement

/-- Queued pairs minus the delivered and the reconciled ones. -/
def pendingAnnouncements : List Pair :=
  outbox.announcementQueued.docs.filter (fun pair =>
    decide (pair ∉ outbox.announcementDelivered.docs) &&
      decide (pair ∉ outbox.announcementReconciledPairs))

/-- Whether a delivered pair is sent again under a route: toward a live endpoint
    when another one is on record, toward none when a real one is. -/
def reopens (route : Option EndpointId) (pair : Pair) : Bool :=
  match route with
  | some live => decide (outbox.announcementDeliveredRoute pair ≠ some live)
  | none => (outbox.announcementDeliveredRoute pair).any (fun known => decide (known ≠ withdrawnRoute))

/-- Every obligation a send may discharge under one route: queued pairs not
    delivered, and the delivered pairs of the scope that the route reopens. -/
def announceEligibleFor (route : Option EndpointId) (scope : Finset SnapshotId) : List Pair :=
  let undelivered := outbox.announcementQueued.docs.filter (fun pair =>
    decide (pair ∉ outbox.announcementDelivered.docs))
  let reopened := outbox.announcementDelivered.docs.filter (fun pair =>
    decide (pair.1 ∈ scope) && outbox.reopens route pair)
  (undelivered ++ reopened).insertionSort (fun a b => toLex a ≤ toLex b)

/-- Queued, discharged or reconciled. -/
def announcementCovered : Bool :=
  decide ((snapshot, recipient) ∈ outbox.announcementQueued.docs) ||
    decide ((snapshot, recipient) ∈ outbox.announcementDelivered.docs) ||
    decide ((snapshot, recipient) ∈ outbox.announcementReconciledPairs)

end AnnouncementOutbox

def replayOutbox (facts : List OutboxFact) : AnnouncementOutbox :=
  facts.foldl AnnouncementOutbox.record .new

namespace AnnouncementOutbox

variable {outbox : AnnouncementOutbox} {route : Option EndpointId} {scope : Finset SnapshotId}
  {pair : Pair}

lemma mem_announceEligibleFor :
    pair ∈ outbox.announceEligibleFor route scope ↔
      (pair ∈ outbox.announcementQueued.docs ∧ pair ∉ outbox.announcementDelivered.docs) ∨
        pair ∈ outbox.announcementDelivered.docs ∧ pair.1 ∈ scope ∧
          outbox.reopens route pair = true := by
  simp [announceEligibleFor, mem_insertionSort]

lemma eligible_of_reopens (queued : pair ∈ outbox.announcementQueued.docs)
    (inScope : pair.1 ∈ scope) (again : outbox.reopens route pair = true) :
    pair ∈ outbox.announceEligibleFor route scope := by
  by_cases sent : pair ∈ outbox.announcementDelivered.docs
  · exact mem_announceEligibleFor.mpr (.inr ⟨sent, inScope, again⟩)
  · exact mem_announceEligibleFor.mpr (.inl ⟨queued, sent⟩)

lemma mem_observe_pair {set : PairSet} :
    pair ∈ (set.observe other).docs ↔ pair ∈ set.docs ∨ pair = other := by
  have added : pair ∈ ([other].foldl Observed.observe set).docs ↔ pair ∈ set.docs ∨ pair ∈ [other] :=
    Observed.mem_foldl_observe toLex.injective
  simpa using added

/-- Without a scope nothing delivered is reopened, and the queue is in order. -/
lemma announceEligibleFor_empty :
    outbox.announceEligibleFor route ∅ = outbox.announcementQueued.docs.filter (fun pair =>
      decide (pair ∉ outbox.announcementDelivered.docs)) := by
  have ordered : (outbox.announcementQueued.docs.filter (fun pair =>
      decide (pair ∉ outbox.announcementDelivered.docs))).Pairwise (fun a b => toLex a ≤ toLex b) :=
    (outbox.announcementQueued.ascending.filter _).imp le_of_lt
  simp only [announceEligibleFor, Finset.notMem_empty, decide_false, Bool.false_and,
    filter_false, append_nil]
  exact ordered.insertionSort_eq

end AnnouncementOutbox

theorem discharged_silent_iff (facts : List OutboxFact) (route : Option EndpointId)
    (scope : Finset SnapshotId) :
    ((∀ pair ∈ (replayOutbox facts).announcementReconciledPairs,
        pair ∉ (replayOutbox facts).announcementDelivered.docs →
        pair ∉ (replayOutbox facts).announceEligibleFor route scope) ∧
      (replayOutbox facts).announceEligibleFor route ∅ =
        (replayOutbox facts).pendingAnnouncements) ↔
    ∀ pair ∈ (replayOutbox facts).announcementQueued.docs,
      pair ∈ (replayOutbox facts).announcementReconciledPairs →
      pair ∈ (replayOutbox facts).announcementDelivered.docs := by
  generalize replayOutbox facts = outbox
  constructor
  · rintro ⟨hs, _⟩ pair queued retired
    by_contra undelivered
    exact hs pair retired undelivered
      (AnnouncementOutbox.mem_announceEligibleFor.mpr (.inl ⟨queued, undelivered⟩))
  · intro paid
    constructor
    · intro pair retired undelivered ha
      rcases AnnouncementOutbox.mem_announceEligibleFor.mp ha with
        ⟨queued, _⟩ | ⟨sent, _⟩
      · exact undelivered (paid pair queued retired)
      · exact undelivered sent
    · rw [AnnouncementOutbox.announceEligibleFor_empty]
      apply filter_congr
      intro pair queued
      by_cases sent : pair ∈ outbox.announcementDelivered.docs
      · simp [sent]
      · have owed : pair ∉ outbox.announcementReconciledPairs :=
          fun retired => sent (paid pair queued retired)
        simp [owed]

/-- One pair queued, then retired on a statement of its recipient. -/
def retiredFacts : List OutboxFact :=
  [.announcementQueued (sampleId 1) (sampleId 2), .announcementReconciled (sampleId 1) (sampleId 2) 7]

theorem retired_pair_still_eligible :
    (sampleId 1, sampleId 2) ∈ (replayOutbox retiredFacts).announcementReconciledPairs ∧
      (replayOutbox retiredFacts).announcementDelivered.docs = [] ∧
      (replayOutbox retiredFacts).announceEligibleFor none ∅ = [(sampleId 1, sampleId 2)] ∧
      (replayOutbox retiredFacts).pendingAnnouncements = [] := by
  decide +kernel

end Wyrd.Outbox
