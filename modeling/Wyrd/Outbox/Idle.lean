import Wyrd.Outbox.Redelivery

/-! # The publication gate of the live loop

A sync pass ends early when nothing was committed since the last publication, nothing queued
is undischarged and no verdict changed. The gate does not look at the route. Pairs delivered
under another route, or under one that a narrowing withdraws, wait for a pass that has
something else to publish.
-/

namespace Wyrd.Outbox

open Wyrd.Authorization Wyrd.Control Wyrd.Durable Wyrd.Keys Wyrd.Membership

variable {P : Primitives}

/-- The steps of a role narrowing, as the role file holds them. -/
inductive Transition where
  | settled
  | narrowingAcknowledged
  | withdrawalPending
  deriving DecidableEq

/-- The verdict of a completed fetch generation. -/
structure TerminalState where
  generation : Nat
  corrupt : Bool
  deriving DecidableEq

/-- A live node at the gate of a pass. `owed` says that transitions or capabilities await a
    send, `terminal` lists the terminal verdicts by identity, and `role` is the transition of
    the role file, if there is a readable one. -/
structure LiveNode (P : Primitives) where
  sender : Sender P
  revision : Nat
  owed : Bool
  terminal : List (ContentId × TerminalState)
  role : Option Transition
  nodeAddr : Option Bytes
  dirty : Bool
  publishedRevision : Nat
  publishedTerminal : List (ContentId × TerminalState)

namespace LiveNode

/-- The route that announcements are sent with: none while narrowing. -/
def announceRoute (node : LiveNode P) : Option Bytes :=
  match node.role with
  | some .narrowingAcknowledged | some .withdrawalPending => none
  | _ => node.nodeAddr

def outbox (node : LiveNode P) : AnnouncementOutbox := replayOutbox node.sender.outbox

def hasPendingOutbound (node : LiveNode P) : Bool :=
  !node.outbox.pendingAnnouncements.isEmpty || node.owed

def rebuilt (W : Postal) (post : Post) (node : LiveNode P) : Except AnnounceError (Rebuilt P) :=
  (rebuild W post node.sender).2.map Prod.fst

def withdrawalOutstanding (W : Postal) (post : Post) (node : LiveNode P) :
    Except AnnounceError Nat := do
  let rebuilt ← node.rebuilt W post
  return routeWithdrawalOutstanding rebuilt.runtime node.outbox node.sender.device
    (redeliveryScope node.sender.drive rebuilt)

inductive WithdrawalError where
  | outstanding (error : AnnounceError)
  | barrier
  | role
  deriving DecidableEq

/-- Write a step of a narrowing to the role file. -/
def storeRole (stores : Bool) (role : Transition) (node : LiveNode P) :
    Except WithdrawalError (LiveNode P) :=
  if stores then .ok { node with role := some role } else .error .role

/-- A narrowing that cannot settle yet is pending. -/
def awaitWithdrawal (stores : Bool) (node : LiveNode P) : Except WithdrawalError (LiveNode P) :=
  if node.role = some .narrowingAcknowledged then node.storeRole stores .withdrawalPending
  else .ok node

/-- Advance a narrowing by one step. It settles when no peer has a route of this device and
    the serving barrier is idle; `barrier` is its answer if it has one, and `stores` whether
    the role file can be written. -/
def driveWithdrawal (W : Postal) (post : Post) (barrier : Option Bool) (stores : Bool)
    (node : LiveNode P) : Except WithdrawalError (LiveNode P) :=
  match node.role with
  | none | some .settled => .ok node
  | some .narrowingAcknowledged | some .withdrawalPending =>
    match node.withdrawalOutstanding W post with
    | .error error => .error (.outstanding error)
    | .ok (_ + 1) => node.awaitWithdrawal stores
    | .ok 0 =>
      match barrier with
      | none => .error .barrier
      | some false => node.awaitWithdrawal stores
      | some true => node.storeRole stores .settled

/-- The gate: whether the pass takes the idle exit. -/
def idles (W : Postal) (post : Post) (node : LiveNode P) : Except AnnounceError Bool := do
  let _ ← node.rebuilt W post
  return !node.dirty && decide (node.revision = node.publishedRevision) &&
    !node.hasPendingOutbound && decide (node.terminal = node.publishedTerminal)

/-- Some pair of a snapshot of this device may be sent under the route of this pass. -/
def Owes (W : Postal) (post : Post) (node : LiveNode P) : Prop :=
  ∃ rebuilt pair, node.rebuilt W post = .ok rebuilt ∧ OwnBody rebuilt node.sender.device pair.1 ∧
    pair ∈ node.outbox.announceEligibleFor (routeIdOf W node.announceRoute)
      (redeliveryScope node.sender.drive rebuilt)

/-- The node has something to publish besides its route, or cannot read its facts. -/
def Active (W : Postal) (post : Post) (node : LiveNode P) : Prop :=
  (∃ error, node.rebuilt W post = .error error) ∨ node.dirty = true ∨
    node.revision ≠ node.publishedRevision ∨ node.hasPendingOutbound = true ∨
    node.terminal ≠ node.publishedTerminal

/-- What this device was to send was delivered, not only retired on a statement of the
    recipient, and in scope no delivery is on record under another route than the present. -/
def Addressed (W : Postal) (post : Post) (node : LiveNode P) : Prop :=
  ∀ rebuilt, node.rebuilt W post = .ok rebuilt → ∀ pair, OwnBody rebuilt node.sender.device pair.1 →
    (pair ∈ node.outbox.announcementQueued.docs →
      pair ∈ node.outbox.announcementReconciledPairs →
      pair ∈ node.outbox.announcementDelivered.docs) ∧
    (pair ∈ node.outbox.announcementDelivered.docs →
      pair.1 ∈ redeliveryScope node.sender.drive rebuilt →
      node.outbox.reopens (routeIdOf W node.announceRoute) pair = false)

variable {W : Postal} {post : Post} {node : LiveNode P}

/-- The idle exit is taken exactly by a node that has nothing else to publish. -/
lemma idles_iff : node.idles W post = .ok true ↔ ¬ node.Active W post := by
  unfold idles Active
  cases hm : node.rebuilt W post with
  | error => simp [bind, Except.bind]
  | ok => simp [bind, Except.bind, pure, Except.pure, and_assoc]

/-- Nothing queued is undischarged, so only what the gate does not look at is owed. -/
lemma owes_iff (hq : node.outbox.pendingAnnouncements = []) :
    node.Owes W post ↔ ¬ node.Addressed W post := by
  have paid : ∀ pair ∈ node.outbox.announcementQueued.docs,
      pair ∉ node.outbox.announcementDelivered.docs →
      pair ∈ node.outbox.announcementReconciledPairs := by
    intro pair queued owed
    have passed := List.filter_eq_nil_iff.mp hq pair queued
    simpa [owed] using passed
  unfold Owes Addressed
  push Not
  constructor
  · rintro ⟨rebuilt, pair, made, own, ha⟩
    refine ⟨rebuilt, made, pair, own, fun sent => ?_⟩
    rcases AnnouncementOutbox.mem_announceEligibleFor.mp ha with
      ⟨queued, owed⟩ | ⟨there, inScope, again⟩
    · exact absurd (sent queued (paid pair queued owed)) owed
    · exact ⟨there, inScope, by rw [again]; simp⟩
  · rintro ⟨rebuilt, made, pair, own, stale⟩
    refine ⟨rebuilt, pair, made, own, AnnouncementOutbox.mem_announceEligibleFor.mpr ?_⟩
    by_cases sent : pair ∈ node.outbox.announcementQueued.docs →
      pair ∈ node.outbox.announcementReconciledPairs →
      pair ∈ node.outbox.announcementDelivered.docs
    · obtain ⟨there, inScope, again⟩ := stale sent
      exact .inr ⟨there, inScope, by simpa using again⟩
    · push Not at sent
      exact .inl ⟨sent.1, sent.2.2⟩

lemma outstanding_of_rebuilt {rebuilt} (readable : node.rebuilt W post = .ok rebuilt)
    (none : routeWithdrawalOutstanding rebuilt.runtime node.outbox node.sender.device
      (redeliveryScope node.sender.drive rebuilt) = 0) :
    node.withdrawalOutstanding W post = .ok 0 := by
  simp [withdrawalOutstanding, readable, none, bind, Except.bind, pure, Except.pure]

/-- A narrowing node that owes nothing has no route out at a peer. -/
lemma outstanding_of_paid {rebuilt} (made : node.rebuilt W post = .ok rebuilt)
    (narrowing : node.announceRoute = none) (paid : ¬ node.Owes W post) :
    node.withdrawalOutstanding W post = .ok 0 := by
  refine outstanding_of_rebuilt made (routeWithdrawalOutstanding_eq_zero fun pair own hq hi => ?_)
  by_contra hr
  refine paid ⟨rebuilt, pair, made, own, AnnouncementOutbox.eligible_of_reopens hq hi ?_⟩
  rw [narrowing]
  change node.outbox.reopens none pair = true
  simpa using hr

def Narrowing (node : LiveNode P) : Prop :=
  node.role = some .narrowingAcknowledged ∨ node.role = some .withdrawalPending

lemma Narrowing.announceRoute (narrowing : node.Narrowing) : node.announceRoute = none := by
  rcases narrowing with role | role <;> simp [LiveNode.announceRoute, role]

lemma rebuilt_facts {rebuilt} (readable : node.rebuilt W post = .ok rebuilt) :
    rebuildFacts P W.toDigests node.sender.drive node.sender.durable node.sender.device =
      .ok rebuilt := by
  unfold LiveNode.rebuilt rebuild at readable
  split_ifs at readable
  · split at readable
    · cases readable
    · next facts =>
      cases readable
      exact facts
  · cases readable

lemma Narrowing.waits (narrowing : node.Narrowing) {barrier count}
    (owed : node.withdrawalOutstanding W post = .ok (count + 1)) :
    node.driveWithdrawal W post barrier true =
      .ok { node with role := some .withdrawalPending } := by
  rcases narrowing with role | role
  · simp [driveWithdrawal, role, owed, awaitWithdrawal, storeRole]
  · have same : { node with role := some .withdrawalPending } = node := by rw [← role]
    simp [driveWithdrawal, role, owed, awaitWithdrawal, same]

/-- The node behind a pass that publishes. -/
def published (W : Postal) (post : Post) (node : LiveNode P) : LiveNode P :=
  { node with sender := (announcePending W post node.announceRoute node.sender).1 }

lemma Narrowing.settles (narrowing : node.Narrowing)
    (paid : node.withdrawalOutstanding W post = .ok 0) :
    node.driveWithdrawal W post (some true) true = .ok { node with role := some .settled } := by
  rcases narrowing with role | role <;> simp [driveWithdrawal, role, paid, storeRole]

/-- A pass that takes the idle exit owes nothing exactly if it had something to publish
    (and did not take it) or every delivery is addressed. Once nothing is owed, a narrowing
    settles with the serving barrier idle and the role file writable; so it does behind a pass
    that ran to its end with accepting relays and every sealing key held. -/
theorem idle_exit_owes_nothing_iff (W : Postal) (post : Post) (node : LiveNode P) :
    ((node.idles W post = .ok true → ¬ node.Owes W post) ↔
      (node.Active W post ∨ node.Addressed W post)) ∧
    (∀ rebuilt, node.rebuilt W post = .ok rebuilt → node.Narrowing → ¬ node.Owes W post →
      node.driveWithdrawal W post (some true) true =
        .ok { node with role := some .settled }) ∧
    (post.Accepts → (∀ rebuilt, rebuildFacts P W.toDigests node.sender.drive node.sender.durable
          node.sender.device = .ok rebuilt →
        ∀ pair ∈ node.outbox.announceEligibleFor (routeIdOf W node.announceRoute)
          (redeliveryScope node.sender.drive rebuilt), KeysHeld W rebuilt node.sender pair.1) →
      (announcePending W post node.announceRoute node.sender).2.isOk = true → node.Narrowing →
      ∀ (later : Post) rebuilt, (node.published W post).rebuilt W later = .ok rebuilt →
        (node.published W post).driveWithdrawal W later (some true) true =
          .ok { node.published W post with role := some .settled }) := by
  refine ⟨?_, fun rebuilt readable narrowing paid => ?_,
    fun accepts held ran narrowing later rebuilt readable => ?_⟩
  · rw [idles_iff, ← or_iff_not_imp_left]
    refine or_congr_right' fun quiet => ?_
    have pending : node.outbox.pendingAnnouncements = [] := by
      simp only [Active, hasPendingOutbound, not_or, Bool.or_eq_true] at quiet
      simpa using quiet.2.2.2.1.1
    rw [owes_iff pending, not_not]
  · exact narrowing.settles (outstanding_of_paid readable narrowing.announceRoute paid)
  · obtain ⟨worked, quenched⟩ := announcePending_quenches accepts held ran
    have facts := rebuilt_facts readable
    simp only [published, worked.drive, worked.device, worked.durable] at facts
    have narrowed : (node.published W post).Narrowing := narrowing
    refine narrowed.settles ?_
    have quenched := quenched rebuilt facts
    rw [narrowing.announceRoute] at worked quenched
    have none := routeWithdrawalOutstanding_quenched quenched
    rw [← worked.drive, ← worked.device] at none
    refine outstanding_of_rebuilt readable ?_
    simpa only [published, outbox, narrowing.announceRoute] using none

/-- The snapshot of the sample, delivered to device 2 under route 1, on a quiet node whose
    narrowing is acknowledged. -/
def narrowingNode : LiveNode samplePrimitives where
  sender := { postedSender with outbox :=
    [.announcementQueued (sampleId 51) (sampleId 2), .announcementDelivered (sampleId 51) (sampleId 2),
      .announcementDeliveredRoute (sampleId 51) (sampleId 2) 1] }
  revision := 4
  owed := false
  terminal := []
  role := some .narrowingAcknowledged
  nodeAddr := some [1]
  dirty := false
  publishedRevision := 4
  publishedTerminal := []

/-- The narrowing becomes pending, the pass ends idle with the route not withdrawn, and every
    later pass does the same. -/
theorem narrowing_stalls :
    let node := { narrowingNode with role := some .withdrawalPending }
    narrowingNode.driveWithdrawal samplePostal (samplePost 1) (some true) true = .ok node ∧
      node.idles samplePostal (samplePost 1) = .ok true ∧
      node.Owes samplePostal (samplePost 1) ∧
      node.driveWithdrawal samplePostal (samplePost 1) (some true) true = .ok node := by
  intro node
  have outstanding : node.withdrawalOutstanding samplePostal (samplePost 1) = .ok 1 := by
    decide +kernel
  obtain ⟨rebuilt, hm, hn, ha⟩ : ∃ rebuilt,
      node.rebuilt samplePostal (samplePost 1) = .ok rebuilt ∧
        rebuilt.runtime.snapshotBody (sampleId 51) = some postedBody ∧
        (sampleId 51, sampleId 2) ∈ node.outbox.announceEligibleFor
          (routeIdOf samplePostal node.announceRoute) (redeliveryScope node.sender.drive rebuilt) := by
    decide +kernel
  have waits : narrowingNode.withdrawalOutstanding samplePostal (samplePost 1) = .ok 1 := outstanding
  refine ⟨Narrowing.waits (.inl rfl) waits, by decide +kernel, ?_,
    Narrowing.waits (.inr rfl) outstanding⟩
  exact ⟨rebuilt, (sampleId 51, sampleId 2), hm, ⟨postedBody, hn, rfl⟩, ha⟩

end LiveNode

end Wyrd.Outbox
