import Wyrd.Intake.Inbox

/-! # Draining the mailbox into durable facts

One intake engine: the committed facts, the inbox, the membership log, the
projections a new message is checked against, and the held queue. A delivery is
opened, classified by its kind and either commits a batch of facts, is held,
shed back to the relay or suppressed. Every function returns the engine it left
behind, also when it fails. The disk answers through a `Store`.
-/

namespace Wyrd.Intake

open Function

open Wyrd.Control Wyrd.Durable Wyrd.Keys Wyrd.Membership

variable {P : Primitives}

/-- How the disk answers one commit. -/
inductive CommitAnswer where
  | landed
  | refused
  /-- durable, but reported to the caller as a failure -/
  | unreported
  deriving DecidableEq

/-- The disk during one pass: its answer to a batch over the facts it holds, and
    whether a reload reads them back. -/
structure Store where
  commit : List Fact → List Fact → CommitAnswer
  loads : List Fact → Bool

inductive EngineError where
  | durable
  | keyring (error : DurableError)
  | runtime (error : RuntimeError)
  | transitionUnclassified (transition : TransitionId)
  deriving DecidableEq

abbrev Announcements := SnapshotId → Option SnapshotAnnouncement

structure Engine (P : Primitives) where
  drive : DriveId
  device : DeviceId
  durable : List Fact
  inbox : ControlInbox
  epochKeys : Nat → Option ControlKey
  log : MembershipLog P
  announcements : Announcements
  committedCapabilities : DeviceId × TransitionId → Option Capability
  receivedRequests : Finset (DeviceId × Digest)
  pending : PendingQueue

namespace Engine

variable (engine : Engine P)

def addEpochKey (epoch : Nat) (key : ControlKey) : Engine P :=
  { engine with
    inbox := engine.inbox.addEpochKey epoch key
    epochKeys := update engine.epochKeys epoch (some key) }

def holdPending (id : ControlMessageId) (message : Message) (wait : DeferredWait) : Engine P :=
  { engine with pending := engine.pending.insert ⟨id, message, wait⟩ }

def takePending (id : ControlMessageId) : Option PendingEntry × Engine P :=
  let taken := engine.pending.remove id
  (taken.1, { engine with pending := taken.2 })

def forget (id : ControlMessageId) : Engine P := { engine with inbox := engine.inbox.forget id }

def suppress (id : ControlMessageId) : Engine P := { engine with inbox := engine.inbox.suppress id }

def observe (t : MembershipTransition) : Engine P := { engine with log := engine.log.observe t }

end Engine

/-- The capability projection of a fact list: the last value under a key. -/
def recordCapabilities (known : DeviceId × TransitionId → Option Capability)
    (caps : List Capability) : DeviceId × TransitionId → Option Capability :=
  caps.foldl (fun known cap => update known (cap.device, cap.transition) (some cap)) known

/-- The received statements, by requester and statement digest. -/
def recordRequests (D : Digests) (known : Finset (DeviceId × Digest))
    (requests : List (DeviceId × ReconciliationEvidence)) : Finset (DeviceId × Digest) :=
  requests.foldl (fun known request =>
    insert (request.1, D.statementDigest request.1 request.2) known) known

variable (W : Wire)

/-- The engine after a batch landed: the capability and statement projections
    follow. -/
def recordCommit (engine : Engine P) (facts : List Fact) : Engine P :=
  { engine with
    durable := engine.durable ++ facts
    committedCapabilities := recordCapabilities engine.committedCapabilities (capabilitiesIn facts)
    receivedRequests := recordRequests W.toDigests engine.receivedRequests (requestsIn facts) }

variable (store : Store)

def commitFacts (engine : Engine P) (facts : List Fact) : Engine P × Except EngineError Unit :=
  match store.commit engine.durable facts with
  | .refused => (engine, .error .durable)
  | .unreported => ({ engine with durable := engine.durable ++ facts }, .error .durable)
  | .landed => (recordCommit W engine facts, .ok ())

/-- The announcement projection, replayed through the durable mutator. -/
def replayAnnouncements (P : Primitives) (facts : List Fact) :
    Except RuntimeError (RuntimeState P) :=
  (announcementsIn facts).foldlM RuntimeState.recordAnnouncement (RuntimeState.new P)

/-- The inbox and the log read back from the committed facts. -/
def resetViews (engine : Engine P) : Engine P :=
  { engine with
    inbox := { ControlInbox.new engine.drive with
      keys := engine.epochKeys
      seen := (seenIn engine.durable).toFinset }
    log := logOf P engine.drive engine.durable }

/-- Every volatile view read back from the committed facts. -/
def reloaded (engine : Engine P) (state : RuntimeState P) : Engine P :=
  { resetViews engine with
    announcements := state.announcements.lookup
    committedCapabilities := recordCapabilities (fun _ => none) (capabilitiesIn engine.durable)
    receivedRequests := recordRequests W.toDigests ∅ (requestsIn engine.durable) }

/-- Rebuild the volatile views from the committed facts. A failure part way
    keeps what was rebuilt and leaves the rest stale. -/
def resync (engine : Engine P) : Engine P × Except EngineError Unit :=
  if store.loads engine.durable then
    match buildKeyring P engine.drive engine.durable engine.device with
    | .error error => (resetViews engine, .error (.keyring error))
    | .ok _ =>
      match replayAnnouncements P engine.durable with
      | .error error => (resetViews engine, .error (.runtime error))
      | .ok state => (reloaded W engine state, .ok ())
  else (engine, .error .durable)

/-- Control keys for every durably held epoch secret. -/
def restoreEpochKeys (engine : Engine P) (keyring : DriveKeyring) : Engine P :=
  let keys := fun epoch => if epoch = 0 then none
    else (keyring.secret epoch).map (fun secret => W.controlKey secret engine.drive epoch)
  { engine with
    inbox := { engine.inbox with keys := keys }
    epochKeys := keys }

/-- Open over a store: the views come from the committed facts, nothing is
    held. -/
def openWithStore (P : Primitives) (W : Wire) (store : Store) (drive : DriveId) (device : DeviceId)
    (facts : List Fact) : Except EngineError (Engine P) :=
  let blank : Engine P := ⟨drive, device, facts, .new drive, fun _ => none, .new P drive,
    fun _ => none, fun _ => none, ∅, .new⟩
  match resync W store blank with
  | (_, .error error) => .error error
  | (engine, .ok ()) =>
    match rebuildFacts P W.toDigests drive facts device with
    | .error error => .error (.keyring error)
    | .ok rebuilt => .ok (restoreEpochKeys W engine rebuilt.keyring)

/-- Install the control key of one epoch where none is held. -/
def fillKey (engine : Engine P) (epoch : Nat) (secret : EpochSecret) : Engine P :=
  match engine.epochKeys epoch with
  | some _ => engine
  | none => engine.addEpochKey epoch (W.controlKey secret engine.drive epoch)

def fillKeys (W : Wire) (engine : Engine P) : Nat → List EpochSecret → Engine P
  | _, [] => engine
  | epoch, secret :: rest => fillKeys W (fillKey W engine epoch secret) (epoch + 1) rest

def noteFact (engine : Engine P) : Fact → Engine P
  | .controlMessage id => { engine with inbox := engine.inbox.remember id }
  | .capability cap => fillKeys W engine 1 cap.secrets
  | _ => engine

def noteCommittedFacts (engine : Engine P) (facts : List Fact) : Engine P :=
  facts.foldl (noteFact W) engine

def maxIntakeCommitsPerPass : Nat := 1024

def maxIntakeCommitsPerSenderPerPass : Nat := 256

def maxPendingMessages : Nat := 1024

structure IntakeBudget where
  commits : Nat
  perSender : DeviceId → Nat

namespace IntakeBudget

def fresh : IntakeBudget := ⟨0, fun _ => 0⟩

variable (budget : IntakeBudget)

def wouldAdmit (sender : DeviceId) (facts : Nat) : Bool :=
  decide (budget.commits + facts ≤ maxIntakeCommitsPerPass) &&
    decide (budget.perSender sender + facts ≤ maxIntakeCommitsPerSenderPerPass)

def charge (sender : DeviceId) (facts : Nat) : IntakeBudget where
  commits := budget.commits + facts
  perSender := update budget.perSender sender (budget.perSender sender + facts)

/-- Charge the facts, or refuse without a charge. -/
def admitFacts (sender : DeviceId) (facts : Nat) : Option IntakeBudget :=
  if budget.wouldAdmit sender facts then some (budget.charge sender facts) else none

end IntakeBudget

inductive Action where
  | commit (facts : List Fact)
  | duplicate
  | shed
  | suppress
  | defer (wait : DeferredWait)

def maxObjectBytes : Nat := 64 * 2 ^ 20

def maxResolves : Nat := 64

def maxMembershipChanges : Nat := 64

def maxSetOwners : Nat := 16

/-- The structural ceilings of a decoded transition. -/
def checkTransition (t : MembershipTransition) : Bool :=
  decide (t.resolves.length ≤ maxResolves) && decide (t.changes.length ≤ maxMembershipChanges) &&
    t.changes.all (fun change => match change with
      | .setOwners owners => decide (owners.length ≤ maxSetOwners)
      | _ => true)

def transitionAction (engine : Engine P) (id : ControlMessageId) (payload : Bytes)
    (sender : DeviceId) (budget : IntakeBudget) : Engine P × Action :=
  if payload.length > maxObjectBytes then (engine, .suppress)
  else match W.decodeTransition payload with
    | none => (engine, .suppress)
    | some t =>
      if (engine.log.transition (P.transitionId t)).isSome then (engine, .duplicate)
      else if !checkTransition t then (engine, .suppress)
      else if !budget.wouldAdmit sender 2 then (engine, .shed)
      else (engine.observe t, .commit [.transition t, .controlMessage id])

def knownAnnouncement (engine : Engine P) (staged : Announcements) (snapshot : SnapshotId) :
    Option SnapshotAnnouncement :=
  (engine.announcements snapshot).or (staged snapshot)

/-- An announcement bound to a canonical transition. -/
def canonicalAction (engine : Engine P) (staged : Announcements) (id : ControlMessageId)
    (a : SnapshotAnnouncement) (sender : DeviceId) (budget : IntakeBudget) :
    Announcements × Action :=
  let update := (knownAnnouncement engine staged a.snapshot).map (·.checkUpdate a)
  if (engine.log.readersOf a.membership).any (fun readers => decide (a.author ∈ readers)) then
    (staged, .suppress)
  else if update = some .same then (staged, .duplicate)
  else if !budget.wouldAdmit sender 2 then (staged, .shed)
  else if !verifyAnnouncement P W engine.drive a then (staged, .suppress)
  else if update = some .fork then (staged, .suppress)
  else (Function.update staged a.snapshot (some a), .commit [.announcement a, .controlMessage id])

def announcementAction (engine : Engine P) (staged : Announcements) (id : ControlMessageId)
    (a : SnapshotAnnouncement) (sender : DeviceId) (budget : IntakeBudget) :
    Announcements × Except EngineError Action :=
  match engine.log.transition a.membership with
  | none => (staged, .ok (.defer (.unseen a.membership)))
  | some t =>
    if t.epoch ≠ a.epoch then (staged, .ok .suppress)
    else match engine.log.status a.membership with
      | some .canonical =>
        let judged := canonicalAction W engine staged id a sender budget
        (judged.1, .ok judged.2)
      | some (.invalid _) => (staged, .ok .suppress)
      | some .contested | some .voided | some .orphaned | some .pending =>
        (staged, .ok (.defer (.statusBlocked a.membership)))
      | none => (staged, .error (.transitionUnclassified a.membership))

def requestAction (engine : Engine P) (id : ControlMessageId)
    (payload : ReconciliationRequestPayload) (sender : DeviceId) (budget : IntakeBudget) : Action :=
  if payload.requester ≠ sender then .suppress
  else match W.decodeEvidence payload.evidence with
    | none => .suppress
    | some evidence =>
      if (payload.requester, W.statementDigest payload.requester evidence) ∈
          engine.receivedRequests then .duplicate
      else if !budget.wouldAdmit sender 2 then .shed
      else .commit [.reconciliationRequestReceived payload.requester evidence, .controlMessage id]

def capabilityAction (engine : Engine P) (id : ControlMessageId) (payload : CapabilityPayload)
    (sender : DeviceId) (budget : IntakeBudget) : Action :=
  match W.unwrap payload.wrapped with
  | none => .suppress
  | some cap =>
    if payload.device ≠ cap.device ∨ payload.epoch ≠ cap.coveredEpoch then .suppress
    else match cap.authorizeAgainst engine.drive engine.log cap.transition with
      | .ok _ =>
        if engine.committedCapabilities (cap.device, cap.transition) = some cap then .duplicate
        else if !budget.wouldAdmit sender 2 then .shed
        else .commit [.capability cap, .controlMessage id]
      | .error (.unknownTransition waited) =>
        if (engine.log.transition waited).isSome then .defer (.statusBlocked waited)
        else .defer (.unseen waited)
      | .error _ => .suppress

/-- What one message does now. A transition that will commit is observed, and an
    announcement that will commit is staged; nothing else changes. -/
def messageAction (engine : Engine P) (staged : Announcements) (id : ControlMessageId)
    (message : Message) (sender : DeviceId) (budget : IntakeBudget) :
    Engine P × Announcements × Except EngineError Action :=
  match message with
  | .membershipTransition payload =>
    let judged := transitionAction W engine id payload sender budget
    (judged.1, staged, .ok judged.2)
  | .snapshotAnnouncement a =>
    let judged := announcementAction W engine staged id a sender budget
    (engine, judged.1, judged.2)
  | .keyRotation _ => (engine, staged, .ok .suppress)
  | .capability payload =>
    (engine, staged, .ok (capabilityAction W engine id payload sender budget))
  | .reconciliationRequest payload =>
    (engine, staged, .ok (requestAction W engine id payload sender budget))

structure Flush (P : Primitives) where
  engine : Engine P
  staged : Announcements
  budget : IntakeBudget
  facts : List Fact

/-- One woken entry, taken from the queue. `true` continues the loop. -/
def flushEntry (sender : DeviceId) (seq : Nat) (entry : PendingEntry) (flush : Flush P) :
    Flush P × Except EngineError Bool :=
  let restored (engine : Engine P) (entry : PendingEntry) : Engine P :=
    { engine with pending := engine.pending.restore seq entry }
  match messageAction W flush.engine flush.staged entry.id entry.message sender flush.budget with
  | (engine, staged, .error error) =>
    ({ flush with engine := restored engine entry, staged := staged }, .error error)
  | (engine, staged, .ok (.commit more)) =>
    match flush.budget.admitFacts sender more.length with
    | some budget => (⟨engine, staged, budget, flush.facts ++ more⟩, .ok true)
    | none => ({ flush with engine := restored engine entry, staged := staged }, .ok false)
  | (engine, staged, .ok .duplicate) => ({ flush with engine, staged }, .ok true)
  | (engine, staged, .ok .shed) =>
    ({ flush with engine := restored engine entry, staged := staged }, .ok false)
  | (engine, staged, .ok .suppress) =>
    ({ flush with engine := engine.suppress entry.id, staged := staged }, .ok true)
  | (engine, staged, .ok (.defer wait)) =>
    ({ flush with engine := restored engine { entry with wait := wait }, staged := staged },
      .ok true)

def flushLoop (W : Wire) (sender : DeviceId) : List Nat → Flush P → Flush P × Except EngineError Unit
  | [], flush => (flush, .ok ())
  | seq :: rest, flush =>
    match flush.engine.pending.removeSeq seq with
    | none => flushLoop W sender rest flush
    | some (entry, queue) =>
      let taken : Flush P := { flush with engine := { flush.engine with pending := queue } }
      match flushEntry W sender seq entry taken with
      | (next, .ok true) => flushLoop W sender rest next
      | (next, .ok false) => (next, .ok ())
      | (next, .error error) => (next, .error error)

/-- Re-drive the held entries a newly committed transition unblocks. The wake
    set is read once, before anything moves. -/
def flushPending (committed : Option TransitionId) (sender : DeviceId) (flush : Flush P) :
    Flush P × Except EngineError Unit :=
  flushLoop W sender (flush.engine.pending.wakeSeqs committed) flush

inductive DeferredCause where
  | unseen
  | statusBlocked
  deriving DecidableEq

def DeferredWait.cause : DeferredWait → DeferredCause
  | .unseen _ => .unseen
  | .statusBlocked _ => .statusBlocked

inductive Outcome where
  | accepted
  | duplicate
  | deferred (cause : DeferredCause)
  | relayHeld
  | shedWithCause (cause : DeferredCause)
  | skipped
  | discarded
  deriving DecidableEq

/-- The engine and budget a delivery leaves, and its outcome. -/
abbrev Accepted (P : Primitives) := Engine P × IntakeBudget × Except EngineError Outcome

/-- Give up after volatile writes: fall back to the durable baseline. -/
def abandon (engine : Engine P) (budget : IntakeBudget) (error : EngineError) : Accepted P :=
  ((resync W store engine).1, budget, .error error)

/-- Mirror a committed batch; staged announcements merge only now. -/
def mirror (engine : Engine P) (staged : Announcements) (facts : List Fact) : Engine P :=
  let noted := noteCommittedFacts W engine facts
  { noted with
    announcements := fun snapshot => (staged snapshot).or (noted.announcements snapshot) }

/-- Commit a gathered batch, then mirror it: the projection follows the store. -/
def landBatch (flush : Flush P) : Accepted P :=
  match commitFacts W store flush.engine flush.facts with
  | (engine, .error error) => abandon W store engine flush.budget error
  | (engine, .ok ()) => (mirror W engine flush.staged flush.facts, flush.budget, .ok .accepted)

def committedTransition (P : Primitives) (W : Wire) : Message → Option TransitionId
  | .membershipTransition payload => (W.decodeTransition payload).map P.transitionId
  | _ => none

def isTransition : Message → Bool
  | .membershipTransition _ => true
  | _ => false

/-- Commit the facts a message was judged to carry. -/
def commitMessage (engine : Engine P) (staged : Announcements) (sender : DeviceId)
    (id : ControlMessageId) (message : Message) (facts : List Fact) (budget : IntakeBudget) :
    Accepted P :=
  match budget.admitFacts sender facts.length with
  | none => (engine.forget id, budget, .ok .relayHeld)
  | some budget =>
    if isTransition message then
      match flushPending W (committedTransition P W message) sender
          ⟨engine, staged, budget, facts⟩ with
      | (flush, .error error) => abandon W store flush.engine flush.budget error
      | (flush, .ok ()) => landBatch W store flush
    else landBatch W store ⟨engine, staged, budget, facts⟩

/-- Act on an opened message. `held` is the dependency of a message taken back
    from the queue by its redelivery; a fresh message has none. -/
def commitAction (engine : Engine P) (sender : DeviceId) (id : ControlMessageId) (message : Message)
    (held : Option DeferredWait) (budget : IntakeBudget) : Accepted P :=
  match messageAction W engine (fun _ => none) id message sender budget with
  | (engine, _, .error error) =>
    let kept := match held with
      | some wait => engine.holdPending id message wait
      | none => engine
    abandon W store kept budget error
  | (engine, _, .ok .duplicate) => (engine, budget, .ok .duplicate)
  | (engine, _, .ok .shed) => (engine.forget id, budget, .ok .relayHeld)
  | (engine, _, .ok .suppress) => (engine.suppress id, budget, .ok .accepted)
  | (engine, _, .ok (.defer wait)) =>
    if engine.pending.len ≥ maxPendingMessages then
      (engine.forget id, budget, .ok (.shedWithCause wait.cause))
    else (engine.holdPending id message wait, budget, .ok (.deferred wait.cause))
  | (engine, staged, .ok (.commit facts)) =>
    -- a message taken back from the queue is revalidated but not committed
    if held.isSome then (engine, budget, .ok .duplicate)
    else if facts = [] then (engine, budget, .ok .duplicate)
    else commitMessage W store engine staged sender id message facts budget

/-- The checks of a rotation delivery that read no log: who it is for, the
    transition it carries, the capability it wraps, and the owner's proof over
    the wrapped secrets. -/
def openGrant (engine : Engine P) (delivery : RotationDelivery) :
    Option (MembershipTransition × Capability × OwnerProof) :=
  if delivery.device ≠ engine.device then none
  else match W.decodeTransition delivery.transition with
    | none => none
    | some t =>
      if t.epoch ≠ delivery.epoch then none
      else if delivery.transition.length > maxObjectBytes then none
      else if !checkTransition t then none
      else match W.unwrap delivery.wrapped with
        | none => none
        | some cap =>
          if cap.device ≠ engine.device ∨ delivery.epoch ≠ cap.coveredEpoch then none
          else if P.transitionId t ≠ cap.transition then none
          else match W.decodeProof delivery.ownerProof with
            | none => none
            | some proof =>
              if proof.verify P W engine.drive engine.device (P.transitionId t)
                  delivery.epoch cap.secrets then some (t, cap, proof)
              else none

/-- What the log, with the carried transition observed, makes of a grant. -/
inductive GrantVerdict where
  | granted
  | unauthorized
  | gap
  | unclassified
  deriving DecidableEq

/-- Who may mint for a transition: the owners of the state it leaves; a genesis
    establishes its own. -/
def mintAuthority (log : MembershipLog P) (t : MembershipTransition) : Option (Finset DeviceId) :=
  match t.prev with
  | some prev => log.ownersOf prev
  | none => log.ownersOf (P.transitionId t)

/-- Authorization of the capability, then mint authority of the proof's signer,
    then membership of the sender in the state the transition produces. -/
def judgeGrant (drive : DriveId) (scratch : MembershipLog P) (t : MembershipTransition)
    (cap : Capability) (proof : OwnerProof) (sender : DeviceId) : GrantVerdict :=
  match cap.authorizeAgainst drive scratch (P.transitionId t) with
  | .error (.unknownTransition _) => .gap
  | .error _ => .unauthorized
  | .ok _ =>
    match mintAuthority scratch t with
    | none => .unclassified
    | some owners =>
      if proof.signer ∉ owners then .unauthorized
      else match scratch.membersOf (P.transitionId t) with
        | none => .unclassified
        | some members => if sender ∈ members then .granted else .unauthorized

/-- Commit the transition, the grant and the delivery id in one batch, with what
    the transition wakes. The capability is visible to the flush beforehand. -/
def commitGrant (engine : Engine P) (id : ControlMessageId) (sender : DeviceId)
    (t : MembershipTransition) (cap : Capability) (budget : IntakeBudget) : Accepted P :=
  let observed : Engine P := { engine.observe t with
    committedCapabilities := update engine.committedCapabilities
      (cap.device, cap.transition) (some cap) }
  match flushPending W (some (P.transitionId t)) sender
      ⟨observed, fun _ => none, budget, [.transition t, .capability cap, .controlMessage id]⟩ with
  | (flush, .error error) => abandon W store flush.engine flush.budget error
  | (flush, .ok ()) => landBatch W store flush

def rotationCommit (engine : Engine P) (id : ControlMessageId) (sender : DeviceId)
    (delivery : RotationDelivery) (budget : IntakeBudget) : Accepted P :=
  match openGrant W engine delivery with
  | none => (engine.suppress id, budget, .ok .accepted)
  | some (t, cap, proof) =>
    match judgeGrant engine.drive (engine.log.observe t) t cap proof sender with
    | .unauthorized => (engine.suppress id, budget, .ok .accepted)
    | .gap => (engine.forget id, budget, .ok .skipped)
    | .unclassified => (engine, budget, .error (.transitionUnclassified (P.transitionId t)))
    | .granted =>
      match budget.admitFacts sender 3 with
      | none => (engine.forget id, budget, .ok .relayHeld)
      | some budget => commitGrant W store engine id sender t cap budget

def acceptRotation (engine : Engine P) (sender : DeviceId) (bytes : Bytes) (budget : IntakeBudget) :
    Accepted P :=
  match engine.inbox.ingestRotation W bytes with
  | .error _ => (engine, budget, .ok .discarded)
  | .ok (_, .duplicate) => (engine, budget, .ok .duplicate)
  | .ok (inbox, .accepted id delivery) =>
    rotationCommit W store { engine with inbox := inbox } id sender delivery budget

/-- An epoch-sealed delivery: first sight is judged fresh, a redelivery of a held
    message is taken back from the queue and judged again. -/
def acceptControl (engine : Engine P) (sender : DeviceId) (bytes : Bytes) (budget : IntakeBudget) :
    Accepted P :=
  match engine.inbox.ingest W bytes with
  | .error (.unknownEpoch _) => (engine, budget, .ok .skipped)
  | .error _ => (engine, budget, .ok .discarded)
  | .ok (_, .duplicate) =>
    match engine.takePending (W.messageId bytes) with
    | (none, engine) => (engine, budget, .ok .duplicate)
    | (some entry, engine) =>
      commitAction W store engine sender (W.messageId bytes) entry.message (some entry.wait) budget
  | .ok (inbox, .accepted id message) =>
    commitAction W store { engine with inbox := inbox } sender id message none budget

/-- The framings are told apart by their first byte, before either decodes. -/
def acceptEnvelope (engine : Engine P) (envelope : MailboxEnvelope) (budget : IntakeBudget) :
    Accepted P :=
  match openFromSender W engine.device envelope with
  | none => (engine, budget, .ok .discarded)
  | some bytes =>
    if bytes.head? = some rotationVersion then
      acceptRotation W store engine envelope.sender bytes budget
    else acceptControl W store engine envelope.sender bytes budget

inductive Disposition where
  | ack
  | retry
  | poison
  deriving DecidableEq

/-- How the drain settles an outcome with the relay. -/
def Outcome.disposition : Outcome → Disposition
  | .accepted | .duplicate => .ack
  | .deferred _ | .relayHeld | .shedWithCause _ | .skipped => .retry
  | .discarded => .poison

/-- One lent envelope; the relay may lend it again in a later pass. -/
structure Delivery where
  id : Nat
  envelope : MailboxEnvelope

/-- One handover as the drain processed it. -/
structure Handover (P : Primitives) where
  store : Store
  before : Engine P
  budget : IntakeBudget
  envelope : MailboxEnvelope
  after : Engine P
  outcome : Except EngineError Outcome

/-- One drain pass: the handovers it processed and the engine it left. A
    re-offered delivery ends the pass; so does an error. -/
def drainLoop (W : Wire) (store : Store) :
    List Delivery → Finset Nat → IntakeBudget → Engine P → List (Handover P) × Engine P
  | [], _, _, engine => ([], engine)
  | delivery :: rest, offered, budget, engine =>
    if delivery.id ∈ offered then ([], engine)
    else match acceptEnvelope W store engine delivery.envelope budget with
      | (next, _, .error error) =>
        ([⟨store, engine, budget, delivery.envelope, next, .error error⟩], next)
      | (next, spent, .ok outcome) =>
        let later := drainLoop W store rest (insert delivery.id offered) spent next
        (⟨store, engine, budget, delivery.envelope, next, .ok outcome⟩ :: later.1, later.2)

def drain (engine : Engine P) (deliveries : List Delivery) : List (Handover P) × Engine P :=
  drainLoop W store deliveries ∅ .fresh engine

structure Pass where
  store : Store
  deliveries : List Delivery

def drains (W : Wire) : List Pass → Engine P → List (Handover P) × Engine P
  | [], engine => ([], engine)
  | pass :: rest, engine =>
    let first := drain W pass.store engine pass.deliveries
    let later := drains W rest first.2
    (first.1 ++ later.1, later.2)

end Wyrd.Intake
