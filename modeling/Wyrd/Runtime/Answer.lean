import Wyrd.Durable.Indexes
import Wyrd.Intake.Runs
import Wyrd.Lib.Effect
import Wyrd.Outbox.Announcements
import Wyrd.Runtime.Respond

/-! # The answer pass

A received statement is answered once per lifetime: what its evidence covers is
retired, announcements the requester lacks are queued for it, and transitions and
capabilities are retransmitted. The announcements queued are chosen by what the
requester states about itself.
-/

namespace Wyrd.Runtime

open List

open Wyrd.Control Wyrd.Durable Wyrd.Intake Wyrd.Membership Wyrd.Outbox

variable {P : Primitives}

/-- One owed delivery: the secrets up to an epoch, for a recipient. -/
abbrev Grant := Nat × DeviceId

/-- The facts the capability outbox is replayed from. Seals are left out: no
    comparison reads them. -/
inductive GrantFact where
  | capabilityQueued (epoch : Nat) (recipient : DeviceId)
  | capabilityDelivered (epoch : Nat) (recipient : DeviceId)
  | capabilityReconciled (epoch : Nat) (recipient : DeviceId) (statement : Digest)
  deriving DecidableEq

structure GrantOutbox where
  capabilityQueued : Observed (fun grant : Grant => toLex grant)
  capabilityDelivered : Finset Grant
  capabilityReconciledPairs : Finset Grant
  capabilityReconciled : Finset (Nat × DeviceId × Digest)

namespace GrantOutbox

def new : GrantOutbox := ⟨.empty, ∅, ∅, ∅⟩

variable (outbox : GrantOutbox)

/-- The first marker of a pair wins; the statement digest is audit. -/
def recordCapabilityReconciled (epoch : Nat) (recipient : DeviceId) (statement : Digest) :
    GrantOutbox :=
  if (epoch, recipient) ∈ outbox.capabilityReconciledPairs then outbox
  else { outbox with
    capabilityReconciledPairs := insert (epoch, recipient) outbox.capabilityReconciledPairs
    capabilityReconciled := insert (epoch, recipient, statement) outbox.capabilityReconciled }

def record : GrantFact → GrantOutbox
  | .capabilityQueued epoch recipient =>
    { outbox with capabilityQueued := outbox.capabilityQueued.observe (epoch, recipient) }
  | .capabilityDelivered epoch recipient =>
    { outbox with capabilityDelivered := insert (epoch, recipient) outbox.capabilityDelivered }
  | .capabilityReconciled epoch recipient statement =>
    outbox.recordCapabilityReconciled epoch recipient statement

/-- Queued pairs minus the delivered and the reconciled ones. -/
def pendingCapabilities : List Grant :=
  outbox.capabilityQueued.docs.filter (fun grant =>
    decide (grant ∉ outbox.capabilityDelivered) && decide (grant ∉ outbox.capabilityReconciledPairs))

end GrantOutbox

/-- A committed fact with the outbox facts of both kinds. -/
inductive StoreFact where
  | base (fact : Fact)
  | grant (fact : GrantFact)
  | announce (fact : OutboxFact)
  deriving DecidableEq

namespace StoreFact

def base? : StoreFact → Option Fact
  | .base fact => some fact
  | _ => none

def grant? : StoreFact → Option GrantFact
  | .grant fact => some fact
  | _ => none

/-- Announcements are also queued by the paths that author. -/
def announce? : StoreFact → Option OutboxFact
  | .announce fact => some fact
  | .base (.announcementQueued snapshot recipient) => some (.announcementQueued snapshot recipient)
  | _ => none

end StoreFact

/-- Everything one comparison reads. -/
structure View (P : Primitives) where
  rebuilt : Rebuilt P
  grants : GrantOutbox
  outbox : AnnouncementOutbox

def viewOf (P : Primitives) (D : Digests) (drive : DriveId) (device : DeviceId)
    (store : List StoreFact) : Except DurableError (View P) := do
  let rebuilt ← rebuildFacts P D drive (store.filterMap StoreFact.base?) device
  return ⟨rebuilt, (store.filterMap StoreFact.grant?).foldl GrantOutbox.record .new,
    replayOutbox (store.filterMap StoreFact.announce?)⟩

variable (view : View P) (evidence : ReconciliationEvidence) (requester : DeviceId)

def outstandingCapabilities : List Nat :=
  (view.grants.pendingCapabilities.filter (fun grant => decide (grant.2 = requester))).map Prod.fst

def coveredCapabilities (outstanding : List Nat) : List Nat :=
  outstanding.filter (fun epoch => decide ((requester, epoch) ∈ evidence.capabilities.docs))

def outstandingAnnouncements : List SnapshotId :=
  (view.outbox.pendingAnnouncements.filter (fun pair => decide (pair.2 = requester))).map Prod.fst

def coveredAnnouncements (outstanding : List SnapshotId) : List SnapshotId :=
  outstanding.filter (fun snapshot => decide (snapshot ∈ evidence.snapshots.docs))

/-- Recorded announcements of an epoch the requester says it holds, which it does
    not list and which are not queued, delivered or reconciled for it. -/
def missingAnnouncements : List SnapshotId :=
  (view.rebuilt.runtime.announcements.docs.filter (fun a =>
    decide (a.snapshot ∉ evidence.snapshots.docs) &&
      decide ((requester, a.epoch) ∈ evidence.capabilities.docs) &&
      !view.outbox.announcementCovered a.snapshot requester)).map SnapshotAnnouncement.snapshot

/-- The newest epoch the requester says it holds, or zero. -/
def newestHeldEpoch : Nat :=
  ((evidence.capabilities.docs.filter (fun install => decide (install.1 = requester))).map
    Prod.snd).foldl max 0

inductive RespondError where
  | durable
  | rebuild (error : DurableError)
  | mailbox
  /-- The ancestry pass met a cycle, where the loop does not end. -/
  | diverges
  deriving DecidableEq

/-- A commit of the pass with the membership it was made under. -/
structure Commit (P : Primitives) where
  log : MembershipLog P
  facts : List StoreFact

/-- The answering side of an engine; `trace` records the commits of the pass. -/
structure Responder (P : Primitives) where
  drive : DriveId
  device : DeviceId
  store : List StoreFact
  log : MembershipLog P
  receivedRequests : Finset (DeviceId × Digest)
  answeredStatements : Finset (DeviceId × Digest)
  answeredUpto : Nat
  stalledStatements : Finset (DeviceId × Digest)
  trace : List (Commit P)

/-- What the scoped retransmission to one requester did: it delivers transitions
    and capabilities, never an announcement, and fails with the mailbox. -/
structure Dispatch where
  transitions : List TransitionId
  capabilities : List Nat
  sent : Option Nat

/-- The disk and the retransmission during one pass. -/
structure Respond where
  commit : List StoreFact → List StoreFact → CommitAnswer
  loads : List StoreFact → Bool
  deliverScoped : List StoreFact → DeviceId → Nat → Nat → Dispatch

structure AnswerReport where
  statements : Nat
  sent : Nat
  retired : Nat
  deriving DecidableEq

def maxResponseSendsPerStatement : Nat := 32

def retireCommitBatch : Nat := 1024

abbrev Responding (P : Primitives) := Effect (Responder P) RespondError

open Effect

def Responder.append (engine : Responder P) (facts : List StoreFact) : Responder P :=
  { engine with
    store := engine.store ++ facts
    trace := engine.trace ++ [⟨engine.log, facts⟩] }

def commitFacts (env : Respond) (facts : List StoreFact) : Responding P Unit := fun engine =>
  match env.commit engine.store facts with
  | .refused => (engine, .error .durable)
  | .unreported => (engine.append facts, .error .durable)
  | .landed => (engine.append facts, .ok ())

def rebuild (D : Digests) (env : Respond) : Responding P (View P) := fun engine =>
  (engine,
    if env.loads engine.store then (viewOf P D engine.drive engine.device engine.store).mapError .rebuild
    else .error .durable)

/-- Consecutive runs of at most `size` items. -/
def chunks {α : Type} (size : Nat) : Nat → List α → List (List α)
  | 0, _ => []
  | _ + 1, [] => []
  | fuel + 1, items => items.take size :: chunks size fuel (items.drop size)

def commitChunked (env : Respond) (facts : List StoreFact) : Responding P Nat :=
  tally (fun chunk => do
    commitFacts env chunk
    return chunk.length) (chunks retireCommitBatch facts.length facts)

/-- One statement still to be answered. -/
structure Statement where
  requester : DeviceId
  digest : Digest
  evidence : ReconciliationEvidence
  deriving DecidableEq

def retirements (statement : Statement) (transitions : List TransitionId) (epochs : List Nat)
    (snapshots : List SnapshotId) : List StoreFact :=
  transitions.map (fun id => .base (.transitionReconciled id statement.requester statement.digest)) ++
    epochs.map (fun epoch =>
      .grant (.capabilityReconciled epoch statement.requester statement.digest)) ++
    snapshots.map (fun snapshot =>
      .announce (.announcementReconciled snapshot statement.requester statement.digest))

def queueMissingAnnouncements (env : Respond) (requester : DeviceId) (missing : List SnapshotId) :
    Responding P Nat :=
  commitChunked env (missing.map (fun snapshot => .base (.announcementQueued snapshot requester)))

/-- The retransmission commits its delivery markers. -/
def deliverScoped (env : Respond) (requester : DeviceId) (limit newest : Nat) :
    Responding P Nat := do
  let engine ← get
  let dispatch := env.deliverScoped engine.store requester limit newest
  set (engine.append
    (dispatch.transitions.map (fun id => .base (.transitionDelivered id requester)) ++
      dispatch.capabilities.map (fun epoch => .grant (.capabilityDelivered epoch requester))))
  match dispatch.sent with
  | none => fail .mailbox
  | some sent => return sent

def Responder.stall (engine : Responder P) (statement : Statement) : Responder P :=
  let stalled := (statement.requester, statement.digest)
  { engine with stalledStatements := insert stalled engine.stalledStatements }

structure Answered where
  retired : Nat
  queued : Nat
  sent : Nat

/-- Answer one statement against a view: retire, queue what is missing, send. -/
def answerOne (env : Respond) (view : View P) (statement : Statement) : Responding P Answered :=
  let owedTransitions := outstandingTransitions view.rebuilt.runtime statement.requester
  let owedCapabilities := outstandingCapabilities view statement.requester
  let owedAnnouncements := outstandingAnnouncements view statement.requester
  let missing := missingAnnouncements view statement.evidence statement.requester
  if owedTransitions = [] ∧ owedCapabilities = [] ∧ owedAnnouncements = [] ∧ missing = [] then
    return ⟨0, 0, 0⟩
  else match coveredTransitions owedTransitions statement.evidence view.rebuilt.log with
    | none => fail .diverges
    | some covered => do
        let retired ← commitChunked env (retirements statement covered
          (coveredCapabilities statement.evidence statement.requester owedCapabilities)
          (coveredAnnouncements statement.evidence owedAnnouncements))
        let queued ← queueMissingAnnouncements env statement.requester missing
        let sent ← deliverScoped env statement.requester maxResponseSendsPerStatement
          (newestHeldEpoch statement.evidence statement.requester)
        let engine ← get
        set (if retired = 0 ∧ sent = 0 ∧ queued = 0 then engine.stall statement else engine)
        return ⟨retired, queued, sent⟩

/-- The view of the pass is rebuilt once something was retired or queued. -/
def refresh (D : Digests) (env : Respond) (view : View P) (dirty : Bool) : Responding P (View P) :=
  if dirty then rebuild D env else return view

def answerAll (D : Digests) (env : Respond) :
    List Statement → View P → Bool → Responding P AnswerReport
  | [], _, _ => return ⟨0, 0, 0⟩
  | statement :: rest, view, dirty => do
      let view ← refresh D env view dirty
      let done ← answerOne env view statement
      let report ← answerAll D env rest view (decide (0 < done.retired ∨ 0 < done.queued))
      return ⟨report.statements, done.sent + report.sent, done.retired + report.retired⟩

/-- The statements of the suffix that no pass of this lifetime answered. -/
def Responder.unanswered (D : Digests) (engine : Responder P) : List Statement :=
  ((requestsIn (engine.store.filterMap StoreFact.base?)).drop engine.answeredUpto).filterMap
    (fun request =>
      let digest := D.statementDigest request.1 request.2
      if (request.1, digest) ∈ engine.answeredStatements then none
      else some ⟨request.1, digest, request.2⟩)

def Responder.mark (engine : Responder P) (todo : List Statement) (upto : Nat) : Responder P :=
  let marked := todo.map (fun statement => (statement.requester, statement.digest))
  { engine with
    answeredStatements := engine.answeredStatements ∪ marked.toFinset
    answeredUpto := upto }

/-- A frozen drive answers nothing, and nothing is read while every received
    statement is answered. Statements are marked once all were processed. -/
def answerReconciliation (D : Digests) (env : Respond) : Responding P AnswerReport := do
  let engine ← get
  if engine.log.frozenAt.isSome then return ⟨0, 0, 0⟩
  else if engine.receivedRequests.card ≤ engine.answeredUpto then return ⟨0, 0, 0⟩
  else do
    let view ← rebuild D env
    let todo := engine.unanswered D
    let report ← answerAll D env todo view false
    let after ← get
    let requests := view.rebuilt.reconciliationRequests
    set (after.mark todo requests.length)
    return { report with statements := (requests.drop engine.answeredUpto).length }

/-- A member or a reader of the canonical tip. -/
def entitled (log : MembershipLog P) (device : DeviceId) : Bool :=
  log.knownState.any (fun known =>
    (log.membersOf known.transitionId).any (fun members => decide (device ∈ members)) ||
      (log.readersOf known.transitionId).any (fun readers => decide (device ∈ readers)))

/-- The pair an outbox fact covers: queued, discharged or reconciled. -/
def covers? : OutboxFact → Option Pair
  | .announcementQueued snapshot recipient | .announcementDelivered snapshot recipient
  | .announcementReconciled snapshot recipient _ => some (snapshot, recipient)
  | _ => none

/-- Every announcement on record whose epoch the statement claims for its
    requester is listed by it, or covered for the requester. -/
def ClaimsNothing (store : List StoreFact) (statement : Statement) : Prop :=
  ∀ a, .base (.announcement a) ∈ store →
    (statement.requester, a.epoch) ∈ statement.evidence.capabilities.docs →
    a.snapshot ∈ statement.evidence.snapshots.docs ∨
      ∃ fact ∈ store.filterMap StoreFact.announce?,
        covers? fact = some (a.snapshot, statement.requester)

/-- Queue facts of the commits are for entitled devices only. -/
def OnlyEntitled (commits : List (Commit P)) : Prop :=
  ∀ entry ∈ commits, ∀ snapshot recipient,
    .base (.announcementQueued snapshot recipient) ∈ entry.facts → entitled entry.log recipient = true

/-- What a pass leaves alone, and what it adds. -/
structure Passed (engine next : Responder P) : Prop where
  drive : next.drive = engine.drive
  device : next.device = engine.device
  log : next.log = engine.log
  store : ∃ more, next.store = engine.store ++ more ∧ ∀ a, .base (.announcement a) ∉ more
  trace : ∃ commits, next.trace = engine.trace ++ commits ∧ OnlyEntitled commits

namespace Passed

lemma refl (engine : Responder P) : Passed engine engine :=
  ⟨rfl, rfl, rfl, ⟨[], by simp, by simp⟩, [], by simp, by simp [OnlyEntitled]⟩

lemma trans {first second third : Responder P} (prior : Passed first second)
    (after : Passed second third) : Passed first third := by
  obtain ⟨more, store, hp⟩ := prior.store
  obtain ⟨more', store', hp'⟩ := after.store
  obtain ⟨commits, trace, only⟩ := prior.trace
  obtain ⟨commits', trace', only'⟩ := after.trace
  refine ⟨after.drive.trans prior.drive, after.device.trans prior.device,
    after.log.trans prior.log, ⟨more ++ more', by rw [store', store, append_assoc], ?_⟩,
    commits ++ commits', by rw [trace', trace, append_assoc], ?_⟩
  · intro a hm
    rcases mem_append.mp hm with hh | hh
    · exact hp a hh
    · exact hp' a hh
  · intro entry hm
    rcases mem_append.mp hm with hh | hh
    · exact only entry hh
    · exact only' entry hh

end Passed

variable {engine : Responder P} {facts : List StoreFact}

def Passes {α : Type} (act : Responding P α) (engine : Responder P) : Prop :=
  act.Ends engine fun _ next => Passed engine next

lemma Passes.bind {α β : Type} {act} {next : α → Responding P β} (first : Passes act engine)
    (rest : ∀ value middle, Passed engine middle → Passes (next value) middle) :
    Passes (act >>= next) engine :=
  Ends.bind first (fun value middle passed => (rest value middle passed).mono fun _ _ => passed.trans)
    fun _ _ passed => passed

variable {outbox : AnnouncementOutbox}

lemma announcementCovered_iff :
    outbox.announcementCovered snapshot recipient = true ↔
      (snapshot, recipient) ∈ outbox.announcementQueued.docs ∨
        (snapshot, recipient) ∈ outbox.announcementDelivered.docs ∨
        (snapshot, recipient) ∈ outbox.announcementReconciledPairs := by
  simp [AnnouncementOutbox.announcementCovered, or_assoc]

lemma record_covered
    (covered : outbox.announcementCovered pair.1 pair.2 = true ∨ covers? fact = some pair) :
    (outbox.record fact).announcementCovered pair.1 pair.2 = true := by
  rw [announcementCovered_iff] at covered ⊢
  cases fact with
  | announcementQueued =>
    simp only [covers?, Option.some.injEq, AnnouncementOutbox.record,
      AnnouncementOutbox.recordAnnouncementQueued, AnnouncementOutbox.mem_observe_pair] at covered ⊢
    grind
  | announcementDelivered =>
    simp only [covers?, Option.some.injEq, AnnouncementOutbox.record,
      AnnouncementOutbox.recordAnnouncementDelivered, AnnouncementOutbox.mem_observe_pair]
      at covered ⊢
    grind
  | announcementReconciled =>
    simp only [covers?, Option.some.injEq, AnnouncementOutbox.record,
      AnnouncementOutbox.recordAnnouncementReconciled] at covered ⊢
    split_ifs with hh
    · grind
    · simp only [Finset.mem_insert]
      grind
  | announcementSealed =>
    simp only [covers?, reduceCtorEq, or_false, AnnouncementOutbox.record,
      AnnouncementOutbox.recordAnnouncementSealed] at covered ⊢
    split_ifs <;> exact covered
  | announcementRouteSealed =>
    simp only [covers?, reduceCtorEq, or_false, AnnouncementOutbox.record,
      AnnouncementOutbox.recordAnnouncementRouteSealed] at covered ⊢
    split_ifs <;> exact covered
  | announcementDeliveredRoute =>
    simp only [covers?, reduceCtorEq, or_false] at covered
    exact covered

lemma replay_covered {facts : List OutboxFact} {pair : Pair}
    (covered : outbox.announcementCovered pair.1 pair.2 = true ∨
      ∃ fact ∈ facts, covers? fact = some pair) :
    (facts.foldl AnnouncementOutbox.record outbox).announcementCovered pair.1 pair.2 = true := by
  induction facts generalizing outbox with
  | nil => simpa using covered
  | cons fact rest ih =>
    apply ih
    rcases covered with hh | ⟨other, hm, hs⟩
    · exact .inl (record_covered (.inl hh))
    · rcases mem_cons.mp hm with rfl | hl
      · exact .inl (record_covered (.inr hs))
      · exact .inr ⟨other, hl, hs⟩

lemma ClaimsNothing.append {store more statement} (bare : ClaimsNothing store statement)
    (plain : ∀ a, .base (.announcement a) ∉ more) : ClaimsNothing (store ++ more) statement := by
  intro a hn hc
  rcases mem_append.mp hn with ho | later
  · rcases bare a ho hc with hl | ⟨fact, hm, hs⟩
    · exact .inl hl
    · refine .inr ⟨fact, ?_, hs⟩
      rw [filterMap_append]
      exact mem_append_left _ hm
  · exact absurd later (plain a)

lemma ClaimsNothing.missing {D drive device store view} {statement : Statement}
    (bare : ClaimsNothing store statement) (viewed : viewOf P D drive device store = .ok view) :
    missingAnnouncements view statement.evidence statement.requester = [] := by
  obtain ⟨rebuilt, made, hd⟩ := bind_ok.mp viewed
  cases hd
  rw [missingAnnouncements, map_eq_nil_iff, filter_eq_nil_iff]
  intro a hm wanted
  simp only [Bool.and_eq_true, decide_eq_true_eq, Bool.not_eq_true'] at wanted
  obtain ⟨⟨unlisted, hc⟩, hu⟩ := wanted
  have rerun := (rebuildFacts_ok.mp made).2.1
  have noted : .announcement a ∈ store.filterMap StoreFact.base? :=
    replay_announcement_origin rerun (Observed.mem_docs.mp hm)
  obtain ⟨fact, hi, isBase⟩ := mem_filterMap.mp noted
  have isFact : fact = .base (.announcement a) := by
    cases fact with
    | base => cases isBase; rfl
    | grant | announce => cases isBase
  rcases bare a (isFact ▸ hi) hc with hl | covered
  · exact unlisted hl
  · have held : (replayOutbox (store.filterMap StoreFact.announce?)).announcementCovered a.snapshot
        statement.requester = true := replay_covered (.inr covered)
    simp [held] at hu

section Pass

variable {D : Digests} {env : Respond}

variable {start state : Responder P}

end Pass

/-- An answer pass, or whatever else the engine does between two of them:
    commits of other paths, other views, a reopening. -/
inductive Turn (P : Primitives) where
  | answer (env : Respond)
  | elsewhere (facts : List StoreFact) (log : MembershipLog P)
      (receivedRequests answeredStatements : Finset (DeviceId × Digest)) (answeredUpto : Nat)

def Turn.take (D : Digests) : Turn P → Responder P → Responder P
  | .answer env, engine => (answerReconciliation D env engine).1
  | .elsewhere facts log received answered upto, engine =>
    { engine with
      store := engine.store ++ facts
      log := log
      receivedRequests := received
      answeredStatements := answered
      answeredUpto := upto }

def takes (D : Digests) : List (Turn P) → Responder P → Responder P
  | [], engine => engine
  | turn :: rest, engine => takes D rest (turn.take D engine)

section Sample

end Sample

end Wyrd.Runtime
