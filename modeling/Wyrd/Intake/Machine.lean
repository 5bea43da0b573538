import Wyrd.Intake.Queue
import Wyrd.Intake.Engine

/-! # The intake as a machine

Accepting a delivery is a sequence of small moves on a worktable: the engine, the
announcements staged and the facts gathered for the next commit, and the one
message in hand. A message comes to hand by being opened or taken back from the
queue, and leaves it by being committed, recognised, held, forgotten or
suppressed. Every invariant of the intake is an invariant of these moves.
-/

namespace Wyrd.Intake

open Function

open Wyrd.Control Wyrd.Durable Wyrd.Keys Wyrd.Membership PendingQueue

variable {P : Primitives} {W : Wire}

def ControlFramed (bytes : Bytes) : Prop := bytes.head? ≠ some rotationVersion

instance (bytes : Bytes) : Decidable (ControlFramed bytes) :=
  inferInstanceAs (Decidable (bytes.head? ≠ some rotationVersion))

/-- The bytes open to a message under held keys. -/
def Opens (W : Wire) (drive : DriveId) (keys : Nat → Option ControlKey) (bytes : Bytes)
    (message : Message) : Prop :=
  ∃ header key, W.decodeControl bytes = .ok header ∧ header.version = controlVersion ∧
    header.drive = drive ∧ keys header.epoch = some key ∧ W.openControl key bytes = .ok message

lemma Opens.unique (opens : Opens W drive keys bytes message)
    (opens' : Opens W drive keys bytes other) : message = other := by
  obtain ⟨header, key, hd, _, _, keyed, ho⟩ := opens
  obtain ⟨header', key', hd', _, _, keyed', ho'⟩ := opens'
  cases hd.symm.trans hd'
  cases keyed.symm.trans keyed'
  cases ho.symm.trans ho'
  rfl

lemma Opens.mono (grow : ∀ {epoch key}, keys epoch = some key → keys' epoch = some key)
    (opens : Opens W drive keys bytes message) : Opens W drive keys' bytes message := by
  obtain ⟨header, key, hd, hv, hs, keyed, ho⟩ := opens
  exact ⟨header, key, hd, hv, hs, grow keyed, ho⟩

/-- What a message carries is recorded already, or staged. -/
inductive Known (W : Wire) (engine : Engine P) (staged : Announcements) : Message → Prop where
  | transition {payload t} : W.decodeTransition payload = some t →
      (engine.log.transition (P.transitionId t)).isSome →
      Known W engine staged (.membershipTransition payload)
  | announcement {a} : knownAnnouncement engine staged a.snapshot = some a →
      Known W engine staged (.snapshotAnnouncement a)
  | capability {payload cap} : W.unwrap payload.wrapped = some cap →
      engine.committedCapabilities (cap.device, cap.transition) = some cap →
      Known W engine staged (.capability payload)
  | request {payload evidence} : W.decodeEvidence payload.evidence = some evidence →
      (payload.requester, W.statementDigest payload.requester evidence) ∈ engine.receivedRequests →
      Known W engine staged (.reconciliationRequest payload)

/-- A message commits a fact, leaving this engine and this staging. -/
inductive Commits (W : Wire) (engine : Engine P) (staged : Announcements) :
    Message → Fact → Engine P → Announcements → Prop where
  | transition {payload t} : W.decodeTransition payload = some t →
      engine.log.transition (P.transitionId t) = none →
      Commits W engine staged (.membershipTransition payload) (.transition t) (engine.observe t)
        staged
  | announcement {a t} : engine.log.transition a.membership = some t → t.epoch = a.epoch →
      engine.log.status a.membership = some .canonical →
      (∀ readers, engine.log.readersOf a.membership = some readers → a.author ∉ readers) →
      verifyAnnouncement P W engine.drive a = true →
      (∀ known, knownAnnouncement engine staged a.snapshot = some known → known.Agrees a) →
      Commits W engine staged (.snapshotAnnouncement a) (.announcement a) engine
        (update staged a.snapshot (some a))
  | capability {payload cap} : W.unwrap payload.wrapped = some cap →
      payload.device = cap.device → payload.epoch = cap.coveredEpoch →
      cap.authorizeAgainst engine.drive engine.log cap.transition = .ok () →
      Commits W engine staged (.capability payload) (.capability cap) engine staged
  | request {payload evidence} : W.decodeEvidence payload.evidence = some evidence →
      Commits W engine staged (.reconciliationRequest payload)
        (.reconciliationRequestReceived payload.requester evidence) engine staged

def Judged (W : Wire) (engine : Engine P) (staged : Announcements) (id : ControlMessageId)
    (message : Message) (sender : DeviceId) (budget : IntakeBudget) (engine' : Engine P)
    (staged' : Announcements) : Except EngineError Action → Prop
  | .ok (.commit facts) => ∃ fact, Commits W engine staged message fact engine' staged' ∧
      facts = [fact, .controlMessage id] ∧ budget.wouldAdmit sender 2 = true
  | .ok .duplicate => engine' = engine ∧ staged' = staged ∧ Known W engine staged message
  | .ok (.defer _) => engine' = engine ∧ staged' = staged ∧ isTransition message = false
  | .ok .shed | .ok .suppress => engine' = engine ∧ staged' = staged
  | .error _ => engine' = engine ∧ staged' = staged ∧ isTransition message = false

/-- The announcement is one its bound transition lets its author make. -/
structure Announceable (P : Primitives) (W : Wire) (engine : Engine P) (a : SnapshotAnnouncement) :
    Prop where
  bound : ∃ t, engine.log.transition a.membership = some t ∧ t.epoch = a.epoch
  canonical : engine.log.status a.membership = some .canonical
  writer : ∀ readers, engine.log.readersOf a.membership = some readers → a.author ∉ readers
  signed : verifyAnnouncement P W engine.drive a = true

/-- Nothing is known, or only the route changes. -/
def Accepts (known : Option SnapshotAnnouncement) (a : SnapshotAnnouncement) : Prop :=
  ∀ other, known = some other → other ≠ a ∧ other.Agrees a

/-- What the gate makes of an announcement. -/
inductive Announces (W : Wire) (engine : Engine P) (staged : Announcements)
    (id : ControlMessageId) (a : SnapshotAnnouncement) (room : Bool) :
    Announcements × Except EngineError Action → Prop where
  | commit : Announceable P W engine a → Accepts (knownAnnouncement engine staged a.snapshot) a →
      room = true → Announces W engine staged id a room
        (update staged a.snapshot (some a), .ok (.commit [.announcement a, .controlMessage id]))
  | same : knownAnnouncement engine staged a.snapshot = some a →
      Announces W engine staged id a room (staged, .ok .duplicate)
  | shed : room = false → Announces W engine staged id a room (staged, .ok .shed)
  | refuse : (Announceable P W engine a →
        ∃ known, knownAnnouncement engine staged a.snapshot = some known ∧ ¬ known.Agrees a) →
      Announces W engine staged id a room (staged, .ok .suppress)
  | defer {wait} : ¬ Announceable P W engine a →
      Announces W engine staged id a room (staged, .ok (.defer wait))
  | unclassified {error} : engine.log.transition a.membership ≠ none →
      engine.log.status a.membership = none →
      Announces W engine staged id a room (staged, .error error)

section Judge

variable {engine : Engine P} {staged : Announcements} {id : ControlMessageId} {sender : DeviceId}
  {budget : IntakeBudget}

lemma transitionAction_judged :
    Judged W engine staged id (.membershipTransition payload) sender budget
      (transitionAction W engine id payload sender budget).1 staged
      (.ok (transitionAction W engine id payload sender budget).2) := by
  unfold transitionAction
  cases decoded : W.decodeTransition payload with
  | none => split_ifs <;> exact ⟨rfl, rfl⟩
  | some =>
    simp only
    split_ifs with long seen hl ha
    · exact ⟨rfl, rfl⟩
    · exact ⟨rfl, rfl, .transition decoded seen⟩
    · exact ⟨rfl, rfl⟩
    · exact ⟨rfl, rfl⟩
    · refine ⟨_, .transition decoded ?_, rfl, by simpa using ha⟩
      simpa using seen

lemma announcementAction_announces :
    Announces W engine staged id a (budget.wouldAdmit sender 2)
      (announcementAction W engine staged id a sender budget) := by
  unfold announcementAction
  cases hf : engine.log.transition a.membership with
  | none =>
    refine .defer fun ripe => ?_
    obtain ⟨t, hh, -⟩ := ripe.bound
    cases hf.symm.trans hh
  | some t =>
    simp only
    split_ifs with mismatch
    · refine .refuse fun ripe => ?_
      obtain ⟨t', hh, he⟩ := ripe.bound
      cases hf.symm.trans hh
      exact absurd he mismatch
    cases status : engine.log.status a.membership with
    | none => exact .unclassified (hf ▸ nofun) status
    | some standing =>
      have blocked (ho : standing ≠ .canonical) : ¬ Announceable P W engine a :=
        fun ripe => ho (Option.some.inj (status.symm.trans ripe.canonical))
      cases standing with
      | invalid => exact .refuse fun ripe => absurd ripe (blocked nofun)
      | contested | voided | orphaned | pending => exact .defer (blocked nofun)
      | canonical =>
        unfold canonicalAction
        simp only
        split_ifs with reader hs afford proven fork
        · refine .refuse fun ripe => ?_
          obtain ⟨readers, state, hm⟩ := (Option.any_eq_true _ _).mp reader
          exact absurd (of_decide_eq_true hm) (ripe.writer readers state)
        · obtain ⟨known, hh, update⟩ := Option.map_eq_some_iff.mp hs
          exact .same (SnapshotAnnouncement.checkUpdate_same.mp update ▸ hh)
        · exact .shed (by simpa using afford)
        · exact .refuse fun ripe => by simp [ripe.signed] at proven
        · obtain ⟨known, hh, update⟩ := Option.map_eq_some_iff.mp fork
          exact .refuse fun _ => ⟨known, hh, SnapshotAnnouncement.checkUpdate_fork.mp update⟩
        · refine .commit ⟨⟨t, hf, not_not.mp mismatch⟩, status, fun readers state hm => ?_,
            by simpa using proven⟩ (fun known hh => ⟨fun equal => ?_, ?_⟩)
            (by simpa using afford)
          · simp [state, hm] at reader
          · simp [hh, SnapshotAnnouncement.checkUpdate_same.mpr equal] at hs
          · refine SnapshotAnnouncement.agrees_of_not_fork fun update => ?_
            simp [hh, update] at fork

lemma announcementAction_judged :
    Judged W engine staged id (.snapshotAnnouncement a) sender budget engine
      (announcementAction W engine staged id a sender budget).1
      (announcementAction W engine staged id a sender budget).2 := by
  have tells := @announcementAction_announces P W engine staged id sender budget a
  generalize announcementAction W engine staged id a sender budget = result at tells
  cases tells with
  | commit ripe ht room =>
    obtain ⟨t, hf, he⟩ := ripe.bound
    exact ⟨_, .announcement hf he ripe.canonical ripe.writer
      ripe.signed fun known hh => (ht known hh).2, rfl, room⟩
  | same known => exact ⟨rfl, rfl, .announcement known⟩
  | shed | refuse => exact ⟨rfl, rfl⟩
  | defer | unclassified => exact ⟨rfl, rfl, rfl⟩

lemma requestAction_judged :
    Judged W engine staged id (.reconciliationRequest payload) sender budget engine staged
      (.ok (requestAction W engine id payload sender budget)) := by
  unfold requestAction
  cases decoded : W.decodeEvidence payload.evidence with
  | none => split_ifs <;> exact ⟨rfl, rfl⟩
  | some =>
    simp only
    split_ifs with hs hg ha
    · exact ⟨rfl, rfl⟩
    · exact ⟨rfl, rfl, .request decoded hg⟩
    · exact ⟨rfl, rfl⟩
    · exact ⟨_, .request decoded, rfl, by simpa using ha⟩

lemma capabilityAction_judged :
    Judged W engine staged id (.capability payload) sender budget engine staged
      (.ok (capabilityAction W engine id payload sender budget)) := by
  unfold capabilityAction
  cases ho : W.unwrap payload.wrapped with
  | none => exact ⟨rfl, rfl⟩
  | some cap =>
    simp only
    cases hl : cap.authorizeAgainst engine.drive engine.log cap.transition with
    | ok =>
      simp only
      split_ifs with disagree hc ha
      · exact ⟨rfl, rfl⟩
      · exact ⟨rfl, rfl, .capability ho hc⟩
      · exact ⟨rfl, rfl⟩
      · obtain ⟨hd, he⟩ := not_or.mp disagree
        exact ⟨_, .capability ho (not_not.mp hd) (not_not.mp he) hl, rfl,
          by simpa using ha⟩
    | error error =>
      cases error with
      | unknownTransition =>
        simp only
        split_ifs
        · exact ⟨rfl, rfl⟩
        · exact ⟨rfl, rfl, rfl⟩
        · exact ⟨rfl, rfl, rfl⟩
      | _ =>
        simp only
        split_ifs <;> exact ⟨rfl, rfl⟩

lemma messageAction_judged
    (judged : messageAction W engine staged id message sender budget = (engine', staged', result)) :
    Judged W engine staged id message sender budget engine' staged' result := by
  cases message with
  | membershipTransition =>
    cases judged
    exact transitionAction_judged
  | snapshotAnnouncement =>
    cases judged
    exact announcementAction_judged
  | keyRotation =>
    cases judged
    exact ⟨rfl, rfl⟩
  | capability =>
    cases judged
    exact capabilityAction_judged
  | reconciliationRequest =>
    cases judged
    exact requestAction_judged

end Judge

/-- The worktable of one delivery. -/
structure Work (P : Primitives) where
  engine : Engine P
  staged : Announcements
  batch : List Fact
  hand : Option (ControlMessageId × Message)

/-- The facts on disk once the batch lands. -/
def Work.facts (work : Work P) : List Fact := work.engine.durable ++ work.batch

/-- Between deliveries nothing is staged, gathered or in hand. -/
def Work.idle (engine : Engine P) : Work P := ⟨engine, fun _ => none, [], none⟩

/-- The engine once a batch landed and was mirrored. -/
def landed (W : Wire) (engine : Engine P) (staged : Announcements) (batch : List Fact) : Engine P :=
  mirror W (recordCommit W engine batch) staged batch

/-- One move. `lent` are the frames the mailbox lent; `lossy` says whether a
    message may leave the hand without a trace. -/
inductive Step (W : Wire) (lent : Set Bytes) (lossy : Prop) : Work P → Work P → Prop where
  | ingest {engine staged batch bytes message} : bytes ∈ lent → ControlFramed bytes →
      Opens W engine.inbox.drive engine.inbox.keys bytes message →
      Step W lent lossy ⟨engine, staged, batch, none⟩
        ⟨{ engine with inbox := engine.inbox.remember (W.messageId bytes) }, staged, batch,
          some (W.messageId bytes, message)⟩
  | ingestRotation {engine staged batch bytes} : bytes ∈ lent → ¬ ControlFramed bytes →
      Step W lent lossy ⟨engine, staged, batch, none⟩
        ⟨{ engine with inbox := engine.inbox.remember (W.messageId bytes) }, staged, batch, none⟩
  | take {engine staged batch entry queue} : TakesEntry engine.pending queue entry →
      Step W lent lossy ⟨engine, staged, batch, none⟩
        ⟨{ engine with pending := queue }, staged, batch, some (entry.id, entry.message)⟩
  | commit {engine staged batch id message fact engine' staged'} :
      Commits W engine staged message fact engine' staged' →
      Step W lent lossy ⟨engine, staged, batch, some (id, message)⟩
        ⟨engine', staged', batch ++ [fact, .controlMessage id], none⟩
  | recognise {engine staged batch id message} : Known W engine staged message →
      Step W lent lossy ⟨engine, staged, batch, some (id, message)⟩ ⟨engine, staged, batch, none⟩
  | hold {engine staged batch id message wait queue} : isTransition message = false →
      HoldsEntry engine.pending queue ⟨id, message, wait⟩ →
      Step W lent lossy ⟨engine, staged, batch, some (id, message)⟩
        ⟨{ engine with pending := queue }, staged, batch, none⟩
  | forget {engine staged batch id message} :
      Step W lent lossy ⟨engine, staged, batch, some (id, message)⟩
        ⟨engine.forget id, staged, batch, none⟩
  | suppress {engine staged batch id message} :
      Step W lent lossy ⟨engine, staged, batch, some (id, message)⟩
        ⟨engine.suppress id, staged, batch, none⟩
  | forgetRotation {engine staged batch bytes} : bytes ∈ lent → ¬ ControlFramed bytes →
      Step W lent lossy ⟨engine, staged, batch, none⟩
        ⟨engine.forget (W.messageId bytes), staged, batch, none⟩
  | suppressRotation {engine staged batch bytes} : bytes ∈ lent → ¬ ControlFramed bytes →
      Step W lent lossy ⟨engine, staged, batch, none⟩
        ⟨engine.suppress (W.messageId bytes), staged, batch, none⟩
  | lose {engine staged batch id message} : lossy → isTransition message = false →
      Step W lent lossy ⟨engine, staged, batch, some (id, message)⟩ ⟨engine, staged, batch, none⟩
  | grant {engine staged batch bytes delivery t cap proof sender} : bytes ∈ lent →
      ¬ ControlFramed bytes → W.openRotation bytes = .ok delivery →
      openGrant W engine delivery = some (t, cap, proof) →
      judgeGrant engine.drive (engine.log.observe t) t cap proof sender = .granted →
      Step W lent lossy ⟨engine, staged, batch, none⟩
        ⟨{ engine.observe t with
            committedCapabilities := update engine.committedCapabilities
              (cap.device, cap.transition) (some cap) }, staged,
          batch ++ [.transition t, .capability cap, .controlMessage (W.messageId bytes)], none⟩
  | land {engine staged batch} :
      Step W lent lossy ⟨engine, staged, batch, none⟩ (.idle (landed W engine staged batch))
  | reload {engine staged batch hand kept state} :
      kept = engine.durable ∨ kept = engine.durable ++ batch →
      replayAnnouncements P kept = .ok state →
      Step W lent lossy ⟨engine, staged, batch, hand⟩
        (.idle (reloaded W { engine with durable := kept } state))

abbrev Steps (W : Wire) (lent : Set Bytes) (lossy : Prop) : Work P → Work P → Prop :=
  Relation.ReflTransGen (Step W lent lossy)

/-- The maps agree, and no transition is ever held. -/
structure Tidy (queue : PendingQueue) : Prop where
  coherent : queue.Coherent
  noTransition : ∀ {id entry}, queue.held id = some entry → isTransition entry.message = false

lemma Tidy.takes (tidy : Tidy queue) (takes : TakesEntry queue next entry) : Tidy next := by
  refine ⟨takes.coherent, fun {id other} hf => ?_⟩
  rw [takes.held, update_apply] at hf
  split_ifs at hf
  exact tidy.noTransition hf

lemma Tidy.holds (tidy : Tidy queue) (plain : isTransition entry.message = false)
    (holds : HoldsEntry queue next entry) : Tidy next := by
  refine ⟨holds.coherent, fun {id other} hf => ?_⟩
  rw [holds.held, update_apply] at hf
  split_ifs at hf
  · cases hf
    exact plain
  · exact tidy.noTransition hf

lemma Commits.engine_eq {engine' : Engine P}
    (commits : Commits W engine staged message fact engine' staged') :
    engine' = { engine with log := engine'.log } := by
  cases commits <;> rfl

/-- What mirroring committed facts does: ids are remembered, keys fill in where
    none is held, and nothing else moves. -/
structure Noted (facts : List Fact) (before after : Engine P) : Prop where
  views : after = { before with inbox := after.inbox, epochKeys := after.epochKeys }
  inbox : after.inbox = { before.inbox with keys := after.inbox.keys, seen := after.inbox.seen }
  seen : ∀ id, id ∈ after.inbox.seen ↔ id ∈ before.inbox.seen ∨ .controlMessage id ∈ facts
  keys : before.inbox.keys = before.epochKeys → after.inbox.keys = after.epochKeys
  grow : before.inbox.keys = before.epochKeys →
    ∀ {epoch key}, before.inbox.keys epoch = some key → after.inbox.keys epoch = some key

lemma Noted.refl (engine : Engine P) : Noted [] engine engine :=
  ⟨rfl, rfl, by simp, id, fun _ _ _ => id⟩

lemma Noted.trans {facts more : List Fact} {first second third : Engine P}
    (start : Noted facts first second) (rest : Noted more second third) :
    Noted (facts ++ more) first third where
  views := by rw [rest.views, start.views]
  inbox := by rw [rest.inbox, start.inbox]
  seen id := by rw [rest.seen, start.seen, List.mem_append, or_assoc]
  keys tied := rest.keys (start.keys tied)
  grow tied {_ _} hh := rest.grow (start.keys tied) (start.grow tied hh)

lemma fillKey_noted (engine : Engine P) (epoch : Nat) (secret : EpochSecret) :
    Noted [] engine (fillKey W engine epoch secret) := by
  unfold fillKey
  cases hh : engine.epochKeys epoch with
  | some => exact .refl _
  | none =>
    refine ⟨rfl, rfl, by simp [Engine.addEpochKey, ControlInbox.addEpochKey], ?_, ?_⟩
    · intro tied
      simp [Engine.addEpochKey, ControlInbox.addEpochKey, tied]
    · intro tied slot key hf
      have apart : slot ≠ epoch := by
        rintro rfl
        simp [tied, hh] at hf
      simpa [Engine.addEpochKey, ControlInbox.addEpochKey, update_of_ne apart] using hf

lemma fillKeys_noted (engine : Engine P) (epoch : Nat) (secrets : List EpochSecret) :
    Noted [] engine (fillKeys W engine epoch secrets) := by
  induction secrets generalizing engine epoch with
  | nil => exact .refl _
  | cons secret rest ih => exact (fillKey_noted engine epoch secret).trans (ih _ _)

lemma noteFact_noted (engine : Engine P) (fact : Fact) :
    Noted [fact] engine (noteFact W engine fact) := by
  cases fact with
  | controlMessage =>
    refine ⟨rfl, rfl, fun other => ?_, fun tied => tied, fun _ _ _ held => held⟩
    simp [noteFact, ControlInbox.remember, or_comm]
  | capability cap =>
    have filled := fillKeys_noted (W := W) engine 1 cap.secrets
    exact ⟨filled.views, filled.inbox, by simpa [noteFact] using filled.seen, filled.keys,
      filled.grow⟩
  | _ => exact ⟨rfl, rfl, by simp [noteFact], fun tied => tied, fun _ _ _ held => held⟩

lemma noteCommittedFacts_noted (engine : Engine P) (facts : List Fact) :
    Noted facts engine (noteCommittedFacts W engine facts) := by
  induction facts generalizing engine with
  | nil => exact .refl _
  | cons fact rest ih => exact (noteFact_noted engine fact).trans (ih _)

lemma Step.tidy {lossy : Prop} {work next : Work P} (step : Step W lent lossy work next)
    (tidy : Tidy work.engine.pending) : Tidy next.engine.pending := by
  cases step with
  | ingest | ingestRotation | recognise | forget | suppress | forgetRotation | suppressRotation
  | lose | grant | reload => exact tidy
  | take takes => exact tidy.takes takes
  | commit hc => rw [hc.engine_eq]; exact tidy
  | hold hp hh => exact tidy.holds hp hh
  | @land engine staged batch =>
    have noted := noteCommittedFacts_noted (W := W) (recordCommit W engine batch) batch
    simp only [Work.idle, landed, mirror]
    rw [noted.views]
    exact tidy

lemma Steps.tidy {lossy : Prop} {work next : Work P} (steps : Steps W lent lossy work next)
    (tidy : Tidy work.engine.pending) : Tidy next.engine.pending := by
  induction steps with
  | refl => exact tidy
  | tail _ hs ih => exact hs.tidy ih

/-- What one move can add to the gathered facts. -/
inductive Gathers (W : Wire) (lent : Set Bytes) (work : Work P) : List Fact → Prop where
  | commit {id message fact engine' staged'} : work.hand = some (id, message) →
      Commits W work.engine work.staged message fact engine' staged' →
      Gathers W lent work [fact, .controlMessage id]
  | grant {bytes delivery t cap proof sender} : bytes ∈ lent → ¬ ControlFramed bytes →
      W.openRotation bytes = .ok delivery →
      openGrant W work.engine delivery = some (t, cap, proof) →
      judgeGrant work.engine.drive (work.engine.log.observe t) t cap proof sender = .granted →
      Gathers W lent work [.transition t, .capability cap, .controlMessage (W.messageId bytes)]

lemma landed_durable (engine : Engine P) (staged : Announcements) (batch : List Fact) :
    (landed W engine staged batch).durable = engine.durable ++ batch := by
  simp only [landed, mirror]
  rw [(noteCommittedFacts_noted (W := W) (recordCommit W engine batch) batch).views]
  rfl

/-- A property of fact lists that gathering keeps holds on disk and gathered. -/
lemma Step.onFacts {lossy : Prop} {work next : Work P} (step : Step W lent lossy work next)
    {property : List Fact → Prop} (onDisk : property work.engine.durable)
    (gathered : property work.facts)
    (grow : ∀ more, Gathers W lent work more → property (work.facts ++ more)) :
    property next.engine.durable ∧ property next.facts := by
  cases step with
  | ingest | ingestRotation | take | recognise | hold | forget | suppress | forgetRotation
  | suppressRotation | lose => exact ⟨onDisk, gathered⟩
  | commit commits =>
    have added := grow _ (.commit rfl commits)
    rw [Work.facts, List.append_assoc] at added
    rw [commits.engine_eq]
    exact ⟨onDisk, added⟩
  | grant hm hf ho hg hr =>
    have added := grow _ (.grant hm hf ho hg hr)
    rw [Work.facts, List.append_assoc] at added
    exact ⟨onDisk, added⟩
  | land =>
    simp only [Work.idle, Work.facts, List.append_nil, landed_durable]
    exact ⟨gathered, gathered⟩
  | reload kept =>
    simp only [Work.idle, Work.facts, List.append_nil]
    rcases kept with rfl | rfl
    · exact ⟨onDisk, onDisk⟩
    · exact ⟨gathered, gathered⟩

end Wyrd.Intake
