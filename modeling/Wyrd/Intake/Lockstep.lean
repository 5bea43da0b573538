import Wyrd.Intake.Refinement

/-! # The views follow the facts

Between any two moves the log, the keys and the projections are what the
committed and the gathered facts say: this is what makes a duplicate verdict
sound and a reload harmless. The invariant holds of a run of drain passes as
long as every failing handover can fall back to its committed facts.
-/

namespace Wyrd.Intake

open List Option Function

open Wyrd.Control Wyrd.Durable Wyrd.Keys Wyrd.Membership PendingQueue

variable {P : Primitives} {W : Wire} {lent : Set Bytes} {lossy : Prop}

lemma replayAnnouncements_ok (rerun : replayAnnouncements P facts = .ok state) :
    (∀ {snapshot a}, state.announcement snapshot = some a →
        .announcement a ∈ facts ∧ a.snapshot = snapshot) ∧
      ∀ {a}, .announcement a ∈ facts →
        ∃ known, state.announcement a.snapshot = some known ∧ known.Agrees a := by
  simp only [← mem_announcementsIn]
  refine foldlM_ok (fun done (state : RuntimeState P) =>
    (∀ {snapshot a}, state.announcement snapshot = some a → a ∈ done ∧ a.snapshot = snapshot) ∧
      ∀ {a}, a ∈ done → ∃ known, state.announcement a.snapshot = some known ∧ known.Agrees a)
    ?_ ?_ rerun
  · intro done latest state next _ ⟨origin, agree⟩ hn
    obtain ⟨_, forked, hand, _⟩ := RuntimeState.recordAnnouncement_ok hn
    simp only [hand, update_apply, mem_append, mem_singleton]
    constructor
    · intro snapshot a hf
      split_ifs at hf with hh
      · cases hf
        exact ⟨.inr rfl, hh.symm⟩
      · exact ⟨.inl (origin hf).1, (origin hf).2⟩
    · intro a hm
      split_ifs with hh
      · refine ⟨latest, rfl, ?_⟩
        rcases hm with old | rfl
        · obtain ⟨known, hf, ha⟩ := agree old
          exact (forked known (hh ▸ hf)).symm.trans ha
        · exact .refl _
      · rcases hm with old | rfl
        · exact agree old
        · exact absurd rfl hh
  · exact ⟨nofun, nofun⟩

lemma recordCapabilities_origin (hf : recordCapabilities known caps key = some cap) :
    known key = some cap ∨ cap ∈ caps := by
  induction caps generalizing known with
  | nil => exact .inl hf
  | cons first rest ih =>
    rcases ih hf with old | hl
    · simp only [update_apply] at old
      split_ifs at old
      · cases old
        exact .inr mem_cons_self
      · exact .inl old
    · exact .inr (mem_cons_of_mem _ hl)

lemma recordRequests_origin (hf : (who, digest) ∈ recordRequests D known requests) :
    (who, digest) ∈ known ∨
      ∃ evidence, (who, evidence) ∈ requests ∧ D.statementDigest who evidence = digest := by
  induction requests generalizing known with
  | nil => exact .inl hf
  | cons first rest ih =>
    rcases ih hf with ho | ⟨evidence, hl, hd⟩
    · rcases Finset.mem_insert.mp ho with hh | hp
      · obtain ⟨rfl, rfl⟩ := Prod.mk.inj hh
        exact .inr ⟨first.2, mem_cons_self, rfl⟩
      · exact .inl hp
    · exact .inr ⟨evidence, mem_cons_of_mem _ hl, hd⟩

lemma recordRequests_mono (requests : List (DeviceId × ReconciliationEvidence)) :
    known ⊆ recordRequests D known requests := by
  induction requests generalizing known with
  | nil => exact fun _ hm => hm
  | cons first rest ih => exact fun _ hm => ih (Finset.mem_insert_of_mem hm)

lemma capabilitiesIn_append (facts more : List Fact) :
    capabilitiesIn (facts ++ more) = capabilitiesIn facts ++ capabilitiesIn more :=
  filterMap_append

lemma announcementsIn_append (facts more : List Fact) :
    announcementsIn (facts ++ more) = announcementsIn facts ++ announcementsIn more :=
  filterMap_append

lemma recordCapabilities_append (known : DeviceId × TransitionId → Option Capability)
    (caps more : List Capability) :
    recordCapabilities known (caps ++ more) =
      recordCapabilities (recordCapabilities known caps) more :=
  foldl_append

lemma projection_gather {α β : Type} {record : β → α → β} {read : Fact → Option α}
    {known start durable} {batch : List Fact} (more : List Fact)
    (now : (batch.filterMap read).foldl record known =
      ((durable ++ batch).filterMap read).foldl record start) :
    ((batch ++ more).filterMap read).foldl record known =
      ((durable ++ (batch ++ more)).filterMap read).foldl record start := by
  rw [← append_assoc, filterMap_append, foldl_append, now, ← foldl_append, ← filterMap_append]

lemma recordCapabilities_update_of_ne (caps : List Capability) (apart : other ≠ key) :
    recordCapabilities (update known key value) caps other =
      recordCapabilities known caps other := by
  induction caps generalizing known with
  | nil => exact update_of_ne apart value known
  | cons cap rest ih =>
    unfold recordCapabilities at ih ⊢
    simp only [foldl_cons]
    by_cases hs : (cap.device, cap.transition) = key
    · rw [hs, update_idem]
    · rw [update_comm (Ne.symm hs), ih]

/-- Recording a capability ahead of the batch that carries it changes nothing
    once the batch is recorded. -/
lemma recordCapabilities_ahead (known : DeviceId × TransitionId → Option Capability)
    (caps : List Capability) (cap : Capability) :
    recordCapabilities (update known (cap.device, cap.transition) (some cap))
        (caps ++ [cap]) = recordCapabilities known (caps ++ [cap]) := by
  funext key
  simp only [recordCapabilities_append]
  by_cases hs : key = (cap.device, cap.transition)
  · simp [recordCapabilities, hs]
  · have away : ∀ earlier : DeviceId × TransitionId → Option Capability,
        recordCapabilities earlier [cap] key = earlier key := by
      intro earlier
      simp [recordCapabilities, update_of_ne hs]
    rw [away, away, recordCapabilities_update_of_ne caps hs]

variable {state : RuntimeState P}

lemma acceptAnnouncement_of_agrees
    (agree : ∀ known, state.announcement a.snapshot = some known → known.Agrees a) :
    ∃ next, state.acceptAnnouncement a = .ok next := by
  unfold RuntimeState.acceptAnnouncement
  cases hf : state.announcements.lookup a.snapshot with
  | none => exact ⟨_, rfl⟩
  | some known =>
    simp only
    cases hu : known.checkUpdate a with
    | same => exact ⟨_, rfl⟩
    | routeUpdate => exact ⟨_, rfl⟩
    | fork => exact absurd (agree known hf) (SnapshotAnnouncement.checkUpdate_fork.mp hu)

variable {facts : List Fact}

lemma replayAnnouncements_bodies (rerun : replayAnnouncements P facts = .ok state) :
    state.snapshotBodies = .empty := by
  refine foldlM_ok (fun _ (state : RuntimeState P) => state.snapshotBodies = .empty) ?_ rfl rerun
  intro done a state next _ hb hn
  obtain ⟨_, _, _, hs⟩ := RuntimeState.recordAnnouncement_ok hn
  rw [hs]
  exact hb

lemma replayAnnouncements_append (facts more : List Fact) :
    replayAnnouncements P (facts ++ more) = (replayAnnouncements P facts >>= fun state =>
      (announcementsIn more).foldlM RuntimeState.recordAnnouncement state) := by
  unfold replayAnnouncements
  rw [announcementsIn_append, foldlM_append]

lemma replayAnnouncements_quiet (hq : announcementsIn more = []) :
    replayAnnouncements P (facts ++ more) = replayAnnouncements P facts := by
  rw [replayAnnouncements_append, hq]
  cases replayAnnouncements P facts <;> rfl

lemma replayAnnouncements_announce (id : ControlMessageId)
    (rerun : replayAnnouncements P facts = .ok state)
    (agree : ∀ known, state.announcement a.snapshot = some known → known.Agrees a) :
    ∃ next, replayAnnouncements P (facts ++ [.announcement a, .controlMessage id]) = .ok next ∧
      next.announcement = update state.announcement a.snapshot (some a) := by
  obtain ⟨next, hok⟩ := acceptAnnouncement_of_agrees agree
  have noted : state.recordAnnouncement a = .ok next := by
    unfold RuntimeState.recordAnnouncement
    rw [replayAnnouncements_bodies rerun]
    exact hok
  refine ⟨next, ?_, (RuntimeState.recordAnnouncement_ok noted).2.2.1⟩
  rw [replayAnnouncements_append, rerun]
  simp only [announcementsIn, filterMap_cons, Fact.announcement?, filterMap_nil,
    foldlM_cons, foldlM_nil]
  exact bind_ok.mpr ⟨state, rfl, bind_ok.mpr ⟨next, noted, rfl⟩⟩

/-- The volatile views are what the committed and the gathered facts say, once what is
    staged and gathered is applied. -/
structure Lockstep (W : Wire) (work : Work P) : Prop where
  log : work.engine.log = logOf P work.engine.drive work.facts
  drive : work.engine.inbox.drive = work.engine.drive
  keys : work.engine.inbox.keys = work.engine.epochKeys
  announced : ∀ {snapshot a}, work.engine.announcements snapshot = some a →
    .announcement a ∈ work.facts ∧ a.snapshot = snapshot
  replayed : ∃ state, replayAnnouncements P work.facts = .ok state ∧
    ∀ snapshot, (work.staged snapshot).or (work.engine.announcements snapshot) =
      state.announcement snapshot
  capabilities : ∀ {key cap}, work.engine.committedCapabilities key = some cap →
    .capability cap ∈ work.facts
  granted : recordCapabilities work.engine.committedCapabilities (capabilitiesIn work.batch) =
    recordCapabilities (fun _ => none) (capabilitiesIn work.facts)
  requested : recordRequests W.toDigests work.engine.receivedRequests (requestsIn work.batch) =
    recordRequests W.toDigests ∅ (requestsIn work.facts)

section Reading

variable {work : Work P} (sync : Lockstep W work)
include sync

lemma Lockstep.staged (hf : work.staged snapshot = some a) :
    .announcement a ∈ work.facts ∧ a.snapshot = snapshot := by
  obtain ⟨state, hr, shown⟩ := sync.replayed
  refine (replayAnnouncements_ok hr).1 ?_
  rw [← shown, hf, some_or]

lemma Lockstep.agree {a : SnapshotAnnouncement} (hm : .announcement a ∈ work.facts) :
    ∃ known, knownAnnouncement work.engine work.staged a.snapshot = some known ∧ known.Agrees a := by
  obtain ⟨state, rerun, shown⟩ := sync.replayed
  obtain ⟨known, hf, agree⟩ := (replayAnnouncements_ok rerun).2 hm
  unfold knownAnnouncement
  cases own : work.engine.announcements a.snapshot with
  | none =>
    rw [← shown, own, or_none] at hf
    exact ⟨known, hf, agree⟩
  | some recorded =>
    obtain ⟨hl, hh⟩ := sync.announced own
    obtain ⟨known', hf', agree'⟩ := (replayAnnouncements_ok rerun).2 hl
    rw [hh, hf] at hf'
    cases hf'
    exact ⟨recorded, rfl, agree'.symm.trans agree⟩

lemma Lockstep.requests (hf : (who, digest) ∈ work.engine.receivedRequests) :
    ∃ evidence, .reconciliationRequestReceived who evidence ∈ work.facts ∧
      W.statementDigest who evidence = digest := by
  have later := recordRequests_mono (D := W.toDigests) (requestsIn work.batch) hf
  rw [sync.requested] at later
  rcases recordRequests_origin later with ho | ⟨evidence, hl, hd⟩
  · cases ho
  · exact ⟨evidence, mem_requestsIn.mp hl, hd⟩

end Reading

section Moves

variable {engine : Engine P} {staged : Announcements} {batch more : List Fact}
  {hand hand' : Option (ControlMessageId × Message)}

lemma Lockstep.frame (sync : Lockstep W ⟨engine, staged, batch, hand⟩)
    (drive : inbox.drive = engine.inbox.drive) (keys : inbox.keys = engine.inbox.keys) :
    Lockstep W ⟨{ engine with inbox := inbox, pending := queue }, staged, batch, hand'⟩ :=
  ⟨sync.log, drive.trans sync.drive, keys.trans sync.keys, sync.announced,
    sync.replayed, sync.capabilities, sync.granted, sync.requested⟩

lemma suppress_drive (inbox : ControlInbox) (id : ControlMessageId) :
    (inbox.suppress id).drive = inbox.drive := by
  unfold ControlInbox.suppress
  split_ifs <;> rfl

lemma suppress_keys (inbox : ControlInbox) (id : ControlMessageId) :
    (inbox.suppress id).keys = inbox.keys := by
  unfold ControlInbox.suppress
  split_ifs <;> rfl

section

variable (sync : Lockstep W ⟨engine, staged, batch, hand⟩)
include sync

lemma Lockstep.grow {log staged' state}
    (seen : log = (transitionsIn more).foldl MembershipLog.observe engine.log)
    (rerun : replayAnnouncements P (engine.durable ++ batch ++ more) = .ok state)
    (shown : ∀ snapshot, (staged' snapshot).or (engine.announcements snapshot) =
      state.announcement snapshot) :
    Lockstep W ⟨{ engine with log := log }, staged', batch ++ more, hand'⟩ := by
  have grow : engine.durable ++ batch ⊆ engine.durable ++ (batch ++ more) := by simp
  refine ⟨?_, sync.drive, sync.keys, fun hf => (sync.announced hf).imp_left (@grow _),
    ⟨state, ?_, shown⟩, fun hf => grow (sync.capabilities hf),
    projection_gather more sync.granted, projection_gather more sync.requested⟩
  · have hh : engine.log = logOf P engine.drive (engine.durable ++ batch) := sync.log
    simp only [Work.facts, ← append_assoc]
    rw [seen, logOf_append, hh]
  · simp only [Work.facts, ← append_assoc]
    exact rerun

lemma Lockstep.gather {log}
    (seen : log = (transitionsIn more).foldl MembershipLog.observe engine.log)
    (hq : announcementsIn more = []) :
    Lockstep W ⟨{ engine with log := log }, staged, batch ++ more, hand'⟩ := by
  obtain ⟨state, hr, shown⟩ := sync.replayed
  exact sync.grow seen ((replayAnnouncements_quiet hq).trans hr) shown

/-- Gathering an announcement that agrees with the one known: it is the latest the replay
    records. -/
lemma Lockstep.stage {a id}
    (agree : ∀ known, knownAnnouncement engine staged a.snapshot = some known → known.Agrees a) :
    Lockstep W ⟨engine, update staged a.snapshot (some a),
      batch ++ [.announcement a, .controlMessage id], hand'⟩ := by
  obtain ⟨state, rerun, shown⟩ := sync.replayed
  have latest : ∀ known, state.announcement a.snapshot = some known → known.Agrees a := by
    intro known hf
    obtain ⟨hn, hh⟩ := (replayAnnouncements_ok rerun).1 hf
    obtain ⟨shared, held, hs⟩ := sync.agree hn
    rw [hh] at held
    exact hs.symm.trans (agree shared held)
  obtain ⟨next, again, hm⟩ := replayAnnouncements_announce id rerun latest
  refine sync.grow rfl again fun snapshot => ?_
  simp only [hm, update_apply]
  split_ifs with hh
  · rfl
  · exact shown snapshot

lemma Lockstep.commit {engine' staged' message fact id}
    (commits : Commits W engine staged message fact engine' staged') :
    Lockstep W ⟨engine', staged', batch ++ [fact, .controlMessage id], hand'⟩ := by
  cases commits with
  | transition => exact sync.gather rfl rfl
  | announcement _ _ _ _ _ ha => exact sync.stage ha
  | capability => exact sync.gather rfl rfl
  | request => exact sync.gather rfl rfl

/-- A grant is shown to the flush before it lands, and shows the same after. -/
lemma Lockstep.grant (t : MembershipTransition) (cap : Capability) (id : ControlMessageId) :
    Lockstep W ⟨{ engine.observe t with
      committedCapabilities := update engine.committedCapabilities
        (cap.device, cap.transition) (some cap) }, staged,
      batch ++ [.transition t, .capability cap, .controlMessage id], hand'⟩ := by
  have gathered : Lockstep W ⟨engine.observe t, staged,
      batch ++ [.transition t, .capability cap, .controlMessage id], hand'⟩ :=
    sync.gather rfl rfl
  refine { gathered with capabilities := fun {key found} noted => ?_, granted := ?_ }
  · simp only [update_apply] at noted
    split_ifs at noted
    · cases noted
      simp [Work.facts]
    · exact gathered.capabilities noted
  · have carried : capabilitiesIn (batch ++ [.transition t, .capability cap, .controlMessage id]) =
        capabilitiesIn batch ++ [cap] := capabilitiesIn_append _ _
    have after := gathered.granted
    simp only [Work.facts, carried] at after ⊢
    rw [recordCapabilities_ahead]
    exact after

end

lemma landed_announcements (snapshot : SnapshotId) :
    (landed W engine staged batch).announcements snapshot =
      (staged snapshot).or (engine.announcements snapshot) := by
  simp only [landed, mirror]
  rw [(noteCommittedFacts_noted (W := W) (recordCommit W engine batch) batch).views]
  rfl

lemma Lockstep.land (sync : Lockstep W ⟨engine, staged, batch, hand⟩) :
    Lockstep W (.idle (landed W engine staged batch)) := by
  have noted := noteCommittedFacts_noted (W := W) (recordCommit W engine batch) batch
  have facts : (Work.idle (landed W engine staged batch)).facts = engine.durable ++ batch := by
    simp only [Work.idle, Work.facts, append_nil, landed_durable]
  obtain ⟨state, hr, shown⟩ := sync.replayed
  refine ⟨?_, ?_, ?_, ?_, ⟨state, ?_, fun snapshot => ?_⟩, ?_, ?_, ?_⟩ <;> try rw [facts]
  · simp only [Work.idle, landed, mirror]
    rw [noted.views]
    exact sync.log
  · simp only [Work.idle, landed, mirror]
    rw [noted.views, noted.inbox]
    exact sync.drive
  · exact noted.keys sync.keys
  · intro snapshot a hf
    simp only [Work.idle, landed_announcements, or_eq_some_iff] at hf
    rcases hf with own | ⟨_, old⟩
    · exact sync.staged own
    · exact sync.announced old
  · exact hr
  · simp only [Work.idle, landed_announcements, none_or]
    exact shown snapshot
  · intro key cap hf
    simp only [Work.idle, landed, mirror] at hf
    rw [noted.views] at hf
    rcases recordCapabilities_origin hf with old | hl
    · exact sync.capabilities old
    · exact mem_append_right _ (mem_capabilitiesIn.mp hl)
  · simp only [Work.idle, landed, mirror]
    rw [noted.views]
    exact sync.granted
  · simp only [Work.idle, landed, mirror]
    rw [noted.views]
    exact sync.requested

lemma Lockstep.reload (rerun : replayAnnouncements P engine.durable = .ok state) :
    Lockstep W (.idle (reloaded W engine state)) := by
  have facts : (Work.idle (reloaded W engine state)).facts = engine.durable := append_nil _
  refine ⟨?_, rfl, rfl, ?_, ⟨state, ?_, fun _ => rfl⟩, ?_, ?_, ?_⟩ <;> rw [facts]
  · rfl
  · exact fun hf => (replayAnnouncements_ok rerun).1 hf
  · exact rerun
  · intro key cap hf
    rcases recordCapabilities_origin hf with ho | hl
    · cases ho
    · exact mem_capabilitiesIn.mp hl
  · rfl
  · rfl

end Moves

variable {work next : Work P}

lemma Step.lockstep (step : Step W lent lossy work next) (sync : Lockstep W work) :
    Lockstep W next := by
  cases step with
  | ingest | ingestRotation | take | recognise | hold | forget | forgetRotation | lose =>
    exact sync.frame rfl rfl
  | suppress | suppressRotation =>
    exact sync.frame (suppress_drive _ _) (suppress_keys _ _)
  | commit hc => exact sync.commit hc
  | grant => exact sync.grant _ _ _
  | land => exact sync.land
  | reload _ hr => exact .reload hr

lemma Steps.lockstep (steps : Steps W lent lossy work next) (sync : Lockstep W work) :
    Lockstep W next := by
  induction steps with
  | refl => exact sync
  | tail _ hs ih => exact hs.lockstep ih

def Engine.Opens (W : Wire) (engine : Engine P) (bytes : Bytes) (message : Message) : Prop :=
  Intake.Opens W engine.inbox.drive engine.inbox.keys bytes message

lemma Step.opens (step : Step W lent lossy work next) (sync : Lockstep W work)
    (opens : work.engine.Opens W bytes message) : next.engine.Opens W bytes message := by
  cases step with
  | ingest | ingestRotation | take | recognise | hold | forget | forgetRotation | lose | grant =>
    exact opens
  | suppress | suppressRotation =>
    unfold Engine.Opens at opens ⊢
    simpa only [Engine.suppress, suppress_drive, suppress_keys] using opens
  | commit hc =>
    rw [hc.engine_eq]
    exact opens
  | @land engine staged batch =>
    have noted := noteCommittedFacts_noted (W := W) (recordCommit W engine batch) batch
    have hs : (landed W engine staged batch).inbox.drive = engine.inbox.drive := by
      simp only [landed, mirror]
      rw [noted.inbox]
      rfl
    unfold Engine.Opens at opens ⊢
    simp only [Work.idle]
    rw [hs]
    exact opens.mono (noted.grow sync.keys)
  | @reload engine =>
    have drive : engine.inbox.drive = engine.drive := sync.drive
    have keys : engine.inbox.keys = engine.epochKeys := sync.keys
    unfold Engine.Opens at opens ⊢
    rwa [drive, keys] at opens

lemma Steps.opens (steps : Steps W lent lossy work next) (sync : Lockstep W work)
    (opens : work.engine.Opens W bytes message) : next.engine.Opens W bytes message := by
  induction steps with
  | refl => exact opens
  | tail ho hs ih => exact hs.opens (Steps.lockstep ho sync) ih

/-- A message comes from a lent control frame of that id. -/
def Sourced (W : Wire) (lent : Set Bytes) (engine : Engine P) (id : ControlMessageId)
    (message : Message) : Prop :=
  ∃ bytes ∈ lent, ControlFramed bytes ∧ W.messageId bytes = id ∧ engine.Opens W bytes message

lemma Step.sourced (step : Step W lent lossy work next) (sync : Lockstep W work) {id message}
    (source : Sourced W lent work.engine id message) : Sourced W lent next.engine id message := by
  obtain ⟨bytes, hm, hf, hn, ho⟩ := source
  exact ⟨bytes, hm, hf, hn, step.opens sync ho⟩

/-- Every message in hand or held comes from a lent frame. -/
structure Provenance (W : Wire) (lent : Set Bytes) (work : Work P) : Prop where
  hand : ∀ {id message}, work.hand = some (id, message) → Sourced W lent work.engine id message
  held : ∀ {id entry}, work.engine.pending.held id = some entry →
    Sourced W lent work.engine id entry.message

lemma Step.provenance (step : Step W lent lossy work next) (sync : Lockstep W work)
    (source : Provenance W lent work) : Provenance W lent next := by
  have carry : ∀ {id message}, Sourced W lent work.engine id message →
      Sourced W lent next.engine id message := fun hs => step.sourced sync hs
  cases step with
  | ingest hm framed ho =>
    refine ⟨fun hh => ?_, fun hf => carry (source.held hf)⟩
    cases hh
    exact ⟨_, hm, framed, rfl, ho⟩
  | take takes =>
    refine ⟨fun hh => ?_, fun {id entry} hf => ?_⟩
    · cases hh
      exact carry (source.held takes.here)
    · simp only [takes.held, update_apply] at hf
      split_ifs at hf
      exact carry (source.held hf)
  | hold hp holds =>
    refine ⟨fun hh => (by cases hh), fun {id entry} hf => ?_⟩
    simp only [holds.held, update_apply] at hf
    split_ifs at hf with hh
    · cases hf
      subst hh
      exact carry (source.hand rfl)
    · exact carry (source.held hf)
  | commit hc =>
    refine ⟨fun hh => (by cases hh), fun hf => carry (source.held ?_)⟩
    rw [hc.engine_eq] at hf
    exact hf
  | @land engine staged batch =>
    refine ⟨fun hh => (by cases hh), fun hf => carry (source.held ?_)⟩
    have noted := noteCommittedFacts_noted (W := W) (recordCommit W engine batch) batch
    simp only [Work.idle, landed, mirror] at hf
    rw [noted.views] at hf
    exact hf
  | ingestRotation | recognise | forget | suppress | forgetRotation | suppressRotation | lose
  | grant | reload => exact ⟨fun hh => (by cases hh), fun hf => carry (source.held hf)⟩

end Wyrd.Intake
