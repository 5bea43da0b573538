import Wyrd.Authorization.Resume
import Wyrd.Intake.Lockstep

/-! # Runs of drain passes

Drain passes one after another, seen as a chain of handovers. An invariant of
the moves holds before and after every handover of a run, as long as every
failing handover can fall back to its committed facts.
-/

namespace Wyrd.Intake

open List

open Wyrd.Control Wyrd.Durable Wyrd.Keys Wyrd.Membership PendingQueue

variable {P : Primitives} {W : Wire}

namespace Handover

def Ran (W : Wire) (h : Handover P) : Prop :=
  ∃ spent, acceptEnvelope W h.store h.before h.envelope h.budget = (h.after, spent, h.outcome)

/-- If the handover failed, the facts it left on disk read back. -/
def Recovers (h : Handover P) : Prop :=
  ∀ error, h.outcome = .error error → Reloads P h.store h.after.drive h.after.device h.after.durable

/-- The handover takes a held message back and would commit it. -/
def TakesBack (W : Wire) (h : Handover P) : Prop :=
  ∃ bytes, openFromSender W h.before.device h.envelope = some bytes ∧
    TakenBack W h.before h.envelope.sender bytes h.budget

end Handover

/-- The envelope is lent in one of the passes. -/
def Lends (passes : List Pass) (envelope : MailboxEnvelope) : Prop :=
  ∃ pass ∈ passes, ∃ delivery ∈ pass.deliveries, delivery.envelope = envelope

/-- The frames a device opens from what the passes lend. -/
def lentFrames (W : Wire) (device : DeviceId) (passes : List Pass) : Set Bytes :=
  { bytes | ∃ envelope, Lends passes envelope ∧ openFromSender W device envelope = some bytes }

lemma drainLoop_rule {invariant : Engine P → Prop} {store deliveries offered budget engine}
    (initial : invariant engine)
    (hk : ∀ h ∈ (drainLoop W store deliveries offered budget engine).1, h.Ran W →
      (∃ delivery ∈ deliveries, delivery.envelope = h.envelope) → invariant h.before →
      invariant h.after) :
    (∀ h ∈ (drainLoop W store deliveries offered budget engine).1,
      h.Ran W ∧ (∃ delivery ∈ deliveries, delivery.envelope = h.envelope) ∧ invariant h.before ∧
        invariant h.after) ∧
      invariant (drainLoop W store deliveries offered budget engine).2 := by
  induction deliveries generalizing offered budget engine with
  | nil => exact ⟨nofun, initial⟩
  | cons delivery rest ih =>
    unfold drainLoop at hk ⊢
    split_ifs at hk ⊢ with again
    · exact ⟨nofun, initial⟩
    · rcases hok : acceptEnvelope W store engine delivery.envelope budget with
        ⟨next, spent, outcome⟩
      rw [hok] at hk
      cases outcome with
      | error error =>
        simp only [mem_singleton, forall_eq] at hk ⊢
        have ran : Handover.Ran W
            ⟨store, engine, budget, delivery.envelope, next, .error error⟩ := ⟨spent, hok⟩
        have lent : ∃ other ∈ delivery :: rest, other.envelope = delivery.envelope :=
          ⟨delivery, mem_cons_self, rfl⟩
        have after := hk ran lent initial
        exact ⟨⟨ran, lent, initial, after⟩, after⟩
      | ok outcome =>
        simp only [mem_cons, forall_eq_or_imp] at hk ⊢
        have ran : Handover.Ran W
            ⟨store, engine, budget, delivery.envelope, next, .ok outcome⟩ := ⟨spent, hok⟩
        have lent : ∃ other, (other = delivery ∨ other ∈ rest) ∧
            other.envelope = delivery.envelope := ⟨delivery, .inl rfl, rfl⟩
        have after := hk.1 ran lent initial
        obtain ⟨later, final⟩ := ih after fun h hm ran ⟨other, among, hs⟩ =>
          hk.2 h hm ran ⟨other, .inr among, hs⟩
        refine ⟨⟨⟨ran, lent, initial, after⟩, fun h hm => ?_⟩, final⟩
        obtain ⟨ran, ⟨other, among, hs⟩, hp, after⟩ := later h hm
        exact ⟨ran, ⟨other, .inr among, hs⟩, hp, after⟩

lemma drains_rule {invariant : Engine P → Prop} {passes engine} (initial : invariant engine)
    (hk : ∀ h ∈ (drains W passes engine).1, h.Ran W → Lends passes h.envelope →
      invariant h.before → invariant h.after) :
    (∀ h ∈ (drains W passes engine).1,
      h.Ran W ∧ Lends passes h.envelope ∧ invariant h.before ∧ invariant h.after) ∧
      invariant (drains W passes engine).2 := by
  induction passes generalizing engine with
  | nil => exact ⟨nofun, initial⟩
  | cons pass rest ih =>
    simp only [drains, mem_append] at hk ⊢
    obtain ⟨hf, hr⟩ := @drainLoop_rule P W invariant pass.store pass.deliveries ∅ .fresh
      engine initial fun h hm ran lent prior =>
        hk h (.inl hm) ran ⟨pass, mem_cons_self, lent⟩ prior
    obtain ⟨hl, final⟩ := ih hr fun h hm ran ⟨other, among, lent⟩ prior =>
      hk h (.inr hm) ran ⟨other, mem_cons_of_mem _ among, lent⟩ prior
    refine ⟨fun h hm => ?_, final⟩
    rcases hm with hh | ht
    · obtain ⟨ran, lent, prior, after⟩ := hf h hh
      exact ⟨ran, ⟨pass, mem_cons_self, lent⟩, prior, after⟩
    · obtain ⟨ran, ⟨other, among, lent⟩, prior, after⟩ := hl h ht
      exact ⟨ran, ⟨other, mem_cons_of_mem _ among, lent⟩, prior, after⟩

lemma Step.mono {lent : Set Bytes} {lossy lossy' : Prop} (weaker : lossy → lossy')
    {work next : Work P} (step : Step W lent lossy work next) : Step W lent lossy' work next := by
  cases step with
  | ingest hm framed opens => exact .ingest hm framed opens
  | ingestRotation hm framed => exact .ingestRotation hm framed
  | take takes => exact .take takes
  | commit hc => exact .commit hc
  | recognise hk => exact .recognise hk
  | hold plain hh => exact .hold plain hh
  | forget => exact .forget
  | suppress => exact .suppress
  | forgetRotation hm framed => exact .forgetRotation hm framed
  | suppressRotation hm framed => exact .suppressRotation hm framed
  | lose loses plain => exact .lose (weaker loses) plain
  | grant hm framed ho hg ruled => exact .grant hm framed ho hg ruled
  | land => exact .land
  | reload kept hr => exact .reload kept hr

lemma Step.identity {lossy : Prop} {work next : Work P} (step : Step W lent lossy work next) :
    next.engine.drive = work.engine.drive ∧ next.engine.device = work.engine.device := by
  cases step with
  | commit hc => rw [hc.engine_eq]; exact ⟨rfl, rfl⟩
  | @land engine staged batch =>
    have noted := noteCommittedFacts_noted (W := W) (recordCommit W engine batch) batch
    simp only [Work.idle, landed, mirror]
    rw [noted.views]
    exact ⟨rfl, rfl⟩
  | _ => exact ⟨rfl, rfl⟩

/-- What a run keeps of the engine it started from. -/
structure Sound (W : Wire) (start : Engine P) (work : Work P) : Prop where
  tidy : Tidy work.engine.pending
  lockstep : Lockstep W work
  drive : work.engine.drive = start.drive
  device : work.engine.device = start.device

lemma Step.sound {lent : Set Bytes} {lossy : Prop} {start : Engine P} {work next : Work P}
    (step : Step W lent lossy work next) (sound : Sound W start work) : Sound W start next :=
  ⟨step.tidy sound.tidy, step.lockstep sound.lockstep, step.identity.1.trans sound.drive,
    step.identity.2.trans sound.device⟩

lemma Handover.steps {h : Handover P} {start : Engine P} (ran : h.Ran W)
    (sound : Sound W start (.idle h.before))
    (lends : ∀ bytes, openFromSender W start.device h.envelope = some bytes → bytes ∈ lent)
    (mends : h.Recovers) : Steps W lent (h.TakesBack W) (.idle h.before) (.idle h.after) := by
  obtain ⟨spent, hok⟩ := ran
  have mends' : Intake.Recovers h.store (acceptEnvelope W h.store h.before h.envelope h.budget) := by
    rw [hok]
    exact mends
  have moves : Steps W lent (h.TakesBack W) (.idle h.before)
      (.idle (acceptEnvelope W h.store h.before h.envelope h.budget).1) :=
    acceptEnvelope_steps (fun bytes ho => lends bytes (by rw [← sound.device]; exact ho))
      sound.tidy mends'
  rw [hok] at moves
  exact moves

lemma drains_invariant {invariant : Work P → Prop} {passes : List Pass} {start : Engine P}
    {lossy : Prop}
    (hk : ∀ {work next}, Step W (lentFrames W start.device passes) lossy work next →
      Sound W start work → invariant work → invariant next)
    (sound : Sound W start (.idle start)) (initial : invariant (.idle start))
    (mends : ∀ h ∈ (drains W passes start).1, h.Recovers)
    (losses : ∀ h ∈ (drains W passes start).1, h.TakesBack W → lossy) :
    (∀ h ∈ (drains W passes start).1, h.Ran W ∧ Lends passes h.envelope ∧
      (Sound W start (.idle h.before) ∧ invariant (.idle h.before)) ∧
      (Sound W start (.idle h.after) ∧ invariant (.idle h.after))) ∧
      Sound W start (.idle (drains W passes start).2) ∧
      invariant (.idle (drains W passes start).2) := by
  refine @drains_rule P W (fun engine => Sound W start (.idle engine) ∧ invariant (.idle engine))
    passes start ⟨sound, initial⟩ ?_
  rintro h hm ran lends ⟨sound, hh⟩
  have moves : Steps W (lentFrames W start.device passes) (h.TakesBack W) (.idle h.before)
      (.idle h.after) :=
    Handover.steps ran sound (fun bytes ho => ⟨h.envelope, lends, ho⟩) (mends h hm)
  suffices he : ∀ {next}, Steps W _ (h.TakesBack W) (.idle h.before) next →
      Sound W start next ∧ invariant next from he moves
  intro next moves
  induction moves with
  | refl => exact ⟨sound, hh⟩
  | tail _ step ih =>
    have step' := step.mono (losses h hm)
    exact ⟨step.sound ih.1, hk step' ih.1 ih.2⟩

/-- What opening leaves: the views of the facts, and nothing seen or held but
    what they say. -/
structure Opened (W : Wire) (facts : List Fact) (drive : DriveId) (device : DeviceId)
    (start : Engine P) : Prop where
  drive : start.drive = drive
  device : start.device = device
  durable : start.durable = facts
  pending : start.pending = .new
  seen : start.inbox.seen = (seenIn facts).toFinset
  suppressed : start.inbox.suppressed = ∅
  suppressedOrder : start.inbox.suppressedOrder = []
  lockstep : Lockstep W (.idle start)

variable {store : Store} {drive : DriveId} {device : DeviceId} {facts : List Fact} {start : Engine P}

lemma openWithStore_read (ho : openWithStore P W store drive device facts = .ok start) :
    ∃ blank state rebuilt, blank = ⟨drive, device, facts, .new drive, fun _ => none,
        .new P drive, fun _ => none, fun _ => none, ∅, .new⟩ ∧
      replayAnnouncements P blank.durable = .ok state ∧
      rebuildFacts P W.toDigests drive facts device = .ok rebuilt ∧
      start = restoreEpochKeys W (reloaded W blank state) rebuilt.keyring := by
  unfold openWithStore resync at ho
  simp only at ho
  split_ifs at ho
  cases made : buildKeyring P drive facts device with
  | error => simp [made] at ho
  | ok =>
    cases rerun : replayAnnouncements P facts with
    | error => simp [made, rerun] at ho
    | ok state =>
      simp only [made, rerun] at ho
      cases rebuilt : rebuildFacts P W.toDigests drive facts device with
      | error => simp [rebuilt] at ho
      | ok rebuilt' =>
        simp only [rebuilt] at ho
        cases ho
        exact ⟨_, state, rebuilt', rfl, rerun, rfl, rfl⟩

lemma openWithStore_ok (ho : openWithStore P W store drive device facts = .ok start) :
    Opened W facts drive device start := by
  obtain ⟨blank, state, rebuilt, hs, hr, -, rfl⟩ := openWithStore_read ho
  have read := Lockstep.reload (W := W) hr
  subst hs
  exact ⟨rfl, rfl, rfl, rfl, rfl, rfl, rfl, { read with keys := rfl }⟩

lemma Opened.sound (ho : Opened W facts drive device start) : Sound W start (.idle start) where
  tidy := by
    simp only [Work.idle, ho.pending]
    exact ⟨coherent_new, fun hf => by simp [held_new] at hf⟩
  lockstep := ho.lockstep
  drive := rfl
  device := rfl

/-! ### A small mailbox

Frames of two bytes: the framing, and a number that picks what they carry. -/

section Sample

lemma Handover.recovers_of_ok {h : Handover P} (fine : h.outcome.isOk = true) : h.Recovers := by
  intro error hf
  simp [hf, Except.isOk, Except.toBool] at fine

def sampleWire (message : UInt8 → Option Message) (transition : Bytes → Option MembershipTransition)
    (capability : Bytes → Option Capability) (rotation : Option RotationDelivery) : Wire where
  manifestId _ := sampleId 0
  statementDigest _ evidence := (evidence.transitions.docs.map Id.raw).sum
  decrypt _ ciphertext := some ciphertext
  messageId bytes := bytes.foldl (fun id byte => id * 256 + Fin.ofNat (2 ^ 256) byte.toNat) 0
  decodeControl
    | [0, index] => .ok ⟨controlVersion, sampleId 0, ((message index).bind (·.payloadEpoch)).getD 1⟩
    | _ => .error .truncated
  openControl _
    | [0, index] => match message index with
      | some message => .ok message
      | none => .error .crypto
    | _ => .error .crypto
  decodeRotation
    | [2, _] => .ok ⟨rotationVersion, sampleId 0, 1⟩
    | _ => .error .truncated
  openRotation _ := match rotation with
    | some delivery => .ok delivery
    | none => .error .crypto
  decodeTransition := transition
  unwrap := capability
  controlKey secret _ epoch := secret + Fin.ofNat (2 ^ 256) epoch
  decodeEvidence bytes :=
    some ⟨.ofList _ (bytes.map (fun byte => sampleId byte.toNat)), .empty, .empty⟩
  decodeProof _ := some ⟨sampleId 1, 0⟩
  announcementChallenge _ _ := 0
  proofChallenge _ _ _ _ _ := 7
  epochBound decoded opened epoch named := by
    split at opened
    · split at opened <;> cases opened
      next carried =>
        cases decoded
        simp [carried, Option.mem_def.mp named]
    · cases opened

lemma sampleWire_opened {message transition capability rotation device envelope bytes}
    (ho : openFromSender (sampleWire message transition capability rotation) device envelope =
      some bytes) : bytes = envelope.ciphertext := by
  unfold openFromSender at ho
  simp only [sampleWire] at ho
  split_ifs at ho
  exact (Option.some.inj ho).symm

def sampleStore : Store := ⟨fun _ _ => .landed, fun _ => true⟩

/-- Device 3 opens its drive over these facts. -/
def openSample (W : Wire) (facts : List Fact) : Except EngineError (Engine samplePrimitives) :=
  openWithStore samplePrimitives W sampleStore (sampleId 0) (sampleId 3) facts

def pairAdmission : MembershipTransition where
  epoch := 2
  prev := some (sampleId 10)
  resolves := []
  changes := [.admitMember ⟨sampleId 2, sampleId 2⟩, .admitMember ⟨sampleId 3, sampleId 3⟩]
  membersRoot := 24
  ownersRoot := 5
  readersRoot := 2
  author := sampleId 1
  signature := 21
  encodable := rfl

def pairRotation : MembershipTransition where
  epoch := 3
  prev := some (sampleId 21)
  resolves := []
  changes := [.rotate]
  membersRoot := 24
  ownersRoot := 5
  readersRoot := 2
  author := sampleId 1
  signature := 31
  encodable := .refl true

def pairGrant (transition : TransitionId) (secrets : List EpochSecret) : Capability :=
  ⟨sampleId 0, sampleId 3, sampleId 3, transition, secrets⟩

def pairFacts : List Fact :=
  [.transition sampleGenesis, .transition pairAdmission,
    .capability (pairGrant (sampleId 21) [101, 102])]

def mail (id : Nat) (sender : DeviceId) (frame : Bytes) : Delivery :=
  ⟨id, sender, sampleId 3, frame⟩

end Sample

end Wyrd.Intake
