import Wyrd.Intake.Machine

/-! # Accepting a delivery is a run of moves

Each function of the intake is followed down to the moves it makes. The only
move that loses a message is the one a redelivered held message takes when it
has become committable; `TakenBack` is that case. A failure falls back to the
committed facts, which is one more move as long as they read back.
-/

namespace Wyrd.Intake

open Wyrd.Control Wyrd.Durable Wyrd.Keys Wyrd.Membership PendingQueue

variable {P : Primitives} {W : Wire} {lent : Set Bytes} {lossy : Prop}

structure Reloads (P : Primitives) (store : Store) (drive : DriveId) (device : DeviceId)
    (facts : List Fact) : Prop where
  loads : store.loads facts = true
  keyring : ∃ ring, buildKeyring P drive facts device = .ok ring
  replays : ∃ state, replayAnnouncements P facts = .ok state

variable {store : Store} {engine : Engine P}

lemma Reloads.resync (reloads : Reloads P store engine.drive engine.device engine.durable) :
    ∃ state, replayAnnouncements P engine.durable = .ok state ∧
      resync W store engine = (reloaded W engine state, .ok ()) := by
  obtain ⟨ring, hm⟩ := reloads.keyring
  obtain ⟨state, rerun⟩ := reloads.replays
  refine ⟨state, rerun, ?_⟩
  simp [Intake.resync, reloads.loads, hm, rerun]

lemma resync_durable (store : Store) (engine : Engine P) :
    (resync W store engine).1.drive = engine.drive ∧
      (resync W store engine).1.device = engine.device ∧
      (resync W store engine).1.durable = engine.durable ∧
      (resync W store engine).1.epochKeys = engine.epochKeys := by
  unfold resync
  split_ifs
  · cases buildKeyring P engine.drive engine.durable engine.device with
    | error => exact ⟨rfl, rfl, rfl, rfl⟩
    | ok => cases replayAnnouncements P engine.durable <;> exact ⟨rfl, rfl, rfl, rfl⟩
  · exact ⟨rfl, rfl, rfl, rfl⟩

/-- Whenever accepting fails, the facts it leaves on disk read back. -/
def Recovers (store : Store) (accepted : Accepted P) : Prop :=
  ∀ error, accepted.2.2 = .error error →
    Reloads P store accepted.1.drive accepted.1.device accepted.1.durable

variable {budget : IntakeBudget}

lemma Recovers.abandon (mends : Recovers store (abandon W store engine budget error)) :
    Reloads P store engine.drive engine.device engine.durable := by
  have reloads := mends error rfl
  obtain ⟨drive, hd, hs, -⟩ := resync_durable (W := W) store engine
  simp only [Intake.abandon] at reloads
  rwa [drive, hd, hs] at reloads

lemma abandon_steps (mends : Recovers store (abandon W store engine budget error)) :
    Steps W lent lossy ⟨engine, staged, batch, hand⟩
      (.idle (abandon W store engine budget error).1) := by
  obtain ⟨state, hr, result⟩ := mends.abandon.resync (W := W)
  refine .single ?_
  simp only [abandon, result]
  exact .reload (.inl rfl) hr

def Flush.work (flush : Flush P) : Work P := ⟨flush.engine, flush.staged, flush.facts, none⟩

variable {flush : Flush P}

lemma landBatch_steps (mends : Recovers store (landBatch W store flush)) :
    Steps W lent lossy flush.work (.idle (landBatch W store flush).1) := by
  revert mends
  unfold landBatch commitFacts
  cases store.commit flush.engine.durable flush.facts with
  | refused => exact abandon_steps
  | landed => exact fun _ => .single .land
  | unreported =>
    intro mends
    obtain ⟨state, hr, result⟩ := mends.abandon.resync (W := W)
    refine .single ?_
    simp only [abandon, result]
    exact .reload (.inr rfl) hr

lemma landBatch_ok (hok : landBatch W store flush = (next, spent, .ok outcome)) :
    next = landed W flush.engine flush.staged flush.facts := by
  unfold landBatch commitFacts at hok
  cases answer : store.commit flush.engine.durable flush.facts with
  | landed =>
    simp only [answer] at hok
    cases hok
    rfl
  | refused | unreported => simp [answer, abandon] at hok

variable {sender : DeviceId}

lemma admit_of_wouldAdmit (afford : budget.wouldAdmit sender count = true) :
    budget.admitFacts sender count = some (budget.charge sender count) :=
  if_pos afford

lemma flushEntry_step (plain : isTransition entry.message = false)
    (back : ∀ wait, HoldsEntry flush.engine.pending
      (flush.engine.pending.restore seq { entry with wait := wait }) { entry with wait := wait })
    (ran : flushEntry W sender seq entry flush = (next, result)) :
    Step W lent lossy ⟨flush.engine, flush.staged, flush.facts, some (entry.id, entry.message)⟩
      next.work ∧ flush.facts <+: next.facts := by
  unfold flushEntry at ran
  rcases ruling : messageAction W flush.engine flush.staged entry.id entry.message sender
    flush.budget with ⟨engine, staged, verdict⟩
  have judged := messageAction_judged ruling
  rw [ruling] at ran
  cases verdict with
  | error =>
    obtain ⟨rfl, rfl, _⟩ := judged
    cases ran
    exact ⟨.hold plain (back entry.wait), List.prefix_rfl⟩
  | ok action =>
    cases action with
    | commit =>
      obtain ⟨fact, hc, rfl, ha⟩ := judged
      simp only [List.length_cons, List.length_nil, Nat.zero_add, Nat.reduceAdd,
        admit_of_wouldAdmit ha] at ran
      cases ran
      exact ⟨.commit hc, List.prefix_append _ _⟩
    | duplicate =>
      obtain ⟨rfl, rfl, hk⟩ := judged
      cases ran
      exact ⟨.recognise hk, List.prefix_rfl⟩
    | shed =>
      obtain ⟨rfl, rfl⟩ := judged
      cases ran
      exact ⟨.hold plain (back entry.wait), List.prefix_rfl⟩
    | suppress =>
      obtain ⟨rfl, rfl⟩ := judged
      cases ran
      exact ⟨.suppress, List.prefix_rfl⟩
    | defer wait =>
      obtain ⟨rfl, rfl, _⟩ := judged
      cases ran
      exact ⟨.hold plain (back wait), List.prefix_rfl⟩

lemma flushLoop_steps (tidy : Tidy flush.engine.pending)
    (ran : flushLoop W sender seqs flush = (next, result)) :
    Steps W lent lossy flush.work next.work ∧ flush.facts <+: next.facts := by
  induction seqs generalizing flush with
  | nil =>
    cases ran
    exact ⟨.refl, List.prefix_rfl⟩
  | cons seq rest ih =>
    unfold flushLoop at ran
    cases hf : flush.engine.pending.removeSeq seq with
    | none =>
      simp only [hf] at ran
      exact ih tidy ran
    | some pair =>
      obtain ⟨entry, queue⟩ := pair
      obtain ⟨takes, back⟩ := tidy.coherent.removeSeq hf
      let taken : Flush P := { flush with engine := { flush.engine with pending := queue } }
      simp only [hf] at ran
      rcases entered : flushEntry W sender seq entry taken with ⟨reached, verdict⟩
      have entry_step : Step W lent lossy ⟨taken.engine, _, _, _⟩ reached.work ∧ _ :=
        flushEntry_step (tidy.noTransition takes.here) back entered
      have first : Steps W lent lossy flush.work reached.work :=
        (Relation.ReflTransGen.single (.take takes)).tail entry_step.1
      rw [entered] at ran
      match verdict, ran with
      | .ok true, ran =>
        obtain ⟨hl, hg⟩ := ih (first.tidy tidy) ran
        exact ⟨first.trans hl, entry_step.2.trans hg⟩
      | .ok false, ran =>
        cases ran
        exact ⟨first, entry_step.2⟩
      | .error error, ran =>
        cases ran
        exact ⟨first, entry_step.2⟩

lemma flush_land_ok (tidy : Tidy flush.engine.pending)
    (ran : (match flushPending W committed sender flush with
      | (flush, .error error) => abandon W store flush.engine flush.budget error
      | (flush, .ok ()) => landBatch W store flush) = (next, spent, .ok outcome)) :
    ∀ fact ∈ flush.facts, fact ∈ next.durable := by
  rcases flushed : flushPending W committed sender flush with ⟨reached, result⟩
  rw [flushed] at ran
  cases result with
  | error => simp [abandon] at ran
  | ok =>
    intro fact hm
    have grow := (@flushLoop_steps P W Set.univ True _ _ _ _ _ tidy flushed).2
    rw [landBatch_ok ran, landed_durable]
    exact List.mem_append_right _ (grow.subset hm)

lemma flush_land_steps (tidy : Tidy flush.engine.pending)
    (ran : (match flushPending W committed sender flush with
      | (flush, .error error) => abandon W store flush.engine flush.budget error
      | (flush, .ok ()) => landBatch W store flush) = accepted)
    (mends : Recovers store accepted) : Steps W lent lossy flush.work (.idle accepted.1) := by
  rcases flushed : flushPending W committed sender flush with ⟨next, result⟩
  have first : Steps W lent lossy flush.work next.work := (flushLoop_steps tidy flushed).1
  rw [flushed] at ran
  cases result with
  | error =>
    subst ran
    exact first.trans (abandon_steps mends)
  | ok =>
    subst ran
    exact first.trans (landBatch_steps mends)

variable {id : ControlMessageId}

lemma commitAction_steps {message held} (tidy : Tidy engine.pending)
    (plain : held.isSome → isTransition message = false) (loses : held.isSome → ∀ facts,
      (messageAction W engine (fun _ => none) id message sender budget).2.2 = .ok (.commit facts) →
      lossy) (mends : Recovers store (commitAction W store engine sender id message held budget)) :
    Steps W lent lossy ⟨engine, fun _ => none, [], some (id, message)⟩
      (.idle (commitAction W store engine sender id message held budget).1) := by
  revert mends
  unfold commitAction
  rcases ruling : messageAction W engine (fun _ => none) id message sender budget with
    ⟨engine', staged, verdict⟩
  have judged := messageAction_judged ruling
  rw [ruling] at loses
  cases verdict with
  | error =>
    obtain ⟨rfl, rfl, hq⟩ := judged
    cases held with
    | none => exact abandon_steps
    | some =>
      intro mends
      exact (Relation.ReflTransGen.single (.hold hq (tidy.coherent.insert _))).trans
        (abandon_steps mends)
  | ok action =>
    cases action with
    | duplicate =>
      obtain ⟨rfl, rfl, known⟩ := judged
      exact fun _ => .single (.recognise known)
    | shed =>
      obtain ⟨rfl, rfl⟩ := judged
      exact fun _ => .single .forget
    | suppress =>
      obtain ⟨rfl, rfl⟩ := judged
      exact fun _ => .single .suppress
    | defer =>
      obtain ⟨rfl, rfl, hq⟩ := judged
      simp only
      split_ifs
      · exact fun _ => .single .forget
      · exact fun _ => .single (.hold hq (tidy.coherent.insert _))
    | commit =>
      obtain ⟨fact, commits, rfl, ha⟩ := judged
      have gathered : Steps W lent lossy ⟨engine, fun _ => none, [], some (id, message)⟩
          ⟨engine', staged, [fact, .controlMessage id], none⟩ := .single (.commit commits)
      cases held with
      | some =>
        have hs : engine' = engine := by
          cases commits with
          | transition => cases plain rfl
          | _ => rfl
        subst hs
        exact fun _ => .single (.lose (loses rfl _ rfl) (plain rfl))
      | none =>
        simp only [Option.isSome_none, Bool.false_eq_true, if_false, reduceCtorEq,
          commitMessage, List.length_cons, List.length_nil, Nat.zero_add, Nat.reduceAdd,
          admit_of_wouldAdmit ha]
        split_ifs
        · exact fun mends =>
            gathered.trans (flush_land_steps (gathered.tidy tidy) rfl mends)
        · exact fun mends => gathered.trans (landBatch_steps mends)

variable {bytes : Bytes}

lemma ingest_ok {inbox : ControlInbox} (fed : inbox.ingest W bytes = .ok (next, report)) :
    (∀ {id message}, report = .accepted id message → next = inbox.remember (W.messageId bytes) ∧
      id = W.messageId bytes ∧ Opens W inbox.drive inbox.keys bytes message) ∧
    (report = .duplicate → W.messageId bytes ∈ inbox.suppressed ∨ W.messageId bytes ∈ inbox.seen) := by
  unfold ControlInbox.ingest at fed
  cases decoded : W.decodeControl bytes with
  | error => simp [decoded] at fed
  | ok header =>
    cases keyed : inbox.keys header.epoch with
    | none =>
      simp only [decoded, keyed] at fed
      split_ifs at fed
    | some key =>
      cases ho : W.openControl key bytes with
      | error =>
        simp only [decoded, keyed, ho] at fed
        split_ifs at fed with _ _ hidden
        exact ⟨by cases fed; nofun, fun _ => .inl hidden⟩
      | ok =>
        simp only [decoded, keyed, ho] at fed
        split_ifs at fed with hv drive hidden seen <;> cases fed
        · exact ⟨nofun, fun _ => .inl hidden⟩
        · exact ⟨nofun, fun _ => .inr seen⟩
        · refine ⟨fun hok => ?_, nofun⟩
          cases hok
          exact ⟨rfl, rfl, header, key, decoded, not_not.mp hv, not_not.mp drive, keyed, ho⟩

lemma ingestRotation_accepted {inbox : ControlInbox}
    (fed : inbox.ingestRotation W bytes = .ok (next, .accepted id delivery)) :
    next = inbox.remember (W.messageId bytes) ∧ id = W.messageId bytes ∧
      W.openRotation bytes = .ok delivery := by
  unfold ControlInbox.ingestRotation at fed
  cases decoded : W.decodeRotation bytes with
  | error => simp [decoded] at fed
  | ok =>
    cases ho : W.openRotation bytes with
    | error =>
      simp only [decoded, ho] at fed
      split_ifs at fed
    | ok =>
      simp only [decoded, ho] at fed
      split_ifs at fed <;> cases fed
      exact ⟨rfl, rfl, rfl⟩

/-- A held message is lent again, taken back from the queue, and would commit. -/
structure TakenBack (W : Wire) (engine : Engine P) (sender : DeviceId) (bytes : Bytes)
    (budget : IntakeBudget) : Prop where
  framed : ControlFramed bytes
  duplicate : ∃ inbox, engine.inbox.ingest W bytes = .ok (inbox, .duplicate)
  committable : ∃ entry, (engine.takePending (W.messageId bytes)).1 = some entry ∧
    ∃ facts, (messageAction W (engine.takePending (W.messageId bytes)).2 (fun _ => none)
      (W.messageId bytes) entry.message sender budget).2.2 = .ok (.commit facts)

lemma acceptControl_steps (hm : bytes ∈ lent) (framed : ControlFramed bytes)
    (tidy : Tidy engine.pending)
    (mends : Recovers store (acceptControl W store engine sender bytes budget)) :
    Steps W lent (TakenBack W engine sender bytes budget) (.idle engine)
      (.idle (acceptControl W store engine sender bytes budget).1) := by
  revert mends
  unfold acceptControl
  cases fed : engine.inbox.ingest W bytes with
  | error error => cases error <;> exact fun _ => .refl
  | ok report =>
    obtain ⟨inbox, report⟩ := report
    cases report with
    | accepted =>
      obtain ⟨rfl, rfl, ho⟩ := (ingest_ok fed).1 rfl
      intro mends
      exact (Relation.ReflTransGen.single (.ingest hm framed ho)).trans
        (commitAction_steps tidy nofun nofun mends)
    | duplicate =>
      have cut := tidy.coherent.remove (W.messageId bytes)
      cases hh : engine.pending.held (W.messageId bytes) with
      | none =>
        simp only [hh] at cut
        simp only [Engine.takePending, cut]
        exact fun _ => .refl
      | some entry =>
        simp only [hh] at cut
        obtain ⟨queue, cut, takes⟩ := cut
        have hn := tidy.coherent.id_of_held hh
        have taken : engine.takePending (W.messageId bytes) =
            (some entry, { engine with pending := queue }) := by
          simp only [Engine.takePending, cut]
        simp only [taken]
        intro mends
        have first : Steps W lent (TakenBack W engine sender bytes budget) (.idle engine)
            ⟨{ engine with pending := queue }, fun _ => none, [],
              some (W.messageId bytes, entry.message)⟩ :=
          hn ▸ .single (.take takes)
        refine first.trans (commitAction_steps (tidy.takes takes)
          (fun _ => tidy.noTransition hh) (fun _ facts hc => ?_) mends)
        exact ⟨framed, ⟨_, fed⟩, entry, by rw [taken], facts, by rw [taken]; exact hc⟩

lemma acceptRotation_steps (hm : bytes ∈ lent) (framed : ¬ ControlFramed bytes)
    (tidy : Tidy engine.pending)
    (mends : Recovers store (acceptRotation W store engine sender bytes budget)) :
    Steps W lent lossy (.idle engine)
      (.idle (acceptRotation W store engine sender bytes budget).1) := by
  revert mends
  unfold acceptRotation
  cases hf : engine.inbox.ingestRotation W bytes with
  | error => exact fun _ => .refl
  | ok report =>
    obtain ⟨inbox, report⟩ := report
    cases report with
    | duplicate => exact fun _ => .refl
    | accepted id delivery =>
      obtain ⟨rfl, rfl, ho⟩ := ingestRotation_accepted hf
      let seen : Engine P :=
        { engine with inbox := engine.inbox.remember (W.messageId bytes) }
      have first : Steps W lent lossy (.idle engine) (.idle seen) :=
        .single (.ingestRotation hm framed)
      simp only [rotationCommit]
      cases grant : openGrant W seen delivery with
      | none =>
        simp only
        exact fun _ => first.tail (.suppressRotation hm framed)
      | some found =>
        obtain ⟨t, cap, proof⟩ := found
        simp only
        cases hr : judgeGrant engine.drive (engine.log.observe t) t cap proof sender with
        | unauthorized => exact fun _ => first.tail (.suppressRotation hm framed)
        | gap => exact fun _ => first.tail (.forgetRotation hm framed)
        | unclassified => exact fun _ => first
        | granted =>
          cases ha : budget.admitFacts sender 3 with
          | none => exact fun _ => first.tail (.forgetRotation hm framed)
          | some =>
            intro mends
            have granted : Steps W lent lossy _ _ :=
              first.tail (.grant hm framed ho grant hr)
            exact granted.trans (flush_land_steps (granted.tidy tidy) rfl mends)

lemma acceptEnvelope_steps
    (ho : ∀ bytes, openFromSender W engine.device envelope = some bytes → bytes ∈ lent)
    (tidy : Tidy engine.pending)
    (mends : Recovers store (acceptEnvelope W store engine envelope budget)) :
    Steps W lent (∃ bytes, openFromSender W engine.device envelope = some bytes ∧
        TakenBack W engine envelope.sender bytes budget)
      (.idle engine) (.idle (acceptEnvelope W store engine envelope budget).1) := by
  revert mends
  unfold acceptEnvelope
  cases open_ : openFromSender W engine.device envelope with
  | none => exact fun _ => .refl
  | some =>
    simp only
    split_ifs with framed
    · exact acceptRotation_steps (ho _ open_) (not_not.mpr framed) tidy
    · simp only [Option.some.injEq, exists_eq_left']
      exact acceptControl_steps (ho _ open_) framed tidy

end Wyrd.Intake
