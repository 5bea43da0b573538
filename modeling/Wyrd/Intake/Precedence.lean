import Wyrd.Intake.Account

/-! # Which announcement a snapshot keeps

The first announcement accepted for a snapshot id fixes its identity fields, and
nothing ties it to the author of the body. An author's own announcement, signed
and bound to a canonical transition, is the one recorded exactly when no
announcement recorded before disagrees with it. That covers a first delivery, a
redelivery, and one that was held and committed by a flush.
-/

namespace Wyrd.Intake

open List

open Wyrd.Control Wyrd.Durable Wyrd.Keys Wyrd.Membership

variable {P : Primitives} {W : Wire} {lent : Set Bytes}

lemma Steps.durable_subset {lossy : Prop} {start : Engine P} {next : Work P}
    (steps : Steps W lent lossy (.idle start) next) : ∀ fact ∈ start.durable,
      fact ∈ next.engine.durable := by
  suffices both : (∀ fact ∈ start.durable, fact ∈ next.engine.durable) ∧
      ∀ fact ∈ start.durable, fact ∈ next.facts from both.1
  induction steps with
  | refl => exact ⟨fun _ => id, fun _ => mem_append_left _⟩
  | tail _ step ih =>
    have keep : ∀ facts more : List Fact, (∀ fact ∈ start.durable, fact ∈ facts) →
        ∀ fact ∈ start.durable, fact ∈ facts ++ more :=
      fun _ _ among fact member => mem_append_left _ (among fact member)
    exact @Step.onFacts P W lent lossy _ _ step
      (fun facts => ∀ fact ∈ start.durable, fact ∈ facts) ih.1 ih.2 fun more _ => keep _ more ih.2

section Accept

variable {engine next : Engine P} {store : Store} {sender : DeviceId} {a : SnapshotAnnouncement}
  {budget spent : IntakeBudget} {outcome : Outcome}

/-- An author's announcement that is acknowledged was known already, forks from
    the known one, or is recorded. -/
lemma commitAction_announcement {id held} (able : Announceable P W engine a)
    (ran : commitAction W store engine sender id (.snapshotAnnouncement a) held budget =
      (next, spent, .ok outcome)) (acked : outcome.disposition = .ack)
    (kept : held.isSome → ∀ facts, (messageAction W engine (fun _ => none) id
      (.snapshotAnnouncement a) sender budget).2.2 ≠ .ok (.commit facts)) :
    next.announcements a.snapshot = some a ∨
      ∃ known, engine.announcements a.snapshot = some known ∧ ¬ known.Agrees a := by
  rcases judged : announcementAction W engine (fun _ => none) id a sender budget with
    ⟨staged, result⟩
  simp only [commitAction, messageAction, judged] at ran kept
  have announces := judged ▸ @announcementAction_announces P W engine (fun _ => none) id sender
    budget a
  cases announces with
  | commit _ _ room =>
    cases held with
    | some => exact absurd rfl (kept rfl _)
    | none =>
      simp only [Option.isSome_none, Bool.false_eq_true, if_false, reduceCtorEq, commitMessage,
        length_cons, length_nil, Nat.zero_add, Nat.reduceAdd, admit_of_wouldAdmit room,
        isTransition] at ran
      rw [landBatch_ok ran, landed_announcements]
      exact .inl (by simp)
  | same known =>
    cases ran
    exact .inl (by simpa [knownAnnouncement] using known)
  | shed =>
    cases ran
    cases acked
  | refuse fork =>
    obtain ⟨known, found, fork⟩ := fork able
    exact .inr ⟨known, by simpa [knownAnnouncement] using found, fork⟩
  | defer refused => exact absurd able refused
  | unclassified => cases ran

end Accept

/-- In every run in which no held message is taken back when it would commit, an
    author's announcement that is acknowledged and not suppressed before is the
    one recorded up to routing exactly when every announcement recorded for the
    snapshot before agrees with it. -/
theorem announcement_kept_iff {store : Store} {drive : DriveId} {device : DeviceId}
    {facts : List Fact} {start : Engine P} {passes : List Pass}
    (opened : openWithStore P W store drive device facts = .ok start)
    (distinct : Set.InjOn W.messageId (lentFrames W device passes))
    (unmarked : ∀ bytes ∈ lentFrames W device passes, .controlMessage (W.messageId bytes) ∉ facts)
    (recovers : ∀ h ∈ (drains W passes start).1, h.Recovers)
    (kept : ∀ h ∈ (drains W passes start).1, ¬ h.TakesBack W) :
    ∀ h ∈ (drains W passes start).1, ∀ bytes a outcome,
      openFromSender W device h.envelope = some bytes → ControlFramed bytes →
      h.before.Opens W bytes (.snapshotAnnouncement a) → Announceable P W h.before a →
      W.messageId bytes ∉ h.before.inbox.suppressed →
      h.outcome = .ok outcome → outcome.disposition = .ack →
      ((∃ recorded, h.after.announcements a.snapshot = some recorded ∧ recorded.Agrees a) ↔
        ∀ b, .announcement b ∈ h.before.durable → b.snapshot = a.snapshot → b.Agrees a) := by
  intro h member bytes a outcome frame framed opens able fresh fine acked
  obtain ⟨ran, lends, ⟨sound, accounted, _⟩, sound', _⟩ :=
    drains_accounted opened distinct unmarked recovers kept h member
  obtain rfl := (openWithStore_ok opened).device
  have steps : Steps W Set.univ (h.TakesBack W) (.idle h.before) (.idle h.after) :=
    Handover.steps ran sound (fun _ _ => trivial) (recovers h member)
  -- whatever is recorded for the snapshot afterwards agrees with all that is on disk
  have agrees : ∀ b, .announcement b ∈ h.after.durable →
      ∃ recorded, h.after.announcements b.snapshot = some recorded ∧ recorded.Agrees b := by
    intro b written
    have found := sound'.lockstep.agree (mem_append_left _ written)
    simpa [knownAnnouncement, Work.idle] using found
  constructor
  · rintro ⟨recorded, found, agree⟩ b written same
    obtain ⟨known, found', agree'⟩ := agrees b (Steps.durable_subset steps _ written)
    rw [same, found] at found'
    cases found'
    exact agree'.symm.trans agree
  · intro agree
    have forked : ¬ ∃ known, h.before.announcements a.snapshot = some known ∧
        ¬ known.Agrees a := by
      rintro ⟨known, found, fork⟩
      obtain ⟨written, same⟩ := sound.lockstep.announced found
      rw [Work.facts, Work.idle, append_nil] at written
      exact fork (agree known written same)
    have here : openFromSender W h.before.device h.envelope = some bytes := by
      rw [show h.before.device = start.device from sound.device, frame]
    obtain ⟨spent, ran⟩ := ran
    rw [fine] at ran
    unfold acceptEnvelope at ran
    rw [here] at ran
    simp only [if_neg framed] at ran
    have lent : bytes ∈ lentFrames W start.device passes := ⟨h.envelope, lends, frame⟩
    cases acceptControl_settled lent framed distinct sound accounted
      (fun back => kept h member ⟨bytes, here, back⟩) ran acked with
    | suppressed cached => exact absurd cached fresh
    | recorded opens' recorded same =>
      obtain rfl := Opens.unique opens opens'
      exact agrees a (same ▸ recorded)
    | @judged message held taken opens' takes unread judged =>
      obtain rfl := Opens.unique opens opens'
      have able' : Announceable P W taken a := by
        rw [takes.views]
        exact ⟨able.bound, able.canonical, able.writer, able.signed⟩
      rcases commitAction_announcement able' judged acked unread with found | fork
      · exact ⟨a, found, .refl _⟩
      · rw [takes.views] at fork
        exact absurd fork forked

section Sample

/-- The body that device 1 authored under the announced id. -/
def announcedBody : Snapshot := Authorization.sampleSnapshot [] (sampleId 21) 2 77 (Nat.zero_le _)

/-- Device 2 announces first, under its own name; then the author does. -/
def foreignPasses : List Pass :=
  [⟨sampleStore, [announcementMail]⟩, ⟨sampleStore, [mail 1 (sampleId 1) [0, 202]]⟩]

/-- The announcement is bound to the canonical transition 21. -/
lemma announced_able {engine : Engine samplePrimitives} {t : MembershipTransition}
    (found : engine.log.transition (sampleId 21) = some t ∧ t.epoch = 2)
    (canonical : engine.log.status (sampleId 21) = some .canonical)
    (readers : engine.log.readersOf (sampleId 21) = some ∅) (author : DeviceId) :
    Announceable samplePrimitives busyWire engine (announced author) := by
  refine ⟨⟨t, found⟩, canonical, fun others state => ?_, rfl⟩
  cases readers.symm.trans state
  exact Finset.notMem_empty _

/-- The author's announcement is settled as a fork, and the other stays. -/
theorem foreign_announcement_kept :
    ∃ start h, openSample busyWire pairFacts = .ok start ∧
      (drains busyWire foreignPasses start).1.getLast? = some h ∧
      samplePrimitives.snapshotId announcedBody = (announced (sampleId 1)).snapshot ∧
      bodyAgrees (announced (sampleId 1)) announcedBody = true ∧
      Announceable samplePrimitives busyWire h.before (announced (sampleId 1)) ∧
      h.envelope.ciphertext = [0, 202] ∧ h.outcome.toOption = some .accepted ∧
      h.after.announcements (sampleId 77) = some (announced (sampleId 2)) ∧
      ¬ (announced (sampleId 2)).Agrees (announced (sampleId 1)) := by
  obtain ⟨start, opened, h, last, ⟨t, found, epoch⟩, canonical, readers, rest⟩ : ∃ start,
      openSample busyWire pairFacts = .ok start ∧
      ∃ h ∈ (drains busyWire foreignPasses start).1.getLast?,
      (∃ t ∈ h.before.log.transition (sampleId 21), t.epoch = 2) ∧
      h.before.log.status (sampleId 21) = some .canonical ∧
      h.before.log.readersOf (sampleId 21) = some ∅ ∧
      h.envelope.ciphertext = [0, 202] ∧ h.outcome.toOption = some .accepted ∧
      h.after.announcements (sampleId 77) = some (announced (sampleId 2)) := by decide +kernel
  exact ⟨start, h, opened, last, by decide +kernel, by decide +kernel,
    announced_able ⟨found, epoch⟩ canonical readers _, rest.1, rest.2.1, rest.2.2,
    by decide +kernel⟩

/-- An announcement held on the contested transition, committed by the flush of
    the resolution and then redelivered. -/
theorem announcement_kept_iff_quiet :
    ∃ start h, openSample busyWire contestedFacts = .ok start ∧
      (drains busyWire quietPasses start).1.getLast? = some h ∧
      Announceable samplePrimitives busyWire h.before (announced (sampleId 2)) ∧
      h.outcome = .ok .duplicate ∧
      ((∃ recorded, h.after.announcements (sampleId 77) = some recorded ∧
          recorded.Agrees (announced (sampleId 2))) ↔
        ∀ b, .announcement b ∈ h.before.durable → b.snapshot = sampleId 77 →
          b.Agrees (announced (sampleId 2))) := by
  obtain ⟨start, opened, h, last, ⟨t, found, epoch⟩, canonical, readers, sent, outcome, drive,
      keyed, fresh⟩ : ∃ start,
      openSample busyWire contestedFacts = .ok start ∧
      ∃ h ∈ (drains busyWire quietPasses start).1.getLast?,
      (∃ t ∈ h.before.log.transition (sampleId 21), t.epoch = 2) ∧
      h.before.log.status (sampleId 21) = some .canonical ∧
      h.before.log.readersOf (sampleId 21) = some ∅ ∧
      openFromSender busyWire (sampleId 3) h.envelope = some [0, 200] ∧
      h.outcome.toOption = some .duplicate ∧ h.before.inbox.drive = sampleId 0 ∧
      (h.before.inbox.keys 2).isSome ∧ 200 ∉ h.before.inbox.suppressed := by
    decide +kernel
  obtain ⟨start', opened', _, distinct, unmarked, recovers, kept⟩ := quiet_run
  cases opened.symm.trans opened'
  have able := announced_able ⟨found, epoch⟩ canonical readers (sampleId 2)
  have settled : h.outcome = .ok .duplicate := by
    cases met : h.outcome with
    | error => simp [met, Except.toOption] at outcome
    | ok => simpa [met, Except.toOption] using outcome
  obtain ⟨key, keyed⟩ := Option.isSome_iff_exists.mp keyed
  have opens : h.before.Opens busyWire [0, 200] (.snapshotAnnouncement (announced (sampleId 2))) :=
    ⟨_, key, rfl, rfl, drive.symm, keyed, rfl⟩
  exact ⟨start, h, opened, last, able, settled, announcement_kept_iff opened distinct unmarked
    recovers kept h (mem_of_getLast? last) [0, 200] _ .duplicate sent (by decide) opens able fresh
    settled rfl⟩

end Sample

end Wyrd.Intake
