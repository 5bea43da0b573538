import Wyrd.Intake.Runs

/-! # No message is acknowledged and lost

Every control frame whose id is marked as seen is accounted for: its message is
in hand, held, or recorded. The one move that breaks the account takes a held
message back on redelivery and answers with a duplicate although the message
would commit. In a run without that move, what the drain acknowledges is
recorded or was suppressed.
-/

namespace Wyrd.Intake

open List Option Finset Function

open Wyrd.Control Wyrd.Durable Wyrd.Keys Wyrd.Membership PendingQueue

variable {P : Primitives} {W : Wire} {lent : Set Bytes} {lossy : Prop}

/-- The facts hold what the message carries. A transition is known by its id, a
    statement by its requester and digest. -/
def Recorded (P : Primitives) (W : Wire) (facts : List Fact) : Message → Prop
  | .membershipTransition payload => ∃ t t', W.decodeTransition payload = some t ∧
      .transition t' ∈ facts ∧ P.transitionId t' = P.transitionId t
  | .snapshotAnnouncement a => .announcement a ∈ facts
  | .capability payload => ∃ cap, W.unwrap payload.wrapped = some cap ∧ .capability cap ∈ facts
  | .reconciliationRequest payload => ∃ evidence evidence',
      W.decodeEvidence payload.evidence = some evidence ∧
        .reconciliationRequestReceived payload.requester evidence' ∈ facts ∧
        W.statementDigest payload.requester evidence' = W.statementDigest payload.requester evidence
  | .keyRotation _ => False

lemma Recorded.mono (among : facts ⊆ more) (noted : Recorded P W facts message) :
    Recorded P W more message := by
  cases message with
  | membershipTransition =>
    obtain ⟨t, t', decoded, hm, hs⟩ := noted
    exact ⟨t, t', decoded, among hm, hs⟩
  | snapshotAnnouncement => exact among noted
  | capability =>
    obtain ⟨cap, hu, hm⟩ := noted
    exact ⟨cap, hu, among hm⟩
  | reconciliationRequest =>
    obtain ⟨evidence, evidence', decoded, hm, hs⟩ := noted
    exact ⟨evidence, evidence', decoded, among hm, hs⟩
  | keyRotation => exact noted

lemma Commits.recorded {engine engine' : Engine P} {staged staged' : Announcements}
    {message : Message} {fact : Fact} (commits : Commits W engine staged message fact engine' staged')
    {facts : List Fact} (hm : fact ∈ facts) : Recorded P W facts message := by
  cases commits with
  | transition decoded => exact ⟨_, _, decoded, hm, rfl⟩
  | announcement => exact hm
  | capability hu => exact ⟨_, hu, hm⟩
  | request decoded => exact ⟨_, _, decoded, hm, rfl⟩

lemma Known.recorded {work : Work P} (sync : Lockstep W work)
    (known : Known W work.engine work.staged message) : Recorded P W work.facts message := by
  cases known with
  | transition decoded seen =>
    obtain ⟨t', hf⟩ := isSome_iff_exists.mp seen
    rw [sync.log] at hf
    obtain ⟨hm, hs⟩ := mem_of_logOf hf
    exact ⟨_, t', decoded, hm, hs⟩
  | announcement hf =>
    rw [knownAnnouncement, or_eq_some_iff] at hf
    rcases hf with own | ⟨_, ho⟩
    · exact (sync.announced own).1
    · exact (sync.staged ho).1
  | capability hu hf => exact ⟨_, hu, sync.capabilities hf⟩
  | request decoded hf =>
    obtain ⟨evidence', hm, hs⟩ := sync.requests hf
    exact ⟨_, evidence', decoded, hm, hs⟩

/-- A control frame marked in the facts opens, and what it carries is there. -/
def Ledger (W : Wire) (lent : Set Bytes) (engine : Engine P) (facts : List Fact) : Prop :=
  ∀ bytes ∈ lent, ControlFramed bytes → .controlMessage (W.messageId bytes) ∈ facts →
    ∃ message, engine.Opens W bytes message ∧ Recorded P W facts message

/-- Where the message of a seen frame is. -/
def Placed (W : Wire) (work : Work P) (id : ControlMessageId) (message : Message) : Prop :=
  work.hand = some (id, message) ∨
    (∃ entry, work.engine.pending.held id = some entry ∧ entry.message = message) ∨
    Recorded P W work.facts message

structure Accounted (W : Wire) (lent : Set Bytes) (work : Work P) : Prop where
  provenance : Provenance W lent work
  onDisk : Ledger W lent work.engine work.engine.durable
  gathered : Ledger W lent work.engine work.facts
  seen : ∀ bytes ∈ lent, ControlFramed bytes → W.messageId bytes ∈ work.engine.inbox.seen →
    ∃ message, work.engine.Opens W bytes message ∧ Placed W work (W.messageId bytes) message

section Moves

variable {work next : Work P}

lemma Ledger.gather (once : Set.InjOn W.messageId lent) (provenance : Provenance W lent work)
    (ledger : Ledger W lent work.engine work.facts) {more : List Fact}
    (gathers : Gathers W lent work more) : Ledger W lent work.engine (work.facts ++ more) := by
  intro bytes hm framed mark
  rcases mem_append.mp mark with ho | later
  · obtain ⟨message, opens, noted⟩ := ledger bytes hm framed ho
    exact ⟨message, opens, noted.mono (subset_append_left _ _)⟩
  · cases gathers with
    | @commit id message fact engine' staged' hi commits =>
      have hn : W.messageId bytes = id := by
        cases commits <;> simpa using later
      obtain ⟨source, among, _, hs, opens⟩ := provenance.hand hi
      obtain rfl := once among hm (hs.trans hn.symm)
      exact ⟨message, opens, commits.recorded (by simp)⟩
    | @grant source delivery t cap proof sender among hr =>
      have hn : W.messageId bytes = W.messageId source := by simpa using later
      obtain rfl := once hm among hn
      exact absurd framed hr

lemma suppress_seen (inbox : ControlInbox) (id : ControlMessageId) :
    (inbox.suppress id).seen = inbox.seen.erase id := by
  unfold ControlInbox.suppress
  split_ifs <;> rfl

lemma Placed.keep {id message} (placed : Placed W work id message)
    (apart : work.hand ≠ some (id, message))
    (held : next.engine.pending.held id = work.engine.pending.held id)
    (grow : work.facts <+: next.facts) : Placed W next id message := by
  rcases placed with hi | ht | hn
  · exact absurd hi apart
  · exact .inr (.inl (by rwa [held]))
  · exact .inr (.inr (hn.mono grow.subset))

lemma Sourced.opens (once : Set.InjOn W.messageId lent) {engine : Engine P}
    (hm : bytes ∈ lent) (sourced : Sourced W lent engine (W.messageId bytes) message) :
    engine.Opens W bytes message := by
  obtain ⟨source, ha, _, hs, ho⟩ := sourced
  obtain rfl := once ha hm hs
  exact ho

lemma Step.placed (once : Set.InjOn W.messageId lent) (faithful : ¬ lossy)
    (step : Step W lent lossy work next) (sync : Lockstep W work)
    (tally : Accounted W lent work) {bytes : Bytes} (hm : bytes ∈ lent)
    (framed : ControlFramed bytes) (mark : W.messageId bytes ∈ next.engine.inbox.seen) :
    ∃ message, next.engine.Opens W bytes message ∧ Placed W next (W.messageId bytes) message := by
  have carry : ∀ {message}, work.engine.Opens W bytes message →
      next.engine.Opens W bytes message := fun opens => step.opens sync opens
  have old := tally.seen bytes hm framed
  have keep (prior : W.messageId bytes ∈ work.engine.inbox.seen)
      (apart : ∀ {message}, work.hand ≠ some (W.messageId bytes, message))
      (held : next.engine.pending.held (W.messageId bytes) =
        work.engine.pending.held (W.messageId bytes)) (hg : work.facts <+: next.facts) :
      ∃ message, next.engine.Opens W bytes message ∧
        Placed W next (W.messageId bytes) message := by
    obtain ⟨message, opens, placed⟩ := old prior
    exact ⟨message, carry opens, placed.keep apart held hg⟩
  cases step with
  | @ingest engine staged batch source message among _ opens =>
    rcases mem_insert.mp mark with hn | prior
    · obtain rfl := once hm among hn
      exact ⟨message, carry opens, .inl rfl⟩
    · exact keep prior nofun rfl prefix_rfl
  | @ingestRotation engine staged batch source among hr =>
    rcases mem_insert.mp mark with hn | prior
    · obtain rfl := once hm among hn
      exact absurd framed hr
    · exact keep prior nofun rfl prefix_rfl
  | @take engine staged batch entry queue takes =>
    by_cases hn : W.messageId bytes = entry.id
    · have hh : engine.pending.held (W.messageId bytes) = some entry := hn ▸ takes.here
      exact ⟨_, carry ((tally.provenance.held hh).opens once hm), .inl (by rw [hn])⟩
    · refine keep mark nofun ?_ prefix_rfl
      rw [takes.held, update_of_ne hn]
  | @commit engine staged batch id message fact engine' staged' commits =>
    rw [commits.engine_eq] at mark
    obtain ⟨found, opens, placed⟩ := old mark
    refine ⟨found, carry opens, ?_⟩
    by_cases inHand : id = W.messageId bytes ∧ message = found
    · obtain ⟨rfl, rfl⟩ := inHand
      exact .inr (.inr (commits.recorded (by simp [Work.facts])))
    · refine placed.keep (by simpa using inHand) (by rw [commits.engine_eq]) ?_
      simp only [Work.facts, ← append_assoc]
      rw [commits.engine_eq]
      exact prefix_append _ _
  | @recognise engine staged batch id message hk =>
    obtain ⟨found, opens, placed⟩ := old mark
    refine ⟨found, carry opens, ?_⟩
    by_cases inHand : id = W.messageId bytes ∧ message = found
    · obtain ⟨rfl, rfl⟩ := inHand
      have recorded := Known.recorded sync hk
      exact .inr (.inr recorded)
    · exact placed.keep (by simpa using inHand) rfl prefix_rfl
  | @hold engine staged batch id message wait queue hp holds =>
    by_cases hn : W.messageId bytes = id
    · subst hn
      exact ⟨message, carry ((tally.provenance.hand rfl).opens once hm),
        .inr (.inl ⟨_, by rw [holds.held, update_self], rfl⟩)⟩
    · refine keep mark (by simp [Ne.symm hn]) ?_ prefix_rfl
      rw [holds.held, update_of_ne hn]
  | forget =>
    obtain ⟨apart, prior⟩ := mem_erase.mp mark
    exact keep prior (by simp [Ne.symm apart]) rfl prefix_rfl
  | suppress =>
    simp only [Engine.suppress, suppress_seen] at mark
    obtain ⟨apart, prior⟩ := mem_erase.mp mark
    exact keep prior (by simp [Ne.symm apart]) rfl prefix_rfl
  | forgetRotation => exact keep (mem_erase.mp mark).2 nofun rfl prefix_rfl
  | suppressRotation =>
    simp only [Engine.suppress, suppress_seen] at mark
    exact keep (mem_erase.mp mark).2 nofun rfl prefix_rfl
  | lose loses => exact absurd loses faithful
  | grant =>
    refine keep mark nofun rfl ?_
    simp only [Work.facts, ← append_assoc]
    exact prefix_append _ _
  | @land engine staged batch =>
    have noted := noteCommittedFacts_noted (W := W) (recordCommit W engine batch) batch
    have facts : (Work.idle (landed W engine staged batch)).facts = engine.durable ++ batch := by
      simp only [Work.idle, Work.facts, append_nil, landed_durable]
    rcases (noted.seen _).mp mark with prior | added
    · refine keep prior nofun ?_ (by rw [facts]; exact prefix_rfl)
      simp only [Work.idle, landed, mirror]
      rw [noted.views]
      rfl
    · obtain ⟨found, opens, recorded⟩ :=
        tally.gathered bytes hm framed (mem_append_right _ added)
      exact ⟨found, carry opens, .inr (.inr (by rw [facts]; exact recorded))⟩
  | @reload engine staged batch hand kept state which =>
    have added : .controlMessage (W.messageId bytes) ∈ kept :=
      mem_seenIn.mp (mem_toFinset.mp mark)
    have ledger : Ledger W lent engine kept := by
      rcases which with rfl | rfl
      · exact tally.onDisk
      · exact tally.gathered
    obtain ⟨found, opens, recorded⟩ := ledger bytes hm framed added
    refine ⟨found, carry opens, .inr (.inr ?_)⟩
    simpa [Work.facts, Work.idle, reloaded, resetViews] using recorded

lemma Step.accounted (once : Set.InjOn W.messageId lent) (faithful : ¬ lossy)
    (step : Step W lent lossy work next) (sync : Lockstep W work)
    (tally : Accounted W lent work) : Accounted W lent next := by
  have carry : ∀ facts, Ledger W lent work.engine facts → Ledger W lent next.engine facts := by
    intro facts hl bytes hm framed mark
    obtain ⟨message, opens, hn⟩ := hl bytes hm framed mark
    exact ⟨message, step.opens sync opens, hn⟩
  obtain ⟨ho, hg⟩ := step.onFacts (carry _ tally.onDisk) (carry _ tally.gathered)
    fun more gathers => carry _ (tally.gathered.gather once tally.provenance gathers)
  exact ⟨step.provenance sync tally.provenance, ho, hg,
    fun bytes hm framed mark =>
      step.placed once faithful sync tally hm framed mark⟩

end Moves

/-- The eviction order lists cached verdicts, each once. -/
structure Cached (inbox : ControlInbox) : Prop where
  nodup : inbox.suppressedOrder.Nodup
  tracked : ∀ id ∈ inbox.suppressedOrder, id ∈ inbox.suppressed

lemma evict_tracked (nodup : order.Nodup) (traced : ∀ id ∈ order, id ∈ suppressed) :
    (evict suppressed order).2.Nodup ∧
      ∀ id ∈ (evict suppressed order).2, id ∈ (evict suppressed order).1 := by
  induction order generalizing suppressed with
  | nil => exact ⟨nodup_nil, nofun⟩
  | cons oldest rest ih =>
    unfold evict
    obtain ⟨hg, nodup'⟩ := nodup_cons.mp nodup
    split_ifs
    · refine ih nodup' fun id hm => mem_erase.mpr ⟨?_, ?_⟩
      · rintro rfl
        exact hg hm
      · exact traced id (mem_cons_of_mem _ hm)
    · exact ⟨nodup, traced⟩

lemma mem_evict_last (suppressed : Finset ControlMessageId) (order : List ControlMessageId)
    (id : ControlMessageId) : id ∈ (evict suppressed (order ++ [id])).2 := by
  induction order generalizing suppressed with
  | nil => simp [evict, maxSuppressedIds]
  | cons oldest rest ih =>
    rw [cons_append, evict]
    split_ifs
    · exact ih _
    · simp

lemma Cached.suppress (kept : Cached inbox) (id : ControlMessageId) :
    Cached (inbox.suppress id) ∧ id ∈ (inbox.suppress id).suppressed := by
  unfold ControlInbox.suppress
  split_ifs with known
  · exact ⟨⟨kept.nodup, kept.tracked⟩, known⟩
  · have new : id ∉ inbox.suppressedOrder := fun hm => known (kept.tracked id hm)
    have nodup : (inbox.suppressedOrder ++ [id]).Nodup := by
      rw [nodup_append]
      refine ⟨kept.nodup, nodup_singleton _, fun other hm last hs => ?_⟩
      intro equal
      exact new (List.mem_singleton.mp hs ▸ equal ▸ hm)
    have traced : ∀ other ∈ inbox.suppressedOrder ++ [id], other ∈ insert id inbox.suppressed := by
      intro other hm
      rcases mem_append.mp hm with ho | last
      · exact mem_insert_of_mem (kept.tracked other ho)
      · exact Finset.mem_insert.mpr (.inl (List.mem_singleton.mp last))
    obtain ⟨nodup', traced'⟩ := evict_tracked nodup traced
    exact ⟨⟨nodup', traced'⟩, traced' id (mem_evict_last _ _ _)⟩

lemma Step.cached {work next : Work P} (step : Step W lent lossy work next)
    (kept : Cached work.engine.inbox) : Cached next.engine.inbox := by
  cases step with
  | ingest | ingestRotation | take | recognise | hold | forget | forgetRotation | lose | grant =>
    exact ⟨kept.nodup, kept.tracked⟩
  | suppress | suppressRotation => exact (kept.suppress _).1
  | commit hc =>
    rw [hc.engine_eq]
    exact kept
  | @land engine staged batch =>
    have noted := noteCommittedFacts_noted (W := W) (recordCommit W engine batch) batch
    simp only [Work.idle, landed, mirror]
    rw [noted.inbox]
    exact ⟨kept.nodup, kept.tracked⟩
  | reload => exact ⟨nodup_nil, forall_mem_nil _⟩

section Acknowledged

variable {store : Store} {engine next : Engine P} {sender : DeviceId} {budget spent : IntakeBudget}
  {outcome : Outcome}

lemma commitAction_acked {id message held}
    (ran : commitAction W store engine sender id message held budget = (next, spent, .ok outcome))
    (acked : outcome.disposition = .ack) (tidy : Tidy engine.pending) (cached : Cached engine.inbox)
    (kept : held.isSome → ∀ facts,
      (messageAction W engine (fun _ => none) id message sender budget).2.2 ≠ .ok (.commit facts)) :
    id ∈ next.inbox.suppressed ∨ (Known W engine (fun _ => none) message ∧ next = engine) ∨
      .controlMessage id ∈ next.durable := by
  unfold commitAction at ran
  rcases ruling : messageAction W engine (fun _ => none) id message sender budget with
    ⟨engine', staged, verdict⟩
  have judged := messageAction_judged ruling
  rw [ruling] at ran kept
  cases verdict with
  | error => cases held <;> simp [abandon] at ran
  | ok action =>
    cases action with
    | duplicate =>
      obtain ⟨rfl, rfl, hk⟩ := judged
      cases ran
      exact .inr (.inl ⟨hk, rfl⟩)
    | shed =>
      cases ran
      cases acked
    | suppress =>
      obtain ⟨rfl, rfl⟩ := judged
      cases ran
      exact .inl (cached.suppress id).2
    | defer =>
      simp only at ran
      split_ifs at ran <;> cases ran <;> cases acked
    | commit =>
      obtain ⟨fact, hc, rfl, ha⟩ := judged
      have tidy' : Tidy engine'.pending := by
        rw [hc.engine_eq]
        exact tidy
      cases held with
      | some => exact absurd rfl (kept rfl _)
      | none =>
        simp only [isSome_none, Bool.false_eq_true, if_false, reduceCtorEq,
          commitMessage, length_cons, length_nil, Nat.zero_add, Nat.reduceAdd,
          admit_of_wouldAdmit ha] at ran
        refine .inr (.inr ?_)
        split_ifs at ran
        · exact flush_land_ok tidy' ran _ (by simp)
        · rw [landBatch_ok ran, landed_durable]
          simp

/-- The engine a control message is judged in: only the ids seen and the queue
    differ from the one it met. -/
structure Taken (engine taken : Engine P) : Prop where
  views : taken = { engine with inbox := taken.inbox, pending := taken.pending }
  inbox : taken.inbox = { engine.inbox with seen := taken.inbox.seen }
  tidy : Tidy taken.pending

/-- What an acknowledged control frame came to: a verdict or a record of before,
    or the judgement of its message. -/
inductive Settled (W : Wire) (store : Store) (engine next : Engine P) (sender : DeviceId)
    (bytes : Bytes) (budget spent : IntakeBudget) (outcome : Outcome) : Prop where
  | suppressed : W.messageId bytes ∈ engine.inbox.suppressed → next = engine →
      Settled W store engine next sender bytes budget spent outcome
  | recorded {message} : engine.Opens W bytes message → Recorded P W engine.durable message →
      next = engine → Settled W store engine next sender bytes budget spent outcome
  | judged {message held taken} : engine.Opens W bytes message → Taken engine taken →
      (held.isSome → ∀ facts, (messageAction W taken (fun _ => none) (W.messageId bytes) message
        sender budget).2.2 ≠ .ok (.commit facts)) →
      commitAction W store taken sender (W.messageId bytes) message held budget =
        (next, spent, .ok outcome) →
      Settled W store engine next sender bytes budget spent outcome

lemma acceptControl_settled {start bytes} (member : bytes ∈ lent) (framed : ControlFramed bytes)
    (distinct : Set.InjOn W.messageId lent) (sound : Sound W start (.idle engine))
    (accounted : Accounted W lent (.idle engine)) (kept : ¬ TakenBack W engine sender bytes budget)
    (ran : acceptControl W store engine sender bytes budget = (next, spent, .ok outcome))
    (acked : outcome.disposition = .ack) :
    Settled W store engine next sender bytes budget spent outcome := by
  have tidy : Tidy engine.pending := sound.tidy
  unfold acceptControl at ran
  cases ingested : engine.inbox.ingest W bytes with
  | error error =>
    rw [ingested] at ran
    cases error <;> cases ran <;> cases acked
  | ok report =>
    obtain ⟨inbox, report⟩ := report
    rw [ingested] at ran
    cases report with
    | accepted id message =>
      obtain ⟨rfl, rfl, opens⟩ := (ingest_ok ingested).1 rfl
      have moved : Taken engine { engine with inbox := engine.inbox.remember (W.messageId bytes) } :=
        ⟨rfl, rfl, tidy⟩
      simp only at ran
      exact .judged opens moved (by simp) ran
    | duplicate =>
      have removed := tidy.coherent.remove (W.messageId bytes)
      cases waiting : engine.pending.held (W.messageId bytes) with
      | none =>
        simp only [waiting] at removed
        simp only [Engine.takePending, removed] at ran
        cases ran
        rcases (ingest_ok ingested).2 rfl with suppressed | seen
        · exact .suppressed suppressed rfl
        · obtain ⟨message, opens, hand | ⟨entry, found, _⟩ | recorded⟩ :=
            accounted.seen bytes member framed seen
          · cases hand
          · cases waiting.symm.trans found
          · exact .recorded opens (by simpa [Work.facts, Work.idle] using recorded) rfl
      | some entry =>
        simp only [waiting] at removed
        obtain ⟨queue, removed, takes⟩ := removed
        have took : engine.takePending (W.messageId bytes) =
            (some entry, { engine with pending := queue }) := by
          simp only [Engine.takePending, removed]
        simp only [took] at ran
        have opens := (accounted.provenance.held waiting).opens distinct member
        have moved : Taken engine { engine with pending := queue } := ⟨rfl, rfl, tidy.takes takes⟩
        refine .judged opens moved (fun _ facts commits => kept ?_) ran
        exact ⟨framed, ⟨_, ingested⟩, entry, by rw [took], facts, by rw [took]; exact commits⟩

lemma acceptControl_acked {start bytes} (member : bytes ∈ lent) (framed : ControlFramed bytes)
    (distinct : Set.InjOn W.messageId lent) (sound : Sound W start (.idle engine))
    (accounted : Accounted W lent (.idle engine)) (cached : Cached engine.inbox)
    (ledger : Ledger W lent next next.durable) (kept : ¬ TakenBack W engine sender bytes budget)
    (ran : acceptControl W store engine sender bytes budget = (next, spent, .ok outcome))
    (acked : outcome.disposition = .ack) :
    W.messageId bytes ∈ next.inbox.suppressed ∨
      ∃ message, next.Opens W bytes message ∧ Recorded P W next.durable message := by
  cases acceptControl_settled member framed distinct sound accounted kept ran acked with
  | suppressed cached same => exact .inl (same ▸ cached)
  | recorded opens recorded same => exact .inr ⟨_, same ▸ opens, same ▸ recorded⟩
  | @judged message held taken opens takes fresh judged =>
    have cached : Cached taken.inbox := by
      rw [takes.inbox]
      exact ⟨cached.nodup, cached.tracked⟩
    rcases commitAction_acked judged acked takes.tidy cached fresh with
      suppressed | ⟨known, rfl⟩ | marked
    · exact .inl suppressed
    · have lockstep : Lockstep W (.idle next) := by
        rw [takes.views, takes.inbox]
        exact sound.lockstep.frame rfl rfl
      refine .inr ⟨message, ?_, by simpa [Work.facts, Work.idle] using Known.recorded lockstep known⟩
      unfold Engine.Opens
      rw [takes.inbox]
      exact opens
    · exact .inr (ledger bytes member framed marked)

end Acknowledged

section Run

variable {store : Store} {drive : DriveId} {device : DeviceId} {facts : List Fact}
  {start : Engine P} {passes : List Pass}

/-- Every handover of a run without a loss starts and ends with every seen frame
    accounted for. -/
lemma drains_accounted (opened : openWithStore P W store drive device facts = .ok start)
    (distinct : Set.InjOn W.messageId (lentFrames W device passes))
    (unmarked : ∀ bytes ∈ lentFrames W device passes, .controlMessage (W.messageId bytes) ∉ facts)
    (recovers : ∀ h ∈ (drains W passes start).1, h.Recovers)
    (kept : ∀ h ∈ (drains W passes start).1, ¬ h.TakesBack W) :
    ∀ h ∈ (drains W passes start).1, h.Ran W ∧ Lends passes h.envelope ∧
      (Sound W start (.idle h.before) ∧ Accounted W (lentFrames W device passes) (.idle h.before) ∧
        Cached h.before.inbox) ∧
      Sound W start (.idle h.after) ∧ Accounted W (lentFrames W device passes) (.idle h.after) ∧
        Cached h.after.inbox := by
  have views := openWithStore_ok opened
  obtain rfl := views.device
  have ledger : Ledger W (lentFrames W start.device passes) start start.durable := by
    intro bytes member _ marked
    exact absurd (views.durable ▸ marked) (unmarked bytes member)
  have initial : Accounted W (lentFrames W start.device passes) (.idle start) ∧
      Cached (Work.idle start).engine.inbox := by
    refine ⟨⟨⟨fun hand => (by cases hand), fun found => ?_⟩, ledger,
      by simpa [Work.facts, Work.idle] using ledger, ?_⟩, ?_, ?_⟩
    · simp [Work.idle, views.pending, held_new] at found
    · intro bytes member _ seen
      simp only [Work.idle, views.seen, List.mem_toFinset, mem_seenIn] at seen
      exact absurd seen (unmarked bytes member)
    · simp [Work.idle, views.suppressedOrder]
    · simp [Work.idle, views.suppressedOrder]
  exact (@drains_invariant P W (fun work =>
      Accounted W (lentFrames W start.device passes) work ∧ Cached work.engine.inbox) passes start
    False (fun step sound before =>
      ⟨step.accounted distinct id sound.lockstep before.1, step.cached before.2⟩)
    views.sound initial recovers kept).1

/-- In every run in which no held message is taken back when it would commit,
    whatever is acknowledged is recorded or suppressed, and a held message
    leaves the queue for good only once it is recorded. -/
theorem acknowledged_recorded (opened : openWithStore P W store drive device facts = .ok start)
    (distinct : Set.InjOn W.messageId (lentFrames W device passes))
    (unmarked : ∀ bytes ∈ lentFrames W device passes, .controlMessage (W.messageId bytes) ∉ facts)
    (recovers : ∀ h ∈ (drains W passes start).1, h.Recovers)
    (kept : ∀ h ∈ (drains W passes start).1, ¬ h.TakesBack W) :
    ∀ h ∈ (drains W passes start).1,
      (∀ bytes outcome, openFromSender W device h.envelope = some bytes → ControlFramed bytes →
        h.outcome = .ok outcome → outcome.disposition = .ack →
        W.messageId bytes ∈ h.after.inbox.suppressed ∨
          ∃ message, h.after.Opens W bytes message ∧ Recorded P W h.after.durable message) ∧
      ∀ id entry, h.before.pending.held id = some entry → h.after.pending.held id = none →
        id ∈ h.after.inbox.seen → Recorded P W h.after.durable entry.message := by
  intro h member
  obtain ⟨⟨spent, ran⟩, lends, ⟨sound, before, cached⟩, _, after, _⟩ :=
    drains_accounted opened distinct unmarked recovers kept h member
  obtain rfl := (openWithStore_ok opened).device
  constructor
  · intro bytes outcome frame framed fine acked
    have lent : bytes ∈ lentFrames W start.device passes := ⟨h.envelope, lends, frame⟩
    have here : openFromSender W h.before.device h.envelope = some bytes := by
      rw [show h.before.device = start.device from sound.device, frame]
    rw [fine] at ran
    unfold acceptEnvelope at ran
    rw [here] at ran
    simp only [if_neg framed] at ran
    exact acceptControl_acked lent framed distinct sound before cached after.onDisk
      (fun back => kept h member ⟨bytes, here, back⟩) ran acked
  · intro id entry held gone seen
    obtain ⟨bytes, lent, framed, rfl, opens⟩ := before.provenance.held held
    obtain ⟨message, opens', hand | ⟨other, found, _⟩ | recorded⟩ :=
      after.seen bytes lent framed seen
    · cases hand
    · cases gone.symm.trans found
    · have moves : Steps W (lentFrames W start.device passes) (h.TakesBack W) (.idle h.before)
          (.idle h.after) := Handover.steps ⟨spent, ran⟩ sound
        (fun bytes opened => ⟨h.envelope, lends, opened⟩) (recovers h member)
      obtain rfl := Opens.unique opens' (Steps.opens moves sound.lockstep opens)
      simpa [Work.facts, Work.idle] using recorded

end Run

section Sample

def announced (author : DeviceId) : SnapshotAnnouncement :=
  ⟨sampleId 77, author, 2, sampleId 21, 5, sampleId 6, 7, none, 8⟩

/-- The admission 21 is contested by the rotation 22. -/
def contestedFacts : List Fact :=
  pairFacts ++ [.transition (rotation 2 (sampleId 10) [] 22 (.refl true))]

def resolution : MembershipTransition :=
  { pairRotation with resolves := [sampleId 22], encodable := .refl true }

/-- Frames 200 and 202 announce one snapshot for devices 2 and 1, frame 201 is
    the resolution for 21, and every other frame a statement of device 1. -/
def busyWire : Wire :=
  sampleWire (fun index => some (
      if index = 200 then .snapshotAnnouncement (announced (sampleId 2))
      else if index = 201 then .membershipTransition []
      else if index = 202 then .snapshotAnnouncement (announced (sampleId 1))
      else .reconciliationRequest ⟨sampleId 1, [index]⟩))
    (fun _ => some resolution) (fun _ => none) none

def announcementMail : Delivery := mail 0 (sampleId 2) [0, 200]

def resolutionMail : Delivery := mail 1 (sampleId 1) [0, 201]

def statements (count : Nat) : List Delivery :=
  (List.range count).map (fun index => mail (index + 2) (sampleId 1) [0, UInt8.ofNat index])

/-- The announcement is held until the resolution arrives. -/
def quietPasses : List Pass :=
  [⟨sampleStore, [announcementMail]⟩, ⟨sampleStore, [resolutionMail]⟩,
    ⟨sampleStore, [announcementMail]⟩]

def quietFacts : List Fact :=
  contestedFacts ++ [.transition resolution, .controlMessage 201,
    .announcement (announced (sampleId 2)), .controlMessage 200]

/-- The same, after statements that use up the sender's budget: the resolution
    still commits, and the flush it starts does not. -/
def busyPasses : List Pass :=
  [⟨sampleStore, [announcementMail]⟩, ⟨sampleStore, statements 127 ++ [resolutionMail]⟩,
    ⟨sampleStore, [announcementMail]⟩]

/-- The redelivered announcement is acknowledged, and neither recorded, held nor
    suppressed. -/
theorem held_announcement_lost :
    ∃ start h, openSample busyWire contestedFacts = .ok start ∧
      (drains busyWire busyPasses start).1.getLast? = some h ∧
      h.envelope = announcementMail.envelope ∧ h.outcome.toOption = some .duplicate ∧
      (h.before.pending.held 200).isSome ∧ h.after.pending.held 200 = none ∧
      200 ∉ h.after.inbox.suppressed ∧ .announcement (announced (sampleId 2)) ∉ h.after.durable := by
  simp only [exists_and_left, ← Option.mem_def]
  decide +kernel

/-- In the quiet run no frame is lost: every premise of the account holds. -/
lemma quiet_run :
    ∃ start, openSample busyWire contestedFacts = .ok start ∧
      (drains busyWire quietPasses start).2.durable = quietFacts ∧
      Set.InjOn busyWire.messageId (lentFrames busyWire (sampleId 3) quietPasses) ∧
      (∀ bytes ∈ lentFrames busyWire (sampleId 3) quietPasses,
        .controlMessage (busyWire.messageId bytes) ∉ contestedFacts) ∧
      (∀ h ∈ (drains busyWire quietPasses start).1, h.Recovers) ∧
      ∀ h ∈ (drains busyWire quietPasses start).1, ¬ h.TakesBack busyWire := by
  obtain ⟨start, opened, durable, fine⟩ : ∃ start, openSample busyWire contestedFacts = .ok start ∧
      (drains busyWire quietPasses start).2.durable = quietFacts ∧
      ∀ h ∈ (drains busyWire quietPasses start).1, h.outcome.isOk ∧
        (h.before.takePending (busyWire.messageId h.envelope.ciphertext)).1 = none := by
    decide +kernel
  have frames : ∀ bytes ∈ lentFrames busyWire (sampleId 3) quietPasses,
      bytes = [0, 200] ∨ bytes = [0, 201] := by
    rintro bytes ⟨envelope, ⟨pass, among, delivery, member, rfl⟩, frame⟩
    rw [sampleWire_opened frame]
    simp only [quietPasses, List.mem_cons, List.not_mem_nil, or_false] at among
    rcases among with rfl | rfl | rfl <;> obtain rfl := List.mem_singleton.mp member
    · exact .inl rfl
    · exact .inr rfl
    · exact .inl rfl
  refine ⟨start, opened, durable, fun a here b there same => ?_, fun bytes member => ?_,
    fun h member => Handover.recovers_of_ok (fine h member).1, ?_⟩
  · rcases frames a here with rfl | rfl <;> rcases frames b there with rfl | rfl
    · rfl
    · exact absurd same (by decide +kernel)
    · exact absurd same (by decide +kernel)
    · rfl
  · rcases frames bytes member with rfl | rfl <;> decide +kernel
  · rintro h member ⟨bytes, frame, back⟩
    obtain ⟨entry, took, _⟩ := back.committable
    have none := (fine h member).2
    rw [← sampleWire_opened frame, took] at none
    cases none

theorem acknowledged_recorded_quiet :
    ∃ start, openSample busyWire contestedFacts = .ok start ∧
      (drains busyWire quietPasses start).2.durable = quietFacts ∧
      ∀ h ∈ (drains busyWire quietPasses start).1, ∀ bytes outcome,
        openFromSender busyWire (sampleId 3) h.envelope = some bytes → ControlFramed bytes →
        h.outcome = .ok outcome → outcome.disposition = .ack →
        busyWire.messageId bytes ∈ h.after.inbox.suppressed ∨
          ∃ message, h.after.Opens busyWire bytes message ∧
            Recorded samplePrimitives busyWire h.after.durable message := by
  obtain ⟨start, opened, durable, distinct, unmarked, recovers, kept⟩ := quiet_run
  exact ⟨start, opened, durable, fun h member =>
    (acknowledged_recorded opened distinct unmarked recovers kept h member).1⟩

end Sample

end Wyrd.Intake
