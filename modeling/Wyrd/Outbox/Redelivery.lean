import Wyrd.Outbox.Routes

/-! # Redelivery quenches

Each send of a pass records the pair as delivered under the route it was sent
under, and that is what makes the pair ineligible. A pass that succeeded with
accepting relays therefore leaves its own snapshots silent under the pass's
route. Statements of other authors are counted without a route, so a live route
keeps listing them and the send itself finds no recipient.
-/

namespace Wyrd.Outbox

open Wyrd.Authorization Wyrd.Control Wyrd.Durable Wyrd.Intake Wyrd.Keys Wyrd.Membership
open Effect

variable {P : Primitives} {W : Postal} {post : Post} {scope : Finset SnapshotId}
  {snapshot : SnapshotId}

namespace AnnouncementOutbox

variable {outbox : AnnouncementOutbox} {route : Option EndpointId}

lemma delivered_not_eligible :
    (snapshot, recipient) ∉ ((deliveryFacts snapshot route recipient).foldl record
      outbox).announceEligibleFor route scope := by
  rw [mem_announceEligibleFor]
  simp only [deliveryFacts, List.foldl_cons, List.foldl_nil, record, recordAnnouncementDelivered,
    recordAnnouncementDeliveredRoute, mem_observe_pair, or_true, not_true, and_false, true_and,
    false_or, not_and]
  intro _
  cases route with
  | none => simp [reopens, recordedRoute]
  | some => simp [reopens, recordedRoute]

end AnnouncementOutbox

variable {facts : List OutboxFact} {allowed : Pair → Prop} {sender : Sender P}
  {keyring : DriveKeyring}

section Sends

variable {routeId : Option EndpointId} {bytes : Bytes}

/-- The pair is not sent under the route. -/
def Sender.Silent (sender : Sender P) (route : Option EndpointId) (scope : Finset SnapshotId)
    (pair : Pair) : Prop := pair ∉ (replayOutbox sender.outbox).announceEligibleFor route scope

lemma Worked.silent {sender next : Sender P} (works : Worked allowed sender next)
    (free : ¬ allowed pair) (silent : sender.Silent routeId scope pair) :
    next.Silent routeId scope pair :=
  fun ha => silent ((works.alike pair free).eligible.mp ha)

/-- No relay set turns a send down. -/
def Post.Accepts (post : Post) : Prop :=
  ∀ events recipient bytes, post.send events recipient bytes ≠ some 0

lemma sendTo_quenches (takes : post.Accepts) (scope : Finset SnapshotId) (recipient : DeviceId)
    (sender : Sender P) :
    (sendTo post snapshot bytes routeId recipient : Sending P Nat).Ends sender (fun outcome next =>
      Worked (fun pair => pair = (snapshot, recipient)) sender next ∧
        (∀ missing, outcome ≠ .error (.missingEpochKey missing)) ∧
        (outcome.isOk = true → next.Silent routeId scope (snapshot, recipient))) := by
  have handed : Worked (fun pair => pair = (snapshot, recipient)) sender
      { sender with trace := sender.trace ++ [.handed snapshot recipient bytes] } :=
    ⟨rfl, rfl, rfl, fun _ => id, fun _ _ => .refl⟩
  unfold sendTo
  split_ifs with large hi
  · rw [ends_fail]
    exact ⟨.refl sender, by rintro _ ⟨⟩, by rintro ⟨⟩⟩
  · rw [ends_fail]
    exact ⟨.refl sender, by rintro _ ⟨⟩, by rintro ⟨⟩⟩
  · simp only [ends_bind, ends_get, ends_set]
    cases sent : post.send sender.trace recipient bytes with
    | none => exact ⟨handed, by rintro _ ⟨⟩, by rintro ⟨⟩⟩
    | some accepted =>
      cases accepted with
      | zero => exact absurd sent (takes _ _ _)
      | succ =>
        have mark := handed.trans <| Worked.append
          fun fact (hm : fact ∈ deliveryFacts snapshot routeId recipient) pair hs => by
            simp only [deliveryFacts, List.mem_cons, List.not_mem_nil, or_false] at hm
            rcases hm with rfl | rfl <;> exact (Option.some.inj hs).symm
        rw [ends_bind]
        refine ends_commitFacts ⟨handed, by rintro _ ⟨⟩, by rintro ⟨⟩⟩ ?_
        rintro _ (rfl | rfl)
        · exact ⟨mark, by rintro _ ⟨⟩, by rintro ⟨⟩⟩
        · dsimp only
          rw [ends_pure]
          refine ⟨mark, by rintro _ ⟨⟩, fun _ => ?_⟩
          rw [Sender.Silent, Sender.append, replayOutbox_append]
          exact AnnouncementOutbox.delivered_not_eligible

lemma sendPendingFor_quenches (takes : post.Accepts) (sender : Sender P) :
    (sendPendingFor W post snapshot bytes routeId scope : Sending P Nat).Ends sender
      (fun outcome next => Worked (fun pair => pair.1 = snapshot) sender next ∧
        (∀ missing, outcome ≠ .error (.missingEpochKey missing)) ∧
        (outcome.isOk = true → ∀ recipient, next.Silent routeId scope (snapshot, recipient))) := by
  refine ends_rebuild (fun error never => ⟨.refl sender, ?_, nofun⟩) fun rebuilt _ => ?_
  · intro missing fails
    cases fails
    exact never missing rfl
  · dsimp only [sendSealedTo]
    generalize listed : (((replayOutbox sender.outbox).announceEligibleFor routeId scope).filter
      (fun pair => decide (pair.1 = snapshot))).map Prod.snd = recipients
    have unlisted : ∀ recipient, recipient ∉ recipients →
        sender.Silent routeId scope (snapshot, recipient) := by
      intro recipient out able
      rw [← listed] at out
      exact out (List.mem_map_of_mem (List.mem_filter.mpr ⟨able, by simp⟩))
    have each (recipient : DeviceId) (state : Sender P)
        (works : Worked (fun pair => pair.1 = snapshot) sender state) :
        (sendTo post snapshot bytes routeId recipient : Sending P Nat).Ends state fun outcome next =>
          Worked (fun pair => pair.1 = snapshot) sender next ∧
            (∀ error, outcome = .error error → ∀ missing, error ≠ .missingEpochKey missing) ∧
            (outcome.isOk = true → next.Silent routeId scope (snapshot, recipient)) ∧
            ∀ other, other ≠ recipient → state.Silent routeId scope (snapshot, other) →
              next.Silent routeId scope (snapshot, other) := by
      refine (sendTo_quenches takes scope recipient state).mono ?_
      rintro outcome next ⟨sent, never, hd⟩
      refine ⟨works.trans (sent.mono fun pair hs => hs ▸ rfl), ?_, hd, ?_⟩
      · rintro error rfl missing rfl
        exact never missing rfl
      · intro other ha silent
        exact sent.silent (fun hs => ha (congrArg Prod.snd hs)) silent
    obtain ⟨works, he, out, mem⟩ := ends_tally_all
      (fun recipient (state : Sender P) => state.Silent routeId scope (snapshot, recipient)) _ _
      (fun recipient (_ : recipient ∈ recipients) => each recipient) (Worked.refl sender)
    refine ⟨works, ?_, ?_⟩
    · intro missing fails
      exact he _ fails missing rfl
    · intro ok recipient
      by_cases hm : recipient ∈ recipients
      · exact mem ok recipient hm
      · exact out recipient hm (unlisted recipient hm)

lemma sendPendingFor_silent
    (silent : ∀ recipient, sender.Silent routeId scope (snapshot, recipient)) :
    (sendPendingFor W post snapshot bytes routeId scope : Sending P Nat).Ends sender
      (fun _ next => next = sender) := by
  refine ends_rebuild (fun _ _ => rfl) fun rebuilt _ => ?_
  have nobody : ((replayOutbox sender.outbox).announceEligibleFor routeId scope).filter
      (fun pair => decide (pair.1 = snapshot)) = [] := by
    rw [List.filter_eq_nil_iff]
    rintro ⟨other, recipient⟩ ha hs
    obtain rfl : other = snapshot := by simpa using hs
    exact silent recipient ha
  simp only [nobody, sendSealedTo, List.map_nil, tally]
  rw [ends_pure]

end Sends

variable {outbox : AnnouncementOutbox}

lemma Worked.opensSeals (works : Worked allowed sender next)
    (opens : sender.OpensSeals W outbox keyring snapshot) :
    next.OpensSeals W outbox keyring snapshot :=
  fun bytes header hl hd => works.holds (opens bytes header hl hd)

variable {nodeAddr : Option Bytes}

lemma sendWithLiveRoute_quenches (takes : post.Accepts)
    (sealed : outbox.announcementSealed snapshot = some sealedBytes)
    (opens : sender.OpensSeals W outbox keyring snapshot) :
    (sendWithLiveRoute W post outbox keyring snapshot sealedBytes nodeAddr epoch scope :
        Sending P (Option Nat)).Ends sender (fun outcome next =>
      Worked (fun pair => pair.1 = snapshot) sender next ∧
        (outcome.isOk = true → ∀ recipient,
          next.Silent (routeIdOf W nodeAddr) scope (snapshot, recipient))) := by
  refine sendWithLiveRoute_course (fun _ _ hq => ⟨hq.worked, nofun⟩)
    (fun _ bytes header _ lasted hd hl => ?_) fun bytes next hq _ => ?_
  · refine absurd (opens bytes header ?_ hd) hl
    rcases lasted with rfl | hr
    · exact .inl sealed
    · exact .inr hr
  · refine (sendPendingFor_quenches takes next).mono ?_
    rintro outcome final ⟨hw, _, hs⟩
    refine ⟨hq.worked.trans hw, fun ok => hs ?_⟩
    cases outcome with
    | error => cases ok
    | ok => rfl

variable {rebuilt : Rebuilt P}

lemma reannounceOne_quenches (takes : post.Accepts)
    (opens : sender.OpensSeals W outbox rebuilt.keyring snapshot)
    (held : ∀ known, rebuilt.runtime.announcement snapshot = some known →
      outbox.announcementSealed snapshot = none → sender.Holds rebuilt.keyring known.epoch) :
    (reannounceOne W post rebuilt outbox snapshot scope).Ends sender (fun outcome next =>
      Worked (fun pair => pair.1 = snapshot) sender next ∧
        (outcome.isOk = true → rebuilt.runtime.announcement snapshot ≠ none →
          ∀ recipient, next.Silent none scope (snapshot, recipient))) := by
  refine reannounceOne_course (fun hu => ⟨.refl sender, fun _ known => absurd hu known⟩)
    fun a next known ready _ => ⟨fun _ => ⟨ready.worked, nofun⟩, fun hl => ?_, fun bytes => ?_⟩
  · exact (hl opens (held a known)).elim
  · refine (sendPendingFor_quenches takes next).mono ?_
    rintro outcome final ⟨hw, _, hs⟩
    exact ⟨ready.worked.trans hw, fun ok _ => hs ok⟩

/-- With no recipient left the statement is at most sealed. -/
lemma reannounceOne_silent
    (silent : rebuilt.runtime.announcement snapshot ≠ none →
      ∀ recipient, sender.Silent none scope (snapshot, recipient)) :
    (reannounceOne W post rebuilt outbox snapshot scope).Ends sender
      (fun _ next => Prepared sender next) := by
  refine reannounceOne_course (fun _ => .refl sender) fun a next hk ready _ =>
    ⟨fun _ => ready, fun _ => ready, fun bytes => ?_⟩
  have stays : ∀ recipient, next.Silent none scope (snapshot, recipient) := fun recipient =>
    ready.silent id (silent (by simp [hk]) recipient)
  refine (sendPendingFor_silent stays).mono ?_
  rintro _ _ rfl
  exact ready

variable {routeId : Option EndpointId}

lemma commit_then_send_quenches (takes : post.Accepts)
    (hw : ∀ fact ∈ facts, ∀ pair, fact.pair? = some pair → pair.1 = snapshot) (sender : Sender P) :
    (do commitFacts post facts
        sendPendingFor W post snapshot bytes routeId scope : Sending P Nat).Ends sender
      (fun outcome next => Worked (fun pair => pair.1 = snapshot) sender next ∧
        (∀ missing, outcome ≠ .error (.missingEpochKey missing)) ∧
        (outcome.isOk = true → ∀ recipient, next.Silent routeId scope (snapshot, recipient))) := by
  rw [ends_bind]
  refine ends_commitFacts ⟨.refl sender, nofun, nofun⟩ ?_
  rintro _ (rfl | rfl)
  · exact ⟨.append hw, nofun, nofun⟩
  · exact (sendPendingFor_quenches takes _).mono fun _ _ holds =>
      ⟨Worked.trans (.append hw) holds.1, holds.2⟩

lemma announce_quenches (takes : post.Accepts) (body : Snapshot) (nodeAddr : Option Bytes)
    (sender : Sender P) :
    (announce W post body nodeAddr scope).Ends sender (fun outcome next =>
      Worked (fun pair => pair.1 = P.snapshotId body) sender next ∧
        ((sender.epochKeys body.epoch).isSome →
          ∀ missing, outcome ≠ .error (.missingEpochKey missing)) ∧
        (outcome.isOk = true → ∀ recipient,
          next.Silent (routeIdOf W nodeAddr) scope (P.snapshotId body, recipient))) := by
  have topped {queued : List OutboxFact}
      (plain : ∀ fact ∈ queued, ∃ recipient, fact = .announcementQueued (P.snapshotId body) recipient) :
      ∀ fact ∈ queued, ∀ pair, fact.pair? = some pair → pair.1 = P.snapshotId body := by
    intro fact hm pair hs
    obtain ⟨recipient, rfl⟩ := plain fact hm
    cases hs
    rfl
  refine announce_course (fun error never => ⟨.refl sender, fun hh missing fails => ?_, nofun⟩)
    (fun bytes queued _ plain => ?_) fun key root queued plain => ?_
  · cases fails
    exact never hh missing rfl
  · exact ⟨(sendPendingFor_quenches takes sender).mono fun _ _ holds =>
      ⟨holds.1, fun _ => holds.2.1, holds.2.2⟩,
      (commit_then_send_quenches takes (topped plain) sender).mono fun _ _ holds =>
        ⟨holds.1, fun _ => holds.2.1, holds.2.2⟩⟩
  · refine (sealFresh_ends key body.epoch _ sender).bind ?_ ?_
    · rintro bytes second ⟨hq, _⟩
      have hw : ∀ fact ∈ queued ++ [.announcementSealed (P.snapshotId body) bytes], ∀ pair,
          fact.pair? = some pair → pair.1 = P.snapshotId body := by
        intro fact hm pair hs
        rcases List.mem_append.mp hm with hl | hi
        · exact topped plain fact hl pair hs
        · rw [List.mem_singleton.mp hi] at hs
          cases hs
      exact (commit_then_send_quenches takes hw second).mono fun _ _ holds =>
        ⟨hq.worked.trans holds.1, fun _ => holds.2.1, holds.2.2⟩
    · rintro error second ⟨hq, never, _⟩
      refine ⟨hq.worked, ?_, nofun⟩
      intro _ missing fails
      cases fails
      exact never missing rfl

/-- The snapshot's recorded body is by this device. -/
def OwnBody (rebuilt : Rebuilt P) (device : DeviceId) (snapshot : SnapshotId) : Prop :=
  ∃ body, rebuilt.runtime.snapshotBody snapshot = some body ∧ body.author = device

structure KeysHeld (W : Postal) (rebuilt : Rebuilt P) (sender : Sender P)
    (snapshot : SnapshotId) : Prop where
  persisted : sender.OpensSeals W (replayOutbox sender.outbox) rebuilt.keyring snapshot
  own : ∀ body, rebuilt.runtime.snapshotBody snapshot = some body → body.author = sender.device →
    sender.sealed snapshot = none → (sender.epochKeys body.epoch).isSome
  foreign : ∀ known, rebuilt.runtime.announcement snapshot = some known →
    ¬ OwnBody rebuilt sender.device snapshot → sender.sealed snapshot = none →
    sender.Holds rebuilt.keyring known.epoch

/-- What a pass leaves of a snapshot: nobody to send to under the pass's route, or
    a statement of another author with nobody left to send to. -/
def Sender.Quenched (rebuilt : Rebuilt P) (device : DeviceId) (routeId : Option EndpointId)
    (scope : Finset SnapshotId) (snapshot : SnapshotId) (sender : Sender P) : Prop :=
  (∀ recipient, sender.Silent routeId scope (snapshot, recipient)) ∨
    ¬ OwnBody rebuilt device snapshot ∧ (rebuilt.runtime.announcement snapshot ≠ none →
      ∀ recipient, sender.Silent none scope (snapshot, recipient))

lemma Worked.quenched {device} {next : Sender P} (works : Worked allowed sender next)
    (free : ∀ recipient, ¬ allowed (snapshot, recipient))
    (quiet : sender.Quenched rebuilt device routeId scope snapshot) :
    next.Quenched rebuilt device routeId scope snapshot := by
  rcases quiet with silent | ⟨ha, silent⟩
  · exact .inl fun recipient => works.silent (free recipient) (silent recipient)
  · exact .inr ⟨ha, fun hk recipient =>
      works.silent (free recipient) (silent hk recipient)⟩

lemma resume_quenches (takes : post.Accepts) (held : KeysHeld W rebuilt start snapshot)
    (hr : Worked (fun _ => True) start state) :
    (resume W post rebuilt (replayOutbox start.outbox) nodeAddr scope snapshot).Ends state
      (fun outcome next => Worked (fun pair => pair.1 = snapshot) state next ∧
        (outcome.isOk = true →
          next.Quenched rebuilt start.device (routeIdOf W nodeAddr) scope snapshot)) := by
  have opens := hr.opensSeals held.persisted
  refine resume_course (fun rest => ?_) (fun _ => ⟨.refl state, nofun⟩)
    (fun body bytes _ sealed => ?_) fun body noted author sealed => ?_
  · have alien : ¬ OwnBody rebuilt start.device snapshot := by
      rintro ⟨body, hf, author⟩
      exact rest body hf (author.trans hr.device.symm)
    refine (reannounceOne_quenches takes opens fun known hf hu =>
      hr.holds (held.foreign known hf alien hu)).mono ?_
    rintro outcome next ⟨works, silent⟩
    exact ⟨works, fun ok => .inr ⟨alien, silent ok⟩⟩
  · refine (sendWithLiveRoute_quenches takes sealed opens).mono ?_
    rintro outcome next ⟨works, silent⟩
    refine ⟨works, fun ok => .inl (silent ?_)⟩
    cases outcome with
    | error => cases ok
    | ok => rfl
  · have key := hr.keys _ (held.own body noted (author.trans hr.device) sealed)
    refine (announce_quenches takes body nodeAddr state).mono ?_
    rintro outcome next ⟨works, never, silent⟩
    rw [Observed.key_of_lookup noted] at works silent
    refine ⟨works, fun ok => .inl (silent ?_)⟩
    cases outcome with
    | ok => rfl
    | error error =>
      cases error with
      | missingEpochKey epoch => exact absurd rfl (never key epoch)
      | _ => cases ok

lemma mem_destutter_ne {α : Type} [DecidableEq α] {a} {items : List α} :
    a ∈ items.destutter (· ≠ ·) ↔ a ∈ items := by
  cases items with
  | nil => rfl
  | cons head rest =>
    rw [List.destutter_cons']
    induction rest generalizing head with
    | nil => rfl
    | cons next rest ih =>
      rw [List.destutter'_cons]
      split_ifs with hd
      · rw [List.mem_cons, ih, ← List.mem_cons]
      · obtain rfl := not_not.mp hd
        rw [ih]
        simp

lemma mem_resumable :
    snapshot ∈ resumable outbox routeId scope ↔
      ∃ recipient, (snapshot, recipient) ∈ outbox.announceEligibleFor routeId scope := by
  simp [resumable, mem_destutter_ne]

lemma announcePending_quenches (takes : post.Accepts)
    (held : ∀ rebuilt, rebuildFacts P W.toDigests sender.drive sender.durable sender.device =
        .ok rebuilt →
      ∀ pair ∈ (replayOutbox sender.outbox).announceEligibleFor (routeIdOf W nodeAddr)
        (redeliveryScope sender.drive rebuilt), KeysHeld W rebuilt sender pair.1) :
    (announcePending W post nodeAddr).Ends sender (fun outcome final => outcome.isOk = true →
      Worked (fun _ => True) sender final ∧
      ∀ rebuilt, rebuildFacts P W.toDigests sender.drive sender.durable sender.device = .ok rebuilt →
        ∀ snapshot, final.Quenched rebuilt sender.device (routeIdOf W nodeAddr)
          (redeliveryScope sender.drive rebuilt) snapshot) := by
  refine ends_rebuild (fun _ _ => nofun) fun rebuilt made => ?_
  simp only [ends_bind, ends_get]
  generalize inScope : redeliveryScope sender.drive rebuilt = scope
  have each : ∀ snapshot ∈ resumable (replayOutbox sender.outbox) (routeIdOf W nodeAddr) scope,
      ∀ state, Worked (fun _ => True) sender state →
      (resume W post rebuilt (replayOutbox sender.outbox) nodeAddr scope snapshot).Ends state
        (fun outcome next => Worked (fun _ => True) sender next ∧
          (∀ error, outcome = .error error → True) ∧
          (outcome.isOk = true →
            next.Quenched rebuilt sender.device (routeIdOf W nodeAddr) scope snapshot) ∧
          ∀ other, other ≠ snapshot →
            state.Quenched rebuilt sender.device (routeIdOf W nodeAddr) scope other →
            next.Quenched rebuilt sender.device (routeIdOf W nodeAddr) scope other) := by
    intro snapshot hm state hr
    obtain ⟨recipient, able⟩ := mem_resumable.mp hm
    have keys := held rebuilt made (snapshot, recipient) (inScope ▸ able)
    refine (resume_quenches takes keys hr).mono ?_
    rintro outcome next ⟨works, hd⟩
    refine ⟨hr.trans (works.mono fun _ _ => trivial), fun _ _ => trivial, hd, ?_⟩
    intro other ha
    exact works.quenched fun _ => ha
  refine (ends_tally_all _ _ _ each (.refl sender)).mono ?_
  rintro outcome final ⟨works, -, ho, mem⟩ ok
  refine ⟨works, ?_⟩
  intro other hs snapshot
  cases made.symm.trans hs
  rw [inScope]
  by_cases hm : snapshot ∈ resumable (replayOutbox sender.outbox) (routeIdOf W nodeAddr) scope
  · exact mem ok snapshot hm
  · apply ho snapshot hm
    exact .inl fun recipient able => hm (mem_resumable.mpr ⟨recipient, able⟩)

/-- A pass over quenched snapshots hands nothing to the mailbox. -/
lemma announcePending_silent
    (quiet : ∀ rebuilt,
      rebuildFacts P W.toDigests sender.drive sender.durable sender.device = .ok rebuilt →
      ∀ snapshot, sender.Quenched rebuilt sender.device (routeIdOf W nodeAddr)
        (redeliveryScope sender.drive rebuilt) snapshot) :
    (announcePending W post nodeAddr).Ends sender (fun _ next => Prepared sender next) := by
  refine ends_rebuild (fun _ _ => .refl sender) fun rebuilt made => ?_
  simp only [ends_bind, ends_get]
  apply ends_tally ?_ (Prepared.refl sender)
  intro snapshot hm state ready
  obtain ⟨recipient, ha⟩ := mem_resumable.mp hm
  rcases quiet rebuilt made snapshot with silent | ⟨alien, silent⟩
  · exact absurd ha (silent recipient)
  · have stays : rebuilt.runtime.announcement snapshot ≠ none → ∀ recipient,
        state.Silent none (redeliveryScope sender.drive rebuilt) (snapshot, recipient) :=
      fun hk recipient => ready.silent id (silent hk recipient)
    have rest : (reannounceOne W post rebuilt (replayOutbox sender.outbox) snapshot
        (redeliveryScope sender.drive rebuilt)).Ends state (fun _ next => Prepared sender next) :=
      (reannounceOne_silent stays).mono fun _ _ more => ready.trans more
    simp only [resume, ends_bind, ends_get]
    cases hn : rebuilt.runtime.snapshotBody snapshot with
    | none => exact rest
    | some body =>
      dsimp only
      rw [if_pos]
      · exact rest
      · intro own
        exact alien ⟨body, hn, own.trans ready.device⟩

lemma routeWithdrawalOutstanding_eq_zero {device}
    (unrouted : ∀ pair, OwnBody rebuilt device pair.1 → pair ∈ outbox.announcementQueued.docs →
      pair.1 ∈ scope → outbox.reopens none pair = false) :
    routeWithdrawalOutstanding rebuilt.runtime outbox device scope = 0 := by
  simp only [routeWithdrawalOutstanding, List.countP_eq_zero, mem_destutter_ne, Bool.and_eq_true,
    Option.any_eq_true, decide_eq_true_eq, List.any_eq_true, List.mem_filter, not_and]
  rintro snapshot ⟨_, hi⟩ ⟨body, hn, own⟩ ⟨⟨other, recipient⟩, hq, rfl, hr⟩
  have hk := unrouted (other, recipient) ⟨body, hn, own⟩ hq hi
  obtain ⟨route, known, real⟩ := hr
  simp [AnnouncementOutbox.reopens, known, real] at hk

/-- A queued pair of the scope with a real route on record is eligible under no
    route, so none is left. -/
lemma routeWithdrawalOutstanding_quenched
    (quiet : ∀ snapshot, sender.Quenched rebuilt device none scope snapshot) :
    routeWithdrawalOutstanding rebuilt.runtime (replayOutbox sender.outbox) device scope = 0 := by
  refine routeWithdrawalOutstanding_eq_zero fun pair own hq hi => ?_
  rcases quiet pair.1 with hs | ⟨ha, _⟩
  · by_contra hr
    exact hs pair.2 (AnnouncementOutbox.eligible_of_reopens hq hi (by simpa using hr))
  · exact absurd own ha

/-- After a pass with accepting relays and every sealing key held, the next pass
    under that route hands nothing to the mailbox, whoever authored; after one
    without a route no withdrawal is outstanding. -/
theorem redelivery_quenches (accepts : post.Accepts) (nodeAddr : Option Bytes) (sender : Sender P)
    (held : ∀ rebuilt, rebuildFacts P W.toDigests sender.drive sender.durable sender.device =
        .ok rebuilt →
      ∀ pair ∈ (replayOutbox sender.outbox).announceEligibleFor (routeIdOf W nodeAddr)
        (redeliveryScope sender.drive rebuilt), KeysHeld W rebuilt sender pair.1)
    (ran : (announcePending W post nodeAddr sender).2.isOk = true) :
    (∀ (later : Post) (again : Sender P), again.drive = sender.drive →
        again.device = sender.device → again.durable = sender.durable →
        again.outbox = (announcePending W post nodeAddr sender).1.outbox →
        (announcePending W later nodeAddr again).1.handed = again.handed) ∧
      (routeIdOf W nodeAddr = none → ∀ rebuilt,
        rebuildFacts P W.toDigests sender.drive sender.durable sender.device = .ok rebuilt →
        routeWithdrawalOutstanding rebuilt.runtime
          (replayOutbox (announcePending W post nodeAddr sender).1.outbox) sender.device
          (redeliveryScope sender.drive rebuilt) = 0) := by
  obtain ⟨_, quiet⟩ := announcePending_quenches accepts held ran
  constructor
  · intro later again drive device hs outbox
    have silent : (announcePending W later nodeAddr).Ends again (fun _ next => Prepared again next) := by
      apply announcePending_silent
      intro rebuilt made snapshot
      rw [drive, device, hs] at made
      have fixed := quiet rebuilt made snapshot
      simpa only [Sender.Quenched, Sender.Silent, drive, device, outbox] using fixed
    exact Prepared.handed silent
  · intro hw rebuilt made
    have fixed := quiet rebuilt made
    rw [hw] at fixed
    exact routeWithdrawalOutstanding_quenched fixed

def owingSender : Sender samplePrimitives :=
  { postedSender with outbox :=
      [.announcementQueued (sampleId 51) (sampleId 2), .announcementQueued (sampleId 51) (sampleId 3)] }

theorem redelivery_quenches_owing :
    (announcePending samplePostal (samplePost 1) (some [1]) owingSender).1.handed.length = 2 ∧
      (announcePending samplePostal (samplePost 1) (some [1])
        (announcePending samplePostal (samplePost 1) (some [1]) owingSender).1).1.handed =
      (announcePending samplePostal (samplePost 1) (some [1]) owingSender).1.handed := by
  refine ⟨by decide +kernel, ?_⟩
  have takes : (samplePost 1).Accepts := fun _ _ _ => by simp [samplePost]
  refine (redelivery_quenches takes (some [1]) owingSender ?_ ?_).1 (samplePost 1) _ ?_ ?_ ?_ rfl
  · intro rebuilt _ pair _
    exact ⟨fun _ _ _ _ => .inl rfl, fun _ _ _ _ => rfl, fun _ _ _ _ => .inl rfl⟩
  all_goals decide +kernel

end Wyrd.Outbox
