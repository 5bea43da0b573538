import Wyrd.Intake.Runs
import Wyrd.Outbox.Announce

/-! # What sealing does

Reading persisted seals back and making new ones hands nothing to the mailbox and
changes no obligation. The bytes chosen for a route carry it, and only a key that is
not held leaves a snapshot without bytes.
-/

namespace Wyrd.Outbox

open Function

open Wyrd.Authorization Wyrd.Control Wyrd.Durable Wyrd.Intake Wyrd.Keys Wyrd.Membership
open Effect

variable {P : Primitives} {W : Postal} {post : Post} {authored : SnapshotId → Prop}
  {endpoint : EndpointId} {scope : Finset SnapshotId} {snapshot : SnapshotId} {bytes : Bytes}

/-- Opening what was sealed under the payload's epoch gives the message back. -/
structure SealLaws (W : Postal) : Prop where
  opens : ∀ {key drive epoch nonce message bytes},
    W.sealControl key drive epoch nonce message = some bytes →
    (∀ repeated ∈ message.payloadEpoch, repeated = epoch) → W.openControl key bytes = .ok message

/-- The bytes hold an announcement whose route is recorded as this endpoint. -/
def Carries (W : Postal) (bytes : Bytes) (endpoint : EndpointId) : Prop :=
  ∃ key a, W.openControl key bytes = .ok (.snapshotAnnouncement a) ∧
    recordedRoute (routeIdOf W a.nodeAddr) = endpoint

/-- Every delivery route that became durable for such a snapshot stands right
    after the send it belongs to, and names the endpoint those bytes carry. -/
def Faithful (W : Postal) (authored : SnapshotId → Prop) (events : List Event) : Prop :=
  ∀ front facts back, events = front ++ .committed facts :: back →
    ∀ snapshot recipient endpoint,
      .announcementDeliveredRoute snapshot recipient endpoint ∈ facts → authored snapshot →
      ∃ earlier bytes, front = earlier ++ [.handed snapshot recipient bytes] ∧
        Carries W bytes endpoint

lemma Faithful.nil : Faithful W authored [] := by
  intro front facts back split
  simp at split

lemma Faithful.append (prior : Faithful W authored first) (after : Faithful W authored second) :
    Faithful W authored (first ++ second) := by
  intro front facts back split snapshot recipient endpoint hm own
  rcases List.append_eq_append_iff.mp split with ⟨more, rfl, rest⟩ | ⟨more, rfl, rest⟩
  · obtain ⟨earlier, bytes, rfl, hb⟩ := after more facts back rest snapshot recipient endpoint
      hm own
    exact ⟨first ++ earlier, bytes, by simp, hb⟩
  · cases more with
    | nil =>
      rw [List.nil_append] at rest
      obtain ⟨earlier, bytes, none, _⟩ := after [] facts back rest.symm snapshot recipient endpoint
        hm own
      simp at none
    | cons head tail =>
      rw [List.cons_append, List.cons.injEq] at rest
      obtain ⟨rfl, rfl⟩ := rest
      exact prior front facts tail rfl snapshot recipient endpoint hm own

variable {facts : List OutboxFact}

/-- Facts without a delivery route make no claim. -/
lemma Faithful.committed
    (plain : ∀ snapshot recipient endpoint,
      .announcementDeliveredRoute snapshot recipient endpoint ∉ facts) :
    Faithful W authored [.committed facts] := by
  intro front others back split snapshot recipient endpoint hm _
  cases front with
  | nil =>
    simp only [List.nil_append, List.cons.injEq, Event.committed.injEq] at split
    exact absurd (split.1 ▸ hm) (plain snapshot recipient endpoint)
  | cons => simp at split

def Sender.sealed (sender : Sender P) (snapshot : SnapshotId) : Option Bytes :=
  (replayOutbox sender.outbox).announcementSealed snapshot

/-- Events were added faithfully, and a seal that is new carries the endpoint of
    the call. -/
structure Kept (W : Postal) (authored : SnapshotId → Prop) (endpoint : EndpointId)
    (sender next : Sender P) : Prop where
  drive : next.drive = sender.drive
  device : next.device = sender.device
  durable : next.durable = sender.durable
  events : ∃ added, next.trace = sender.trace ++ added ∧ Faithful W authored added
  seals : ∀ snapshot bytes, next.sealed snapshot = some bytes →
    sender.sealed snapshot = some bytes ∨ (authored snapshot → Carries W bytes endpoint)

namespace Kept

lemma refl (sender : Sender P) : Kept W authored endpoint sender sender :=
  ⟨rfl, rfl, rfl, ⟨[], by simp, .nil⟩, fun _ _ hf => .inl hf⟩

lemma trans {first second third : Sender P} (prior : Kept W authored endpoint first second)
    (after : Kept W authored endpoint second third) : Kept W authored endpoint first third := by
  obtain ⟨added, trace, faithful⟩ := prior.events
  obtain ⟨added', trace', faithful'⟩ := after.events
  refine ⟨after.drive.trans prior.drive, after.device.trans prior.device,
    after.durable.trans prior.durable,
    ⟨added ++ added', by rw [trace', trace, List.append_assoc], faithful.append faithful'⟩, ?_⟩
  intro snapshot bytes hf
  rcases after.seals snapshot bytes hf with ho | hb
  · exact prior.seals snapshot bytes ho
  · exact .inr hb

end Kept

lemma replayOutbox_append (facts more : List OutboxFact) :
    replayOutbox (facts ++ more) = more.foldl AnnouncementOutbox.record (replayOutbox facts) := by
  simp [replayOutbox, List.foldl_append]

lemma sealed_origin {outbox : AnnouncementOutbox}
    (hf : (facts.foldl AnnouncementOutbox.record outbox).announcementSealed snapshot =
      some bytes) :
    outbox.announcementSealed snapshot = some bytes ∨ .announcementSealed snapshot bytes ∈ facts := by
  induction facts generalizing outbox with
  | nil => exact .inl hf
  | cons fact rest ih =>
    rcases ih hf with old | hl
    · cases fact with
      | announcementSealed other =>
        simp only [AnnouncementOutbox.record, AnnouncementOutbox.recordAnnouncementSealed] at old
        split_ifs at old with hh
        · exact .inl old
        · by_cases hs : snapshot = other
          · subst hs
            simp only [update_self, Option.some.injEq] at old
            exact .inr (by simp [old])
          · simp only [update_of_ne hs] at old
            exact .inl old
      | announcementRouteSealed | announcementReconciled =>
        simp only [AnnouncementOutbox.record, AnnouncementOutbox.recordAnnouncementRouteSealed,
          AnnouncementOutbox.recordAnnouncementReconciled] at old
        split_ifs at old <;> exact .inl old
      | announcementQueued | announcementDelivered | announcementDeliveredRoute =>
        exact .inl old
    · exact .inr (List.mem_cons_of_mem _ hl)

lemma Kept.append {sender : Sender P}
    (plain : ∀ snapshot recipient endpoint,
      .announcementDeliveredRoute snapshot recipient endpoint ∉ facts)
    (seals : ∀ snapshot bytes, .announcementSealed snapshot bytes ∈ facts → authored snapshot →
      Carries W bytes endpoint) : Kept W authored endpoint sender (sender.append facts) := by
  refine ⟨rfl, rfl, rfl, ⟨[.committed facts], rfl, .committed plain⟩, ?_⟩
  intro snapshot bytes hf
  rw [Sender.sealed, Sender.append, replayOutbox_append] at hf
  exact (sealed_origin hf).imp_right (seals snapshot bytes)

/-- The obligation a fact changes the standing of; a seal changes none. -/
def OutboxFact.pair? : OutboxFact → Option Pair
  | .announcementSealed _ _ | .announcementRouteSealed _ _ _ => none
  | .announcementQueued snapshot recipient | .announcementDelivered snapshot recipient
  | .announcementDeliveredRoute snapshot recipient _
  | .announcementReconciled snapshot recipient _ => some (snapshot, recipient)

namespace AnnouncementOutbox

variable {outbox : AnnouncementOutbox} {route : Option EndpointId} {pair : Pair}

/-- Two outboxes owe a pair alike. -/
structure Alike (outbox other : AnnouncementOutbox) (pair : Pair) : Prop where
  queued : pair ∈ other.announcementQueued.docs ↔ pair ∈ outbox.announcementQueued.docs
  delivered : pair ∈ other.announcementDelivered.docs ↔ pair ∈ outbox.announcementDelivered.docs
  route : other.announcementDeliveredRoute pair = outbox.announcementDeliveredRoute pair

lemma Alike.refl : Alike outbox outbox pair := ⟨.rfl, .rfl, rfl⟩

lemma Alike.trans (prior : Alike first second pair) (after : Alike second third pair) :
    Alike first third pair :=
  ⟨after.queued.trans prior.queued, after.delivered.trans prior.delivered, after.route.trans prior.route⟩

lemma Alike.eligible {other : AnnouncementOutbox} (alike : Alike outbox other pair) :
    pair ∈ other.announceEligibleFor route scope ↔ pair ∈ outbox.announceEligibleFor route scope := by
  rw [mem_announceEligibleFor, mem_announceEligibleFor, alike.queued, alike.delivered]
  unfold reopens
  rw [alike.route]

lemma alike_record (apart : fact.pair? ≠ some pair) : Alike outbox (outbox.record fact) pair := by
  cases fact with
  | announcementQueued =>
    refine ⟨?_, .rfl, rfl⟩
    simp only [record, recordAnnouncementQueued, mem_observe_pair]
    exact or_iff_left fun hs => apart (hs ▸ rfl)
  | announcementSealed =>
    simp only [record, recordAnnouncementSealed]
    split_ifs <;> exact ⟨.rfl, .rfl, rfl⟩
  | announcementRouteSealed =>
    simp only [record, recordAnnouncementRouteSealed]
    split_ifs <;> exact ⟨.rfl, .rfl, rfl⟩
  | announcementDelivered =>
    refine ⟨.rfl, ?_, rfl⟩
    simp only [record, recordAnnouncementDelivered, mem_observe_pair]
    exact or_iff_left fun hs => apart (hs ▸ rfl)
  | announcementDeliveredRoute =>
    refine ⟨.rfl, .rfl, ?_⟩
    simp only [record, recordAnnouncementDeliveredRoute]
    apply update_of_ne
    rintro rfl
    exact apart rfl
  | announcementReconciled =>
    simp only [record, recordAnnouncementReconciled]
    split_ifs <;> exact ⟨.rfl, .rfl, rfl⟩

lemma alike_records {facts : List OutboxFact} (apart : ∀ fact ∈ facts, fact.pair? ≠ some pair) :
    Alike outbox (facts.foldl record outbox) pair := by
  induction facts generalizing outbox with
  | nil => exact .refl
  | cons fact rest ih =>
    exact (alike_record (apart fact List.mem_cons_self)).trans
      (ih fun other hm => apart other (List.mem_cons_of_mem _ hm))

end AnnouncementOutbox

def Event.isHanded : Event → Bool
  | .handed _ _ _ => true
  | .committed _ => false

def Sender.handed (sender : Sender P) : List Event := sender.trace.filter Event.isHanded

/-- The facts added change no pair but those allowed, and no key is lost. -/
structure Worked (allowed : Pair → Prop) (sender next : Sender P) : Prop where
  drive : next.drive = sender.drive
  device : next.device = sender.device
  durable : next.durable = sender.durable
  keys : ∀ epoch, (sender.epochKeys epoch).isSome → (next.epochKeys epoch).isSome
  alike : ∀ pair, ¬ allowed pair →
    (replayOutbox sender.outbox).Alike (replayOutbox next.outbox) pair

/-- Nothing was handed out either, and no pair changed. -/
structure Prepared (sender next : Sender P) : Prop extends Worked (fun _ => False) sender next where
  handed : next.handed = sender.handed

namespace Worked

variable {allowed : Pair → Prop}

lemma refl (sender : Sender P) : Worked allowed sender sender :=
  ⟨rfl, rfl, rfl, fun _ => id, fun _ _ => .refl⟩

lemma trans {first second third : Sender P} (prior : Worked allowed first second)
    (after : Worked allowed second third) : Worked allowed first third :=
  ⟨after.drive.trans prior.drive, after.device.trans prior.device,
    after.durable.trans prior.durable, fun epoch hh => after.keys epoch (prior.keys epoch hh),
    fun pair free => (prior.alike pair free).trans (after.alike pair free)⟩

lemma mono {more : Pair → Prop} (implies : ∀ pair, allowed pair → more pair)
    {sender next : Sender P} (works : Worked allowed sender next) : Worked more sender next :=
  ⟨works.drive, works.device, works.durable, works.keys,
    fun pair free => works.alike pair fun is => free (implies pair is)⟩

end Worked

namespace Prepared

lemma refl (sender : Sender P) : Prepared sender sender := ⟨.refl sender, rfl⟩

lemma trans {first second third : Sender P} (prior : Prepared first second)
    (after : Prepared second third) : Prepared first third :=
  ⟨prior.toWorked.trans after.toWorked, after.handed.trans prior.handed⟩

lemma worked {allowed : Pair → Prop} {sender next : Sender P} (ready : Prepared sender next) :
    Worked allowed sender next := ready.toWorked.mono fun _ => False.elim

end Prepared

variable {facts : List OutboxFact} {allowed : Pair → Prop}

lemma Worked.append {sender : Sender P}
    (hw : ∀ fact ∈ facts, ∀ pair, fact.pair? = some pair → allowed pair) :
    Worked allowed sender (sender.append facts) := by
  refine ⟨rfl, rfl, rfl, fun _ => id, ?_⟩
  intro pair free
  rw [Sender.append, replayOutbox_append]
  exact AnnouncementOutbox.alike_records fun fact hm hs =>
    free (hw fact hm pair hs)

/-- An epoch key that the sender holds or can derive. -/
def Sender.Holds (sender : Sender P) (keyring : DriveKeyring) (epoch : Nat) : Prop :=
  (sender.epochKeys epoch).isSome ∨ (keyring.secret epoch).isSome

variable {sender : Sender P} {keyring : DriveKeyring}

lemma Worked.holds (works : Worked allowed sender next) (held : sender.Holds keyring epoch) :
    next.Holds keyring epoch := held.imp (works.keys epoch) id

/-- Nothing was sent, no pair changed, and no snapshot got its seal. -/
structure Quiet (W : Postal) (sender next : Sender P) : Prop extends Prepared sender next where
  kept : ∀ authored endpoint, Kept W authored endpoint sender next

namespace Quiet

lemma refl (sender : Sender P) : Quiet W sender sender := ⟨.refl sender, fun _ _ => .refl sender⟩

lemma trans {first second third : Sender P} (prior : Quiet W first second)
    (after : Quiet W second third) : Quiet W first third :=
  ⟨prior.toPrepared.trans after.toPrepared, fun authored endpoint =>
    (prior.kept authored endpoint).trans (after.kept authored endpoint)⟩

lemma of_same (drive : next.drive = sender.drive) (device : next.device = sender.device)
    (saved : next.durable = sender.durable) (outbox : next.outbox = sender.outbox)
    (trace : next.trace = sender.trace)
    (keys : ∀ epoch, (sender.epochKeys epoch).isSome → (next.epochKeys epoch).isSome) :
    Quiet W sender next := by
  refine ⟨⟨⟨drive, device, saved, keys, fun _ _ => outbox ▸ .refl⟩, by
    rw [Sender.handed, trace, Sender.handed]⟩, fun _ _ => ⟨drive, device, saved,
      ⟨[], by rw [trace, List.append_nil], .nil⟩, fun _ _ hf => .inl ?_⟩⟩
  rwa [Sender.sealed, outbox] at hf

lemma append {sender : Sender P} :
    Quiet W sender (sender.append [.announcementRouteSealed snapshot route bytes]) :=
  ⟨⟨.append (by simp [OutboxFact.pair?]), by
    simp [Sender.handed, Sender.append, List.filter_append, Event.isHanded]⟩,
    fun _ _ => .append (by simp) (by simp)⟩

end Quiet

lemma ends_commitFacts (refused : goal (.error .durable) sender)
    (appended : ∀ outcome, outcome = .error .durable ∨ outcome = .ok () →
      goal outcome (sender.append facts)) :
    (commitFacts post facts : Sending P Unit).Ends sender goal := by
  unfold Ends commitFacts
  cases post.commit sender.outbox facts with
  | refused => exact refused
  | unreported => exact appended _ (.inl rfl)
  | landed => exact appended _ (.inr rfl)

/-- The replay fails, not for a key, or gives what is committed. -/
lemma ends_rebuild {α : Type} {next : Rebuilt P × AnnouncementOutbox → Sending P α}
    {goal : Except AnnounceError α → Sender P → Prop}
    (fails : ∀ error, (∀ missing, error ≠ .missingEpochKey missing) → goal (.error error) sender)
    (goes : ∀ rebuilt,
      rebuildFacts P W.toDigests sender.drive sender.durable sender.device = .ok rebuilt →
      (next (rebuilt, replayOutbox sender.outbox)).Ends sender goal) :
    (rebuild W post >>= next).Ends sender goal := by
  rw [ends_bind]
  unfold Ends rebuild
  split_ifs
  · cases hm : rebuildFacts P W.toDigests sender.drive sender.durable sender.device with
    | error => exact fails _ nofun
    | ok rebuilt => exact goes rebuilt hm
  · exact fails _ nofun

lemma controlKeyFor_ends (keyring : DriveKeyring) (epoch : Nat) (sender : Sender P) :
    (controlKeyFor W keyring epoch : Sending P ControlKey).Ends sender (fun outcome next =>
      Quiet W sender next ∧ (sender.Holds keyring epoch → outcome.isOk = true)) := by
  simp only [controlKeyFor, ends_bind, ends_get]
  cases hh : sender.epochKeys epoch with
  | some => exact ⟨.refl sender, fun _ => rfl⟩
  | none =>
    cases hd : keyring.secret epoch with
    | none =>
      refine ⟨.refl sender, ?_⟩
      intro holds
      simp [Sender.Holds, hh, hd] at holds
    | some =>
      simp only [ends_bind, ends_set, ends_pure]
      refine ⟨.of_same rfl rfl rfl rfl rfl ?_, fun _ => rfl⟩
      intro other isHeld
      by_cases hs : other = epoch
      · subst hs
        simp
      · simpa [update_of_ne hs] using isHeld

lemma sealFresh_ends (key : ControlKey) (epoch : Nat) (message : Message) (sender : Sender P) :
    (sealFresh W key epoch message : Sending P Bytes).Ends sender (fun outcome next =>
      Quiet W sender next ∧ (∀ missing, outcome ≠ .error (.missingEpochKey missing)) ∧
        (SealLaws W → (∀ repeated ∈ message.payloadEpoch, repeated = epoch) →
          ∀ bytes, outcome = .ok bytes → W.openControl key bytes = .ok message)) := by
  have counts : Quiet W sender { sender with seals := sender.seals + 1 } :=
    .of_same rfl rfl rfl rfl rfl fun _ => id
  simp only [sealFresh, ends_bind, ends_get, ends_set]
  cases sealed : W.sealControl key sender.drive epoch sender.seals message with
  | none => exact ⟨counts, nofun, fun _ _ => nofun⟩
  | some =>
    dsimp only
    split_ifs
    · exact ⟨counts, nofun, fun _ _ => nofun⟩
    · refine ⟨counts, nofun, ?_⟩
      intro laws bound found hs
      cases hs
      exact laws.opens sealed bound

/-- Only a key that is not held leaves persisted bytes unopened without an
    error. -/
lemma openReusedSealed_ends (keyring : DriveKeyring) (bytes : Bytes) (sender : Sender P) :
    (openReusedSealed W keyring bytes : Sending P (Option (Nat × Message))).Ends sender
      (fun outcome next => Quiet W sender next ∧
        (outcome = .ok none →
          ∃ header, W.decodeControl bytes = .ok header ∧ ¬ sender.Holds keyring header.epoch) ∧
        ∀ opened, outcome = .ok (some opened) → (∃ key, W.openControl key bytes = .ok opened.2) ∧
          ∀ repeated ∈ opened.2.payloadEpoch, repeated = opened.1) := by
  unfold openReusedSealed
  cases hd : W.decodeControl bytes with
  | error =>
    rw [ends_fail]
    exact ⟨.refl sender, by simp, by simp⟩
  | ok header =>
    dsimp only
    rw [ends_bind, ends_attempt]
    refine (controlKeyFor_ends keyring header.epoch sender).mono ?_
    rintro outcome middle ⟨hq, ho⟩
    cases outcome with
    | error error =>
      have lost : ¬ sender.Holds keyring header.epoch := fun hh => by
        simpa [Except.isOk, Except.toBool] using ho hh
      cases error with
      | missingEpochKey => exact ⟨hq, fun _ => ⟨header, rfl, lost⟩, by rintro _ ⟨⟩⟩
      | _ =>
        dsimp only
        rw [ends_fail]
        exact ⟨hq, by simp, by simp⟩
    | ok key =>
      cases opened : W.openControl key bytes with
      | error =>
        simp only [opened, ends_fail]
        exact ⟨hq, by simp, by simp⟩
      | ok =>
        simp only [opened, ends_bind, ends_get]
        split_ifs
        · exact ⟨hq, by rintro ⟨⟩, by rintro _ ⟨⟩⟩
        · refine ⟨hq, by rintro ⟨⟩, ?_⟩
          intro pair hs
          cases hs
          exact ⟨⟨key, opened⟩, W.epochBound hd opened⟩

lemma correlate_ok (matching : correlate snapshot epoch opened = .ok a) :
    opened.2 = .snapshotAnnouncement a ∧ opened.1 = epoch := by
  unfold correlate at matching
  cases message : opened.2 with
  | snapshotAnnouncement =>
    simp only [message] at matching
    split_ifs at matching with _ same
    cases matching
    exact ⟨rfl, not_not.mp same⟩
  | _ => simp [message] at matching

lemma Carries.of_opened (ho : W.openControl key bytes = .ok (.snapshotAnnouncement a))
    (route : a.nodeAddr = nodeAddr) : Carries W bytes (recordedRoute (routeIdOf W nodeAddr)) :=
  ⟨key, a, ho, by rw [route]⟩

section Chosen

variable {outbox : AnnouncementOutbox} {epoch : Nat} {nodeAddr : Option Bytes}
  {announcement : SnapshotAnnouncement}

/-- What choosing bytes for a route ends with: the bytes carry the route, and without
    bytes the key of a persisted seal for the route is not held. -/
def Chooses (W : Postal) (outbox : AnnouncementOutbox) (keyring : DriveKeyring)
    (snapshot : SnapshotId) (nodeAddr : Option Bytes) (sender : Sender P)
    (outcome : Except AnnounceError (Option Bytes)) (next : Sender P) : Prop :=
  Quiet W sender next ∧
    (outcome = .ok none → ∃ persisted header,
      outbox.announcementRouteSealed (snapshot, nodeAddr.getD []) = some persisted ∧
        W.decodeControl persisted = .ok header ∧ ¬ sender.Holds keyring header.epoch) ∧
    (SealLaws W → ∀ bytes, outcome = .ok (some bytes) →
      Carries W bytes (recordedRoute (routeIdOf W nodeAddr)))

lemma Chooses.error {error next} (hq : Quiet W sender next) :
    Chooses W outbox keyring snapshot nodeAddr sender (.error error) next :=
  ⟨hq, nofun, fun _ _ => nofun⟩

lemma reuseOrSealRoute_ends (bound : announcement.epoch = epoch) (sender : Sender P) :
    (reuseOrSealRoute W post outbox keyring snapshot epoch nodeAddr announcement :
        Sending P (Option Bytes)).Ends sender
      (Chooses W outbox keyring snapshot nodeAddr sender) := by
  unfold reuseOrSealRoute
  dsimp only
  cases hh : outbox.announcementRouteSealed (snapshot, nodeAddr.getD []) with
  | some persisted =>
    refine (openReusedSealed_ends keyring persisted sender).bind ?_ (fun _ _ holds => .error holds.1)
    rintro (_ | opened) middle ⟨hq, missing, opens⟩
    · obtain ⟨header, hd, lacks⟩ := missing rfl
      exact ⟨hq, fun _ => ⟨persisted, header, hh, hd, lacks⟩, fun _ _ => nofun⟩
    · rw [ends_bind, ends_lift]
      cases hl : correlate snapshot epoch opened with
      | error => exact .error hq
      | ok =>
        dsimp only
        split_ifs with ho
        · exact .error hq
        · refine ⟨hq, nofun, ?_⟩
          intro _ bytes hs
          cases hs
          obtain ⟨⟨key, reads⟩, _⟩ := opens opened rfl
          rw [(correlate_ok hl).1] at reads
          exact .of_opened reads (not_not.mp ho)
  | none =>
    rw [ends_bind, ends_get]
    refine (controlKeyFor_ends keyring epoch sender).bind ?_ (fun _ _ holds => .error holds.1)
    rintro key middle ⟨hq, _⟩
    refine (sealFresh_ends key epoch _ middle).bind ?_ (fun _ _ holds => .error (hq.trans holds.1))
    rintro bytes second ⟨more, _, opens⟩
    have hr := hq.trans more
    rw [ends_bind]
    refine ends_commitFacts (.error hr) ?_
    rintro _ (rfl | rfl)
    · exact .error (hr.trans .append)
    · refine ⟨hr.trans .append, nofun, ?_⟩
      intro laws found hs
      cases hs
      exact .of_opened (opens laws (by rintro _ ⟨⟩; exact bound) bytes rfl) rfl

lemma liveBytes_ends
    (ho : ∃ key, W.openControl key sealedBytes = .ok (.snapshotAnnouncement announcement))
    (bound : announcement.epoch = epoch) (sender : Sender P) :
    (liveBytes W post outbox keyring snapshot epoch sealedBytes nodeAddr announcement :
        Sending P (Option Bytes)).Ends sender
      (Chooses W outbox keyring snapshot nodeAddr sender) := by
  unfold liveBytes
  split_ifs with hs
  · refine ⟨.refl sender, nofun, ?_⟩
    intro _ bytes hc
    cases hc
    obtain ⟨key, hr⟩ := ho
    exact .of_opened hr hs
  · exact reuseOrSealRoute_ends bound sender

/-- The key of every persisted seal of a snapshot is held. -/
def Sender.OpensSeals (W : Postal) (outbox : AnnouncementOutbox) (keyring : DriveKeyring)
    (snapshot : SnapshotId) (sender : Sender P) : Prop :=
  ∀ bytes header, (outbox.announcementSealed snapshot = some bytes ∨
      ∃ route, outbox.announcementRouteSealed (snapshot, route) = some bytes) →
    W.decodeControl bytes = .ok header → sender.Holds keyring header.epoch

/-- The seal of another author's statement is no claim on a route. -/
lemma reannounceSealedBytes_ends (known : SnapshotAnnouncement) (sender : Sender P) :
    (reannounceSealedBytes W post outbox keyring snapshot known : Sending P (Option Bytes)).Ends
      sender (fun outcome next => Prepared sender next ∧
        (∀ authored endpoint, ¬ authored snapshot → Kept W authored endpoint sender next) ∧
        (sender.OpensSeals W outbox keyring snapshot →
          (outbox.announcementSealed snapshot = none → sender.Holds keyring known.epoch) →
          outcome ≠ .ok none)) := by
  unfold reannounceSealedBytes
  cases sealed : outbox.announcementSealed snapshot with
  | some bytes =>
    refine (openReusedSealed_ends keyring bytes sender).bind ?_
      (fun _ _ holds => ⟨holds.1.toPrepared, fun _ _ _ => holds.1.kept _ _, by simp⟩)
    rintro (_ | opened) middle ⟨hq, missing, _⟩
    · refine ⟨hq.toPrepared, fun _ _ _ => hq.kept _ _, ?_⟩
      intro opens
      obtain ⟨header, hd, hl⟩ := missing rfl
      exact absurd (opens bytes header (.inl sealed) hd) hl
    · rw [ends_bind, ends_lift]
      cases correlate snapshot known.epoch opened with
      | error => exact ⟨hq.toPrepared, fun _ _ _ => hq.kept _ _, by simp⟩
      | ok => exact ⟨hq.toPrepared, fun _ _ _ => hq.kept _ _, by rintro _ _ ⟨⟩⟩
  | none =>
    rw [ends_bind, ends_attempt]
    refine (controlKeyFor_ends keyring known.epoch sender).mono ?_
    rintro outcome middle ⟨hq, opens⟩
    cases outcome with
    | error error =>
      cases error with
      | missingEpochKey =>
        refine ⟨hq.toPrepared, fun _ _ _ => hq.kept _ _, ?_⟩
        intro _ hh
        simpa [Except.isOk, Except.toBool] using opens (hh rfl)
      | _ =>
        dsimp only
        rw [ends_fail]
        exact ⟨hq.toPrepared, fun _ _ _ => hq.kept _ _, by simp⟩
    | ok key =>
      refine (sealFresh_ends key known.epoch _ middle).bind ?_ (fun _ _ holds =>
        have hr := hq.trans holds.1
        ⟨hr.toPrepared, fun _ _ _ => hr.kept _ _, by simp⟩)
      rintro bytes second ⟨more, _, _⟩
      have hr := hq.trans more
      have ready : Prepared second (second.append [.announcementSealed snapshot bytes]) :=
        ⟨.append (by simp [OutboxFact.pair?]), by
          simp [Sender.handed, Sender.append, List.filter_append, Event.isHanded]⟩
      have hk (authored : SnapshotId → Prop) (endpoint : EndpointId)
          (alien : ¬ authored snapshot) : Kept W authored endpoint second
          (second.append [.announcementSealed snapshot bytes]) := by
        refine .append (by simp) ?_
        intro other sealed hm own
        simp only [List.mem_singleton, OutboxFact.announcementSealed.injEq] at hm
        exact absurd (hm.1 ▸ own) alien
      rw [ends_bind]
      refine ends_commitFacts ⟨hr.toPrepared, fun _ _ _ => hr.kept _ _, by simp⟩ ?_
      rintro _ (rfl | rfl) <;>
        exact ⟨hr.toPrepared.trans ready, fun _ _ alien =>
          (hr.kept _ _).trans (hk _ _ alien), by rintro _ _ ⟨⟩⟩

end Chosen

section Courses

variable {goal : Except AnnounceError Nat → Sender P → Prop} {nodeAddr : Option Bytes}

lemma eq_queued_of_mem_uncovered (hm : fact ∈ uncovered outbox device snapshot members readers) :
    ∃ recipient, fact = .announcementQueued snapshot recipient := by
  obtain ⟨recipient, _, rfl⟩ := List.mem_map.mp hm
  exact ⟨recipient, rfl⟩

/-- Announcing stops before it does anything, or tops the queue up and sends: the seal
    there is, or one made now. -/
lemma announce_course {body : Snapshot}
    (stops : ∀ error, ((sender.epochKeys body.epoch).isSome →
      ∀ missing, error ≠ .missingEpochKey missing) → goal (.error error) sender)
    (resends : ∀ bytes queued, sender.sealed (P.snapshotId body) = some bytes →
      (∀ fact ∈ queued, ∃ recipient, fact = .announcementQueued (P.snapshotId body) recipient) →
      (sendPendingFor W post (P.snapshotId body) bytes (routeIdOf W nodeAddr) scope).Ends sender
          goal ∧
        (do commitFacts post queued
            sendPendingFor W post (P.snapshotId body) bytes (routeIdOf W nodeAddr) scope :
          Sending P Nat).Ends sender goal)
    (seals : ∀ key root queued,
      (∀ fact ∈ queued, ∃ recipient, fact = .announcementQueued (P.snapshotId body) recipient) →
      (do let bytes ← sealFresh W key body.epoch
            (.snapshotAnnouncement (statement P W sender.drive body root nodeAddr))
          commitFacts post (queued ++ [.announcementSealed (P.snapshotId body) bytes])
          sendPendingFor W post (P.snapshotId body) bytes (routeIdOf W nodeAddr) scope :
        Sending P Nat).Ends sender goal) :
    (announce W post body nodeAddr scope).Ends sender goal := by
  unfold announce
  rw [ends_bind, ends_get]
  dsimp only
  split_ifs with ha
  · exact stops _ fun _ => nofun
  · cases hh : sender.epochKeys body.epoch with
    | none => exact stops _ fun ht => by simp [hh] at ht
    | some key =>
      refine ends_rebuild (fun error never => stops error fun _ => never) fun rebuilt hm => ?_
      cases rootManifestRecord rebuilt.runtime (P.snapshotId body) with
      | none => exact stops _ fun _ => nofun
      | some root =>
        cases rebuilt.log.membersOf body.membership with
        | none => exact stops _ fun _ => nofun
        | some =>
          cases rebuilt.log.readersOf body.membership with
          | none => exact stops _ fun _ => nofun
          | some =>
            dsimp only
            cases sealed : (replayOutbox sender.outbox).announcementSealed (P.snapshotId body) with
            | some bytes =>
              dsimp only
              split_ifs
              · exact (resends bytes [] sealed (by simp)).1
              · exact (resends bytes _ sealed fun fact => eq_queued_of_mem_uncovered).2
            | none => exact seals key root _ fun fact => eq_queued_of_mem_uncovered

/-- Sending under the live route fails before it sends, lacks the key of a persisted seal,
    or sends bytes that carry the route. -/
lemma sendWithLiveRoute_course {outbox sealedBytes epoch goal}
    (stops : ∀ error next, Quiet W sender next → goal (.error error) next)
    (lacks : ∀ next bytes header, Quiet W sender next →
      (bytes = sealedBytes ∨ ∃ route, outbox.announcementRouteSealed (snapshot, route) = some bytes) →
      W.decodeControl bytes = .ok header → ¬ sender.Holds keyring header.epoch → goal (.ok none) next)
    (sends : ∀ bytes next, Quiet W sender next →
      (SealLaws W → Carries W bytes (recordedRoute (routeIdOf W nodeAddr))) →
      (sendPendingFor W post snapshot bytes (routeIdOf W nodeAddr) scope).Ends next
        fun outcome final => goal (outcome.map some) final) :
    (sendWithLiveRoute W post outbox keyring snapshot sealedBytes nodeAddr epoch scope).Ends sender
      goal := by
  unfold sendWithLiveRoute
  refine (openReusedSealed_ends keyring sealedBytes sender).bind ?_ (fun _ _ holds => stops _ _ holds.1)
  rintro (_ | opened) middle ⟨hq, lost, ho⟩
  · obtain ⟨header, decoded, lacking⟩ := lost rfl
    exact lacks middle sealedBytes header hq (.inl rfl) decoded lacking
  · rw [ends_bind, ends_lift]
    cases hl : correlate snapshot epoch opened with
    | error => exact stops _ _ hq
    | ok =>
      have reads := ho opened rfl
      obtain ⟨carried, same⟩ := correlate_ok hl
      rw [carried, same] at reads
      refine (liveBytes_ends reads.1 (reads.2 _ rfl) middle).bind ?_ (fun _ _ holds => stops _ _ (hq.trans holds.1))
      rintro (_ | bytes) third ⟨more, lost, hb⟩
      · obtain ⟨persisted, header, hf, decoded, lacking⟩ := lost rfl
        exact lacks third persisted header (hq.trans more) (.inr ⟨_, hf⟩) decoded
          fun hh => lacking (hq.holds hh)
      · rw [ends_bind]
        refine (sends bytes third (hq.trans more) fun laws => hb laws bytes rfl).mono
          fun outcome final holds => ?_
        cases outcome with
        | error => exact holds
        | ok => exact holds

/-- Resending a statement of another author: nothing where it is not recorded, and else the
    bytes sealed for it, unless the key is missing. -/
lemma reannounceOne_course
    (unknown : rebuilt.runtime.announcement snapshot = none → goal (.ok 0) sender)
    (known : ∀ a next, rebuilt.runtime.announcement snapshot = some a → Prepared sender next →
      (∀ authored endpoint, ¬ authored snapshot → Kept W authored endpoint sender next) →
      (∀ error, goal (.error error) next) ∧
      ((sender.OpensSeals W outbox rebuilt.keyring snapshot →
          (outbox.announcementSealed snapshot = none → sender.Holds rebuilt.keyring a.epoch) →
          False) → goal (.ok 0) next) ∧
      ∀ bytes, (sendPendingFor W post snapshot bytes none scope).Ends next goal) :
    (reannounceOne W post rebuilt outbox snapshot scope).Ends sender goal := by
  unfold reannounceOne
  cases noted : rebuilt.runtime.announcement snapshot with
  | none => exact unknown noted
  | some a =>
    refine (reannounceSealedBytes_ends a sender).bind ?_
      (fun error next holds => (known a next noted holds.1 holds.2.1).1 error)
    rintro (_ | bytes) middle ⟨ready, hk, hf⟩
    · exact (known a middle noted ready hk).2.1 fun ho hh => hf ho hh rfl
    · exact (known a middle noted ready hk).2.2 bytes

/-- The outcome of a pass at a snapshot whose own key is missing: it is skipped. -/
def skipped : Except AnnounceError Nat → Except AnnounceError Nat
  | .error (.missingEpochKey _) => .ok 0
  | outcome => outcome

/-- A pass resends what others stated; of this device's own it sends what is sealed for
    the live route, or announces. -/
lemma resume_course (rest : (∀ body, rebuilt.runtime.snapshotBody snapshot = some body →
      body.author ≠ sender.device) →
      (reannounceOne W post rebuilt outbox snapshot scope).Ends sender goal)
    (denied : ∀ rejection, goal (.error (.invalidHead rejection)) sender)
    (resends : ∀ body bytes, rebuilt.runtime.snapshotBody snapshot = some body →
      outbox.announcementSealed snapshot = some bytes →
      (sendWithLiveRoute W post outbox rebuilt.keyring snapshot bytes nodeAddr body.epoch scope).Ends
        sender fun outcome next => goal (outcome.map (·.getD 0)) next)
    (tells : ∀ body, rebuilt.runtime.snapshotBody snapshot = some body →
      body.author = sender.device → outbox.announcementSealed snapshot = none →
      (announce W post body nodeAddr scope).Ends sender fun outcome next =>
        goal (skipped outcome) next) :
    (resume W post rebuilt outbox nodeAddr scope snapshot).Ends sender goal := by
  simp only [resume, ends_bind, ends_get]
  cases noted : rebuilt.runtime.snapshotBody snapshot with
  | none => exact rest fun _ found => by simp [noted] at found
  | some body =>
    dsimp only
    split_ifs with other
    · refine rest fun found hs => ?_
      rw [noted, Option.some.injEq] at hs
      exact hs ▸ other
    · cases verifySnapshot P sender.drive body with
      | error rejection => exact denied rejection
      | ok =>
        dsimp only
        cases sealed : outbox.announcementSealed snapshot with
        | some bytes =>
          rw [ends_bind]
          refine (resends body bytes noted sealed).mono fun outcome next holds => ?_
          cases outcome with
          | error => exact holds
          | ok => exact holds
        | none =>
          rw [ends_bind, ends_attempt]
          refine (tells body noted (not_not.mp other) sealed).mono fun outcome next holds => ?_
          cases outcome with
          | ok => exact holds
          | error error => cases error <;> exact holds

end Courses

end Wyrd.Outbox
