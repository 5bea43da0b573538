import Wyrd.Outbox.Sealing

/-! # The route a delivery is recorded under

A delivery marker names the endpoint the recipient was last addressed from. It
is right when the bytes of that very send carry a route of that endpoint. The
resume pass opens what it resends and reseals for the live route, so its records
are right; announcing one snapshot again sends the first seal as it is, under
whatever route the call was given.
-/

namespace Wyrd.Outbox

open List

open Wyrd.Authorization Wyrd.Control Wyrd.Durable Wyrd.Intake Wyrd.Keys Wyrd.Membership
open Effect

variable {P : Primitives} {W : Postal} {post : Post} {authored : SnapshotId → Prop}
  {endpoint : EndpointId} {facts : List OutboxFact} {snapshot : SnapshotId} {bytes : Bytes}
  {routeId : Option EndpointId}

lemma Faithful.delivered (bears : authored snapshot → Carries W bytes (recordedRoute routeId)) :
    Faithful W authored [.handed snapshot recipient bytes,
      .committed (deliveryFacts snapshot routeId recipient)] := by
  intro front facts back split other recipient' endpoint hm own
  rcases front with _ | ⟨head, _ | ⟨second, tail⟩⟩
  · simp at split
  · simp only [cons_append, nil_append, List.cons.injEq, Event.committed.injEq] at split
    obtain ⟨rfl, rfl, _⟩ := split
    simp only [deliveryFacts, mem_cons, reduceCtorEq, OutboxFact.announcementDeliveredRoute.injEq,
      not_mem_nil, or_false, false_or] at hm
    obtain ⟨rfl, rfl, rfl⟩ := hm
    exact ⟨[], bytes, rfl, bears own⟩
  · simp at split

lemma Faithful.handed (snapshot : SnapshotId) (recipient : DeviceId) (bytes : Bytes) :
    Faithful W authored [.handed snapshot recipient bytes] := by
  intro front facts back split
  cases front with
  | nil => simp at split
  | cons => simp at split

/-- The action keeps it from every state, whatever its outcome. -/
def Keeps {α : Type} (W : Postal) (authored : SnapshotId → Prop) (endpoint : EndpointId)
    (act : Sending P α) : Prop :=
  ∀ sender, act.Ends sender (fun _ next => Kept W authored endpoint sender next)

section Rules

variable {α β : Type} {act : Sending P α} {next : α → Sending P β}

lemma Keeps.bind {good : α → Prop}
    (first : act.Ends sender (fun outcome middle => Kept W authored endpoint sender middle ∧
      ∀ value, outcome = .ok value → good value))
    (later : ∀ value middle, good value → Kept W authored endpoint sender middle →
      (next value).Ends middle (fun _ final => Kept W authored endpoint middle final)) :
    (act >>= next).Ends sender (fun _ final => Kept W authored endpoint sender final) := by
  refine Ends.bind first ?_ (fun _ _ holds => holds.1)
  rintro value middle ⟨hk, holds⟩
  exact (later value middle (holds value rfl) hk).mono fun _ _ more => hk.trans more

lemma Keeps.then (first : Keeps W authored endpoint act)
    (later : ∀ value middle, Kept W authored endpoint sender middle →
      (next value).Ends middle (fun _ final => Kept W authored endpoint middle final)) :
    (act >>= next).Ends sender (fun _ final => Kept W authored endpoint sender final) :=
  Keeps.bind ((first sender).mono fun _ _ hk => ⟨hk, fun _ _ => trivial⟩)
    fun value middle _ hk => later value middle hk

end Rules

lemma commitFacts_keeps
    (plain : ∀ snapshot recipient endpoint,
      .announcementDeliveredRoute snapshot recipient endpoint ∉ facts)
    (seals : ∀ snapshot bytes, .announcementSealed snapshot bytes ∈ facts → authored snapshot →
      Carries W bytes endpoint) :
    Keeps W authored endpoint (commitFacts post facts : Sending P Unit) :=
  fun sender => ends_commitFacts (.refl sender) fun _ _ => .append plain seals

lemma sendTo_keeps (bears : authored snapshot → Carries W bytes (recordedRoute routeId))
    (recipient : DeviceId) :
    Keeps W authored endpoint (sendTo post snapshot bytes routeId recipient : Sending P Nat) := by
  intro sender
  have handed : Kept W authored endpoint sender
      { sender with trace := sender.trace ++ [.handed snapshot recipient bytes] } :=
    ⟨rfl, rfl, rfl, ⟨_, rfl, .handed snapshot recipient bytes⟩, fun _ _ hf => .inl hf⟩
  unfold sendTo
  split_ifs with large hi
  · exact .refl sender
  · exact .refl sender
  · simp only [ends_bind, ends_get, ends_set]
    cases post.send sender.trace recipient bytes with
    | none => exact handed
    | some accepted =>
      cases accepted with
      | zero => exact handed
      | succ =>
        -- the marker commits right after the send it belongs to
        have mark : Kept W authored endpoint sender
            (Sender.append
              { sender with trace := sender.trace ++ [.handed snapshot recipient bytes] }
              (deliveryFacts snapshot routeId recipient)) := by
          refine ⟨rfl, rfl, rfl, ⟨_, append_assoc _ _ _, .delivered bears⟩, ?_⟩
          intro other sealed hf
          rw [Sender.sealed, Sender.append, replayOutbox_append] at hf
          exact (sealed_origin hf).imp_right fun hn => by simp [deliveryFacts] at hn
        rw [ends_bind]
        refine ends_commitFacts handed ?_
        rintro _ (rfl | rfl) <;> exact mark

lemma sendPendingFor_keeps {scope : Finset SnapshotId}
    (bears : authored snapshot → Carries W bytes (recordedRoute routeId)) :
    Keeps W authored endpoint (sendPendingFor W post snapshot bytes routeId scope : Sending P Nat) := by
  intro sender
  refine ends_rebuild (fun _ _ => .refl sender) fun rebuilt _ => ?_
  apply ends_tally ?_ (Kept.refl sender)
  intro recipient _ state hk
  exact (sendTo_keeps bears recipient state).mono fun _ _ more => hk.trans more

lemma sendWithLiveRoute_keeps (laws : SealLaws W) (outbox : AnnouncementOutbox)
    (keyring : DriveKeyring) (snapshot : SnapshotId) (sealedBytes : Bytes)
    (nodeAddr : Option Bytes) (epoch : Nat) (scope : Finset SnapshotId) :
    Keeps W authored endpoint (sendWithLiveRoute W post outbox keyring snapshot sealedBytes
      nodeAddr epoch scope : Sending P (Option Nat)) := by
  intro sender
  refine sendWithLiveRoute_course (fun _ _ hq => hq.kept _ _)
    (fun _ _ _ hq _ _ _ => hq.kept _ _) fun bytes next hq hb => ?_
  have sends : Keeps W authored endpoint
      (sendPendingFor W post snapshot bytes (routeIdOf W nodeAddr) scope : Sending P Nat) :=
    sendPendingFor_keeps fun _ => hb laws
  exact (sends next).mono fun _ _ more => (hq.kept _ _).trans more

lemma reannounceOne_keeps (rebuilt : Rebuilt P) (outbox : AnnouncementOutbox)
    (scope : Finset SnapshotId) (alien : ¬ authored snapshot) :
    Keeps W authored endpoint (reannounceOne W post rebuilt outbox snapshot scope) := by
  intro sender
  refine reannounceOne_course (fun _ => .refl sender) fun a next _ _ keeps => ?_
  have hk := keeps authored endpoint alien
  refine ⟨fun _ => hk, fun _ => hk, fun bytes => ?_⟩
  have sends : Keeps W authored endpoint
      (sendPendingFor W post snapshot bytes none scope : Sending P Nat) :=
    sendPendingFor_keeps fun own => absurd own alien
  exact (sends next).mono fun _ _ more => hk.trans more

variable {sender : Sender P}

/-- Announcing one snapshot is faithful when a seal already there carries the
    call's own route. -/
lemma announce_keeps (laws : SealLaws W) (body : Snapshot) (nodeAddr : Option Bytes)
    (scope : Finset SnapshotId)
    (new : ∀ bytes, sender.sealed (P.snapshotId body) = some bytes →
      authored (P.snapshotId body) → Carries W bytes (recordedRoute (routeIdOf W nodeAddr))) :
    (announce W post body nodeAddr scope).Ends sender (fun _ next =>
      Kept W authored (recordedRoute (routeIdOf W nodeAddr)) sender next) := by
  have sends (bytes : Bytes) (bears : authored (P.snapshotId body) →
      Carries W bytes (recordedRoute (routeIdOf W nodeAddr))) :
      Keeps W authored (recordedRoute (routeIdOf W nodeAddr))
        (sendPendingFor W post (P.snapshotId body) bytes (routeIdOf W nodeAddr) scope :
          Sending P Nat) := sendPendingFor_keeps bears
  refine announce_course (fun _ _ => .refl sender) (fun bytes queued held plain => ?_)
    fun key root queued plain => ?_
  · refine ⟨sends bytes (new bytes held) sender,
      Keeps.then (commitFacts_keeps ?_ ?_) fun _ last _ => sends bytes (new bytes held) last⟩
    · intro snapshot recipient endpoint hm
      simpa using plain _ hm
    · intro snapshot sealed hm
      simpa using plain _ hm
  · refine Keeps.bind ((sealFresh_ends key body.epoch _ sender).mono fun _ _ holds =>
      ⟨holds.1.kept _ _, holds.2.2 laws (by rintro _ ⟨⟩; rfl)⟩) ?_
    intro bytes second hr _
    have bears : Carries W bytes (recordedRoute (routeIdOf W nodeAddr)) :=
      .of_opened hr rfl
    refine Keeps.then (commitFacts_keeps ?_ ?_) fun _ last _ => sends bytes (fun _ => bears) last
    · intro snapshot recipient endpoint hm
      rcases mem_append.mp hm with hl | sealed
      · simpa using plain _ hl
      · simp at sealed
    · intro snapshot sealed hm _
      rcases mem_append.mp hm with hl | isSeal
      · simpa using plain _ hl
      · simp only [mem_singleton, OutboxFact.announcementSealed.injEq] at isSeal
        exact isSeal.2 ▸ bears

/-- The device authored the snapshot: wherever the facts replay, the body on
    record names it. -/
def Sender.Authored (W : Postal) (sender : Sender P) (snapshot : SnapshotId) : Prop :=
  ∀ rebuilt, rebuildFacts P W.toDigests sender.drive sender.durable sender.device = .ok rebuilt →
    ∃ body, rebuilt.runtime.snapshotBody snapshot = some body ∧ body.author = sender.device

lemma resume_keeps (laws : SealLaws W)
    (made : rebuildFacts P W.toDigests start.drive start.durable start.device = .ok rebuilt)
    (own : ∀ snapshot, authored snapshot → start.Authored W snapshot) (nodeAddr : Option Bytes)
    (scope : Finset SnapshotId) (snapshot : SnapshotId)
    (hr : Kept W authored (recordedRoute (routeIdOf W nodeAddr)) start state) :
    (resume W post rebuilt (replayOutbox start.outbox) nodeAddr scope snapshot).Ends state
      (fun _ next => Kept W authored (recordedRoute (routeIdOf W nodeAddr)) start next) := by
  refine resume_course (fun rest => ?_) (fun _ => hr) (fun body bytes _ _ => ?_)
    fun body hn _ hs => ?_
  · have alien : ¬ authored snapshot := by
      intro isOwn
      obtain ⟨body, hf, ha⟩ := own snapshot isOwn rebuilt made
      exact rest body hf (ha.trans hr.device.symm)
    exact (reannounceOne_keeps rebuilt _ scope alien state).mono fun _ _ => hr.trans
  · exact (sendWithLiveRoute_keeps laws _ _ snapshot bytes nodeAddr body.epoch scope state).mono
      fun _ _ => hr.trans
  · -- a seal met here was made in this pass, under this route
    have new : ∀ bytes, state.sealed (P.snapshotId body) = some bytes →
        authored (P.snapshotId body) → Carries W bytes (recordedRoute (routeIdOf W nodeAddr)) := by
      intro bytes hf isOwn
      rcases hr.seals _ bytes hf with old | hb
      · rw [Observed.key_of_lookup hn, Sender.sealed, hs] at old
        cases old
      · exact hb isOwn
    exact (announce_keeps laws body nodeAddr scope new).mono fun _ _ => hr.trans

lemma announcePending_keeps (laws : SealLaws W) (nodeAddr : Option Bytes)
    (own : ∀ snapshot, authored snapshot → sender.Authored W snapshot) :
    (announcePending W post nodeAddr).Ends sender (fun _ next =>
      Kept W authored (recordedRoute (routeIdOf W nodeAddr)) sender next) := by
  refine ends_rebuild (fun _ _ => .refl sender) fun rebuilt hm => ?_
  simp only [ends_bind, ends_get]
  apply ends_tally ?_ (Kept.refl sender)
  intro snapshot _ state hr
  exact resume_keeps laws hm own nodeAddr _ snapshot hr

lemma announceSnapshot_keeps (laws : SealLaws W) (body : Snapshot) (nodeAddr : Option Bytes)
    (new : ∀ bytes, sender.sealed (P.snapshotId body) = some bytes →
      authored (P.snapshotId body) → Carries W bytes (recordedRoute (routeIdOf W nodeAddr))) :
    (announceSnapshot W post body nodeAddr).Ends sender (fun _ next =>
      Kept W authored (recordedRoute (routeIdOf W nodeAddr)) sender next) := by
  refine ends_rebuild (fun _ _ => .refl sender) fun rebuilt _ => ?_
  simp only [ends_bind, ends_get]
  exact announce_keeps laws body nodeAddr _ new

/-- What happens to a sender. A crash ends a call at a commit that is refused,
    or durable and unreported; what the engine does otherwise, reopening
    included, records facts, owes and retires announcements and changes keys. -/
inductive Move where
  | announceSnapshot (post : Post) (body : Snapshot) (nodeAddr : Option Bytes)
  | announcePending (post : Post) (nodeAddr : Option Bytes)
  | elsewhere (recorded : List Fact) (queued : List Pair) (reconciled : List (Pair × Digest))
      (keys : Nat → Option ControlKey)

namespace Move

def play (W : Postal) : Move → Sender P → Sender P
  | .announceSnapshot post body nodeAddr, sender =>
    (Outbox.announceSnapshot W post body nodeAddr sender).1
  | .announcePending post nodeAddr, sender => (Outbox.announcePending W post nodeAddr sender).1
  | .elsewhere recorded queued reconciled keys, sender =>
    { sender with
      durable := sender.durable ++ recorded
      outbox := sender.outbox ++ queued.map (fun pair => .announcementQueued pair.1 pair.2) ++
        reconciled.map (fun entry => .announcementReconciled entry.1.1 entry.1.2 entry.2)
      epochKeys := keys }

/-- A call that announces the snapshot by itself meets no seal of it, or one
    that carries the endpoint of the call's route. -/
def SealFits (W : Postal) (snapshot : SnapshotId) (sender : Sender P) : Move → Prop
  | .announceSnapshot _ body nodeAddr => P.snapshotId body = snapshot →
      ∀ bytes, sender.sealed snapshot = some bytes →
        Carries W bytes (recordedRoute (routeIdOf W nodeAddr))
  | _ => True

end Move

def plays (W : Postal) : List Move → Sender P → Sender P
  | [], sender => sender
  | move :: rest, sender => plays W rest (move.play W sender)

def Throughout (W : Postal) (holds : Sender P → Move → Prop) : List Move → Sender P → Prop
  | [], _ => True
  | move :: rest, sender => holds sender move ∧ Throughout W holds rest (move.play W sender)

lemma Move.play_faithful (laws : SealLaws W) (move : Move) (own : sender.Authored W snapshot)
    (fits : move.SealFits W snapshot sender) :
    ∃ events, (move.play W sender).trace = sender.trace ++ events ∧
      Faithful W (fun other => other = snapshot) events := by
  cases move with
  | announceSnapshot post body nodeAddr =>
    have hk : (Outbox.announceSnapshot W post body nodeAddr).Ends sender (fun _ next =>
        Kept W (fun other => other = snapshot) (recordedRoute (routeIdOf W nodeAddr)) sender next) :=
      announceSnapshot_keeps laws body nodeAddr fun bytes hf hs => fits hs bytes (hs ▸ hf)
    exact Kept.events hk
  | announcePending post nodeAddr =>
    have hk : (Outbox.announcePending W post nodeAddr).Ends sender (fun _ next =>
        Kept W (fun other => other = snapshot) (recordedRoute (routeIdOf W nodeAddr)) sender next) :=
      announcePending_keeps laws nodeAddr fun other hs => hs ▸ own
    exact Kept.events hk
  | elsewhere => exact ⟨[], by simp [Move.play], .nil⟩

/-- Over any run, with any relays and crashes: a delivery route that becomes
    durable for a snapshot of this device names the endpoint carried by the bytes
    of the send right before it. -/
theorem delivery_route_is_sent_route (laws : SealLaws W) (snapshot : SnapshotId)
    (moves : List Move) (start : Sender P)
    (own : Throughout W (fun sender _ => sender.Authored W snapshot) moves start)
    (fits : Throughout W (fun sender move => move.SealFits W snapshot sender) moves start) :
    ∃ events, (plays W moves start).trace = start.trace ++ events ∧
      Faithful W (fun other => other = snapshot) events := by
  induction moves generalizing start with
  | nil => exact ⟨[], by simp [plays], .nil⟩
  | cons move rest ih =>
    obtain ⟨events, trace, hf⟩ := move.play_faithful laws own.1 fits.1
    obtain ⟨later, trace', hf'⟩ := ih _ own.2 fits.2
    refine ⟨events ++ later, ?_, hf.append hf'⟩
    rw [plays, trace', trace, append_assoc]

section Sample

/-- A snapshot of device 1 under the membership that admitted devices 2 and 3. -/
def postedBody : Snapshot := sampleSnapshot [] (sampleId 21) 2 51 (Nat.zero_le _)

def postedManifest : ManifestRecord :=
  ⟨true, sampleId 0, .empty, 0, ⟨sampleId 51, [], [], noEntries, noChildren⟩⟩

def posted (route : UInt8) : SnapshotAnnouncement :=
  ⟨sampleId 51, sampleId 1, 2, sampleId 21, 0, sampleId 0, 0, some [route], 0⟩

/-- Seals exactly these announcements, the route readable in the second byte. -/
def samplePostal : Postal where
  toWire := sampleWire (fun route => some (.snapshotAnnouncement (posted route))) (fun _ => none)
    (fun _ => none) none
  sealControl _ _ _ _
    | .snapshotAnnouncement a => match a.nodeAddr with
      | some [route] => if a = posted route then some [0, route] else none
      | _ => none
    | _ => none
  endpointId
    | [route] => some (Fin.ofNat (2 ^ 256) route.toNat)
    | _ => none
  signAnnouncement _ _ := 0
  bodyRoot _ := 0

lemma samplePostal_laws : SealLaws samplePostal where
  opens {key drive epoch nonce message bytes} sealed _ := by
    simp only [samplePostal] at sealed
    split at sealed
    · split at sealed
      · split_ifs at sealed with hs
        cases sealed
        rw [hs]
        rfl
      · cases sealed
    · cases sealed

def postedSender : Sender samplePrimitives where
  drive := sampleId 0
  device := sampleId 1
  durable := [.transition sampleGenesis, .transition pairAdmission, .snapshotBody postedBody,
    .manifest postedManifest]
  outbox := []
  epochKeys _ := some 7
  seals := 0
  trace := []

/-- A disk that works and relays that take every send, or none. -/
def samplePost (accepted : Nat) : Post :=
  ⟨fun _ _ _ => some accepted, fun _ _ => .landed, fun _ => true⟩

lemma postedSender_authored {sender : Sender samplePrimitives}
    (drive : sender.drive = postedSender.drive) (device : sender.device = postedSender.device)
    (saved : sender.durable = postedSender.durable) :
    sender.Authored samplePostal (sampleId 51) := by
  intro rebuilt made
  rw [drive, device, saved] at made
  have noted : (rebuildFacts samplePrimitives samplePostal.toDigests postedSender.drive
      postedSender.durable postedSender.device).toOption.map
        (fun rebuilt => rebuilt.runtime.snapshotBody (sampleId 51)) = some (some postedBody) := by
    decide +kernel
  rw [made] at noted
  exact ⟨postedBody, Option.some.inj noted, device.symm⟩

/-- No relay takes the first send, and the route changes before the next call. -/
def reroutedMoves : List Move :=
  [.announceSnapshot (samplePost 0) postedBody (some [1]),
    .announceSnapshot (samplePost 1) postedBody (some [2])]

/-- The seal of the first call is sent again and its delivery recorded under the
    second call's route. -/
theorem rerouted_announcement_recorded_wrong :
    Throughout samplePostal (fun sender _ => sender.Authored samplePostal (sampleId 51))
      reroutedMoves postedSender ∧
    ¬ Faithful samplePostal (fun other => other = sampleId 51)
      (plays samplePostal reroutedMoves postedSender).trace := by
  refine ⟨⟨postedSender_authored rfl rfl rfl,
    postedSender_authored (by decide +kernel) (by decide +kernel) (by decide +kernel), trivial⟩, ?_⟩
  intro hf
  have split : (plays samplePostal reroutedMoves postedSender).trace =
      (plays samplePostal reroutedMoves postedSender).trace.take 4 ++
        .committed (deliveryFacts (sampleId 51) (some 2) (sampleId 2)) ::
        (plays samplePostal reroutedMoves postedSender).trace.drop 5 := by
    decide +kernel
  obtain ⟨earlier, bytes, front, key, a, ho, route⟩ := hf _ _ _ split (sampleId 51)
    (sampleId 2) 2 (by decide) rfl
  have sent : (plays samplePostal reroutedMoves postedSender).trace.take 4 =
      (plays samplePostal reroutedMoves postedSender).trace.take 3 ++
        [.handed (sampleId 51) (sampleId 2) [0, 1]] := by
    decide +kernel
  rw [sent] at front
  cases (append_inj_right' front rfl)
  cases ho
  exact absurd route (by decide)

/-- The same route twice, then a pass under another one. -/
def steadyMoves : List Move :=
  [.announceSnapshot (samplePost 0) postedBody (some [1]),
    .announceSnapshot (samplePost 1) postedBody (some [1]),
    .announcePending (samplePost 1) (some [2])]

theorem delivery_route_is_sent_route_steady :
    ∃ events, (plays samplePostal steadyMoves postedSender).trace = postedSender.trace ++ events ∧
      Faithful samplePostal (fun other => other = sampleId 51) events := by
  have stays : ∀ sender : Sender samplePrimitives, sender.drive = postedSender.drive →
      sender.device = postedSender.device → sender.durable = postedSender.durable →
      sender.Authored samplePostal (sampleId 51) := fun _ => postedSender_authored
  refine delivery_route_is_sent_route samplePostal_laws (sampleId 51) steadyMoves postedSender
    ⟨stays _ rfl rfl rfl, stays _ (by decide +kernel) (by decide +kernel) (by decide +kernel),
      stays _ (by decide +kernel) (by decide +kernel) (by decide +kernel), trivial⟩
    ⟨fun _ bytes hf => absurd hf (by simp [Sender.sealed, postedSender, replayOutbox,
      AnnouncementOutbox.new]), ?_, trivial, trivial⟩
  intro _ bytes hf
  have held : ((steadyMoves.head (by decide)).play samplePostal postedSender).sealed (sampleId 51) =
      some [0, 1] := by decide +kernel
  cases held.symm.trans hf
  exact ⟨7, posted 1, rfl, rfl⟩

end Sample

end Wyrd.Outbox
