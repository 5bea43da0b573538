import Wyrd.Durable.Keyring
import Wyrd.Intake.Metering
import Wyrd.Intake.Minting

/-! # Live views and a fresh open

The volatile views of an engine that has been draining, against those a newly
opened engine reads off the same facts. The log and the three projections are
followed move by move; the control keys are followed handover by handover, since
a reload keeps them as they are.
-/

namespace Wyrd.Intake

open List Option

open Wyrd.Control Wyrd.Durable Wyrd.Keys Wyrd.Membership PendingQueue

variable {P : Primitives} {W : Wire} {lent : Set Bytes} {lossy : Prop}

def controlKeys (W : Wire) (drive : DriveId) (held : Nat → Option EpochSecret) :
    Nat → Option ControlKey :=
  fun epoch => if epoch = 0 then none
    else (held epoch).map (fun secret => W.controlKey secret drive epoch)

lemma fillKey_drive (engine : Engine P) (epoch : Nat) (secret : EpochSecret) :
    (fillKey W engine epoch secret).drive = engine.drive := by
  unfold fillKey
  cases engine.epochKeys epoch <;> rfl

lemma fillKeys_drive (engine : Engine P) (epoch : Nat) (secrets : List EpochSecret) :
    (fillKeys W engine epoch secrets).drive = engine.drive := by
  induction secrets generalizing engine epoch with
  | nil => rfl
  | cons secret rest ih =>
    rw [fillKeys, ih]
    exact fillKey_drive engine epoch secret

variable {engine : Engine P} {held : Nat → Option EpochSecret}

lemma fillKey_epochKeys (past : 1 ≤ epoch)
    (tied : engine.epochKeys = controlKeys W engine.drive held) (secret : EpochSecret) :
    (fillKey W engine epoch secret).epochKeys =
      controlKeys W engine.drive (fillVacant held epoch secret) := by
  have nonzero : epoch ≠ 0 := by omega
  unfold fillKey fillVacant
  cases free : held epoch with
  | some old =>
    have keyed : engine.epochKeys epoch = some (W.controlKey old engine.drive epoch) := by
      simp [tied, controlKeys, nonzero, free]
    simp only [keyed]
    exact tied
  | none =>
    have unkeyed : engine.epochKeys epoch = none := by
      simp [tied, controlKeys, free]
    simp only [unkeyed, Engine.addEpochKey]
    funext slot
    by_cases hh : slot = epoch
    · subst hh
      simp [controlKeys, nonzero]
    · simp [controlKeys, Function.update_of_ne hh, tied]

lemma fillKeys_epochKeys (past : 1 ≤ epoch)
    (tied : engine.epochKeys = controlKeys W engine.drive held) (secrets : List EpochSecret) :
    (fillKeys W engine epoch secrets).epochKeys =
      controlKeys W engine.drive (fillFrom held epoch secrets) := by
  induction secrets generalizing engine held epoch with
  | nil => exact tied
  | cons secret rest ih =>
    have first := fillKey_epochKeys past tied secret
    have drive := fillKey_drive (W := W) engine epoch secret
    rw [fillKeys, fillFrom, ih (Nat.le_succ_of_le past) (by rw [drive, first]), drive]

/-- Mirroring a batch fills the vacant keys of every capability in it. -/
lemma noteCommittedFacts_epochKeys (tied : engine.epochKeys = controlKeys W engine.drive held)
    (facts : List Fact) :
    (noteCommittedFacts W engine facts).epochKeys =
      controlKeys W engine.drive (fillAll held (capabilitiesIn facts)) := by
  induction facts generalizing engine held with
  | nil => exact tied
  | cons fact rest ih =>
    have step : noteCommittedFacts W engine (fact :: rest) =
        noteCommittedFacts W (noteFact W engine fact) rest := rfl
    rw [step]
    cases fact with
    | capability cap =>
      have drive := fillKeys_drive (W := W) engine 1 cap.secrets
      have filled := fillKeys_epochKeys le_rfl tied cap.secrets
      simp only [noteFact]
      rw [ih (by rw [drive, filled]), drive]
      rfl
    | _ => exact ih tied

def KeysCurrent (W : Wire) (engine : Engine P) : Prop :=
  engine.epochKeys = controlKeys W engine.drive
    (fillAll (fun _ => none) (ownCapabilities engine.device engine.durable))

variable {device : DeviceId}

lemma buildKeyring_secrets (made : buildKeyring P drive facts device = .ok ring) :
    ring.secret = fillAll (fun _ => none) (ownCapabilities device facts) := by
  refine foldlM_ok (fun done (ring : DriveKeyring) => ring.secret =
    fillAll (fun _ => none) (done.filter (fun cap => cap.device = device))) ?_ rfl made
  intro done cap ring next _ filled put
  unfold installFor at put
  rw [filter_append]
  split_ifs at put with alien
  · cases put
    rw [filter_cons_of_neg (by simpa using alien), filter_nil, append_nil]
    exact filled
  · obtain ⟨_, rfl⟩ := DriveKeyring.installVacant_ok (mapError_ok.mp put)
    have own : decide (cap.device = device) = true := by simpa using alien
    have extended : fillAll (fun _ => none) (done.filter (fun cap => cap.device = device) ++ [cap]) =
        fillFrom ring.secret 1 cap.secrets := by
      rw [fillAll, foldl_append, filled]
      rfl
    simp only [filter_cons, own, if_true, filter_nil, extended]
    rfl

/-- What an acceptance does to the facts and the keys together: nothing, a batch
    landed and mirrored, or a batch on disk whose commit was reported failed. -/
inductive Moved (W : Wire) (store : Store) (before after : Engine P) : Prop where
  | still : after.durable = before.durable → after.epochKeys = before.epochKeys →
      Moved W store before after
  | landed (batch : List Fact) : after.durable = before.durable ++ batch →
      (∀ held, before.epochKeys = controlKeys W before.drive held →
        after.epochKeys = controlKeys W before.drive (fillAll held (capabilitiesIn batch))) →
      Moved W store before after
  | unreported (batch : List Fact) : store.commit before.durable batch = .unreported →
      after.durable = before.durable ++ batch → after.epochKeys = before.epochKeys →
      Moved W store before after

section Movement

variable {store : Store} {engine : Engine P} {sender : DeviceId} {budget : IntakeBudget}

lemma Steady.moved {before after : Engine P} (steady : Steady before after) :
    Moved W store before after := .still steady.durable steady.epochKeys

lemma Moved.after {before middle after : Engine P} (steady : Steady before middle)
    (moved : Moved W store middle after) : Moved W store before after := by
  cases moved with
  | still saved keys =>
    exact .still (saved.trans steady.durable) (keys.trans steady.epochKeys)
  | landed batch saved keys =>
    refine .landed batch (by rw [saved, steady.durable]) fun held tied => ?_
    rw [← steady.drive] at tied ⊢
    exact keys held (by rw [steady.epochKeys, tied])
  | unreported batch answer saved keys =>
    rw [steady.durable] at answer saved
    exact .unreported batch answer saved (keys.trans steady.epochKeys)

lemma landBatch_moved (flush : Flush P) :
    Moved W store flush.engine (landBatch W store flush).1 := by
  unfold landBatch commitFacts
  cases ha : store.commit flush.engine.durable flush.facts with
  | refused => exact (resync_steady store flush.engine).moved
  | unreported =>
    have hk := resync_steady (W := W) store
      { flush.engine with durable := flush.engine.durable ++ flush.facts }
    exact .unreported flush.facts ha hk.durable hk.epochKeys
  | landed =>
    refine .landed flush.facts (landed_durable flush.engine flush.staged flush.facts) ?_
    intro held ht
    have noted : (recordCommit W flush.engine flush.facts).epochKeys =
        controlKeys W flush.engine.drive held := ht
    exact noteCommittedFacts_epochKeys noted flush.facts

lemma Settles.moved {accepted : Accepted P}
    (settles : Settles W store sender engine budget accepted) :
    Moved W store engine accepted.1 := by
  cases settles with
  | still steady => exact steady.moved
  | @landed flush steady => exact .after steady (landBatch_moved flush)

end Movement

/-- The device's own capabilities reach the epoch. -/
def Reached (device : DeviceId) (facts : List Fact) (epoch : Nat) : Prop :=
  ∃ own ∈ ownCapabilities device facts, epoch ≤ own.coveredEpoch

lemma Reached.mono (reached : Reached device facts epoch) (among : facts ⊆ more) :
    Reached device more epoch := by
  obtain ⟨own, member, reach⟩ := reached
  simp only [mem_ownCapabilities] at member
  exact ⟨own, by simpa using ⟨among member.1, member.2⟩, reach⟩

/-- Every capability committed since the first facts is the device's own, or
    reaches no epoch that its own did not reach before. -/
structure Grounded (device : DeviceId) (first facts : List Fact) : Prop where
  since : first <+: facts
  own : ∀ {earlier cap later}, facts = earlier ++ .capability cap :: later → first <+: earlier →
    cap.device = device ∨ Reached device earlier cap.coveredEpoch

lemma Grounded.refl (facts : List Fact) : Grounded device facts facts := by
  refine ⟨prefix_rfl, fun {earlier cap later} split within => ?_⟩
  have := congrArg length split
  have := within.length_le
  simp only [length_append, length_cons] at *
  omega

lemma Grounded.append (grounded : Grounded device first facts)
    (added : ∀ cap ∈ capabilitiesIn more, cap.device = device ∨ Reached device facts cap.coveredEpoch) :
    Grounded device first (facts ++ more) := by
  refine ⟨grounded.since.trans (prefix_append _ _), fun {earlier cap later} split within => ?_⟩
  have among (member : .capability cap ∈ more) (grown : facts <+: earlier) :
      cap.device = device ∨ Reached device earlier cap.coveredEpoch :=
    (added cap (mem_capabilitiesIn.mpr member)).imp_right (·.mono grown.subset)
  rcases append_eq_append_iff.mp split with ⟨middle, rfl, rest⟩ | ⟨middle, rfl, rest⟩
  · exact among (by simp [rest]) (prefix_append _ _)
  · cases middle with
    | nil => exact among (by simp [← show _ = more from rest]) (by simp)
    | cons fact middle =>
      obtain ⟨rfl, rfl⟩ := cons_eq_cons.mp rest
      exact grounded.own rfl within

lemma fillAll_covers (held : Nat → Option EpochSecret) {caps : List Capability} {own : Capability}
    (member : own ∈ caps)
    (past : 1 ≤ epoch) (reach : epoch ≤ own.coveredEpoch) : (fillAll held caps epoch).isSome := by
  rw [fillAll_apply _ _ past]
  obtain ⟨cap, found⟩ := isSome_iff_exists.mp (find?_isSome (p := fun cap =>
    decide (epoch ≤ cap.coveredEpoch)) |>.mpr ⟨own, member, by simpa using reach⟩)
  have reach : epoch ≤ cap.coveredEpoch := by simpa using find?_some found
  rw [Capability.coveredEpoch] at reach
  simp [found, getElem?_eq_getElem (show epoch - 1 < cap.secrets.length by omega)]

lemma reached_of_fill {caps : List Capability}
    (found : ((caps.find? (fun cap => decide (epoch ≤ cap.coveredEpoch))).bind
      (fun cap => cap.secrets[epoch - 1]?)).isSome) : ∃ cap ∈ caps, epoch ≤ cap.coveredEpoch := by
  obtain ⟨secret, found⟩ := isSome_iff_exists.mp found
  obtain ⟨cap, found, _⟩ := bind_eq_some_iff.mp found
  exact ⟨cap, mem_of_find?_eq_some found, by simpa using find?_some found⟩

/-- Over grounded facts the capabilities of other devices fill nothing. -/
lemma Grounded.fillAll_own (grounded : Grounded device first (facts ++ more))
    (within : first <+: facts) :
    fillAll (fillAll (fun _ => none) (ownCapabilities device facts)) (capabilitiesIn more) =
      fillAll (fun _ => none) (ownCapabilities device (facts ++ more)) := by
  induction more generalizing facts with
  | nil => simp [fillAll, capabilitiesIn]
  | cons fact rest ih =>
    have split : facts ++ fact :: rest = (facts ++ [fact]) ++ rest := by simp
    have owned : ownCapabilities device (facts ++ [fact]) =
        ownCapabilities device facts ++ ownCapabilities device [fact] := by
      simp [ownCapabilities, capabilitiesIn_append]
    have first : fillAll (fillAll (fun _ => none) (ownCapabilities device facts))
        (capabilitiesIn [fact]) = fillAll (fun _ => none) (ownCapabilities device (facts ++ [fact])) := by
      rw [owned]
      cases fact with
      | capability cap =>
        by_cases ours : cap.device = device
        · simp [ownCapabilities, capabilitiesIn, Fact.capability?, ours, fillAll]
        · obtain ⟨own, member, reach⟩ := (grounded.own rfl within).resolve_left ours
          have full : fillFrom (fillAll (fun _ => none) (ownCapabilities device facts)) 1
              cap.secrets = fillAll (fun _ => none) (ownCapabilities device facts) := by
            funext epoch
            rw [fillFrom_apply]
            split_ifs with past
            · by_cases short : epoch ≤ cap.coveredEpoch
              · obtain ⟨secret, found⟩ := isSome_iff_exists.mp
                  (fillAll_covers _ member past (short.trans reach))
                rw [found, some_or]
              · rw [getElem?_eq_none (by rw [Capability.coveredEpoch] at short; omega),
                  or_none]
            · exact or_none
          have none : ownCapabilities device [.capability cap] = [] := by
            simp [ownCapabilities, capabilitiesIn, Fact.capability?, ours]
          rw [none, append_nil]
          exact full
      | _ =>
        exact congrArg (fillAll fun _ => none) (append_nil (ownCapabilities device facts)).symm
    rw [split, ← ih (split ▸ grounded) (within.trans (prefix_append _ _)), ← first,
      show fact :: rest = [fact] ++ rest from rfl, capabilitiesIn_append, fillAll, fillAll,
      foldl_append]
    rfl

section Run

variable {start : Engine P} {first : List Fact} {work next : Work P}

/-- Every held control key is for an epoch the device's own capabilities
    reach. -/
def Keyed (W : Wire) (device : DeviceId) (engine : Engine P) : Prop :=
  ∃ held, engine.epochKeys = controlKeys W engine.drive held ∧
    ∀ epoch, 1 ≤ epoch → (held epoch).isSome → Reached device engine.durable epoch

/-- An epoch-sealed capability opened under a held key of its own epoch, so it
    reaches no further than the device's own. -/
lemma Gathers.covered (provenance : Provenance W lent work) (lockstep : Lockstep W work)
    (keyed : Keyed W device work.engine) (ours : work.engine.device = device)
    (gathers : Gathers W lent work more) :
    ∀ cap ∈ capabilitiesIn more, cap.device = device ∨ Reached device work.facts cap.coveredEpoch := by
  intro cap member
  rw [mem_capabilitiesIn] at member
  cases gathers with
  | commit hand commits =>
    cases commits with
    | transition | announcement | request => simp at member
    | capability _ _ epoch =>
      simp only [mem_cons, Fact.capability.injEq, reduceCtorEq, not_mem_nil, or_false] at member
      subst member
      obtain ⟨bytes, _, _, _, header, key, decoded, _, _, found, opened⟩ := provenance.hand hand
      have bound := W.epochBound decoded opened _ rfl
      rw [lockstep.keys, ← bound, epoch] at found
      obtain ⟨held, keys, reach⟩ := keyed
      simp only [keys, controlKeys] at found
      split_ifs at found with zero
      obtain ⟨secret, found, _⟩ := map_eq_some_iff.mp found
      exact .inr ((reach _ (Nat.pos_of_ne_zero zero) (by rw [found]; rfl)).mono
        (subset_append_left _ _))
  | @grant bytes delivery t granted proof sender _ _ _ opened =>
    simp only [mem_cons, Fact.capability.injEq, reduceCtorEq, not_mem_nil, or_false, false_or]
      at member
    subst member
    exact .inl (ours ▸ (openGrant_some opened).1)

structure Follows (W : Wire) (start : Engine P) (lent : Set Bytes) (first : List Fact)
    (work : Work P) : Prop where
  provenance : Provenance W lent work
  keyed : Keyed W start.device work.engine
  onDisk : Grounded start.device first work.engine.durable
  gathered : Grounded start.device first work.facts

lemma Keyed.grow {engine after : Engine P} (keyed : Keyed W device engine)
    (drive : after.drive = engine.drive) (keys : after.epochKeys = engine.epochKeys)
    (grown : engine.durable <+: after.durable) : Keyed W device after := by
  obtain ⟨held, same, reach⟩ := keyed
  exact ⟨held, by rw [drive, keys, same], fun epoch past found =>
    (reach epoch past found).mono grown.subset⟩

lemma Step.keyed (step : Step W lent lossy work next) (keyed : Keyed W device work.engine)
    (gathered : Grounded device first work.facts) (within : first <+: work.engine.durable) :
    Keyed W device next.engine := by
  cases step with
  | commit commits =>
    rw [commits.engine_eq]
    exact keyed.grow rfl rfl prefix_rfl
  | @land engine staged batch =>
    obtain ⟨held, keys, reach⟩ := keyed
    have drive : (landed W engine staged batch).drive = engine.drive :=
      (show Step W lent lossy ⟨engine, staged, batch, none⟩ _ from .land).identity.1
    refine ⟨fillAll held (capabilitiesIn batch), ?_, fun epoch past found => ?_⟩
    · simp only [Work.idle, drive]
      exact @noteCommittedFacts_epochKeys _ _ (recordCommit W engine batch) _ keys batch
    simp only [Work.idle, landed_durable]
    rw [fillAll_apply _ _ past, isSome_or, Bool.or_eq_true] at found
    rcases found with found | found
    · exact (reach epoch past found).mono (subset_append_left _ _)
    · obtain ⟨cap, member, near⟩ := reached_of_fill found
      obtain ⟨earlier, later, rfl⟩ := append_of_mem (mem_capabilitiesIn.mp member)
      rcases gathered.own (append_assoc _ _ _).symm (within.trans (prefix_append _ _)) with
        ours | further
      · exact ⟨cap, by simp [ours], near⟩
      · have further : Reached device (engine.durable ++ (earlier ++ .capability cap :: later))
            cap.coveredEpoch := further.mono (by simp [← append_assoc])
        obtain ⟨own, member, far⟩ := further
        exact ⟨own, member, near.trans far⟩
  | reload kept =>
    refine keyed.grow rfl rfl ?_
    rcases kept with rfl | rfl
    · exact prefix_rfl
    · exact prefix_append _ _
  | _ => exact keyed.grow rfl rfl prefix_rfl

lemma Step.follows (step : Step W lent lossy work next) (sound : Sound W start work)
    (follows : Follows W start lent first work) : Follows W start lent first next := by
  obtain ⟨onDisk, gathered⟩ := step.onFacts follows.onDisk follows.gathered fun _ gathers =>
    follows.gathered.append
      (gathers.covered follows.provenance sound.lockstep follows.keyed sound.device)
  exact ⟨step.provenance sound.lockstep follows.provenance,
    step.keyed follows.keyed follows.gathered follows.onDisk.since, onDisk, gathered⟩

end Run

/-- The views a fresh engine reads off a store's facts. -/
structure SameViews (live fresh : Engine P) : Prop where
  log : live.log = fresh.log
  announcements : live.announcements = fresh.announcements
  committedCapabilities : live.committedCapabilities = fresh.committedCapabilities
  receivedRequests : live.receivedRequests = fresh.receivedRequests
  epochKeys : live.epochKeys = fresh.epochKeys
  inboxKeys : live.inbox.keys = fresh.inbox.keys

/-- A batch on disk whose commit was reported failed carries no capability. -/
def Handover.Reports (h : Handover P) : Prop :=
  ∀ batch, h.store.commit h.before.durable batch = .unreported → capabilitiesIn batch = []

lemma openWithStore_current (ho : openWithStore P W store drive device facts = .ok start) :
    KeysCurrent W start := by
  obtain ⟨blank, state, rebuilt, rfl, -, hm, rfl⟩ := openWithStore_read ho
  have secrets := buildKeyring_secrets (rebuildFacts_ok.mp hm).1
  have keys : controlKeys W drive rebuilt.keyring.secret = controlKeys W drive
      (fillAll (fun _ => none) (ownCapabilities device facts)) := by rw [secrets]
  exact keys

lemma sameViews_of_current {live fresh : Engine P} (drive : live.drive = fresh.drive)
    (device : live.device = fresh.device) (saved : live.durable = fresh.durable)
    (sync : Lockstep W (.idle live)) (keys : KeysCurrent W live)
    (sync' : Lockstep W (.idle fresh)) (keys' : KeysCurrent W fresh) : SameViews live fresh := by
  have facts : (Work.idle live).facts = (Work.idle fresh).facts := by
    simp [Work.idle, Work.facts, saved]
  have sameKeys : live.epochKeys = fresh.epochKeys := by
    rw [keys, keys', drive, device, saved]
  refine ⟨?_, ?_, ?_, ?_, sameKeys, ?_⟩
  · have hh : live.log = logOf P live.drive (Work.idle live).facts := sync.log
    have there : fresh.log = logOf P fresh.drive (Work.idle fresh).facts := sync'.log
    rw [hh, there, facts, drive]
  · obtain ⟨state, rerun, shown⟩ := sync.replayed
    obtain ⟨state', rerun', shown'⟩ := sync'.replayed
    rw [facts, rerun'] at rerun
    cases rerun
    funext snapshot
    exact (shown snapshot).trans (shown' snapshot).symm
  · have hh := sync.granted
    rw [facts] at hh
    exact hh.trans sync'.granted.symm
  · have hh := sync.requested
    rw [facts] at hh
    exact hh.trans sync'.requested.symm
  · exact sync.keys.trans (sameKeys.trans sync'.keys.symm)

/-- A handover from current keys leaves current keys, as long as a batch with a
    capability is not reported lost. -/
lemma Moved.keysCurrent {store : Store} {before after : Engine P}
    (moved : Moved W store before after) (drive : after.drive = before.drive)
    (device : after.device = before.device)
    (reports : ∀ batch, store.commit before.durable batch = .unreported → capabilitiesIn batch = [])
    (within : first <+: before.durable) (grounded : Grounded before.device first after.durable)
    (keys : KeysCurrent W before) : KeysCurrent W after := by
  unfold KeysCurrent at keys ⊢
  rw [drive, device]
  cases moved with
  | still durable same => rw [durable, same, keys]
  | landed batch durable fills =>
    rw [durable] at grounded ⊢
    rw [fills _ keys, grounded.fillAll_own within]
  | unreported batch answer durable same =>
    have lost : ownCapabilities before.device (before.durable ++ batch) =
        ownCapabilities before.device before.durable := by
      rw [ownCapabilities, capabilitiesIn_append, reports batch answer, append_nil]
      rfl
    rw [durable, same, lost, keys]

/-- In every run in which no batch with a capability is on disk while its commit
    is reported failed, and in which every failing handover can fall back, each
    engine reached has the views of a fresh one. -/
theorem views_as_reopened {store : Store} {drive : DriveId} {device : DeviceId}
    {facts : List Fact} {start : Engine P} {passes : List Pass}
    (opened : openWithStore P W store drive device facts = .ok start)
    (reports : ∀ h ∈ (drains W passes start).1, h.Reports)
    (recovers : ∀ h ∈ (drains W passes start).1, h.Recovers) :
    (∀ h ∈ (drains W passes start).1, ∀ disk fresh,
        openWithStore P W disk drive device h.after.durable = .ok fresh → SameViews h.after fresh) ∧
      ∀ disk fresh,
        openWithStore P W disk drive device (drains W passes start).2.durable = .ok fresh →
        SameViews (drains W passes start).2 fresh := by
  have views := openWithStore_ok opened
  have initial : Follows W start (lentFrames W start.device passes) facts (.idle start) := by
    have grounded : Grounded start.device facts start.durable := by
      rw [views.durable]
      exact .refl facts
    have current := openWithStore_current opened
    refine ⟨⟨nofun, fun found => ?_⟩, ⟨_, current, fun epoch past found => ?_⟩, grounded, ?_⟩
    · simp [Work.idle, views.pending, PendingQueue.held_new] at found
    · rw [fillAll_apply _ _ past, none_or] at found
      exact reached_of_fill found
    · simpa [Work.idle, Work.facts] using grounded
  obtain ⟨run, final⟩ := @drains_invariant P W _ passes start True
    (fun step sound follows => step.follows sound follows) views.sound initial recovers
    (fun _ _ _ => trivial)
  -- the keys move with the facts, handover by handover
  obtain ⟨keyed, lastKeys⟩ := @drains_rule P W (KeysCurrent W) passes start
    (openWithStore_current opened)
    fun h member ran _ keys => by
      obtain ⟨_, _, ⟨sound, before⟩, sound', after⟩ := run h member
      obtain ⟨spent, accepted⟩ := ran
      have moved : Moved W h.store h.before
          (acceptEnvelope W h.store h.before h.envelope h.budget).1 :=
        (acceptEnvelope_settles h.envelope).moved
      rw [accepted] at moved
      have grounded := after.onDisk
      rw [← sound.device] at grounded
      exact moved.keysCurrent (sound'.drive.trans sound.drive.symm)
        (sound'.device.trans sound.device.symm) (reports h member) before.onDisk.since grounded keys
  have agree : ∀ {engine : Engine P}, Sound W start (.idle engine) → KeysCurrent W engine →
      ∀ disk fresh,
        openWithStore P W disk drive device engine.durable = .ok fresh → SameViews engine fresh := by
    intro engine fits keys disk fresh again
    have read := openWithStore_ok again
    have sameDrive : engine.drive = fresh.drive := by
      rw [read.drive, ← views.drive]
      exact fits.drive
    have sameDevice : engine.device = fresh.device := by
      rw [read.device, ← views.device]
      exact fits.device
    exact sameViews_of_current sameDrive sameDevice read.durable.symm fits.lockstep keys
      read.lockstep (openWithStore_current again)
  refine ⟨fun h hm => ?_, agree final.1 lastKeys⟩
  obtain ⟨_, _, _, fits, -⟩ := run h hm
  obtain ⟨_, _, _, keys⟩ := keyed h hm
  exact agree fits keys

lemma drainLoop_store (h : Handover P)
    (hm : h ∈ (drainLoop W store deliveries offered budget engine).1) : h.store = store := by
  induction deliveries generalizing offered budget engine with
  | nil => cases hm
  | cons delivery rest ih =>
    unfold drainLoop at hm
    split_ifs at hm
    · cases hm
    · revert hm
      rcases acceptEnvelope W store engine delivery.envelope budget with ⟨next, spent, _ | outcome⟩
        <;> intro hm
      · obtain rfl := mem_singleton.mp hm
        rfl
      · rcases mem_cons.mp hm with rfl | later
        · rfl
        · exact ih later

lemma drains_store (h : Handover P) (hm : h ∈ (drains W passes engine).1) :
    ∃ pass ∈ passes, h.store = pass.store := by
  induction passes generalizing engine with
  | nil => cases hm
  | cons pass rest ih =>
    simp only [drains, mem_append] at hm
    rcases hm with hh | hl
    · exact ⟨pass, mem_cons_self, drainLoop_store h hh⟩
    · obtain ⟨other, ha, hs⟩ := ih hl
      exact ⟨other, mem_cons_of_mem _ ha, hs⟩

section Sample

theorem views_as_reopened_grant :
    ∃ start fresh, openSample grantWire pairFacts = .ok start ∧
      openSample grantWire (drains grantWire grantPasses start).2.durable = .ok fresh ∧
      (drains grantWire grantPasses start).2.epochKeys 3 = some 106 ∧
      SameViews (drains grantWire grantPasses start).2 fresh := by
  obtain ⟨start, ho, ⟨fresh, again, -⟩, keyed, fine⟩ : ∃ start,
      openSample grantWire pairFacts = .ok start ∧
      (∃ fresh, openSample grantWire (drains grantWire grantPasses start).2.durable = .ok fresh ∧ True) ∧
      (drains grantWire grantPasses start).2.epochKeys 3 = some 106 ∧
      ∀ h ∈ (drains grantWire grantPasses start).1, h.outcome.isOk := by decide +kernel
  have reports : ∀ h ∈ (drains grantWire grantPasses start).1, h.Reports := by
    intro h hm batch answer
    obtain ⟨pass, ha, hs⟩ := drains_store h hm
    obtain rfl := mem_singleton.mp ha
    rw [hs] at answer
    cases answer
  exact ⟨start, fresh, ho, again, keyed, (views_as_reopened ho reports
    fun h hm => Handover.recovers_of_ok (fine h hm)).2 _ _ again⟩

/-- The batch of every commit lands, and every commit reports a failure. -/
def mistakenStore : Store := ⟨fun _ _ => .unreported, fun _ => true⟩

def mistakenPasses : List Pass := [⟨mistakenStore, [mail 0 (sampleId 1) [2, 0]]⟩]

/-- The owner's rotation delivery is on disk, and the engine holds no key for
    its epoch; reopened over the same facts it holds one. -/
theorem unreported_key_missing :
    ∃ start fresh, openSample grantWire pairFacts = .ok start ∧
      (drains grantWire mistakenPasses start).2.durable = grantFacts ∧
      openSample grantWire (drains grantWire mistakenPasses start).2.durable = .ok fresh ∧
      (drains grantWire mistakenPasses start).2.epochKeys 3 = none ∧
      fresh.epochKeys 3 = some 106 := by
  simp only [exists_and_left]
  decide +kernel

end Sample

end Wyrd.Intake
