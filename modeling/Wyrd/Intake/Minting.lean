import Wyrd.Intake.Runs

/-! # Who fills the keyring

A rotation delivery commits a capability only under an owner's proof over its
secrets. An epoch-sealed capability message commits one with no proof at all:
any holder of the epoch key can send it. In a run that meets no such message for
this device, only minted vectors are committed and the keyring holds nothing else.
-/

namespace Wyrd.Intake

open List

open Wyrd.Control Wyrd.Durable Wyrd.Keys Wyrd.Membership

variable {P : Primitives} {W : Wire}

/-- The vector was signed, for this drive, device, transition and epoch, by an
    owner of the state the transition leaves, as the log stood when it was
    committed. -/
structure Mint (P : Primitives) (W : Wire) (drive : DriveId) (device : DeviceId)
    (log : MembershipLog P) (cap : Capability) (t : MembershipTransition) (proof : OwnerProof)
    (owners : Finset DeviceId) : Prop where
  bound : P.transitionId t = cap.transition
  epoch : t.epoch = cap.coveredEpoch
  verified : proof.verify P W drive device cap.transition cap.coveredEpoch cap.secrets = true
  authority : mintAuthority log t = some owners
  signer : proof.signer ∈ owners

/-- The capability was minted under authority somewhere along the facts. -/
def MintedIn (P : Primitives) (W : Wire) (drive : DriveId) (device : DeviceId) (facts : List Fact)
    (cap : Capability) : Prop :=
  ∃ earlier t proof owners, earlier <+: facts ∧ .transition t ∈ earlier ∧
    Mint P W drive device (logOf P drive earlier) cap t proof owners

lemma MintedIn.append (least : MintedIn P W drive device facts cap) (more : List Fact) :
    MintedIn P W drive device (facts ++ more) cap := by
  obtain ⟨earlier, t, proof, owners, along, rest⟩ := least
  exact ⟨earlier, t, proof, owners, along.trans (prefix_append _ _), rest⟩

lemma openGrant_some {engine : Engine P} {t : MembershipTransition} {cap : Capability}
    {proof : OwnerProof} (ho : openGrant W engine delivery = some (t, cap, proof)) :
    cap.device = engine.device ∧ P.transitionId t = cap.transition ∧ t.epoch = cap.coveredEpoch ∧
      proof.verify P W engine.drive engine.device cap.transition cap.coveredEpoch cap.secrets =
        true := by
  unfold openGrant at ho
  cases decoded : W.decodeTransition delivery.transition with
  | none =>
    simp only [decoded] at ho
    split_ifs at ho
  | some =>
    cases unwrapped : W.unwrap delivery.wrapped with
    | none =>
      simp only [decoded, unwrapped] at ho
      split_ifs at ho
    | some =>
      cases proved : W.decodeProof delivery.ownerProof with
      | none =>
        simp only [decoded, unwrapped, proved] at ho
        split_ifs at ho
      | some =>
        simp only [decoded, unwrapped, proved] at ho
        split_ifs at ho with hd he size hl hs hb hp
        cases ho
        have covered : delivery.epoch = cap.coveredEpoch := by tauto
        have hn : P.transitionId t = cap.transition := not_not.mp hb
        rw [← covered, ← hn]
        exact ⟨by tauto, rfl, not_not.mp he, hp⟩

lemma judgeGrant_granted {drive : DriveId} {scratch : MembershipLog P} {t : MembershipTransition}
    {cap : Capability} {proof : OwnerProof} {sender : DeviceId}
    (granted : judgeGrant drive scratch t cap proof sender = .granted) :
    ∃ owners, mintAuthority scratch t = some owners ∧ proof.signer ∈ owners := by
  unfold judgeGrant at granted
  cases legal : cap.authorizeAgainst drive scratch (P.transitionId t) with
  | error error => cases error <;> simp [legal] at granted
  | ok =>
    cases right : mintAuthority scratch t with
    | none => simp [legal, right] at granted
    | some owners =>
      simp only [legal, right] at granted
      split_ifs at granted with hm
      exact ⟨owners, rfl, hm⟩

/-- Every capability for the device is one of the first facts, or minted. -/
def Minted (P : Primitives) (W : Wire) (drive : DriveId) (device : DeviceId) (first facts : List Fact) :
    Prop :=
  ∀ cap, .capability cap ∈ facts → cap.device = device →
    .capability cap ∈ first ∨ MintedIn P W drive device facts cap

/-- No epoch-sealed frame carries a capability for the device, whatever key
    opens it. -/
def NoSealedCapability (W : Wire) (device : DeviceId) (lent : Set Bytes) : Prop :=
  ∀ bytes ∈ lent, ControlFramed bytes → ∀ key payload cap,
    W.openControl key bytes = .ok (.capability payload) → W.unwrap payload.wrapped = some cap →
    cap.device ≠ device

section Run

variable {start : Engine P} {lent : Set Bytes} {lossy : Prop} {first : List Fact} {work next : Work P}

lemma Minted.gather (sound : Sound W start work) (source : Provenance W lent work)
    (unsealed : NoSealedCapability W start.device lent)
    (least : Minted P W start.drive start.device first work.facts) {more : List Fact}
    (gathers : Gathers W lent work more) :
    Minted P W start.drive start.device first (work.facts ++ more) := by
  intro cap hm sent
  rcases mem_append.mp hm with earlier | later
  · exact (least cap earlier sent).imp_right (·.append more)
  · cases gathers with
    | commit hi hc =>
      cases hc with
      | transition | announcement | request => simp at later
      | capability hu =>
        simp only [mem_cons, Fact.capability.injEq, reduceCtorEq, not_mem_nil, or_false] at later
        subst later
        obtain ⟨bytes, ha, hf, _, _, key, _, _, _, _, ho⟩ := source.hand hi
        exact absurd sent (unsealed bytes ha hf key _ _ ho hu)
    | @grant bytes delivery t granted proof sender _ _ _ ho ruled =>
      simp only [mem_cons, Fact.capability.injEq, reduceCtorEq, not_mem_nil, or_false,
        false_or] at later
      subst later
      obtain ⟨_, hb, he, hp⟩ := openGrant_some ho
      obtain ⟨owners, hr, hs⟩ := judgeGrant_granted ruled
      -- the verdict was read off the log with the carried transition observed
      have scratch : logOf P start.drive (work.facts ++ [.transition t]) =
          work.engine.log.observe t := by
        rw [logOf_append, ← sound.drive, ← sound.lockstep.log]
        rfl
      refine .inr ⟨work.facts ++ [.transition t], t, proof, owners, ?_, by simp,
        hb, he, ?_, by rw [scratch]; exact hr, hs⟩
      · exact prefix_append_right_inj _ |>.mpr ⟨_, rfl⟩
      · rw [← sound.drive, ← sound.device]
        exact hp

/-- What the moves of a run keep: sources known, capabilities minted. -/
structure OnlyMinted (W : Wire) (start : Engine P) (lent : Set Bytes) (first : List Fact)
    (work : Work P) : Prop where
  provenance : Provenance W lent work
  onDisk : Minted P W start.drive start.device first work.engine.durable
  gathered : Minted P W start.drive start.device first work.facts

lemma Step.onlyMinted (unsealed : NoSealedCapability W start.device lent)
    (step : Step W lent lossy work next) (sound : Sound W start work)
    (least : OnlyMinted W start lent first work) : OnlyMinted W start lent first next := by
  obtain ⟨ho, hg⟩ := step.onFacts least.onDisk least.gathered fun _ gathers =>
    least.gathered.gather sound least.provenance unsealed gathers
  exact ⟨step.provenance sound.lockstep least.provenance, ho, hg⟩

end Run

lemma buildKeyring_origin (made : buildKeyring P drive facts device = .ok ring)
    (hf : ring.secret epoch = some secret) :
    ∃ cap, .capability cap ∈ facts ∧ cap.device = device ∧ 1 ≤ epoch ∧
      cap.secrets[epoch - 1]? = some secret := by
  simp only [← mem_capabilitiesIn]
  revert hf
  refine foldlM_ok (fun done (ring : DriveKeyring) => ring.secret epoch = some secret →
    ∃ cap, cap ∈ done ∧ cap.device = device ∧ 1 ≤ epoch ∧ cap.secrets[epoch - 1]? = some secret)
    ?_ (by simp [DriveKeyring.new, DriveKeyring.secret]) made
  intro done cap ring next _ ho put hf
  have old : ring.secret epoch = some secret → ∃ held, held ∈ done ++ [cap] ∧
      held.device = device ∧ 1 ≤ epoch ∧ held.secrets[epoch - 1]? = some secret := by
    intro prior
    obtain ⟨held, hm, rest⟩ := ho prior
    exact ⟨held, mem_append_left _ hm, rest⟩
  unfold installFor at put
  split_ifs at put with alien
  · cases put
    exact old hf
  · obtain ⟨_, rfl⟩ := DriveKeyring.installVacant_ok (mapError_ok.mp put)
    rcases fillFrom_origin hf with prior | ⟨ha, entry⟩
    · exact old prior
    · exact ⟨cap, by simp, not_not.mp alien, ha, entry⟩

/-- In every run that meets no epoch-sealed capability for the device, each
    secret its keyring holds comes from a vector that was there at the start or
    was minted under authority. -/
theorem keyring_only_minted {store : Store} {drive : DriveId} {device : DeviceId}
    {facts : List Fact} {start : Engine P} {passes : List Pass}
    (opened : openWithStore P W store drive device facts = .ok start)
    (recovers : ∀ h ∈ (drains W passes start).1, h.Recovers)
    (unsealed : NoSealedCapability W device (lentFrames W device passes)) :
    ∀ h ∈ (drains W passes start).1,
      (∀ cap, .capability cap ∈ h.after.durable → cap.device = device →
        .capability cap ∈ facts ∨ MintedIn P W drive device h.after.durable cap) ∧
      ∀ ring epoch secret, buildKeyring P drive h.after.durable device = .ok ring →
        ring.secret epoch = some secret →
        ∃ cap, cap.device = device ∧ 1 ≤ epoch ∧ cap.secrets[epoch - 1]? = some secret ∧
          (.capability cap ∈ facts ∨ MintedIn P W drive device h.after.durable cap) := by
  have views := openWithStore_ok opened
  have frames : NoSealedCapability W start.device (lentFrames W start.device passes) := by
    rwa [views.device]
  have initial : OnlyMinted W start (lentFrames W start.device passes) facts (.idle start) := by
    have held : Minted P W start.drive start.device facts start.durable := by
      intro cap hm _
      exact .inl (views.durable ▸ hm)
    refine ⟨⟨nofun, fun hf => ?_⟩, held, ?_⟩
    · simp [Work.idle, views.pending, PendingQueue.held_new] at hf
    · simpa [Work.idle, Work.facts] using held
  obtain ⟨run, _⟩ := @drains_invariant P W _ passes start True
    (fun step hs least => step.onlyMinted frames hs least) views.sound initial recovers
    (fun _ _ _ => trivial)
  intro h hm
  have least : ∀ cap, .capability cap ∈ h.after.durable → cap.device = device →
      .capability cap ∈ facts ∨ MintedIn P W drive device h.after.durable cap := by
    obtain ⟨_, _, _, _, hr⟩ := run h hm
    have onDisk := hr.onDisk
    rw [views.drive, views.device] at onDisk
    exact onDisk
  refine ⟨least, fun ring epoch secret made hf => ?_⟩
  obtain ⟨cap, hc, sent, ha, entry⟩ := buildKeyring_origin made hf
  exact ⟨cap, sent, ha, entry, least cap hc sent⟩

section Sample

/-- The owner's rotation delivery to device 3, with the vector it mints. -/
def grantWire : Wire :=
  sampleWire (fun _ => none) (fun _ => some pairRotation)
    (fun _ => some (pairGrant (sampleId 31) [101, 102, 103]))
    (some ⟨sampleId 0, sampleId 3, 3, [], [], []⟩)

def grantPasses : List Pass := [⟨sampleStore, [mail 0 (sampleId 1) [2, 0]]⟩]

def grantFacts : List Fact :=
  pairFacts ++ [.transition pairRotation, .capability (pairGrant (sampleId 31) [101, 102, 103]),
    .controlMessage 512]

theorem keyring_only_minted_grant :
    ∃ start, openSample grantWire pairFacts = .ok start ∧
      (drains grantWire grantPasses start).2.durable = grantFacts ∧
      ∀ h ∈ (drains grantWire grantPasses start).1, ∀ ring epoch secret,
        buildKeyring samplePrimitives (sampleId 0) h.after.durable (sampleId 3) = .ok ring →
        ring.secret epoch = some secret →
        ∃ cap, cap.device = sampleId 3 ∧ 1 ≤ epoch ∧ cap.secrets[epoch - 1]? = some secret ∧
          (.capability cap ∈ pairFacts ∨
            MintedIn samplePrimitives grantWire (sampleId 0) (sampleId 3) h.after.durable cap) := by
  obtain ⟨start, ho, hs, fine⟩ : ∃ start, openSample grantWire pairFacts = .ok start ∧
      (drains grantWire grantPasses start).2.durable = grantFacts ∧
      ∀ h ∈ (drains grantWire grantPasses start).1, h.outcome.isOk := by decide +kernel
  have unsealed : NoSealedCapability grantWire (sampleId 3)
      (lentFrames grantWire (sampleId 3) grantPasses) := by
    intro bytes _ _ key payload cap ho
    simp only [grantWire, sampleWire] at ho
    split at ho <;> cases ho
  refine ⟨start, ho, hs, fun h hm => ?_⟩
  exact (keyring_only_minted ho (fun h hm => Handover.recovers_of_ok (fine h hm)) unsealed h hm).2

def proofless : Primitives :=
  { samplePrimitives with verifySchnorr := fun _ challenge _ => decide (challenge ≠ 7) }

/-- Device 2, a member and no owner, picks other secrets for the admission. -/
def forgedGrant : Capability := pairGrant (sampleId 21) [901, 902]

def forgedWire : Wire :=
  sampleWire (fun _ => some (.capability ⟨sampleId 3, 2, []⟩)) (fun _ => none)
    (fun _ => some forgedGrant) none

def forgedPasses : List Pass := [⟨sampleStore, [mail 0 (sampleId 2) [0, 1]]⟩]

/-- The forged vector is committed beside the owner's, without any proof. -/
theorem forged_grant_committed :
    ∃ start, openWithStore proofless forgedWire sampleStore (sampleId 0) (sampleId 3) pairFacts =
        .ok start ∧
      start.log.ownersOf (sampleId 10) = some {sampleId 1} ∧
      (drains forgedWire forgedPasses start).2.durable =
        pairFacts ++ [.capability forgedGrant, .controlMessage 1] ∧
      .capability forgedGrant ∉ pairFacts ∧
      ∀ facts, ¬ MintedIn proofless forgedWire (sampleId 0) (sampleId 3) facts forgedGrant := by
  have run : ∃ start, openWithStore proofless forgedWire sampleStore (sampleId 0) (sampleId 3)
        pairFacts = .ok start ∧ start.log.ownersOf (sampleId 10) = some {sampleId 1} ∧
      (drains forgedWire forgedPasses start).2.durable =
        pairFacts ++ [.capability forgedGrant, .controlMessage 1] := by decide +kernel
  obtain ⟨start, opened, owners, committed⟩ := run
  refine ⟨start, opened, owners, committed, by decide +kernel, ?_⟩
  rintro facts ⟨_, t, proof, owners, _, _, mint⟩
  have refused : proof.verify proofless forgedWire (sampleId 0) (sampleId 3) forgedGrant.transition
      forgedGrant.coveredEpoch forgedGrant.secrets = false := Bool.and_false _
  exact absurd (refused.symm.trans mint.verified) (by decide)

end Sample

end Wyrd.Intake
