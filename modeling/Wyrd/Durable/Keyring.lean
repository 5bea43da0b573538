import Wyrd.Durable.Replay
import Wyrd.Membership.Tenure

/-! # The keyring over a growing store

What one capability was authorized against stays in force whatever transitions
arrive later, so a rebuild installs every capability the store accepted. Which
secret an epoch ends up with is decided by commit order alone: the earliest
vector that reaches the epoch anchors it.
-/

namespace Wyrd.Keys

open Wyrd.Membership

variable {P : Primitives}

lemma Capability.authorizeAgainst_ok {cap : Capability} {drive} {log : MembershipLog P} {id} :
    cap.authorizeAgainst drive log id = .ok () ↔ cap.drive = drive ∧
      ∃ t state, log.authoritative id = some (.valid t state) ∧
        cap.validateAgainst state = .ok () ∧ cap.checkBinding P t = .ok () := by
  unfold authorizeAgainst
  split_ifs with other
  · simp [other]
  · rw [not_not] at other
    cases log.authoritative id with
    | none => simp
    | some standing =>
      cases standing with
      | pending => simp
      | terminal => simp
      | valid t state =>
        simp only [other, true_and, bind_ok, Option.some.injEq, Authorizable.valid.injEq]
        constructor
        · rintro ⟨_, listed, bound⟩
          exact ⟨t, state, ⟨rfl, rfl⟩, listed, bound⟩
        · rintro ⟨_, _, ⟨rfl, rfl⟩, listed, bound⟩
          exact ⟨_, listed, bound⟩

/-- An authorization outlives every growth of the log. -/
lemma Capability.authorizeAgainst_grows {cap : Capability} {drive : DriveId}
    {small large : MembershipLog P} {id : TransitionId} (grow : Grows small large)
    (legal : cap.authorizeAgainst drive small id = .ok ()) :
    cap.authorizeAgainst drive large id = .ok () := by
  obtain ⟨ours, t, state, hv, hl, hb⟩ := authorizeAgainst_ok.mp legal
  exact authorizeAgainst_ok.mpr ⟨ours, t, state, grow.authoritative hv, hl, hb⟩

lemma Capability.coveredEpoch_eq {cap : Capability} {drive : DriveId} {log : MembershipLog P}
    (legal : cap.authorizeAgainst drive log cap.transition = .ok ()) :
    cap.coveredEpoch = epochOf log cap.transition := by
  obtain ⟨_, t, state, hv, _, bound⟩ := authorizeAgainst_ok.mp legal
  have hf : log.transition cap.transition = some t := by
    unfold MembershipLog.authoritative at hv
    cases hf : log.transition cap.transition with
    | none => simp [hf] at hv
    | some =>
      simp only [hf] at hv
      split at hv
      · cases hv
        rfl
      · split at hv <;> cases hv
  unfold checkBinding at bound
  split_ifs at bound with _ hs
  rw [not_not] at hs
  rw [hs, epochOf_of_transition hf]

end Wyrd.Keys

namespace Wyrd.Durable

open Wyrd.Control Wyrd.Keys Wyrd.Membership

variable {P : Primitives} {drive : DriveId} {device : DeviceId}

def ownCapabilities (device : DeviceId) (facts : List Fact) : List Capability :=
  (capabilitiesIn facts).filter (fun cap => cap.device = device)

variable {facts : List Fact}

@[simp] lemma mem_ownCapabilities :
    cap ∈ ownCapabilities device facts ↔ .capability cap ∈ facts ∧ cap.device = device := by
  simp [ownCapabilities]

def fillAll (held : Nat → Option EpochSecret) (caps : List Capability) : Nat → Option EpochSecret :=
  caps.foldl (fun held cap => fillFrom held 1 cap.secrets) held

/-- The first committed capability that reaches an epoch. -/
def anchor (device : DeviceId) (facts : List Fact) (epoch : Nat) : Option Capability :=
  (ownCapabilities device facts).find? (fun cap => decide (epoch ≤ cap.coveredEpoch))

/-- Fill-vacant in commit order leaves every epoch to its anchor. -/
lemma fillAll_apply (caps : List Capability) (held : Nat → Option EpochSecret) (past : 1 ≤ epoch) :
    fillAll held caps epoch =
      (held epoch).or ((caps.find? (fun cap => decide (epoch ≤ cap.coveredEpoch))).bind
        (fun cap => cap.secrets[epoch - 1]?)) := by
  induction caps generalizing held with
  | nil => simp [fillAll]
  | cons cap rest ih =>
    have step : fillAll held (cap :: rest) = fillAll (fillFrom held 1 cap.secrets) rest := rfl
    rw [step, ih, fillFrom_apply, if_pos past]
    by_cases covers : epoch ≤ cap.coveredEpoch
    · have path : epoch - 1 < cap.secrets.length := by
        rw [Capability.coveredEpoch] at covers
        omega
      simp [covers, List.getElem?_eq_getElem path]
    · have short : cap.secrets[epoch - 1]? = none := by
        rw [List.getElem?_eq_none_iff]
        rw [Capability.coveredEpoch] at covers
        omega
      simp [covers, short]

variable {log : MembershipLog P}

lemma installFor_own {keyring : DriveKeyring} {cap : Capability} (ours : keyring.device = device)
    (own : cap.device = device)
    (legal : cap.authorizeAgainst keyring.drive log cap.transition = .ok ()) :
    installFor log device keyring cap =
      .ok { keyring with secrets := fillFrom keyring.secrets 1 cap.secrets } := by
  have routed := (Capability.authorizeAgainst_ok.mp legal).1
  have passed : keyring.preflight cap log = .ok () := by
    simp [DriveKeyring.preflight, routed, own, ours, legal, Except.mapError]
  simp [installFor, own, DriveKeyring.installVacant, passed, Except.mapError]

lemma install_all (caps : List Capability) (keyring : DriveKeyring) (ours : keyring.device = device)
    (legal : ∀ cap ∈ caps, cap.device = device →
      cap.authorizeAgainst keyring.drive log cap.transition = .ok ()) :
    caps.foldlM (installFor log device) keyring =
      .ok { keyring with
        secrets := fillAll keyring.secrets (caps.filter (fun cap => cap.device = device)) } := by
  induction caps generalizing keyring with
  | nil => rfl
  | cons cap rest ih =>
    rw [List.foldlM_cons]
    have others := fun other hm => legal other (List.mem_cons_of_mem _ hm)
    by_cases own : cap.device = device
    · rw [installFor_own ours own (legal cap List.mem_cons_self own)]
      rw [List.filter_cons_of_pos (by simpa using own)]
      exact ih { keyring with secrets := fillFrom keyring.secrets 1 cap.secrets } ours others
    · have skipped : installFor log device keyring cap = .ok keyring := by simp [installFor, own]
      rw [skipped, List.filter_cons_of_neg (by simpa using own)]
      exact ih keyring ours others

/-- Every capability the store holds for the device passes the predicate over
    the store's own log. -/
def Authorized (P : Primitives) (drive : DriveId) (device : DeviceId) (facts : List Fact) : Prop :=
  ∀ cap ∈ ownCapabilities device facts,
    cap.authorizeAgainst drive (logOf P drive facts) cap.transition = .ok ()

/-- The keyring of a store of authorized capabilities: every epoch from its
    anchor. -/
lemma Authorized.keyring (legal : Authorized P drive device facts) :
    ∃ keyring, buildKeyring P drive facts device = .ok keyring ∧
      ∀ epoch, 1 ≤ epoch → keyring.secret epoch =
        (anchor device facts epoch).bind (fun cap => cap.secrets[epoch - 1]?) := by
  refine ⟨_, install_all (capabilitiesIn facts) (.new drive device) rfl ?_, ?_⟩
  · intro cap hm own
    exact legal cap (by simpa [own] using hm)
  · intro epoch past
    exact (fillAll_apply _ _ past).trans Option.none_or

/-- Distinct transitions of the store have distinct ids. -/
def DistinctIds (P : Primitives) (facts : List Fact) : Prop :=
  Set.InjOn P.transitionId {t | .transition t ∈ facts}

lemma DistinctIds.mono (once : DistinctIds P more) (hw : ∀ fact ∈ facts, fact ∈ more) :
    DistinctIds P facts :=
  Set.InjOn.mono (fun _ hm => hw _ hm) once

lemma logOf_grows (once : DistinctIds P (facts ++ more)) :
    Grows (logOf P drive facts) (logOf P drive (facts ++ more)) := by
  induction more using List.reverseRecOn with
  | nil => simpa using Grows.refl _
  | append_singleton earlier fact ih =>
    rw [← List.append_assoc] at once ⊢
    have prior := ih (once.mono fun _ hm => List.mem_append_left _ hm)
    refine prior.trans ?_
    rw [logOf_append drive (facts ++ earlier)]
    cases fact with
    | transition =>
      refine ⟨rfl, Observed.extends_observe fun other hf => ?_⟩
      obtain ⟨hn, hs⟩ := mem_of_logOf hf
      exact once (List.mem_append_left _ hn) (by simp) hs
    | _ => exact .refl _

/-- A store written through the authorizing paths: whatever else a batch brings,
    the device's capabilities in it passed the predicate over the log of that
    moment, the batch's own transitions observed. -/
inductive Written (P : Primitives) (drive : DriveId) (device : DeviceId) : List Fact → Prop where
  | empty : Written P drive device []
  | commit {facts batch : List Fact} : Written P drive device facts →
      (∀ cap ∈ ownCapabilities device batch,
        cap.authorizeAgainst drive (logOf P drive (facts ++ batch)) cap.transition = .ok ()) →
      Written P drive device (facts ++ batch)

lemma Written.authorized (written : Written P drive device facts)
    (once : DistinctIds P facts) : Authorized P drive device facts := by
  induction written with
  | empty => simp [Authorized]
  | @commit facts batch _ hc ih =>
    have old := ih (once.mono fun _ hm => List.mem_append_left _ hm)
    intro cap hm
    simp only [mem_ownCapabilities, List.mem_append] at hm
    rcases hm with ⟨noted | hn, own⟩
    · exact Capability.authorizeAgainst_grows (logOf_grows once)
        (old cap (mem_ownCapabilities.mpr ⟨noted, own⟩))
    · exact hc cap (mem_ownCapabilities.mpr ⟨hn, own⟩)

theorem authorizations_stay (P : Primitives) :
    (∀ small large : MembershipLog P, Grows small large → ∀ id t state,
      small.authoritative id = some (.valid t state) →
      large.authoritative id = some (.valid t state)) ∧
    (∀ small large : MembershipLog P, Grows small large → ∀ cap drive id,
      Capability.authorizeAgainst cap drive small id = .ok () →
      cap.authorizeAgainst drive large id = .ok ()) ∧
    ∀ drive device facts, Written P drive device facts → DistinctIds P facts →
      ∃ keyring, buildKeyring P drive facts device = .ok keyring := by
  refine ⟨fun small large grow id t state => grow.authoritative,
    fun small large grow cap drive id => Capability.authorizeAgainst_grows grow, ?_⟩
  intro drive device facts hw ho
  obtain ⟨keyring, hm, _⟩ := (hw.authorized ho).keyring
  exact ⟨keyring, hm⟩

section Sample

def vector (transition : TransitionId) (secrets : List Nat) : Capability where
  drive := sampleId 0
  device := sampleId 1
  encryptionKey := sampleId 1
  transition := transition
  secrets := secrets.map (Fin.ofNat (2 ^ 256))

/-- Rotations 21 and 22 fork from genesis, and the vector of 22 is accepted. -/
def forkFacts : List Fact :=
  [.transition sampleGenesis, .transition (rotation 2 (sampleId 10) [] 21 (.refl true)),
    .transition (rotation 2 (sampleId 10) [] 22 (.refl true)), .capability (vector (sampleId 22) [10, 22])]

/-- Rotation 31 resolves for 21, and its vector is accepted too. -/
def resolvedFacts : List Fact :=
  forkFacts ++ [.transition (rotation 3 (sampleId 21) [sampleId 22] 31 (.refl true)),
    .capability (vector (sampleId 31) [10, 21, 31])]

lemma resolvedFacts_written : Written samplePrimitives (sampleId 0) (sampleId 1) resolvedFacts := by
  have forked : Written samplePrimitives (sampleId 0) (sampleId 1) ([] ++ forkFacts) :=
    .commit .empty (by decide +kernel)
  exact .commit forked (by decide +kernel)

lemma resolvedFacts_distinct : DistinctIds samplePrimitives resolvedFacts := by
  have hl : ∀ t, .transition t ∈ resolvedFacts → t ∈ transitionsIn resolvedFacts :=
    fun _ => mem_transitionsIn.mpr
  have apart : ∀ t ∈ transitionsIn resolvedFacts, ∀ t' ∈ transitionsIn resolvedFacts,
      samplePrimitives.transitionId t = samplePrimitives.transitionId t' → t = t' := by
    decide +kernel
  exact fun t hm t' hm' => apart t (hl t hm) t' (hl t' hm')

theorem authorizations_stay_resolved :
    (∃ t state, lateSiblingLog.authoritative (sampleId 31) = some (.valid t state)) ∧
      (vector (sampleId 31) [10, 21, 31]).authorizeAgainst (sampleId 0) lateSiblingLog
        (sampleId 31) = .ok () ∧
      ∃ keyring, buildKeyring samplePrimitives (sampleId 0) resolvedFacts (sampleId 1) =
        .ok keyring := by
  obtain ⟨stays, hp, hb⟩ := authorizations_stay samplePrimitives
  refine ⟨?_, ?_, hb _ _ _ resolvedFacts_written resolvedFacts_distinct⟩
  · obtain ⟨t, state, hv⟩ : ∃ t state,
        resolvedLog.authoritative (sampleId 31) = some (.valid t state) := by
      rw [authoritative_valid, ← Option.isSome_iff_ne_none]
      decide +kernel
    exact ⟨t, state, stays _ _ lateSiblingLog_grows _ _ _ hv⟩
  · exact hp _ _ lateSiblingLog_grows _ _ _ (by decide +kernel)

end Sample

/-- A transition's ancestor, or the transition itself, at an epoch. -/
def AncestorAt (log : MembershipLog P) (id : TransitionId) (epoch : Nat) (ancestor : TransitionId) :
    Prop :=
  Relation.ReflTransGen (fun child parent => prevOf log child = some parent) id ancestor ∧
    epochOf log ancestor = epoch

/-- Going down from a valid transition lowers the epoch, unless one stays. -/
lemma epochOf_below {id ancestor} (hv : isValid (linkOf log) id = true)
    (hb : Relation.ReflTransGen (fun child parent => prevOf log child = some parent) id ancestor) :
    isValid (linkOf log) ancestor = true ∧
      (ancestor = id ∨ epochOf log ancestor < epochOf log id) := by
  induction hb with
  | refl => exact ⟨hv, .inl rfl⟩
  | @tail middle parent _ step ih =>
    obtain ⟨valid, hp⟩ := ih
    have lower := valid_epoch valid
    rw [step] at lower
    refine ⟨valid_prev valid step, .inr ?_⟩
    rcases hp with rfl | under
    · exact Nat.lt_of_lt_of_eq (Nat.lt_succ_self _) lower.symm
    · exact lt_trans (Nat.lt_of_lt_of_eq (Nat.lt_succ_self _) lower.symm) under

lemma AncestorAt.unique {id first second epoch} (hv : isValid (linkOf log) id = true)
    (atFirst : AncestorAt log id epoch first) (atSecond : AncestorAt log id epoch second) :
    first = second := by
  have functional : Relator.RightUnique
      (fun child parent : TransitionId => prevOf log child = some parent) := by
    intro child parent parent' hn hn'
    exact Option.some.inj (hn.symm.trans hn')
  have hs : epochOf log first = epochOf log second := atFirst.2.trans atSecond.2.symm
  rcases atFirst.1.total_of_right_unique functional atSecond.1 with hb | hb
  · rcases (epochOf_below (epochOf_below hv atFirst.1).1 hb).2 with hd | lower
    · exact hd.symm
    · omega
  · rcases (epochOf_below (epochOf_below hv atSecond.1).1 hb).2 with hd | lower
    · exact hd
    · omega

/-- The vector carries, epoch by epoch, what was minted for the transitions its
    own transition stands on. -/
def Honest (log : MembershipLog P) (minted : TransitionId → EpochSecret) (cap : Capability) : Prop :=
  ∀ index secret, cap.secrets[index]? = some secret →
    ∃ ancestor, AncestorAt log cap.transition (index + 1) ancestor ∧ secret = minted ancestor

lemma valid_of_authorized {cap : Capability} {id}
    (legal : cap.authorizeAgainst drive log id = .ok ()) : isValid (linkOf log) id = true := by
  obtain ⟨_, t, state, hs, _⟩ := Capability.authorizeAgainst_ok.mp legal
  exact (states_isSome.mp (authoritative_valid.mp ⟨t, state, hs⟩)).1

theorem keyring_anchored (minted : TransitionId → EpochSecret) {facts : List Fact}
    (authorized : Authorized P drive device facts)
    (honest : ∀ cap ∈ ownCapabilities device facts, Honest (logOf P drive facts) minted cap)
    {tip : Capability} (held : tip ∈ ownCapabilities device facts)
    (atTip : (analyse (logOf P drive facts)).canonical.getLast? = some tip.transition) :
    ∃ keyring, buildKeyring P drive facts device = .ok keyring ∧
      ∀ index canonical, (analyse (logOf P drive facts)).canonical[index]? = some canonical →
        ∃ first, anchor device facts (index + 1) = some first ∧
          (∃ ancestor, AncestorAt (logOf P drive facts) first.transition (index + 1) ancestor ∧
            keyring.secret (index + 1) = some (minted ancestor)) ∧
          (AncestorAt (logOf P drive facts) first.transition (index + 1) canonical →
            keyring.secret (index + 1) = some (minted canonical)) ∧
          (Function.Injective minted → keyring.secret (index + 1) = some (minted canonical) →
            AncestorAt (logOf P drive facts) first.transition (index + 1) canonical) := by
  obtain ⟨keyring, hm, secrets⟩ := authorized.keyring
  refine ⟨keyring, hm, ?_⟩
  intro index canonical ha
  -- the tip's own vector reaches every epoch of the chain, so there is an anchor
  have path : index + 1 ≤ tip.coveredEpoch := by
    obtain ⟨last, hw, _⟩ := analyse_last (logOf P drive facts)
    have length := hw.spine.1.length_eq
    rw [atTip] at length
    rw [Capability.coveredEpoch_eq (authorized tip held)]
    exact Nat.le_trans (List.getElem?_eq_some_iff.mp ha).1 length.le
  obtain ⟨first, hf⟩ : ∃ first, anchor device facts (index + 1) = some first := by
    rw [← Option.isSome_iff_exists, anchor, List.find?_isSome]
    exact ⟨tip, held, by simpa using path⟩
  have own : first ∈ ownCapabilities device facts := List.mem_of_find?_eq_some hf
  have covers : index < first.secrets.length := by
    have covered := List.find?_some hf
    rw [decide_eq_true_eq, Capability.coveredEpoch] at covered
    omega
  have hv := valid_of_authorized (authorized first own)
  have entry := List.getElem?_eq_getElem covers
  obtain ⟨ancestor, atEpoch, hc⟩ := honest first own index _ entry
  have secret : keyring.secret (index + 1) = some (minted ancestor) := by
    rw [secrets (index + 1) (by omega), hf, Option.bind_some, Nat.add_sub_cancel, entry, hc]
  refine ⟨first, hf, ⟨ancestor, atEpoch, secret⟩, ?_, ?_⟩
  · intro shared
    rw [secret, atEpoch.unique hv shared]
  · intro hi hs
    rw [secret, Option.some.injEq, hi.eq_iff] at hs
    exact hs ▸ atEpoch

section Sample

def sampleMinted (id : TransitionId) : EpochSecret := id.raw

lemma resolvedFacts_honest : ∀ cap ∈ ownCapabilities (sampleId 1) resolvedFacts,
    Honest (logOf samplePrimitives (sampleId 0) resolvedFacts) sampleMinted cap := by
  have step : ∀ {child parent : TransitionId},
      prevOf (logOf samplePrimitives (sampleId 0) resolvedFacts) child = some parent →
      Relation.ReflTransGen (fun child parent => prevOf
        (logOf samplePrimitives (sampleId 0) resolvedFacts) child = some parent) child parent :=
    fun hn => .single hn
  have hl : ownCapabilities (sampleId 1) resolvedFacts =
      [vector (sampleId 22) [10, 22], vector (sampleId 31) [10, 21, 31]] := by decide +kernel
  have hbl2 := @step (sampleId 22) (sampleId 10) (by decide +kernel)
  have below31 := @step (sampleId 31) (sampleId 21) (by decide +kernel)
  have below21 := @step (sampleId 21) (sampleId 10) (by decide +kernel)
  intro cap hm index secret entry
  rw [hl] at hm
  rcases List.mem_cons.mp hm with rfl | hm
  · match index, entry with
    | 0, entry => exact ⟨sampleId 10, ⟨hbl2, by decide +kernel⟩, by cases entry; rfl⟩
    | 1, entry => exact ⟨sampleId 22, ⟨.refl, by decide +kernel⟩, by cases entry; rfl⟩
  · rw [List.mem_singleton] at hm
    subst hm
    match index, entry with
    | 0, entry => exact ⟨sampleId 10, ⟨below31.trans below21, by decide +kernel⟩, by cases entry; rfl⟩
    | 1, entry => exact ⟨sampleId 21, ⟨below31, by decide +kernel⟩, by cases entry; rfl⟩
    | 2, entry => exact ⟨sampleId 31, ⟨.refl, by decide +kernel⟩, by cases entry; rfl⟩

lemma resolvedFacts_authorized :
    Authorized samplePrimitives (sampleId 0) (sampleId 1) resolvedFacts :=
  resolvedFacts_written.authorized resolvedFacts_distinct

lemma resolvedFacts_tip :
    (analyse (logOf samplePrimitives (sampleId 0) resolvedFacts)).canonical.getLast? =
      some (vector (sampleId 31) [10, 21, 31]).transition := by
  decide +kernel

/-- The genesis epoch is shared by every vector, so its secret is the canonical
    one. -/
theorem keyring_anchored_resolved :
    ∃ keyring, buildKeyring samplePrimitives (sampleId 0) resolvedFacts (sampleId 1) =
      .ok keyring ∧ keyring.secret 1 = some (sampleMinted (sampleId 10)) := by
  obtain ⟨keyring, hm, anchored⟩ := keyring_anchored sampleMinted resolvedFacts_authorized
    resolvedFacts_honest (by decide +kernel) resolvedFacts_tip
  obtain ⟨first, hf, _, hs, _⟩ := anchored 0 (sampleId 10) (by decide +kernel)
  refine ⟨keyring, hm, hs ?_⟩
  have anchored : anchor (sampleId 1) resolvedFacts 1 = some (vector (sampleId 22) [10, 22]) := by
    decide +kernel
  cases hf.symm.trans anchored
  exact ⟨.single (by decide +kernel), by decide +kernel⟩

/-- The vector of a contender, accepted while the fork was open, keeps the epoch
    after the resolution voided it. -/
theorem voided_vector_anchors :
    Authorized samplePrimitives (sampleId 0) (sampleId 1) resolvedFacts ∧
      (∀ cap ∈ ownCapabilities (sampleId 1) resolvedFacts,
        Honest (logOf samplePrimitives (sampleId 0) resolvedFacts) sampleMinted cap) ∧
      vector (sampleId 31) [10, 21, 31] ∈ ownCapabilities (sampleId 1) resolvedFacts ∧
      (analyse (logOf samplePrimitives (sampleId 0) resolvedFacts)).canonical =
        [sampleId 10, sampleId 21, sampleId 31] ∧
      ∃ keyring, buildKeyring samplePrimitives (sampleId 0) resolvedFacts (sampleId 1) =
        .ok keyring ∧ keyring.secret 2 = some (sampleMinted (sampleId 22)) ∧
        keyring.secret 2 ≠ some (sampleMinted (sampleId 21)) := by
  refine ⟨resolvedFacts_authorized, resolvedFacts_honest, by decide +kernel, by decide +kernel, ?_⟩
  obtain ⟨keyring, hm, hs⟩ := resolvedFacts_authorized.keyring
  have held : keyring.secret 2 = some (sampleMinted (sampleId 22)) := by
    rw [hs 2 (by omega)]
    decide +kernel
  exact ⟨keyring, hm, held, by rw [held]; decide +kernel⟩

end Sample

end Wyrd.Durable
