import Wyrd.Membership.Stability

/-! # Accepted and contradictory resolutions

An accepted resolution stays accepted exactly while its conflict and every
earlier slot stay quiet. Contradictory resolutions are never left: the conflict
handler looks at children of contenders only, so a resolution of the
resolutions themselves is not seen.
-/

namespace Wyrd.Membership

open List

variable {P : Primitives} {log small large : MembershipLog P}

variable {slot : Option TransitionId}

/-- A canonical exact resolution is the only one of its conflict. -/
lemma resolutions_of_canonical (tip : Tip log slot) (many : 2 ≤ (contenders log slot).length)
    (exact : r ∈ resolutions log (contenders log slot))
    (hok : (analyse log).status r = some .canonical) :
    resolutions log (contenders log slot) = [r] := by
  by_cases single : (resolutions log (contenders log slot)).length = 1
  · obtain ⟨other, only⟩ := length_eq_one_iff.mp single
    rw [only, mem_singleton] at exact
    rw [only, exact]
  · obtain ⟨_, _, hr, _⟩ := frozen_slot many single
    have fought : verdictAt log slot r = some .contested := by
      rw [hr, if_pos (.inr exact)]
    rw [status_of_tip tip fought] at hok
    cases hok

/-- If an accepted resolution is canonical after growth, its own slot and all
    earlier ones were quiet. -/
lemma quiet_of_still_canonical (grow : Grows small large) (tip : Tip small slot)
    (advances : advance small slot = some ([winner, r], r))
    (still : (analyse large).status r = some .canonical) :
    QuietBefore small large slot ∧ Quiet small large slot := by
  obtain ⟨chain, path⟩ := tip
  have onward := path.next advances
  have hv : isValid (linkOf small) r = true := tip_valid ⟨_, onward⟩ r rfl
  have above := onward.length_eq
  rw [length_append, path.length_eq] at above
  obtain ⟨last, ht, -⟩ := analyse_last large
  obtain ⟨slot', ⟨chain', path'⟩, hc⟩ := ht.selected (mem_canonical.mpr still)
  obtain ⟨picked, next, selects, hm⟩ := verdictAt_canonical.mp hc
  -- the larger log selects the resolution itself: as the winner of a later conflict it would
  -- follow its own winner, which the smaller log selected together with it
  have isNext : next = r := by
    rcases advance_cases selects with ⟨_, _, rfl⟩ | ⟨winner', _, _, _, hr, rfl⟩
    · exact (mem_singleton.mp hm).symm
    · rcases mem_cons.mp hm with rfl | isLast
      · rcases advance_cases advances with ⟨_, _, ⟨⟩⟩ | ⟨_, _, _, prev, hr', hs⟩
        cases hs
        have hn := (mem_contenders.mp hr).2
        rw [grow.prevOf hv, prev] at hn
        subst hn
        obtain ⟨again, -⟩ := path'.back grow fun id hs =>
          Option.some.inj hs ▸ valid_prev hv prev
        have length := again.length_eq
        have higher : slotEpoch small (some winner) = slotEpoch small slot + 1 :=
          contender_epoch hr'
        rw [higher, ← path.length_eq] at length
        rcases again.compare path with rfl | ⟨_, _, _, later⟩ | ⟨_, _, moves, later⟩
        · exact absurd (again.unique path ▸ length) (by omega)
        · have hw := later.length_le
          rw [length_append] at hw
          omega
        · cases moves.symm.trans advances
          have hw := later.length_le
          simp only [length_append, length_cons, length_nil] at hw
          omega
      · exact (mem_singleton.mp isLast).symm
  subst isNext
  obtain ⟨-, hq⟩ := (path'.next selects).back grow fun id hs => Option.some.inj hs ▸ hv
  have lower : slotEpoch small slot < slotEpoch small (some next) := by
    simp only [length_cons, length_nil] at above
    omega
  exact ⟨fun earlier met hb => hq earlier met (hb.trans lower), hq slot ⟨chain, path⟩ lower⟩

theorem resolution_final_iff (grows : Grows small large) {slot : Option TransitionId}
    {r : TransitionId} (tip : Tip small slot) (several : 2 ≤ (contenders small slot).length)
    (exact : r ∈ resolutions small (contenders small slot))
    (accepted : (analyse small).status r = some .canonical)
    (noSecond : ∀ other ∈ resolutions large (contenders small slot), other = r) :
    ((analyse large).status r = some .canonical ∧
      (∀ winner, prevOf small r = some winner →
        (analyse large).status winner = some .canonical) ∧
      ∀ loser ∈ contenders small slot, (analyse small).status loser = some .voided →
        (analyse large).status loser ≠ some .contested ∧
          (analyse large).status loser ≠ some .canonical) ↔
    QuietBefore small large slot ∧ contenders large slot = contenders small slot := by
  have only := resolutions_of_canonical tip several exact accepted
  obtain ⟨winner, rival, prev, hv, _, _⟩ := mem_resolutions.mp exact
  obtain ⟨_, hr, moves, _⟩ := resolved_slot several only prev
  constructor
  · rintro ⟨still, _⟩
    obtain ⟨hq, hh⟩ := quiet_of_still_canonical grows tip moves still
    exact ⟨hq, hh.contenders⟩
  · rintro ⟨hq, hs⟩
    obtain ⟨chain, path⟩ := tip
    have tip' : Tip large slot := ⟨chain, hq.reaches grows path⟩
    have only' : resolutions large (contenders large slot) = [r] := by
      rw [hs]
      have once := resolutions_nodup large (contenders_nodup small slot)
      apply perm_singleton.mp
      rw [perm_ext_iff_of_nodup once (nodup_singleton r)]
      intro other
      rw [mem_singleton]
      exact ⟨noSecond other, fun isR => isR ▸ grows.mem_resolutions exact⟩
    have prev' := (grows.prevOf hv).trans prev
    obtain ⟨_, rules', _⟩ := resolved_slot (hs ▸ several) only' prev'
    refine ⟨status_of_tip tip' (by rw [rules', if_pos (.inl rfl)]), ?_, ?_⟩
    · intro other hn
      cases prev.symm.trans hn
      exact status_of_tip tip' (by rw [rules', if_pos (.inr rfl)])
    · intro loser hm voided
      have apart : ¬ (loser = r ∨ loser = winner) := by
        intro hc
        have canon : verdictAt small slot loser = some .canonical := by
          rw [hr, if_pos hc]
        rw [status_of_tip ⟨chain, path⟩ canon] at voided
        cases voided
      have stays : (analyse large).status loser = some .voided :=
        status_of_tip tip' (by rw [rules', if_neg apart, if_pos (hs ▸ hm)])
      simp [stays]

/-! ### A late sibling

One owner, a fork at epoch two and its resolution, then a third sibling of the
resolved pair. -/

section Sample

def sampleId {kind : IdKind} (n : Nat) : Id kind := ⟨Fin.ofNat (2 ^ 256) n⟩

/-- Identities are read off signatures and set roots off sums; every signature
    verifies. -/
def samplePrimitives : Primitives where
  transitionId t := sampleId t.signature.val
  snapshotId s := sampleId s.signature.val
  membershipChallenge _ _ := 0
  snapshotChallenge _ _ := 0
  setRoot context devices := some (Fin.ofNat (2 ^ 256) (match context with
    | .members => devices.sum (fun device => device.raw.val) * 4
    | .owners => devices.sum (fun device => device.raw.val) * 4 + 1
    | .readers => devices.sum (fun device => device.raw.val) * 4 + 2))
  validDeviceKey _ := true
  validEncryptionKey _ := true
  parsesSignature _ := true
  verifySchnorr _ _ _ := true

def sampleGenesis : MembershipTransition where
  epoch := 1
  prev := none
  resolves := []
  changes := [.admitMember ⟨sampleId 1, sampleId 1⟩, .setOwners [sampleId 1]]
  membersRoot := 4
  ownersRoot := 5
  readersRoot := 2
  author := sampleId 1
  signature := 10
  encodable := rfl

def rotation (epoch : Nat) (prev : TransitionId) (resolves : List TransitionId)
    (signature : Signature) (encodable : checkCounts resolves [.rotate] = true) :
    MembershipTransition where
  epoch := epoch
  prev := some prev
  resolves := resolves
  changes := [.rotate]
  membersRoot := 4
  ownersRoot := 5
  readersRoot := 2
  author := sampleId 1
  signature := signature
  encodable := encodable

def sampleLog (observed : List MembershipTransition) : MembershipLog samplePrimitives :=
  observed.foldl MembershipLog.observe (.new samplePrimitives (sampleId 0))

/-- Rotations 21 and 22 fork from genesis 10, and 31 resolves for 21. -/
def resolvedLog : MembershipLog samplePrimitives :=
  sampleLog [sampleGenesis, rotation 2 (sampleId 10) [] 21 (.refl true), rotation 2 (sampleId 10) [] 22 (.refl true),
    rotation 3 (sampleId 21) [sampleId 22] 31 (.refl true)]

/-- Rotation 23 forks from genesis too. -/
def lateSiblingLog : MembershipLog samplePrimitives :=
  resolvedLog.observe (rotation 2 (sampleId 10) [] 23 (.refl true))

lemma resolvedLog_tip : Tip resolvedLog (some (sampleId 10)) :=
  ⟨_, .next .root (show advance resolvedLog none = some ([sampleId 10], sampleId 10) by
    decide +kernel)⟩

lemma lateSiblingLog_grows : Grows resolvedLog lateSiblingLog :=
  .observe (by decide +kernel)

lemma resolvedLog_status : (analyse resolvedLog).status (sampleId 31) = some .canonical := by
  rw [status_search]
  decide +kernel

theorem resolution_final_iff_lateSibling :
    ((analyse lateSiblingLog).status (sampleId 31) = some .canonical ∧
      (∀ winner, prevOf resolvedLog (sampleId 31) = some winner →
        (analyse lateSiblingLog).status winner = some .canonical) ∧
      ∀ loser ∈ contenders resolvedLog (some (sampleId 10)),
        (analyse resolvedLog).status loser = some .voided →
        (analyse lateSiblingLog).status loser ≠ some .contested ∧
          (analyse lateSiblingLog).status loser ≠ some .canonical) ↔
    QuietBefore resolvedLog lateSiblingLog (some (sampleId 10)) ∧
      contenders lateSiblingLog (some (sampleId 10)) =
        contenders resolvedLog (some (sampleId 10)) :=
  resolution_final_iff lateSiblingLog_grows resolvedLog_tip (by decide +kernel)
    (by decide +kernel) resolvedLog_status (by decide +kernel)

/-- The accepted resolution 31 is void once sibling 23 arrives, and the voided
    rotation 22 is contested again. -/
theorem late_sibling_reopens :
    Grows resolvedLog lateSiblingLog ∧ Tip resolvedLog (some (sampleId 10)) ∧
      contenders resolvedLog (some (sampleId 10)) = [sampleId 21, sampleId 22] ∧
      sampleId 31 ∈ resolutions resolvedLog (contenders resolvedLog (some (sampleId 10))) ∧
      (analyse resolvedLog).status (sampleId 31) = some .canonical ∧
      (∀ other ∈ resolutions lateSiblingLog (contenders resolvedLog (some (sampleId 10))),
        other = sampleId 31) ∧
      (analyse lateSiblingLog).status (sampleId 31) = some .voided ∧
      (analyse resolvedLog).status (sampleId 22) = some .voided ∧
      (analyse lateSiblingLog).status (sampleId 22) = some .contested ∧
      (analyse lateSiblingLog).frozenAt = some 2 := by
  refine ⟨lateSiblingLog_grows, resolvedLog_tip, ?_⟩
  simp only [frozenAt_search, status_search]
  decide +kernel

end Sample

lemma transition_observe (log : MembershipLog P) (t : MembershipTransition) (id : TransitionId) :
    (log.observe t).transition id =
      if id = P.transitionId t then some t else log.transition id := by
  rw [MembershipLog.transition, MembershipLog.observe, Observed.lookup_observe]
  rfl

variable {t : MembershipTransition}

/-- Observing a transition changes no validity below its own epoch. -/
lemma valid_below_observed (new : log.transition (P.transitionId t) = none) {id}
    (hv : isValid (linkOf (log.observe t)) id = true)
    (lower : epochOf (log.observe t) id < t.epoch) : isValid (linkOf log) id = true := by
  induction he : epochOf (log.observe t) id using Nat.strong_induction_on generalizing id with
  | _ e ih =>
    obtain ⟨s, hf⟩ := isValid_observed hv
    have apart : id ≠ P.transitionId t := by
      rintro rfl
      rw [transition_observe, if_pos rfl, Option.some.injEq] at hf
      subst hf
      rw [epochOf, transition_observe, if_pos rfl] at lower
      exact absurd lower (lt_irrefl _)
    have prior : log.transition id = some s := by
      rw [transition_observe, if_neg apart] at hf
      exact hf
    refine (Grows.observe new).valid_back prior ?_ hv
    intro dep hm
    obtain ⟨hd, hu⟩ := valid_dependencies hf hv dep hm
    exact ih _ (by omega) hd (by omega) rfl

/-- A transition two or more epochs above a slot leaves the slot quiet. -/
lemma quiet_of_high (new : log.transition (P.transitionId t) = none)
    (known : ∀ id, slot = some id → isValid (linkOf log) id = true)
    (high : slotEpoch log slot + 2 < t.epoch) : Quiet log (log.observe t) slot := by
  have grow : Grows log (log.observe t) := .observe new
  have era : slotEpoch (log.observe t) slot = slotEpoch log slot := by
    cases slot with
    | none => rfl
    | some id => exact grow.epochOf (known id rfl)
  refine quiet_of_known grow (fun c hm => ?_) fun r hm => ?_
  · have lower := contender_epoch hm
    exact valid_below_observed new (mem_contenders.mp hm).1 (by omega)
  · have lower := resolution_epoch hm
    obtain ⟨_, _, _, hv, _⟩ := mem_resolutions.mp hm
    exact valid_below_observed new hv (by omega)

lemma Last.highest (ends : Last log last) (tip : Tip log slot) :
    slotEpoch log slot ≤ slotEpoch log last := by
  obtain ⟨⟨chain, toLast⟩, stops⟩ := ends
  obtain ⟨front, path⟩ := tip
  rw [← toLast.length_eq, ← path.length_eq]
  rcases path.compare toLast with rfl | ⟨_, _, _, hl⟩ | ⟨_, _, hm, _⟩
  · exact (path.unique toLast) ▸ le_rfl
  · exact ((prefix_append _ _).trans hl).length_le
  · simp [stops] at hm

/-- A freeze is above the reach of whatever arrives two epochs past its
    contenders: the slot decides as before and the newcomer is void. -/
lemma newcomer_above_freeze (last : Last log slot) (new : log.transition (P.transitionId t) = none)
    (hv : isValid (linkOf (log.observe t)) (P.transitionId t) = true)
    (high : slotEpoch log slot + 2 < t.epoch) :
    (analyse (log.observe t)).frozenAt = (analyse log).frozenAt ∧
      (analyse (log.observe t)).status (P.transitionId t) = some .voided ∧
      ∀ x v, verdictAt log slot x = some v → (analyse (log.observe t)).status x = some v := by
  have grow : Grows log (log.observe t) := .observe new
  obtain ⟨⟨chain, path⟩, stops⟩ := last
  have hq : QuietBefore log (log.observe t) slot := fun earlier met lower =>
    quiet_of_high new (tip_valid met) (by omega)
  have hh : Quiet log (log.observe t) slot :=
    quiet_of_high new (tip_valid ⟨chain, path⟩) high
  have again := hq.reaches grow path
  obtain ⟨hm, rules, hf⟩ := hh.alike grow
  have ends : Last (log.observe t) slot := ⟨⟨chain, again⟩, hm.trans stops⟩
  refine ⟨?_, ?_, ?_⟩
  · rw [ends.frozenAt, hf, Last.frozenAt ⟨⟨chain, path⟩, stops⟩]
  · rw [status_untouched]
    · obtain ⟨state, admitted, ht⟩ := isValid_iff.mp hv
      simp [restStatus, ht]
    · intro other met
      cases ruled : verdictAt (log.observe t) other (P.transitionId t) with
      | none => rfl
      | some =>
        have lower := ends.highest met
        rw [← again.length_eq, path.length_eq] at lower
        have era : epochOf (log.observe t) (P.transitionId t) = t.epoch := by
          rw [epochOf, transition_observe, if_pos rfl]
          rfl
        rcases verdictAt_mem ruled with hr | hs
        · have above := contender_epoch hr
          omega
        · have above := resolution_epoch hs
          omega
  · intro x v ruled
    exact status_of_tip ⟨chain, again⟩ ((rules x).trans ruled)

/-- A resolution of contradictory resolutions heals nothing: evaluation stays
    frozen where it was, every resolution it chooses among stays contested and
    it is itself void. -/
theorem contradiction_not_healed {slot : Option TransitionId} (tip : Tip log slot)
    (several : 2 ≤ (contenders log slot).length)
    (contradictory : 2 ≤ (resolutions log (contenders log slot)).length)
    {t : MembershipTransition} {chosen : TransitionId}
    (fresh : log.transition (P.transitionId t) = none)
    (valid : isValid (linkOf (log.observe t)) (P.transitionId t) = true)
    (among : chosen ∈ resolutions log (contenders log slot)) (prev : t.prev = some chosen)
    (names : t.resolves.toFinset =
      (resolutions log (contenders log slot)).toFinset.filter (· ≠ chosen)) :
    (analyse (log.observe t)).frozenAt = (analyse log).frozenAt ∧
      (analyse (log.observe t)).frozenAt ≠ none ∧
      (analyse (log.observe t)).status (P.transitionId t) = some .voided ∧
      (analyse (log.observe t)).status chosen = some .contested ∧
      ∀ other ∈ t.resolves, (analyse (log.observe t)).status other = some .contested := by
  have grow : Grows log (log.observe t) := .observe fresh
  obtain ⟨epoch, _, hr, stops, freezes⟩ := frozen_slot several (by omega)
  have last : Last log slot := ⟨tip, stops⟩
  have hf : (log.observe t).transition (P.transitionId t) = some t := by
    rw [transition_observe, if_pos rfl]
  have high : slotEpoch log slot + 2 < t.epoch := by
    obtain ⟨_, _, _, hc, _⟩ := mem_resolutions.mp among
    have above := valid_epoch valid
    rw [prevOf_of_transition hf, prev, epochOf_of_transition hf] at above
    have hb := resolution_epoch among
    rw [← grow.epochOf hc] at hb
    simp only [slotEpoch, Option.elim_some] at above hb ⊢
    omega
  obtain ⟨frozen, hv, hk⟩ := newcomer_above_freeze last fresh valid high
  have fought : ∀ r ∈ resolutions log (contenders log slot),
      (analyse (log.observe t)).status r = some .contested :=
    fun r hm => hk r .contested (by rw [hr, if_pos (.inr hm)])
  refine ⟨frozen, ?_, hv, fought chosen among, ?_⟩
  · rw [frozen, last.frozenAt, freezes]
    simp
  · intro other hn
    rw [← mem_toFinset, names] at hn
    exact fought other (by simpa using (Finset.mem_filter.mp hn).1)

section Contradiction

/-- Rotations 21 and 22 fork from genesis 10; 31 and 32 each resolve for one. -/
def contradictoryLog : MembershipLog samplePrimitives :=
  resolvedLog.observe (rotation 3 (sampleId 22) [sampleId 21] 32 (.refl true))

/-- A resolution that chooses 31 over 32. -/
def furtherResolution : MembershipTransition := rotation 4 (sampleId 31) [sampleId 32] 41 (.refl true)

lemma contradictoryLog_tip : Tip contradictoryLog (some (sampleId 10)) :=
  ⟨_, .next .root (show advance contradictoryLog none = some ([sampleId 10], sampleId 10) by
    decide +kernel)⟩

theorem contradiction_not_healed_sample :
    (analyse (contradictoryLog.observe furtherResolution)).frozenAt =
        (analyse contradictoryLog).frozenAt ∧
      (analyse (contradictoryLog.observe furtherResolution)).frozenAt ≠ none ∧
      (analyse (contradictoryLog.observe furtherResolution)).status
        (samplePrimitives.transitionId furtherResolution) = some .voided ∧
      (analyse (contradictoryLog.observe furtherResolution)).status (sampleId 31) =
        some .contested ∧
      ∀ other ∈ furtherResolution.resolves,
        (analyse (contradictoryLog.observe furtherResolution)).status other = some .contested :=
  contradiction_not_healed contradictoryLog_tip (by decide +kernel) (by decide +kernel)
    (by decide +kernel) (by decide +kernel) (by decide +kernel) rfl (by decide +kernel)

/-- The further resolution is valid and names exactly the other resolution, yet
    evaluation stays frozen at epoch three. -/
theorem further_resolution_void :
    resolutions contradictoryLog (contenders contradictoryLog (some (sampleId 10))) =
        [sampleId 31, sampleId 32] ∧
      isValid (linkOf (contradictoryLog.observe furtherResolution)) (sampleId 41) = true ∧
      (analyse (contradictoryLog.observe furtherResolution)).frozenAt = some 3 ∧
      (analyse (contradictoryLog.observe furtherResolution)).status (sampleId 41) =
        some .voided ∧
      (analyse (contradictoryLog.observe furtherResolution)).status (sampleId 31) =
        some .contested ∧
      (analyse (contradictoryLog.observe furtherResolution)).status (sampleId 32) =
        some .contested := by
  simp only [frozenAt_search, status_search]
  decide +kernel

end Contradiction

end Wyrd.Membership
