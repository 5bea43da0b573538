import Wyrd.Membership.Verdict

/-! # Observing more

Which verdicts survive when the observed set grows. A link verdict other than
pending is final. The walk's verdicts are not: they also read how many valid
transitions compete for a slot, so they survive exactly as long as no slot on
the way gains a contender or a further exact resolution.
-/

namespace Wyrd.Membership

open List

variable {P : Primitives}

/-- Everything the first log observed, the second did too, for the same drive. -/
structure Grows (small large : MembershipLog P) : Prop where
  drive : large.drive = small.drive
  keeps : small.transitions.Extends large.transitions

variable {small large : MembershipLog P}

namespace Grows

variable {id : TransitionId} {t : MembershipTransition}

lemma transition (grow : Grows small large) (hf : small.transition id = some t) :
    large.transition id = some t :=
  grow.keeps id t hf

lemma refl (log : MembershipLog P) : Grows log log := ⟨rfl, fun _ _ hf => hf⟩

lemma trans (first : Grows small middle) (next : Grows middle large) : Grows small large :=
  ⟨next.drive.trans first.drive, fun id t hf => next.keeps id t (first.keeps id t hf)⟩

lemma observe {log : MembershipLog P} (new : log.transition (P.transitionId t) = none) :
    Grows log (log.observe t) := by
  refine ⟨rfl, Observed.extends_observe fun other hf => ?_⟩
  rw [MembershipLog.transition] at new
  simp [new] at hf

section

variable (grow : Grows small large)
include grow

lemma resolvesVerdict (entries : List TransitionId)
    (stable : ∀ entry ∈ entries, ∀ below verdict, small.transition entry = some below →
      below.epoch + 1 = epoch → linkOf small entry = some verdict → verdict ≠ .pending →
      linkOf large entry = some verdict)
    (decided : resolvesVerdict small epoch (linkOf small) entries ≠ some .pending) :
    Membership.resolvesVerdict large epoch (linkOf large) entries =
      Membership.resolvesVerdict small epoch (linkOf small) entries := by
  induction entries with
  | nil => rfl
  | cons entry rest ih =>
    simp only [Membership.resolvesVerdict] at decided ⊢
    cases hf : small.transition entry with
    | none => simp [hf] at decided
    | some entryT =>
      simp only [hf, grow.transition hf] at decided ⊢
      by_cases below : checkedAdd entryT.epoch 1 = some epoch
      · simp only [below, ne_eq, not_true_eq_false, if_false] at decided ⊢
        have hh := stable entry mem_cons_self entryT
        cases tie : linkOf small entry with
        | none => simp [tie] at decided
        | some verdict =>
          have hk := hh verdict hf (checkedAdd_eq_some.mp below).1 tie
          cases verdict with
          | pending => simp [tie] at decided
          | valid =>
            rw [hk (by simp)]
            exact ih (fun other hm => stable other (mem_cons_of_mem _ hm))
              (by simpa [tie] using decided)
          | invalid => rw [hk (by simp)]
          | orphaned => rw [hk (by simp)]
      · simp only [ne_eq, below, not_false_eq_true, if_true]

lemma validateSuccessor (prevState : MembershipState) (prevAdmitted : Finset DeviceId)
    (stable : ∀ entry ∈ t.resolves, ∀ below verdict, small.transition entry = some below →
      below.epoch + 1 = t.epoch → linkOf small entry = some verdict → verdict ≠ .pending →
      linkOf large entry = some verdict)
    (decided : validateSuccessor small t (linkOf small) prevState prevAdmitted ≠ .pending) :
    Membership.validateSuccessor large t (linkOf large) prevState prevAdmitted =
      Membership.validateSuccessor small t (linkOf small) prevState prevAdmitted := by
  simp only [Membership.validateSuccessor] at decided ⊢
  cases hr : checkAuthority prevState t with
  | error => rfl
  | ok =>
    cases hd : deriveNext P prevState t with
    | error => rfl
    | ok =>
      simp only [hr, hd] at decided ⊢
      split_ifs at decided ⊢ with retired duplicate
      · rfl
      · rfl
      · rw [grow.resolvesVerdict t.resolves stable]
        intro hw
        simp [hw] at decided

lemma validateLink
    (stable : ∀ dep ∈ dependencies t, ∀ below verdict, small.transition dep = some below →
      below.epoch + 1 = t.epoch → linkOf small dep = some verdict → verdict ≠ .pending →
      linkOf large dep = some verdict) (decided : validateLink small t (linkOf small) ≠ .pending) :
    Membership.validateLink large t (linkOf large) =
      Membership.validateLink small t (linkOf small) := by
  simp only [Membership.validateLink, grow.drive] at decided ⊢
  cases hi : checkIntrinsic P t with
  | error => rfl
  | ok =>
    simp only [hi] at decided ⊢
    split_ifs at decided ⊢ with bad
    · rfl
    · cases prev : t.prev with
      | none => rfl
      | some prevId =>
        simp only [prev] at decided ⊢
        cases hf : small.transition prevId with
        | none => simp [hf] at decided
        | some prevT =>
          simp only [hf, grow.transition hf] at decided ⊢
          split_ifs at decided ⊢ with ha
          · rfl
          · have below := (checkedAdd_eq_some.mp (not_not.mp ha)).1
            have hh := stable prevId (by simp [dependencies, prev]) prevT
            cases tie : linkOf small prevId with
            | none => simp [tie] at decided
            | some verdict =>
              have hk := hh verdict hf below tie
              cases verdict with
              | pending => simp [tie] at decided
              | invalid => rw [hk (by simp)]
              | orphaned => rw [hk (by simp)]
              | valid state admitted =>
                rw [hk (by simp)]
                exact grow.validateSuccessor state admitted
                  (fun entry hm => stable entry (mem_append_right _ hm))
                  (by simpa [tie] using decided)

lemma link (hf : linkOf small id = some verdict) (decided : verdict ≠ .pending) :
    linkOf large id = some verdict := by
  obtain ⟨t, seen, -⟩ := transition_of_linkOf hf
  induction he : t.epoch using Nat.strong_induction_on generalizing id t verdict with
  | _ e ih =>
    rw [linkOf_of_transition seen, Option.some.injEq] at hf
    rw [linkOf_of_transition (grow.transition seen), ← hf, grow.validateLink _ (hf ▸ decided)]
    intro dep _ below verdict' depObserved hu depLink hd
    exact ih below.epoch (by omega) depLink hd below depObserved rfl

lemma isValid (hv : isValid (linkOf small) id = true) :
    Membership.isValid (linkOf large) id = true := by
  obtain ⟨state, admitted, hf⟩ := isValid_iff.mp hv
  exact isValid_iff.mpr ⟨state, admitted, grow.link hf (by simp)⟩

lemma prevOf (hv : Membership.isValid (linkOf small) id = true) :
    prevOf large id = prevOf small id := by
  obtain ⟨t, hf⟩ := isValid_observed hv
  rw [prevOf_of_transition hf, prevOf_of_transition (grow.transition hf)]

lemma resolvesOf (hv : Membership.isValid (linkOf small) id = true) :
    resolvesOf large id = resolvesOf small id := by
  obtain ⟨t, hf⟩ := isValid_observed hv
  rw [resolvesOf_of_transition hf, resolvesOf_of_transition (grow.transition hf)]

lemma epochOf (hv : Membership.isValid (linkOf small) id = true) :
    epochOf large id = epochOf small id := by
  obtain ⟨t, hf⟩ := isValid_observed hv
  rw [epochOf_of_transition hf, epochOf_of_transition (grow.transition hf)]

lemma mem_contenders (hm : id ∈ contenders small slot) : id ∈ contenders large slot := by
  obtain ⟨hv, hn⟩ := Membership.mem_contenders.mp hm
  exact Membership.mem_contenders.mpr ⟨grow.isValid hv, (grow.prevOf hv).trans hn⟩

lemma mem_resolutions (hm : r ∈ resolutions small among) : r ∈ resolutions large among := by
  obtain ⟨contender, hr, hp, hv, some, hn⟩ := Membership.mem_resolutions.mp hm
  refine Membership.mem_resolutions.mpr ⟨contender, hr, ?_, grow.isValid hv, ?_, ?_⟩
  · rw [grow.prevOf hv, hp]
  · rw [grow.resolvesOf hv]
    exact some
  · rw [grow.resolvesOf hv, hn]

end

end Grows

section Pending

variable {log : MembershipLog P}

lemma resolvesVerdict_of_valid (epoch : Nat) (entries : List TransitionId)
    (hv : ∀ entry ∈ entries, isValid (linkOf log) entry = true) :
    resolvesVerdict log epoch (linkOf log) entries ≠ some .pending := by
  induction entries with
  | nil => simp [resolvesVerdict]
  | cons entry rest ih =>
    have hh := hv entry mem_cons_self
    obtain ⟨t, hf⟩ := isValid_observed hh
    obtain ⟨state, admitted, ht⟩ := isValid_iff.mp hh
    simp only [resolvesVerdict, hf, ht]
    split_ifs
    · simp
    · exact ih (fun other hm => hv other (mem_cons_of_mem _ hm))

lemma decided_of_valid (hv : ∀ dep ∈ dependencies t, isValid (linkOf log) dep = true) :
    validateLink log t (linkOf log) ≠ .pending := by
  simp only [validateLink]
  cases checkIntrinsic P t with
  | error => simp
  | ok =>
    dsimp only
    split_ifs with bad
    · simp
    · cases hp : t.prev with
      | none =>
        simp only [validateGenesis]
        split
        · simp
        · split <;> simp
      | some prevId =>
        have hh := hv prevId (by simp [dependencies, hp])
        obtain ⟨prevT, hf⟩ := isValid_observed hh
        obtain ⟨state, admitted, ht⟩ := isValid_iff.mp hh
        have onSolved := resolvesVerdict_of_valid t.epoch t.resolves
          (fun entry hm => hv entry (mem_append_right _ hm))
        simp only [hf, ht]
        split_ifs with ha
        · simp
        · simp only [validateSuccessor]
          split
          · simp
          · split
            · simp
            · split_ifs
              · simp
              · simp
              · cases shape : resolvesVerdict log t.epoch (linkOf log) t.resolves with
                | none => simp
                | some =>
                  intro hw
                  exact onSolved (shape.trans (congrArg some hw))

lemma valid_dependencies {id t} (hf : log.transition id = some t)
    (hv : isValid (linkOf log) id = true) :
    ∀ dep ∈ dependencies t, isValid (linkOf log) dep = true ∧
      epochOf log dep + 1 = epochOf log id := by
  intro dep hm
  rcases mem_append.mp hm with hi | hn
  · have prev : prevOf log id = some dep :=
      (prevOf_of_transition hf).trans (by simpa using hi)
    have era := valid_epoch hv
    rw [prev] at era
    exact ⟨valid_prev hv prev, era.symm⟩
  · exact valid_resolves hv (resolvesOf_of_transition hf ▸ hn)

end Pending

/-- A transition valid in the larger log is valid in the smaller one as soon as
    it is observed there and its dependencies are valid there. -/
lemma Grows.valid_back (grow : Grows small large) {id t} (hf : small.transition id = some t)
    (known : ∀ dep ∈ dependencies t, Membership.isValid (linkOf small) dep = true)
    (hv : Membership.isValid (linkOf large) id = true) :
    Membership.isValid (linkOf small) id = true := by
  have tie := linkOf_of_transition hf
  have hk := grow.link tie (decided_of_valid known)
  obtain ⟨state, admitted, hr⟩ := isValid_iff.mp hv
  exact isValid_iff.mpr ⟨state, admitted, tie.trans (hk.symm.trans hr)⟩

end Wyrd.Membership
