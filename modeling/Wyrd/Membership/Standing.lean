import Wyrd.Membership.Resolution

/-! # Standing of transitions off the chain

A stray is a transition with a non-empty `resolves` that is the only contender
of a slot: link-valid, but judged invalid by the walk. Strays are the only
transitions whose link and final status disagree. Both surprises below come from
them: a terminal verdict that heals when a sibling arrives, and a derived state
whose predecessor has none.
-/

namespace Wyrd.Membership

open List Option

variable {P : Primitives} {log small large : MembershipLog P}

/-- The only contender of a visited slot, naming a conflict that is not there. -/
structure Stray (log : MembershipLog P) (slot : Option TransitionId) (id : TransitionId) :
    Prop where
  tip : Tip log slot
  only : contenders log slot = [id]
  resolving : resolvesOf log id ≠ []

namespace Stray

variable {slot : Option TransitionId} {id : TransitionId}

lemma contends (stray : Stray log slot id) : id ∈ contenders log slot := by simp [stray.only]

lemma valid (stray : Stray log slot id) : isValid (linkOf log) id = true :=
  (mem_contenders.mp stray.contends).1

lemma prevOf (stray : Stray log slot id) : prevOf log id = slot :=
  (mem_contenders.mp stray.contends).2

lemma status (stray : Stray log slot id) :
    (analyse log).status id = some (.invalid .resolvesWithoutConflict) :=
  status_of_tip stray.tip (by simp [verdictAt, stray.only, stray.resolving])

end Stray

variable {slot : Option TransitionId}

/-- What a slot touches gets a settled status, unless it is a stray. -/
lemma verdictAt_settled (tip : Tip log slot) (touch : verdictAt log slot x = some v) :
    settled v = true ∨ Stray log slot x := by
  rcases slot_cases log slot with he | ⟨child, only, hp⟩ | ⟨child, only, stray⟩ |
    ⟨winner, r, many, exact, prev, _⟩ | ⟨many, exact⟩
  · simp [verdictAt, he] at touch
  · by_cases hs : x = child
    · simp only [verdictAt, only, hs, hp, if_true, Option.some.injEq] at touch
      exact .inl (touch ▸ rfl)
    · simp [verdictAt, only, hs] at touch
  · by_cases hs : x = child
    · subst hs
      exact .inr ⟨tip, only, stray⟩
    · simp [verdictAt, only, hs] at touch
  · rw [(resolved_slot many exact prev).2.1] at touch
    split_ifs at touch <;> exact .inl (Option.some.inj touch ▸ rfl)
  · obtain ⟨_, _, hr, _⟩ := frozen_slot many exact
    rw [hr] at touch
    split_ifs at touch
    exact .inl (Option.some.inj touch ▸ rfl)

variable {id : TransitionId}

lemma valid_settled (hv : isValid (linkOf log) id = true) :
    ((analyse log).status id).any settled = true ∨ ∃ slot, Stray log slot id := by
  by_cases touched : ∃ slot, Tip log slot ∧ verdictAt log slot id ≠ none
  · obtain ⟨slot, tip, there⟩ := touched
    obtain ⟨v, touch⟩ := ne_none_iff_exists'.mp there
    rcases verdictAt_settled tip touch with hs | stray
    · exact .inl (by simp [status_of_tip tip touch, hs])
    · exact .inr ⟨slot, stray⟩
  · obtain ⟨state, admitted, ht⟩ := isValid_iff.mp hv
    left
    rw [status_untouched]
    · simp [restStatus, ht, settled]
    · intro slot tip
      by_contra there
      exact touched ⟨slot, tip, there⟩

lemma states_isSome :
    (analyse log).states id ≠ none ↔
      isValid (linkOf log) id = true ∧ ∀ slot, ¬ Stray log slot id := by
  rw [states_eq]
  constructor
  · intro there
    split_ifs at there with isSettled
    · refine ⟨?_, fun slot stray => ?_⟩
      · rw [← linkState_isSome]
        exact isSome_iff_ne_none.mpr there
      · simp [stray.status, settled] at isSettled
    · exact absurd rfl there
  · rintro ⟨hv, hp⟩
    rcases valid_settled hv with isSettled | ⟨slot, stray⟩
    · rw [if_pos isSettled]
      rw [← linkState_isSome] at hv
      exact isSome_iff_ne_none.mp hv
    · exact absurd stray (hp slot)

/-- No slot touches a transition that is not valid. -/
lemma status_of_not_valid (denied : isValid (linkOf log) id = false) :
    (analyse log).status id = restStatus log id := by
  apply status_untouched
  intro slot _
  cases hr : verdictAt log slot id with
  | none => rfl
  | some => simp [(verdictAt_epoch hr).1] at denied

lemma authoritative_terminal :
    log.authoritative id = some .terminal ↔ log.transition id ≠ none ∧
      (analyse log).states id = none ∧ (analyse log).status id ≠ some .pending := by
  rw [MembershipLog.authoritative]
  cases log.transition id with
  | none => simp
  | some =>
    cases (analyse log).states id with
    | some => simp
    | none =>
      by_cases waits : (analyse log).status id = some .pending
      · simp [waits]
      · simp only [ne_eq, reduceCtorEq, not_false_eq_true, waits, and_self]

lemma states_of_not_valid (denied : isValid (linkOf log) id = false) :
    (analyse log).states id = none := by
  by_contra ht
  rw [(states_isSome.mp ht).1] at denied
  cases denied

/-- A transition is terminal when its link is refused for good, or as a stray. -/
lemma terminal_iff :
    log.authoritative id = some .terminal ↔
      (isValid (linkOf log) id = false ∧ ∃ verdict, linkOf log id = some verdict ∧
        verdict ≠ .pending) ∨ ∃ slot, Stray log slot id := by
  rw [authoritative_terminal]
  by_cases valid : isValid (linkOf log) id = true
  · obtain ⟨t, found⟩ := isValid_observed valid
    simp only [valid, Bool.true_eq_false, false_and, false_or]
    constructor
    · rintro ⟨_, absent, _⟩
      by_contra plain
      exact states_isSome.mpr ⟨valid, fun slot stray => plain ⟨slot, stray⟩⟩ absent
    · rintro ⟨slot, stray⟩
      refine ⟨by simp [found], ?_, by simp [stray.status]⟩
      by_contra present
      exact (states_isSome.mp present).2 slot stray
  · have refused : isValid (linkOf log) id = false := by simpa using valid
    have notStray : ¬ ∃ slot, Stray log slot id := fun ⟨slot, stray⟩ => valid stray.valid
    rw [states_of_not_valid refused, status_of_not_valid refused]
    simp only [refused, notStray, true_and, or_false]
    cases link : linkOf log id with
    | none =>
      rw [linkOf_eq, map_eq_none_iff] at link
      simp [link]
    | some verdict =>
      obtain ⟨t, found, _⟩ := transition_of_linkOf link
      cases verdict with
      | valid => simp [isValid, link] at refused
      | pending => simp [found, restStatus, link]
      | invalid => simp [found, restStatus, link]
      | orphaned => simp [found, restStatus, link]

theorem terminal_stays_iff (grows : Grows small large) {id : TransitionId}
    (terminal : small.authoritative id = some .terminal) :
    large.authoritative id = some .terminal ↔
      (isValid (linkOf small) id = true →
        QuietBefore small large (prevOf small id) ∧
          contenders large (prevOf small id) = [id]) := by
  rcases terminal_iff.mp terminal with ⟨denied, verdict, tie, decided⟩ | ⟨slot, stray⟩
  · have hk := grows.link tie decided
    have denied' : isValid (linkOf large) id = false := by
      rw [isValid, tie] at denied
      rw [isValid, hk]
      exact denied
    simp only [denied, Bool.false_eq_true, false_implies, iff_true]
    exact terminal_iff.mpr (.inl ⟨denied', verdict, hk, decided⟩)
  · rw [stray.prevOf]
    simp only [stray.valid, forall_const]
    constructor
    · intro still
      rcases terminal_iff.mp still with ⟨denied, _⟩ | ⟨slot', stray'⟩
      · rw [grows.isValid stray.valid] at denied
        cases denied
      · have hs : slot' = slot := by
          rw [← stray'.prevOf, grows.prevOf stray.valid, stray.prevOf]
        subst hs
        obtain ⟨chain, path⟩ := stray'.tip
        exact ⟨(path.back grows (tip_valid stray.tip)).2, stray'.only⟩
    · rintro ⟨hq, only⟩
      obtain ⟨chain, path⟩ := stray.tip
      refine terminal_iff.mpr (.inr ⟨slot, ⟨chain, hq.reaches grows path⟩, only, ?_⟩)
      rw [grows.resolvesOf stray.valid]
      exact stray.resolving

lemma authoritative_valid :
    (∃ t state, log.authoritative id = some (.valid t state)) ↔
      (analyse log).states id ≠ none := by
  rw [MembershipLog.authoritative]
  cases hf : log.transition id with
  | none =>
    have denied : isValid (linkOf log) id = false := by
      simp [isValid, linkOf_eq, hf]
    simp [states_of_not_valid denied]
  | some =>
    cases hs : (analyse log).states id with
    | some => simp
    | none =>
      by_cases waits : (analyse log).status id = some .pending
      · simp [waits]
      · simp only [ne_eq, not_true_eq_false, iff_false, not_exists]
        exact fun t' state => by simp

section Sample

/-- Rotation 21 succeeds genesis 10 and claims to resolve against it. -/
def strayLog : MembershipLog samplePrimitives :=
  sampleLog [sampleGenesis, rotation 2 (sampleId 10) [sampleId 10] 21 (.refl true)]

/-- An ordinary rotation 22 beside the stray. -/
def straySiblingLog : MembershipLog samplePrimitives :=
  strayLog.observe (rotation 2 (sampleId 10) [] 22 (.refl true))

lemma strayLog_stray : Stray strayLog (some (sampleId 10)) (sampleId 21) where
  tip := ⟨_, .next .root (show advance strayLog none = some ([sampleId 10], sampleId 10) by
    decide +kernel)⟩
  only := by decide +kernel
  resolving := by decide +kernel

lemma strayLog_terminal : strayLog.authoritative (sampleId 21) = some .terminal :=
  terminal_iff.mpr (.inr ⟨_, strayLog_stray⟩)

lemma straySiblingLog_grows : Grows strayLog straySiblingLog := .observe (by decide +kernel)

theorem terminal_stays_iff_straySibling :
    straySiblingLog.authoritative (sampleId 21) = some .terminal ↔
      (isValid (linkOf strayLog) (sampleId 21) = true →
        QuietBefore strayLog straySiblingLog (prevOf strayLog (sampleId 21)) ∧
          contenders straySiblingLog (prevOf strayLog (sampleId 21)) = [sampleId 21]) :=
  terminal_stays_iff straySiblingLog_grows strayLog_terminal

/-- A terminal transition acquires a derived state when a sibling arrives. -/
theorem terminal_heals :
    Grows strayLog straySiblingLog ∧ strayLog.authoritative (sampleId 21) = some .terminal ∧
      ∃ t state, straySiblingLog.authoritative (sampleId 21) = some (.valid t state) := by
  refine ⟨straySiblingLog_grows, strayLog_terminal, ?_⟩
  rw [authoritative_valid, ← isSome_iff_ne_none, states_eq, status_search]
  decide +kernel

end Sample

/-- One transition is a proper ancestor of another along `prev`. -/
def Ancestor (log : MembershipLog P) : TransitionId → TransitionId → Prop :=
  Relation.TransGen (fun parent child => prevOf log child = some parent)

/-- Whoever has a derived state stands on predecessors that have one. -/
def Rooted (log : MembershipLog P) : Prop :=
  ∀ id, (analyse log).states id ≠ none →
    (∀ prev, prevOf log id = some prev →
      log.transition prev ≠ none ∧ (analyse log).states prev ≠ none ∧
        epochOf log prev + 1 = epochOf log id) ∧
    ∀ ancestor, Ancestor log ancestor id → ((analyse log).status ancestor).any settled = true

/-- No descendant of an invalid transition is voided, contested or canonical. -/
def InvalidBarren (log : MembershipLog P) : Prop :=
  ∀ ancestor id reason, Ancestor log ancestor id →
    (analyse log).status ancestor = some (.invalid reason) →
    ((analyse log).status id).any settled = false

/-- No valid transition succeeds a stray. -/
def StraysBarren (log : MembershipLog P) : Prop :=
  ∀ slot stray child, Stray log slot stray → isValid (linkOf log) child = true →
    prevOf log child ≠ some stray

/-- A successor of a stray is not itself a stray: the walk never gets there. -/
lemma Stray.child_plain (stray : Stray log slot id)
    (hn : Membership.prevOf log child = some id) : ¬ Stray log slot' child := by
  intro again
  have next : slot' = some id := again.prevOf.symm.trans hn
  subst next
  obtain ⟨chain, path⟩ := again.tip
  obtain ⟨_, hl⟩ := path.spine
  obtain ⟨earlier, tip, hc⟩ := path.selected (mem_of_getLast? hl)
  have chosen := status_of_tip tip hc
  rw [stray.status] at chosen
  cases chosen

lemma StraysBarren.ancestor_valid (barren : StraysBarren log) (above : Ancestor log ancestor id)
    (hv : isValid (linkOf log) id = true) :
    isValid (linkOf log) ancestor = true ∧ ∀ slot, ¬ Stray log slot ancestor := by
  induction above using Relation.TransGen.head_induction_on with
  | single hn =>
    exact ⟨valid_prev hv hn, fun slot stray => barren slot _ _ stray hv hn⟩
  | head hn _ ih =>
    exact ⟨valid_prev ih.1 hn, fun slot stray => barren slot _ _ stray ih.1 hn⟩

lemma settled_of_states (there : (analyse log).states id ≠ none) :
    ((analyse log).status id).any settled = true := by
  rw [states_eq] at there
  split_ifs at there with hs
  · exact hs
  · exact absurd rfl there

lemma valid_of_settled (isSettled : ((analyse log).status id).any settled = true) :
    isValid (linkOf log) id = true := by
  by_contra denied
  rw [status_of_not_valid (by simpa using denied)] at isSettled
  cases tie : linkOf log id with
  | none => simp [restStatus, tie] at isSettled
  | some verdict =>
    cases verdict with
    | valid => simp [isValid, tie] at denied
    | pending => simp [restStatus, tie, settled] at isSettled
    | invalid => simp [restStatus, tie, settled] at isSettled
    | orphaned => simp [restStatus, tie, settled] at isSettled

theorem rooted_iff (log : MembershipLog P) :
    (Rooted log ↔ StraysBarren log) ∧ (InvalidBarren log ↔ StraysBarren log) := by
  refine ⟨⟨?_, ?_⟩, ⟨?_, ?_⟩⟩
  · intro hr slot stray child isStray hv hn
    have there := states_isSome.mpr ⟨hv, fun slot' => isStray.child_plain hn⟩
    obtain ⟨_, hb, _⟩ := (hr child there).1 stray hn
    exact (states_isSome.mp hb).2 slot isStray
  · intro barren id there
    obtain ⟨hv, _⟩ := states_isSome.mp there
    refine ⟨fun prev hn => ?_, fun ancestor above => ?_⟩
    · obtain ⟨prevValid, hp⟩ := barren.ancestor_valid (.single hn) hv
      obtain ⟨t, hf⟩ := isValid_observed prevValid
      have era := valid_epoch hv
      rw [hn] at era
      exact ⟨by simp [hf], states_isSome.mpr ⟨prevValid, hp⟩, era.symm⟩
    · exact settled_of_states (states_isSome.mpr (barren.ancestor_valid above hv))
  · intro barren slot stray child isStray hv hn
    have there := states_isSome.mpr ⟨hv, fun slot' => isStray.child_plain hn⟩
    have denied := barren stray child _ (.single hn) isStray.status
    rw [settled_of_states there] at denied
    cases denied
  · intro barren ancestor id reason above hi
    by_contra hs
    have hv := valid_of_settled (by simpa using hs)
    have settles := settled_of_states (states_isSome.mpr (barren.ancestor_valid above hv))
    simp [hi, settled] at settles

/-- Rotation 31 succeeds the stray. -/
def strayChildLog : MembershipLog samplePrimitives :=
  strayLog.observe (rotation 3 (sampleId 21) [] 31 (.refl true))

/-- The child of an invalid transition is voided, with a derived state, while
    its predecessor has none. -/
theorem stray_child_voided :
    prevOf strayChildLog (sampleId 31) = some (sampleId 21) ∧
      (analyse strayChildLog).status (sampleId 21) =
        some (.invalid .resolvesWithoutConflict) ∧
      (analyse strayChildLog).states (sampleId 21) = none ∧
      (analyse strayChildLog).status (sampleId 31) = some .voided ∧
      (analyse strayChildLog).states (sampleId 31) ≠ none ∧
      ¬ Rooted strayChildLog ∧ ¬ InvalidBarren strayChildLog := by
  have hn : prevOf strayChildLog (sampleId 31) = some (sampleId 21) := by decide +kernel
  have invalid : (analyse strayChildLog).status (sampleId 21) =
      some (.invalid .resolvesWithoutConflict) := by
    rw [status_search]
    decide +kernel
  have stateless : (analyse strayChildLog).states (sampleId 21) = none := by
    rw [states_eq, invalid]
    rfl
  have voided : (analyse strayChildLog).status (sampleId 31) = some .voided := by
    rw [status_search]
    decide +kernel
  have stateful : (analyse strayChildLog).states (sampleId 31) ≠ none := by
    rw [states_eq, voided, ← isSome_iff_ne_none]
    decide +kernel
  refine ⟨hn, invalid, stateless, voided, stateful, ?_, ?_⟩
  · intro hr
    exact ((hr _ stateful).1 _ hn).2.1 stateless
  · intro hb
    have denied := hb _ _ _ (.single hn) invalid
    simp [voided, settled] at denied

/-- The log with one transition unobserved. -/
def MembershipLog.without (log : MembershipLog P) (id : TransitionId) : MembershipLog P :=
  { log with transitions := log.transitions.erase id }

lemma Grows.without (log : MembershipLog P) (id : TransitionId) : Grows (log.without id) log :=
  ⟨rfl, Observed.erase_extends log.transitions id⟩

lemma transition_without (log : MembershipLog P) (gone id : TransitionId) :
    (log.without gone).transition id = if id = gone then none else log.transition id :=
  Observed.lookup_erase log.transitions gone id

/-- A transition does not matter: it is neither canonical nor contested, it
    freezes nothing and takes no canonical status away. -/
structure NoStanding (log : MembershipLog P) (x : TransitionId) : Prop where
  notCanonical : (analyse log).status x ≠ some .canonical
  notContested : (analyse log).status x ≠ some .contested
  unfrozen : (analyse (log.without x)).frozenAt = none → (analyse log).frozenAt = none
  keeps : ∀ id, (analyse (log.without x)).status id = some .canonical →
    (analyse log).status id = some .canonical

/-- Two walks that select the same wherever both arrive are one walk. -/
lemma reaches_of_agree
    (agree : ∀ slot, Tip small slot → Tip large slot → advance large slot = advance small slot) :
    Reaches small slot chain ↔ Reaches large slot chain := by
  constructor
  · intro path
    induction path with
    | root => exact .root
    | @next slot chain picked tip prior moves ih =>
      exact ih.next ((agree slot ⟨chain, prior⟩ ⟨chain, ih⟩).trans moves)
  · intro path
    induction path with
    | root => exact .root
    | @next slot chain picked tip prior moves ih =>
      exact ih.next ((agree slot ⟨chain, ih⟩ ⟨chain, prior⟩).symm.trans moves)

section Influence

variable {x : TransitionId}

/-- A transition other than `x` whose dependencies are valid without `x` is
    itself valid without it. -/
lemma valid_without (other : id ≠ x) (hv : isValid (linkOf log) id = true)
    (known : ∀ dep, prevOf log id = some dep ∨ dep ∈ resolvesOf log id →
      isValid (linkOf (log.without x)) dep = true) :
    isValid (linkOf (log.without x)) id = true := by
  obtain ⟨t, hf⟩ := isValid_observed hv
  have prior : (log.without x).transition id = some t := by
    rw [transition_without, if_neg other, hf]
  refine (Grows.without log x).valid_back prior (fun dep hm => known dep ?_) hv
  rw [prevOf_of_transition hf, resolvesOf_of_transition hf]
  simpa [dependencies] using hm

/-- `x` names a conflict other than the one its predecessor is in. -/
def NamesNoConflict (log : MembershipLog P) (x : TransitionId) : Prop :=
  resolvesOf log x ≠ [] ∧ ∀ prev, prevOf log x = some prev →
    (resolvesOf log x).toFinset ≠ (contenders log (prevOf log prev)).toFinset.filter (· ≠ prev)

lemma NamesNoConflict.not_resolution (stray : NamesNoConflict log x)
    (slot : Option TransitionId) : x ∉ resolutions log (contenders log slot) := by
  intro exact
  obtain ⟨winner, hr, prev, _, _, hn⟩ := mem_resolutions.mp exact
  apply stray.2 winner prev
  rw [(mem_contenders.mp hr).2, hn]

/-- A fork of contenders that are all valid without `x` is the same fork
    without it. -/
lemma quiet_fork (stray : NamesNoConflict log x)
    (known : ∀ c ∈ contenders log slot, isValid (linkOf (log.without x)) c = true) :
    Quiet (log.without x) log slot := by
  refine quiet_of_known (Grows.without log x) known fun r exact => ?_
  have other : r ≠ x := by
    rintro rfl
    exact stray.not_resolution slot exact
  obtain ⟨winner, hr, hp, hv, _, names⟩ := mem_resolutions.mp exact
  apply valid_without other hv
  rintro dep (hi | hn)
  · cases hp.symm.trans hi
    exact known winner hr
  · rw [← List.mem_toFinset, names] at hn
    exact known dep (by simpa using (Finset.mem_filter.mp hn).1)

lemma contenders_single (rival : c ∈ contenders log slot)
    (few : ¬ 2 ≤ (contenders log slot).length) : contenders log slot = [c] := by
  match contenders log slot, rival, few with
  | [first], rival, _ => rw [mem_singleton.mp rival]
  | first :: second :: rest, _, few => exact absurd (by simp) few

/-- Where a fork counts only what is valid without `x`, leaving `x` out changes
    no selection: at most a stray at the end goes. -/
lemma advance_without (stray : NamesNoConflict log x) (tip : Tip (log.without x) slot)
    (unforked : 2 ≤ (contenders log slot).length →
      ∀ c ∈ contenders log slot, isValid (linkOf (log.without x)) c = true) :
    advance log slot = advance (log.without x) slot ∧
      frozenBy log slot = frozenBy (log.without x) slot := by
  have grow := Grows.without log x
  by_cases known : ∀ c ∈ contenders log slot, isValid (linkOf (log.without x)) c = true
  · have hq := quiet_fork stray known
    obtain ⟨moves, -, hf⟩ := hq.alike grow
    exact ⟨moves, hf⟩
  · obtain ⟨c, rival, denied⟩ : ∃ c ∈ contenders log slot,
        ¬ isValid (linkOf (log.without x)) c = true := by simpa using known
    have only := contenders_single rival fun many => denied (unforked many c rival)
    have none : contenders (log.without x) slot = [] := by
      rw [eq_nil_iff_forall_not_mem]
      intro other hm
      have isOnly := grow.mem_contenders hm
      rw [only, mem_singleton] at isOnly
      exact denied (isOnly ▸ (mem_contenders.mp hm).1)
    have solving : resolvesOf log c ≠ [] := by
      intro plain
      have other : c ≠ x := fun hs => stray.1 (hs ▸ plain)
      obtain ⟨hv, hn⟩ := mem_contenders.mp rival
      apply denied
      apply valid_without other hv
      rintro dep (isPrev | hi)
      · exact tip_valid tip dep (hn.symm.trans isPrev)
      · simp [plain] at hi
    simp [advance, frozenBy, only, none, solving]

lemma not_valid_without (log : MembershipLog P) (x : TransitionId) :
    ¬ isValid (linkOf (log.without x)) x = true := by
  intro hv
  obtain ⟨t, hf⟩ := isValid_observed hv
  rw [transition_without, if_pos rfl] at hf
  cases hf

/-- Counted at no fork, a transition that names no conflict is at most judged
    invalid by the walk. -/
lemma status_of_unforked (stray : NamesNoConflict log x)
    (unforked : ∀ slot, Tip log slot → 2 ≤ (contenders log slot).length →
      x ∉ contenders log slot) :
    (analyse log).status x ≠ some .canonical ∧ (analyse log).status x ≠ some .contested := by
  have shape : ∀ v, (analyse log).status x = some v → v ≠ .canonical ∧ v ≠ .contested := by
    intro v status
    rcases status_cases status with ⟨slot, tip, touch⟩ | ⟨rest, _⟩
    · rcases verdictAt_mem touch with rival | exact
      · have only := contenders_single rival fun hm => unforked slot tip hm rival
        simp only [verdictAt, only, if_true, stray.1, if_false, Option.some.injEq] at touch
        simp [← touch]
      · exact absurd exact (stray.not_resolution slot)
    · cases tie : linkOf log x with
      | none => simp [restStatus, tie] at rest
      | some verdict =>
        cases verdict <;> simp only [restStatus, tie, Option.some.injEq] at rest <;> simp [← rest]
  exact ⟨fun status => (shape _ status).1 rfl, fun status => (shape _ status).2 rfl⟩

/-- A transition that names no conflict does not matter as long as every fork
    the walk visits counts only contenders that are valid without it; and once
    it is itself counted at a fork, only an exact resolution against it keeps
    it from mattering. -/
theorem noStanding_of_unforked (stray : NamesNoConflict log x) :
    ((∀ slot, Tip log slot → 2 ≤ (contenders log slot).length →
        ∀ c ∈ contenders log slot, isValid (linkOf (log.without x)) c = true) →
      NoStanding log x) ∧
    (∀ slot, Tip log slot → 2 ≤ (contenders log slot).length → x ∈ contenders log slot →
      NoStanding log x →
        ∃ r, resolutions log (contenders log slot) = [r] ∧ x ∈ resolvesOf log r) := by
  constructor
  · intro unforked
    have hs : ∀ slot chain, Reaches (log.without x) slot chain ↔ Reaches log slot chain :=
      fun slot chain => reaches_of_agree fun slot tip tip' =>
        (advance_without stray tip (unforked slot tip')).1
    obtain ⟨notCanonical, notContested⟩ := status_of_unforked stray fun slot tip many rival =>
      not_valid_without log x (unforked slot tip many x rival)
    refine ⟨notCanonical, notContested, ?_, ?_⟩
    · intro hu
      obtain ⟨last, path, stops, frozen⟩ := analyse_last log
      have tip : Tip (log.without x) last := ⟨_, (hs last _).mpr path⟩
      obtain ⟨moves, hf⟩ := advance_without stray tip (unforked last ⟨_, path⟩)
      rw [frozen, hf, ← Last.frozenAt ⟨tip, moves.symm.trans stops⟩, hu]
    · intro id hc
      obtain ⟨last, path, _⟩ := analyse_last (log.without x)
      apply mem_canonical.mp
      exact ((hs last _).mp path).canonical.subset (mem_canonical.mpr hc)
  · intro slot tip many rival stands
    by_cases single : (resolutions log (contenders log slot)).length = 1
    · obtain ⟨r, exact⟩ := length_eq_one_iff.mp single
      obtain ⟨winner, _, hp, _, _, hn⟩ :=
        mem_resolutions.mp (exact ▸ mem_singleton_self r)
      refine ⟨r, exact, ?_⟩
      have loses : x ≠ winner := by
        rintro rfl
        apply stands.notCanonical
        apply status_of_tip tip
        rw [(resolved_slot many exact hp).2.1, if_pos (.inr rfl)]
      rw [← List.mem_toFinset, hn]
      simp [rival, loses]
    · obtain ⟨_, _, hr, _⟩ := frozen_slot many single
      have fought := status_of_tip tip ((hr x).trans (if_pos (.inl rival)))
      exact absurd fought stands.notContested

end Influence

lemma strayLog_namesNoConflict : NamesNoConflict strayLog (sampleId 21) := by
  refine ⟨by decide +kernel, fun prev hn => ?_⟩
  have genesis : prevOf strayLog (sampleId 21) = some (sampleId 10) := by decide +kernel
  cases genesis.symm.trans hn
  decide +kernel

/-- Alone at its slot the stray does not matter. -/
theorem noStanding_strayLog : NoStanding strayLog (sampleId 21) := by
  apply (noStanding_of_unforked strayLog_namesNoConflict).1
  intro slot tip hm
  have single : ∀ slot ∈ slots strayLog, (contenders strayLog slot).length < 2 := by
    decide +kernel
  exact absurd hm (not_le.mpr (single slot (mem_slots.mpr tip)))

/-- Beside an ordinary rotation the stray is contested and freezes the drive,
    and the rotation is canonical without it. -/
theorem stray_freezes :
    NamesNoConflict straySiblingLog (sampleId 21) ∧
      (analyse straySiblingLog).status (sampleId 21) = some .contested ∧
      (analyse straySiblingLog).frozenAt = some 2 ∧
      (analyse (straySiblingLog.without (sampleId 21))).frozenAt = none ∧
      (analyse straySiblingLog).status (sampleId 22) = some .contested ∧
      (analyse (straySiblingLog.without (sampleId 21))).status (sampleId 22) =
        some .canonical := by
  refine ⟨⟨by decide +kernel, ?_⟩, ?_⟩
  · intro prev hn
    have genesis : prevOf straySiblingLog (sampleId 21) = some (sampleId 10) := by
      decide +kernel
    cases genesis.symm.trans hn
    decide +kernel
  · simp only [frozenAt_search, status_search]
    decide +kernel

end Wyrd.Membership
