import Wyrd.Membership.Links

/-! # The walk as a sequence of slots

Genesis selection and the walk proper make the same decision. At a slot, an
already selected transition or the empty place before genesis, the contenders
are the valid transitions naming that slot as `prev`, and what becomes of them
decides the next slot. `mark` is that decision's effect on the result, and the
whole walk is the fold of `mark` over the slots it visits.
-/

namespace Wyrd.Membership

open List Bool

variable {P : Primitives}

section Slots

variable (log : MembershipLog P)

def prevOf (id : TransitionId) : Option TransitionId := (log.transition id).bind (·.prev)

def resolvesOf (id : TransitionId) : List TransitionId := (log.transition id).elim [] (·.resolves)

/-- Valid transitions whose `prev` is the slot, ascending. At the empty slot
    these are the valid geneses. -/
def contenders (slot : Option TransitionId) : List TransitionId :=
  log.observedIds.filter (fun id =>
    isValid (linkOf log) id && decide (prevOf log id = slot))

/-- The valid children of contenders that name exactly the other contenders. -/
def resolutions (among : List TransitionId) : List TransitionId :=
  resolutionCandidates log (linkOf log) (buildChildrenIndex log) among

/-- The transitions a slot selects, and the slot they lead to. -/
def advance (slot : Option TransitionId) : Option (List TransitionId × TransitionId) :=
  match contenders log slot with
  | [] => none
  | [child] => if resolvesOf log child = [] then some ([child], child) else none
  | among =>
    match resolutions log among with
    | [r] => (prevOf log r).map (fun winner => ([winner, r], r))
    | _ => none

/-- The status a slot gives to a transition, if it touches it. -/
def verdictAt (slot : Option TransitionId) (id : TransitionId) : Option TransitionStatus :=
  match contenders log slot with
  | [] => none
  | [child] =>
    if id = child then
      some (if resolvesOf log child = [] then .canonical else .invalid .resolvesWithoutConflict)
    else none
  | among =>
    match resolutions log among with
    | [r] =>
      if id = r ∨ some id = prevOf log r then some .canonical
      else if id ∈ among then some .voided
      else none
    | candidates => if id ∈ among ∨ id ∈ candidates then some .contested else none

/-- The epoch at which a slot freezes evaluation, if it does. -/
def frozenBy (slot : Option TransitionId) : Option Nat :=
  match contenders log slot with
  | [] => none
  | [_] => none
  | first :: rest =>
    match resolutions log (first :: rest) with
    | [_] => none
    | [] => some (epochOf log first)
    | _ => some (saturatingAdd (epochOf log first) 1)

/-- The effect of one walk iteration on the result. -/
def mark (result : Analysis) (slot : Option TransitionId) : Analysis :=
  match contenders log slot with
  | [] => result
  | [child] =>
    if resolvesOf log child = [] then result.select (linkOf log) child
    else result.setStatus child (.invalid .resolvesWithoutConflict)
  | first :: rest =>
    (handleConflict log (linkOf log) (buildChildrenIndex log) result (first :: rest)
      (epochOf log first)).1

/-- The slots visited from one slot on. -/
def trail : Nat → Option TransitionId → List (Option TransitionId)
  | 0, _ => []
  | fuel + 1, slot => slot :: ((advance log slot).elim [] (fun next => trail fuel (some next.2)))

end Slots

variable {log : MembershipLog P}

lemma isValid_observed {id} (hv : isValid (linkOf log) id = true) :
    ∃ t, log.transition id = some t := by
  obtain ⟨state, admitted, ht⟩ := isValid_iff.mp hv
  obtain ⟨t, hf, _⟩ := transition_of_linkOf ht
  exact ⟨t, hf⟩

lemma mem_contenders {slot id} :
    id ∈ contenders log slot ↔ isValid (linkOf log) id = true ∧ prevOf log id = slot := by
  simp only [contenders, mem_filter, and_eq_true, decide_eq_true_eq, and_iff_right_iff_imp]
  exact fun hh => mem_observedIds.mpr (isValid_observed hh.1)

lemma contenders_ascending (log : MembershipLog P) (slot : Option TransitionId) :
    (contenders log slot).Pairwise (· < ·) :=
  (Observed.ids_ascending _).filter _

lemma contenders_nodup (log : MembershipLog P) (slot : Option TransitionId) :
    (contenders log slot).Nodup :=
  (contenders_ascending log slot).imp ne_of_lt

lemma foldl_indexChild (log : MembershipLog P) (ids : List TransitionId)
    (children : TransitionId → List TransitionId) (parent : TransitionId) :
    ids.foldl (indexChild log) children parent =
      children parent ++ ids.filter (fun id => decide (prevOf log id = some parent)) := by
  induction ids generalizing children with
  | nil => simp
  | cons id rest ih =>
    rw [foldl_cons, ih]
    cases hf : log.transition id with
    | none => simp [indexChild, prevOf, hf]
    | some t =>
      cases prev : t.prev with
      | none => simp [indexChild, prevOf, hf, prev]
      | some other =>
        by_cases hs : other = parent
        · simp [indexChild, prevOf, hf, prev, hs]
        · simp [indexChild, prevOf, hf, prev, hs, Function.update_of_ne (Ne.symm hs)]

lemma buildChildrenIndex_eq (log : MembershipLog P) (parent : TransitionId) :
    buildChildrenIndex log parent =
      log.observedIds.filter (fun id => decide (prevOf log id = some parent)) :=
  foldl_indexChild log log.observedIds (fun _ => []) parent

lemma filter_buildChildrenIndex (log : MembershipLog P) (parent : TransitionId) :
    (buildChildrenIndex log parent).filter (isValid (linkOf log)) =
      contenders log (some parent) := by
  rw [buildChildrenIndex_eq, filter_filter, contenders]

lemma mem_buildChildrenIndex {parent id} :
    id ∈ buildChildrenIndex log parent ↔ prevOf log id = some parent := by
  simp only [buildChildrenIndex_eq, mem_filter, decide_eq_true_eq, and_iff_right_iff_imp]
  intro hp
  obtain ⟨t, hf, _⟩ := Option.bind_eq_some_iff.mp hp
  exact mem_observedIds.mpr ⟨t, hf⟩

lemma prevOf_of_transition {id t} (hf : log.transition id = some t) : prevOf log id = t.prev := by
  simp [prevOf, hf]

lemma resolvesOf_of_transition {id t} (hf : log.transition id = some t) :
    resolvesOf log id = t.resolves := by
  simp [resolvesOf, hf]

lemma valid_genesis_iff {id} (hv : isValid (linkOf log) id = true) :
    prevOf log id = none ↔ epochOf log id = 1 := by
  obtain ⟨state, admitted, ht⟩ := isValid_iff.mp hv
  obtain ⟨t, hf, hi, _⟩ := linkOf_valid ht
  rw [prevOf_of_transition hf, epochOf_of_transition hf]
  exact (checkIntrinsic_ok P hi).1

lemma byEpoch_ascending (log : MembershipLog P) :
    (byEpoch log).Pairwise (fun a b => toLex a < toLex b) := by
  have total : Std.Total (fun a b : Nat × TransitionId => toLex a ≤ toLex b) :=
    ⟨fun a b => le_total _ _⟩
  have trans : IsTrans _ (fun a b : Nat × TransitionId => toLex a ≤ toLex b) :=
    ⟨fun a b c => le_trans⟩
  have once : (byEpoch log).Nodup := by
    rw [byEpoch, (perm_insertionSort _ _).nodup_iff]
    apply List.Nodup.filterMap _ (Observed.ids_nodup _)
    intro a b entry hf second
    obtain ⟨_, _, rfl⟩ := Option.map_eq_some_iff.mp hf
    obtain ⟨_, _, hs⟩ := Option.map_eq_some_iff.mp second
    exact (Prod.mk.inj hs).2.symm
  refine ((pairwise_insertionSort _ _).and once).imp ?_
  exact fun holds => lt_of_le_of_ne holds.1 (fun hs => holds.2 (toLex.injective hs))

lemma geneses_eq (log : MembershipLog P) : geneses log (linkOf log) = contenders log none := by
  have rises : (geneses log (linkOf log)).Pairwise (· < ·) := by
    rw [geneses, pairwise_map]
    apply ((byEpoch_ascending log).filter _).imp_of_mem
    intro a b first second hb
    simp only [mem_filter, and_eq_true, decide_eq_true_eq] at first second
    rcases Prod.Lex.lt_iff.mp hb with lower | hs
    · have apart : a.1 < b.1 := lower
      omega
    · exact hs.2
  apply rises.eq_of_mem_iff (contenders_ascending log none)
  intro id
  simp only [geneses, mem_map, mem_filter, mem_byEpoch, and_eq_true,
    decide_eq_true_eq, mem_contenders]
  constructor
  · rintro ⟨⟨epoch, other⟩, ⟨⟨t, hf, hs⟩, rfl, hv⟩, rfl⟩
    exact ⟨hv, (valid_genesis_iff hv).mpr (epochOf_of_transition hf ▸ hs)⟩
  · rintro ⟨hv, hn⟩
    obtain ⟨t, hf⟩ := isValid_observed hv
    have first := (valid_genesis_iff hv).mp hn
    rw [epochOf_of_transition hf] at first
    exact ⟨(1, id), ⟨⟨t, hf, first⟩, rfl, hv⟩, rfl⟩

lemma mem_resolutions {among r} :
    r ∈ resolutions log among ↔ ∃ contender ∈ among, prevOf log r = some contender ∧
      isValid (linkOf log) r = true ∧ resolvesOf log r ≠ [] ∧
      (resolvesOf log r).toFinset = among.toFinset.filter (· ≠ contender) := by
  simp only [resolutions, resolutionCandidates, mem_flatMap, mem_filter,
    mem_buildChildrenIndex, isResolution, and_eq_true]
  constructor
  · rintro ⟨contender, hm, prev, hv, names⟩
    obtain ⟨t, hf⟩ := isValid_observed hv
    simp only [hf, and_eq_true, decide_eq_true_eq] at names
    exact ⟨contender, hm, prev, hv, by simpa [resolvesOf, hf] using names⟩
  · rintro ⟨contender, hm, prev, hv, names⟩
    obtain ⟨t, hf⟩ := isValid_observed hv
    refine ⟨contender, hm, prev, hv, ?_⟩
    simpa [resolvesOf, hf] using names

lemma resolutions_nodup (log : MembershipLog P) {among} (once : among.Nodup) :
    (resolutions log among).Nodup := by
  rw [resolutions, resolutionCandidates, nodup_flatMap]
  constructor
  · intro contender _
    rw [buildChildrenIndex_eq]
    exact ((Observed.ids_nodup _).filter _).filter _
  · apply once.imp
    intro a b ha r hf hs
    have viaA := mem_buildChildrenIndex.mp (mem_filter.mp hf).1
    have viaB := mem_buildChildrenIndex.mp (mem_filter.mp hs).1
    exact ha (Option.some.inj (viaA.symm.trans viaB))

lemma resolutions_singleton (log : MembershipLog P) (only : TransitionId) :
    resolutions log [only] = [] := by
  rw [eq_nil_iff_forall_not_mem]
  intro r hm
  obtain ⟨contender, hi, _, _, some, hn⟩ := mem_resolutions.mp hm
  cases mem_singleton.mp hi
  apply some
  rw [← toFinset_eq_empty_iff, hn]
  simp

/-- What `handle_conflict` leaves and reports, by the number of exact
    resolutions. -/
lemma handleConflict_eq (result : Analysis) (among : List TransitionId) (epoch : Nat) :
    handleConflict log (linkOf log) (buildChildrenIndex log) result among epoch =
      match resolutions log among with
      | [] => (markContested (linkOf log) { result with frozenAt := some epoch } among, .unresolved)
      | [r] => (markLosers (linkOf log) ((prevOf log r).getD r) (resolvesOf log r)
          ((result.select (linkOf log) ((prevOf log r).getD r)).select (linkOf log) r) among,
          .resolved r)
      | candidates => (markContested (linkOf log) (markContested (linkOf log)
          { result with frozenAt := some (saturatingAdd epoch 1) } among) candidates,
          .contradictory) := by
  rw [handleConflict, ← resolutions]
  cases exact : resolutions log among with
  | nil => rfl
  | cons r rest =>
    cases rest with
    | cons => rfl
    | nil =>
      obtain ⟨winner, _, prev, hv, _⟩ :=
        mem_resolutions.mp (exact ▸ mem_singleton_self r)
      obtain ⟨t, hf⟩ := isValid_observed hv
      have named : t.prev = some winner := prevOf_of_transition hf ▸ prev
      simp [hf, named, prev, resolvesOf]

lemma walk_eq (fuel : Nat) (result : Analysis) (current : TransitionId) :
    walk log (linkOf log) (buildChildrenIndex log) fuel result current =
      (trail log fuel (some current)).foldl (mark log) result := by
  induction fuel generalizing result current with
  | zero => rfl
  | succ fuel ih =>
    simp only [walk, trail, filter_buildChildrenIndex, foldl_cons]
    cases vies : contenders log (some current) with
    | nil => simp [mark, advance, vies]
    | cons first rest =>
      have hm : first ∈ contenders log (some current) := vies ▸ mem_cons_self
      obtain ⟨t, hf⟩ := isValid_observed (mem_contenders.mp hm).1
      cases rest with
      | nil =>
        simp only [hf, mark, advance, vies, resolvesOf_of_transition hf]
        by_cases plain : t.resolves = []
        · simp [plain, ih]
        · simp [plain]
      | cons second rest =>
        simp only [hf, mark, advance, vies, epochOf_of_transition hf, handleConflict_eq]
        cases exact : resolutions log (first :: second :: rest) with
        | nil => simp
        | cons r others =>
          cases others with
          | cons => simp
          | nil =>
            obtain ⟨winner, _, hp, _⟩ :=
              mem_resolutions.mp (exact ▸ mem_singleton_self r)
            simp [hp, ih]

def slots (log : MembershipLog P) : List (Option TransitionId) := trail log (log.len + 1) none

/-- Genesis selection is the walk's decision at the empty slot, so the analysis
    marks slot after slot and then classifies the rest. -/
lemma analyse_eq (log : MembershipLog P) :
    analyse log =
      classifyRemaining log (linkOf log) ((slots log).foldl (mark log) Analysis.initial) := by
  simp only [analyse, linkPass_eq, geneses_eq, slots, trail, foldl_cons]
  congr 1
  cases vies : contenders log none with
  | nil => simp [mark, advance, vies]
  | cons first rest =>
    have hm : first ∈ contenders log none := vies ▸ mem_cons_self
    obtain ⟨hv, noPrev⟩ := mem_contenders.mp hm
    obtain ⟨t, hf⟩ := isValid_observed hv
    have atOne : epochOf log first = 1 := (valid_genesis_iff hv).mp noPrev
    cases rest with
    | nil =>
      have plain : resolvesOf log first = [] := by
        obtain ⟨state, admitted, link⟩ := isValid_iff.mp hv
        obtain ⟨s, found, hi, _⟩ := linkOf_valid link
        rw [resolvesOf_of_transition found]
        exact (checkIntrinsic_ok P hi).2 (prevOf_of_transition found ▸ noPrev)
      simp [mark, advance, vies, plain, walk_eq]
    | cons second rest =>
      simp only [mark, advance, vies, atOne, handleConflict_eq]
      cases exact : resolutions log (first :: second :: rest) with
      | nil => simp
      | cons r others =>
        cases others with
        | cons => simp
        | nil =>
          obtain ⟨winner, _, hp, _⟩ :=
            mem_resolutions.mp (exact ▸ mem_singleton_self r)
          simp [hp, walk_eq]

end Wyrd.Membership
