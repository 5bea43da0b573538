import Wyrd.Membership.Resolution

/-! # The memo table of link verdicts

Where references are acyclic, the verdict of a transition is a recursion over its
observed predecessor and `resolves` entries, whatever their epochs. Calls of `link_for`
in any order return that verdict. No validation on the way meets a dependency that it
looks up and that is observed but not classified yet, because the epoch check stands
before the lookup.
-/

namespace Wyrd.Membership

open List

variable {P : Primitives}

section Recursion

variable (log : MembershipLog P)

/-- One observed transition refers to another id. -/
def DependsOn (dep id : TransitionId) : Prop :=
  ∃ t, log.transition id = some t ∧ dep ∈ dependencies t

/-- The verdict of a transition from the verdicts of what it refers to. -/
noncomputable def recursiveLink (acyclic : WellFounded (DependsOn log)) : TransitionId → Option Link :=
  acyclic.fix fun id verdict =>
    match found : log.transition id with
    | none => none
    | some t => some (validateLink log t fun dep =>
      if depends : dep ∈ dependencies t then verdict dep ⟨t, found, depends⟩ else none)

/-- Calls of `link_for`, one after the other: the memo and the verdicts returned. -/
def linkForAll : List MembershipTransition → LinkMap → LinkMap × List Link
  | [], link => (link, [])
  | t :: rest, link =>
    let (next, verdict) := linkFor log t link
    let (final, verdicts) := linkForAll rest next
    (final, verdict :: verdicts)

/-- What `validate_link` is called on while a closure is classified, with the memo at
    each call. -/
def validations : List TransitionId → LinkMap → List (MembershipTransition × LinkMap)
  | [], _ => []
  | dep :: rest, link =>
    (if (link dep).isSome then [] else (log.transition dep).toList.map fun depT => (depT, link)) ++
      validations rest (classifyDependency log link dep)

def validationsAll : List MembershipTransition → LinkMap → List (MembershipTransition × LinkMap)
  | [], _ => []
  | t :: rest, link =>
    (if (link (P.transitionId t)).isSome then []
      else validations log (ascendingClosure log link (P.transitionId t)) link) ++
      validationsAll rest (linkFor log t link).1

/-- Every dependency that passes the epoch check is in the memo, so that a validation
    takes no branch for an observed dependency without a verdict. -/
def Classified (t : MembershipTransition) (link : LinkMap) : Prop :=
  ∀ dep ∈ dependencies t, ∀ depT, log.transition dep = some depT →
    checkedAdd depT.epoch 1 = some t.epoch → (link dep).isSome

end Recursion

variable {log : MembershipLog P}

lemma recursiveLink_eq (acyclic : WellFounded (DependsOn log)) (id : TransitionId) :
    recursiveLink log acyclic id = linkOf log id := by
  induction id using acyclic.induction with
  | _ id ih =>
    rw [recursiveLink, acyclic.fix_eq]
    split
    · next missing => rw [linkOf_eq, missing, Option.map_none]
    · next t hf =>
      rw [linkOf_of_transition hf, Option.some.injEq]
      refine validateLink_congr fun dep needs below _ _ => ?_
      rw [dif_pos needs]
      exact ih dep ⟨t, hf, needs⟩

lemma sound_initial (log : MembershipLog P) : Sound log (fun _ => none) :=
  fun _ _ hn => by cases hn

lemma linkFor_sound (hf : log.transition (P.transitionId t) = some t) (sound : Sound log link) :
    Sound log (linkFor log t link).1 ∧
      some (linkFor log t link).2 = linkOf log (P.transitionId t) := by
  obtain ⟨records, hn⟩ := linkFor_spec hf sound
  exact ⟨records.sound, (records.sound _ _ hn).symm⟩

lemma linkForAll_sound (seen : ∀ t ∈ order, log.transition (P.transitionId t) = some t)
    (sound : Sound log link) :
    (linkForAll log order link).2.map some = order.map fun t => linkOf log (P.transitionId t) := by
  induction order generalizing link with
  | nil => rfl
  | cons t rest ih =>
    obtain ⟨hk, hr⟩ := linkFor_sound (seen t mem_cons_self) sound
    have later := ih (fun other hm => seen other (mem_cons_of_mem _ hm)) hk
    simp only [linkForAll, map_cons, hr, later]

lemma validations_classified (sorted : rest.Pairwise (fun a b => epochOf log a ≤ epochOf log b))
    (ready : Ready log link rest) (hm : call ∈ validations log rest link) :
    Classified log call.1 call.2 := by
  induction rest generalizing link with
  | nil => cases hm
  | cons head tail ih =>
    rcases mem_append.mp hm with hh | hl
    · split_ifs at hh with hk
      · cases hh
      · obtain ⟨t, hf, rfl⟩ := mem_map.mp hh
        intro dep hn depT found hb
        exact ready.head sorted (by simpa using hk) (Option.mem_toList.mp hf) hn found
          (checkedAdd_eq_some.mp hb).1
    · exact ih (pairwise_cons.mp sorted).2 ready.tail hl

lemma validationsAll_classified (hm : call ∈ validationsAll log order link) :
    Classified log call.1 call.2 := by
  induction order generalizing link with
  | nil => cases hm
  | cons t rest ih =>
    rcases mem_append.mp hm with hh | hl
    · split_ifs at hh with hk
      · cases hh
      · exact validations_classified (ascendingClosure_sorted log link _)
          (ascendingClosure_ready log link _) hh
    · exact ih hl

/-- The memoised classifier is the recursive definition, for calls on observed
    transitions in any order; and no validation meets an observed dependency without a
    verdict. -/
theorem linkFor_calls_recursive (log : MembershipLog P) (acyclic : WellFounded (DependsOn log))
    (order : List MembershipTransition)
    (observed : ∀ t ∈ order, log.transition (P.transitionId t) = some t) :
    (linkForAll log order fun _ => none).2.map some =
        order.map (fun t => recursiveLink log acyclic (P.transitionId t)) ∧
      ∀ call ∈ validationsAll log order fun _ => none, Classified log call.1 call.2 := by
  refine ⟨?_, fun call hm => validationsAll_classified hm⟩
  rw [linkForAll_sound observed (sound_initial log)]
  exact map_congr_left fun t _ => (recursiveLink_eq acyclic _).symm

lemma resolvedLog_acyclic : WellFounded (DependsOn resolvedLog) := by
  -- The sample numbers every transition above what it refers to.
  have hb : ∀ t ∈ resolvedLog.transitions.docs, ∀ dep ∈ dependencies t,
      dep.raw.val < (samplePrimitives.transitionId t).raw.val := by
    decide +kernel
  refine Subrelation.wf ?_ (measure fun id : TransitionId => id.raw.val).wf
  rintro dep id ⟨t, hf, hn⟩
  have keyed := transition_key hf
  have lower := hb t (Observed.lookup_eq_some.mp hf).1 dep hn
  rwa [keyed] at lower

/-- The resolution before the genesis transition it descends from. -/
def lateFirst : List MembershipTransition :=
  [rotation 3 (sampleId 21) [sampleId 22] 31 (.refl true), sampleGenesis]

theorem linkFor_calls_recursive_resolved :
    isValid (linkForAll resolvedLog lateFirst fun _ => none).1 (sampleId 31) = true ∧
      (linkForAll resolvedLog lateFirst fun _ => none).2.map some =
        lateFirst.map (fun t => recursiveLink resolvedLog resolvedLog_acyclic
          (samplePrimitives.transitionId t)) :=
  ⟨by decide +kernel, (linkFor_calls_recursive resolvedLog resolvedLog_acyclic lateFirst
    (by decide +kernel)).1⟩

/-- A link verdict other than pending survives every growth of the observed set, with
    the state and the admissions that it derived. -/
theorem link_verdict_final (small large : MembershipLog P) (grows : Grows small large)
    (id : TransitionId) (verdict : Link) (found : linkPass small id = some verdict)
    (decided : verdict ≠ .pending) : linkPass large id = some verdict := by
  rw [linkPass_eq] at found ⊢
  exact grows.link found decided

theorem link_verdict_final_late_sibling :
    Grows resolvedLog lateSiblingLog ∧ ∃ state admitted,
      linkPass resolvedLog (sampleId 31) = some (.valid state admitted) ∧
      linkPass lateSiblingLog (sampleId 31) = some (.valid state admitted) := by
  have hv : isValid (linkPass resolvedLog) (sampleId 31) = true := by decide +kernel
  obtain ⟨state, admitted, hf⟩ := isValid_iff.mp hv
  exact ⟨lateSiblingLog_grows, state, admitted, hf,
    link_verdict_final resolvedLog lateSiblingLog lateSiblingLog_grows (sampleId 31) _ hf (by simp)⟩

end Wyrd.Membership
