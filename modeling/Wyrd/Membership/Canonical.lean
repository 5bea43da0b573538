import Wyrd.Membership.Verdict

/-! # The canonical chain

Whatever was observed, hostile transitions included, the selected transitions
form one owner-authorized chain from genesis, and the state recorded for each of
them is the sequential application of the changes up to it.
-/

namespace Wyrd.Membership

variable {P : Primitives} {log : MembershipLog P}

def changesOf (log : MembershipLog P) (id : TransitionId) : List Change :=
  (log.transition id).elim [] (·.changes)

/-- The changes of listed transitions applied one after another, from the empty
    state. -/
def foldChain (log : MembershipLog P) (chain : List TransitionId) :
    Except ApplyError MembershipState :=
  chain.foldlM (fun state id => apply state (changesOf log id)) .initial

/-- The state at a slot; before genesis it is the empty state. -/
def slotState (log : MembershipLog P) : Option TransitionId → Option MembershipState
  | none => some .initial
  | some id => linkState (linkOf log) id

lemma linkState_eq_some {id : TransitionId} {state : MembershipState} :
    linkState (linkOf log) id = some state ↔ ∃ admitted, linkOf log id = some (.valid state admitted) := by
  cases tie : linkOf log id with
  | none => simp [linkState, tie]
  | some verdict => cases verdict <;> simp [linkState, tie]

/-- A valid transition derives its state from the state at its predecessor, and
    past genesis its author owns that state. -/
lemma valid_derives {id} (hv : isValid (linkOf log) id = true) :
    ∃ t before state, log.transition id = some t ∧ slotState log t.prev = some before ∧
      linkState (linkOf log) id = some state ∧ apply before t.changes = .ok state ∧
      rootsMatch P state t = true ∧ (t.prev ≠ none → t.author ∈ before.owners) := by
  obtain ⟨state, admitted, tie⟩ := isValid_iff.mp hv
  have noted : linkState (linkOf log) id = some state := linkState_eq_some.mpr ⟨admitted, tie⟩
  obtain ⟨t, hf, _, ⟨first, hd⟩ |
    ⟨prevId, _, prevState, prevAdmitted, hp, succeeds⟩⟩ := linkOf_valid tie
  · obtain ⟨ran, roots⟩ := (deriveNext_ok P).mp hd
    exact ⟨t, .initial, state, hf, by rw [first]; rfl, noted, ran, roots,
      fun hl => absurd first hl⟩
  · obtain ⟨ran, roots⟩ := (deriveNext_ok P).mp succeeds.derives
    have before : slotState log t.prev = some prevState := by
      rw [succeeds.prev]
      exact linkState_eq_some.mpr ⟨prevAdmitted, hp⟩
    exact ⟨t, prevState, state, hf, before, noted, ran, roots, fun _ => succeeds.authority⟩

lemma foldChain_concat (chain : List TransitionId) (id : TransitionId)
    (folded : foldChain log chain = .ok before) :
    foldChain log (chain ++ [id]) = apply before (changesOf log id) := by
  rw [foldChain] at folded
  rw [foldChain, List.foldlM_append, folded]
  exact bind_pure (apply before (changesOf log id))

/-- Along a spine the fold of the changes is the state its tip derives. -/
lemma Spine.folds {chain} (spine : Spine log chain) :
    ∃ state, slotState log chain.getLast? = some state ∧ foldChain log chain = .ok state := by
  induction spine with
  | nil => exact ⟨.initial, rfl, rfl⟩
  | @snoc chain id _ hv ht ih =>
    obtain ⟨before, ha, folded⟩ := ih
    obtain ⟨t, before', state, hf, atPrev', hn, hr, _⟩ := valid_derives hv
    rw [← prevOf_of_transition hf, ht, ha] at atPrev'
    cases atPrev'
    refine ⟨state, by rw [List.getLast?_concat]; exact hn, ?_⟩
    rw [foldChain_concat chain id folded, changesOf, hf]
    exact hr

lemma states_of_canonical {id} (hm : id ∈ (analyse log).canonical) :
    (analyse log).states id = linkState (linkOf log) id := by
  rw [states_eq, mem_canonical.mp hm]
  rfl

theorem analyse_canonical_chain (log : MembershipLog P) :
    (analyse log).canonical.map (epochOf log) = List.range' 1 (analyse log).canonical.length ∧
    (∀ id, id ∈ (analyse log).canonical ↔ (analyse log).status id = some .canonical) ∧
    (∀ front id back, (analyse log).canonical = front ++ id :: back →
      ∃ t state, log.transition id = some t ∧ t.prev = front.getLast? ∧
        (analyse log).states id = some state ∧ foldChain log (front ++ [id]) = .ok state ∧
        rootsMatch P state t = true ∧
        ∀ prev, t.prev = some prev →
          ∃ prevState, (analyse log).states prev = some prevState ∧ t.author ∈ prevState.owners) := by
  obtain ⟨last, hp, _⟩ := analyse_last log
  obtain ⟨spine, _⟩ := hp.spine
  refine ⟨spine.epochs_eq, fun id => mem_canonical, ?_⟩
  intro front id back split
  have hm : id ∈ (analyse log).canonical := by simp [split]
  obtain ⟨t, before, state, hf, atPrev, noted, _, roots, hr⟩ :=
    valid_derives (spine.valid id hm)
  have tied : t.prev = front.getLast? := by
    rw [← prevOf_of_transition hf]
    exact (split ▸ spine).linked
  have upTo : Spine log (front ++ [id]) := by
    have joined : (analyse log).canonical = front ++ [id] ++ back := by simp [split]
    exact (joined ▸ spine).of_append
  obtain ⟨folded, tip, folds⟩ := upTo.folds
  rw [List.getLast?_concat, slotState, noted] at tip
  cases tip
  refine ⟨t, state, hf, tied, (states_of_canonical hm).trans noted, folds, roots, ?_⟩
  intro prev hn
  have prevMember : prev ∈ (analyse log).canonical := by
    have inFront : prev ∈ front := List.mem_of_getLast? (tied.symm.trans hn)
    simp [split, inFront]
  rw [hn] at atPrev
  exact ⟨before, (states_of_canonical prevMember).trans atPrev, hr (by simp [hn])⟩

end Wyrd.Membership
