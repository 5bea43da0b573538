import Wyrd.Membership.Canonical
import Wyrd.Membership.Standing

/-! # Derived states are for good

A walk of the larger log that ends at a slot known before took the same turns
before: each selection is decided by transitions the selected one stands on. A
late arrival can therefore demote what was canonical, but it makes no stray out
of a transition that had a state, and the state itself never changes.
-/

namespace Wyrd.Membership

variable {P : Primitives} {small large : MembershipLog P}

variable {slot : Option TransitionId} {id : TransitionId}

section

variable (grow : Grows small large)
include grow

/-- The only contender left standing was the only one before, if it was known. -/
lemma contenders_of_only (only : contenders large slot = [id])
    (known : isValid (linkOf small) id = true) : contenders small slot = [id] := by
  have hn := (mem_contenders.mp (only ▸ List.mem_singleton_self id)).2
  have hh : id ∈ contenders small slot :=
    mem_contenders.mpr ⟨known, (grow.prevOf known).symm.trans hn⟩
  rw [← only]
  symm
  apply contenders_eq_of_mem
  intro other
  refine ⟨fun competes => ?_, grow.mem_contenders⟩
  rw [only, List.mem_singleton] at competes
  exact competes ▸ hh

lemma Stray.back (stray : Stray large slot id) (known : isValid (linkOf small) id = true) :
    Stray small slot id := by
  have hn : Membership.prevOf small id = slot := (grow.prevOf known).symm.trans stray.prevOf
  obtain ⟨chain, hp⟩ := stray.tip
  refine ⟨⟨chain, (hp.back grow ?_).1⟩, contenders_of_only grow stray.only known, ?_⟩
  · rintro prev rfl
    exact valid_prev known hn
  · rw [← grow.resolvesOf known]
    exact stray.resolving

lemma Grows.states (drawn : (analyse small).states id = some state) :
    (analyse large).states id = some state := by
  have there : (analyse small).states id ≠ none := by simp [drawn]
  obtain ⟨hv, hp⟩ := states_isSome.mp there
  have still : (analyse large).states id ≠ none :=
    states_isSome.mpr ⟨grow.isValid hv, fun slot hs => hp slot (hs.back grow hv)⟩
  rw [states_eq] at drawn still ⊢
  split_ifs at drawn still ⊢
  · obtain ⟨admitted, ht⟩ := linkState_eq_some.mp drawn
    exact linkState_eq_some.mpr ⟨admitted, grow.link ht (by simp)⟩
  · exact absurd rfl still

lemma Grows.authoritative (hv : small.authoritative id = some (.valid t state)) :
    large.authoritative id = some (.valid t state) := by
  unfold MembershipLog.authoritative at hv ⊢
  cases hf : small.transition id with
  | none => simp [hf] at hv
  | some =>
    cases drawn : (analyse small).states id with
    | none =>
      simp only [hf, drawn] at hv
      split at hv <;> cases hv
    | some =>
      simp only [hf, drawn] at hv
      simp only [grow.transition hf, grow.states drawn]
      exact hv

end

end Wyrd.Membership
