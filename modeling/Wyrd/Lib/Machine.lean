import Mathlib

/-! # Loops as machines

A loop is a step on its state that goes on with another state or is done with a result.
Fuel bounds how often it is taken. `Leads` says that the loop comes to a state with a
property, unless it is done before with a result that has another; it composes, and a
loop that leads nowhere but to results returns one.
-/

namespace Wyrd

/-- What one pass through the body of a loop comes to. -/
inductive Pass (σ ρ : Type) where
  | more (state : σ)
  | done (result : ρ)

namespace Machine

variable {σ ρ : Type} {step : σ → Pass σ ρ} {state : σ}

/-- Go round while there is fuel. -/
def run (step : σ → Pass σ ρ) : Nat → σ → Option ρ
  | 0, _ => none
  | fuel + 1, state =>
    match step state with
    | .more next => run step fuel next
    | .done result => some result

/-- The loop comes to the goal, or is done before. -/
inductive Leads (step : σ → Pass σ ρ) (goal : σ → Prop) (ends : ρ → Prop) : σ → Prop
  | here {state : σ} (reached : goal state) : Leads step goal ends state
  | more {state next : σ} (taken : step state = .more next) (rest : Leads step goal ends next) :
      Leads step goal ends state
  | done {state : σ} {result : ρ} (taken : step state = .done result) (ended : ends result) :
      Leads step goal ends state

variable {goal : σ → Prop} {ends : ρ → Prop}

lemma Leads.trans (leads : Leads step goal ends state)
    (next : ∀ middle, goal middle → Leads step further ends middle) :
    Leads step further ends state := by
  induction leads with
  | here hr => exact next _ hr
  | more taken _ ih => exact .more taken ih
  | done taken he => exact .done taken he

lemma Leads.mono (leads : Leads step goal ends state)
    (goals : ∀ middle, goal middle → further middle)
    (results : ∀ result, ends result → weaker result) : Leads step further weaker state := by
  induction leads with
  | here hr => exact .here (goals _ hr)
  | more taken _ ih => exact .more taken ih
  | done taken he => exact .done taken (results _ he)

lemma run_mono (gives : run step fuel state = some result) (ample : fuel ≤ more) :
    run step more state = some result := by
  induction fuel generalizing state more with
  | zero => cases gives
  | succ fuel ih =>
    obtain ⟨more, rfl⟩ : ∃ rest, more = rest + 1 := ⟨more - 1, by omega⟩
    unfold run at gives ⊢
    split at gives
    · exact ih gives (by omega)
    · exact gives

lemma Leads.returns (leads : Leads step (fun _ => False) ends state) :
    ∃ fuel result, run step fuel state = some result ∧ ends result := by
  induction leads with
  | here hr => exact hr.elim
  | more taken _ ih =>
    obtain ⟨fuel, result, hg, ended⟩ := ih
    refine ⟨fuel + 1, result, ?_, ended⟩
    unfold run
    rw [taken]
    exact hg
  | done taken ended =>
    refine ⟨1, _, ?_, ended⟩
    unfold run
    rw [taken]

/-- A loop whose passes keep an invariant and lower a measure returns. -/
lemma returns_of_measure {invariant : σ → Prop} (measure : σ → Nat)
    (hk : ∀ state, invariant state →
      match step state with
      | .more next => invariant next ∧ measure next < measure state
      | .done result => ends result) (initial : invariant state) :
    ∃ fuel result, run step fuel state = some result ∧ ends result := by
  obtain ⟨bound, hb⟩ : ∃ bound, measure state < bound := ⟨_, Nat.lt_succ_self _⟩
  induction bound generalizing state with
  | zero => omega
  | succ bound ih =>
    have hh := hk state initial
    cases taken : step state with
    | done result =>
      rw [taken] at hh
      refine ⟨1, result, ?_, hh⟩
      unfold run
      rw [taken]
    | more =>
      rw [taken] at hh
      obtain ⟨fuel, result, hg, he⟩ := ih hh.1 (by omega)
      refine ⟨fuel + 1, result, ?_, he⟩
      unfold run
      rw [taken]
      exact hg

end Machine

end Wyrd
