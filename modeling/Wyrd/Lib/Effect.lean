import Mathlib

/-! # Effects on a state that can fail

An effect returns the state it left behind also when it fails, as a program with
early returns does. `Ends` says what holds of the outcome together with the
state left, and has one rule for each way of building an effect.
-/

namespace Wyrd

open List

/-- A computation on a state, with an outcome. -/
def Effect (σ ε α : Type) := σ → σ × Except ε α

namespace Effect

variable {σ ε α β : Type}

instance : Monad (Effect σ ε) where
  pure value := fun state => (state, .ok value)
  bind act next := fun state =>
    match act state with
    | (state, .ok value) => next value state
    | (state, .error error) => (state, .error error)

def get : Effect σ ε σ := fun state => (state, .ok state)

def set (next : σ) : Effect σ ε Unit := fun _ => (next, .ok ())

def fail (error : ε) : Effect σ ε α := fun state => (state, .error error)

/-- A computation that does not touch the state. -/
def lift (outcome : Except ε α) : Effect σ ε α := fun state => (state, outcome)

/-- The outcome of an effect, as a value. -/
def attempt (act : Effect σ ε α) : Effect σ ε (Except ε α) := fun state =>
  ((act state).1, .ok (act state).2)

/-- Do something for every item in turn, adding up what each reports. -/
def tally (step : β → Effect σ ε Nat) : List β → Effect σ ε Nat
  | [] => pure 0
  | item :: rest => do
      let here ← step item
      let later ← tally step rest
      return here + later

/-- What holds of the outcome and of the state an effect leaves. -/
def Ends (act : Effect σ ε α) (start : σ) (post : Except ε α → σ → Prop) : Prop :=
  post (act start).2 (act start).1

section Rules

variable {act : Effect σ ε α} {start : σ} {post : Except ε α → σ → Prop}

lemma Ends.mono (ends : act.Ends start post)
    (implies : ∀ outcome final, post outcome final → weaker outcome final) :
    act.Ends start weaker := implies _ _ ends

lemma ends_pure (value : α) :
    (pure value : Effect σ ε α).Ends start post ↔ post (.ok value) start := Iff.rfl

lemma ends_fail (error : ε) :
    (fail error : Effect σ ε α).Ends start post ↔ post (.error error) start := Iff.rfl

lemma ends_lift (outcome : Except ε α) :
    (lift outcome : Effect σ ε α).Ends start post ↔ post outcome start := Iff.rfl

lemma ends_get {post} : (get : Effect σ ε σ).Ends start post ↔ post (.ok start) start := Iff.rfl

lemma ends_set {post} (next : σ) :
    (set next : Effect σ ε Unit).Ends start post ↔ post (.ok ()) next := Iff.rfl

lemma ends_attempt {post} :
    act.attempt.Ends start post ↔ act.Ends start (fun outcome final => post (.ok outcome) final) :=
  Iff.rfl

lemma ends_bind {next : α → Effect σ ε β} {post : Except ε β → σ → Prop} :
    (act >>= next).Ends start post ↔ act.Ends start (fun outcome middle =>
      match outcome with
      | .ok value => (next value).Ends middle post
      | .error error => post (.error error) middle) := by
  unfold Ends
  simp only [bind]
  rcases act start with ⟨middle, _ | _⟩ <;> rfl

lemma Ends.bind {next : α → Effect σ ε β} {final : Except ε β → σ → Prop}
    (first : act.Ends start post)
    (good : ∀ value middle, post (.ok value) middle → (next value).Ends middle final)
    (bad : ∀ error middle, post (.error error) middle → final (.error error) middle) :
    (act >>= next).Ends start final := by
  rw [ends_bind]
  apply first.mono
  intro outcome middle holds
  cases outcome with
  | ok value => exact good value middle holds
  | error error => exact bad error middle holds

/-- A run that succeeded did every item: what each one reaches and all others
    keep holds of every item at the end. A run fails as its items can. -/
lemma ends_tally_all {step : β → Effect σ ε Nat} (reached : β → σ → Prop) (can : ε → Prop)
    (invariant : σ → Prop) (does : ∀ item ∈ items, ∀ state, invariant state →
      (step item).Ends state (fun outcome next => invariant next ∧
        (∀ error, outcome = .error error → can error) ∧
        (outcome.isOk = true → reached item next) ∧
        ∀ other, other ≠ item → reached other state → reached other next))
    (initial : invariant start) :
    (tally step items).Ends start (fun outcome final => invariant final ∧
      (∀ error, outcome = .error error → can error) ∧
      (∀ item, item ∉ items → reached item start → reached item final) ∧
      (outcome.isOk = true → ∀ item ∈ items, reached item final)) := by
  induction items generalizing start with
  | nil =>
    exact ⟨initial, nofun, fun _ _ holds => holds, fun _ _ hm => absurd hm not_mem_nil⟩
  | cons item rest ih =>
    refine Ends.bind (does item mem_cons_self start initial) ?_ ?_
    · rintro here middle ⟨holds, -, hd, others⟩
      have later := ih (fun other hm => does other (mem_cons_of_mem _ hm)) holds
      have out {final : σ} (hk : ∀ item, item ∉ rest → reached item middle → reached item final)
          (other : β) (apart : other ∉ item :: rest) (hp : reached other start) :
          reached other final := by
        rw [mem_cons, not_or] at apart
        exact hk other apart.2 (others other apart.1 hp)
      refine Ends.bind later ?_ ?_
      · rintro _ final ⟨holds, -, hk, all⟩
        refine ⟨holds, nofun, out hk, fun _ other hm => ?_⟩
        by_cases again : other ∈ rest
        · exact all rfl other again
        · obtain rfl := (mem_cons.mp hm).resolve_right again
          exact hk other again (hd rfl)
      · rintro error final ⟨holds, fails, hk, _⟩
        exact ⟨holds, fun _ hs => fails _ (by cases hs; rfl), out hk, nofun⟩
    · rintro error middle ⟨holds, fails, _, others⟩
      refine ⟨holds, fun _ hs => fails _ (by cases hs; rfl), fun other out => ?_, nofun⟩
      exact others other fun hs => out (hs ▸ mem_cons_self)

lemma ends_tally {step : β → Effect σ ε Nat} {invariant : σ → Prop}
    (hk : ∀ item ∈ items, ∀ state, invariant state →
      (step item).Ends state (fun _ next => invariant next)) (initial : invariant start) :
    (tally step items).Ends start (fun _ next => invariant next) := by
  have all := ends_tally_all (fun _ _ => True) (fun _ => True) invariant
    (fun item hm state holds => (hk item hm state holds).mono fun _ _ still =>
      ⟨still, fun _ _ => trivial, fun _ => trivial, fun _ _ _ => trivial⟩) initial
  exact all.mono fun _ _ holds => holds.1

end Rules

end Effect

end Wyrd
