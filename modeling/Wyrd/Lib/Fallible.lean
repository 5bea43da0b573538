import Mathlib

/-! # Fallible computations

Inversion of a computation that succeeded: through a bind, through a change of
the error, and along a fold. A successful fold is reasoned about with an
invariant on the part already processed. Where a failure says something too, a
postcondition for each outcome is carried through binds and folds.
-/

namespace Wyrd

open List

variable {ε ε' α β σ : Type}

lemma bind_ok {next : α → Except ε β} :
    (first >>= next) = .ok result ↔ ∃ value, first = .ok value ∧ next value = .ok result := by
  cases first with
  | error => simp [bind, Except.bind]
  | ok => simp [bind, Except.bind]

lemma mapError_ok {convert : ε → ε'} {outcome : Except ε α} :
    outcome.mapError convert = .ok value ↔ outcome = .ok value := by
  cases outcome <;> simp [Except.mapError]

/-- Whether a computation succeeds with such a value can be evaluated. -/
instance decidableOk (outcome : Except ε α) (holds : α → Prop) [DecidablePred holds] :
    Decidable (∃ value, outcome = .ok value ∧ holds value) :=
  match outcome with
  | .error _ => .isFalse fun ⟨_, same, _⟩ => nomatch same
  | .ok value => decidable_of_iff (holds value)
    ⟨fun here => ⟨value, rfl, here⟩, fun ⟨_, same, here⟩ => Except.ok.inj same ▸ here⟩

/-- One partial function has the values of another. -/
def Retains (small large : α → Option β) : Prop :=
  ∀ key value, small key = some value → large key = some value

lemma Retains.refl (values : α → Option β) : Retains values values := fun _ _ hf => hf

lemma Retains.trans {first second third : α → Option β} (early : Retains first second)
    (late : Retains second third) : Retains first third :=
  fun key value hf => late key value (early key value hf)

lemma Retains.update [DecidableEq α] {small large : α → Option β} (retains : Retains small large)
    (new : small key = none) (value : Option β) :
    Retains small (Function.update large key value) := by
  intro other found held
  have apart : other ≠ key := by
    rintro rfl
    cases new.symm.trans held
  rw [Function.update_of_ne apart]
  exact retains other found held

variable {items : List α}

/-- An invariant of the processed part and the state reached, kept by every
    successful step, holds at the end of a successful fold. -/
lemma foldlM_ok {step : σ → α → Except ε σ} (invariant : List α → σ → Prop)
    (hk : ∀ done item state next, done ++ [item] <+: items → invariant done state →
      step state item = .ok next → invariant (done ++ [item]) next) (initial : invariant [] start)
    (folded : items.foldlM step start = .ok final) : invariant items final := by
  suffices he : ∀ (rest done : List α) (state : σ), done ++ rest = items →
      invariant done state → rest.foldlM step state = .ok final → invariant items final from
    he items [] start rfl initial folded
  intro rest
  induction rest with
  | nil =>
    intro done state split holds stops
    rw [foldlM_nil] at stops
    cases stops
    rw [append_nil] at split
    exact split ▸ holds
  | cons item rest ih =>
    intro done state split holds goesOn
    rw [foldlM_cons, bind_ok] at goesOn
    obtain ⟨next, hs, goesOn⟩ := goesOn
    have more : done ++ [item] ++ rest = items := by simp [← split]
    have hr : done ++ [item] <+: items := more ▸ prefix_append _ _
    exact ih (done ++ [item]) next more (hk done item state next hr holds hs) goesOn

/-- What holds of a result, and what of an error. -/
def Yields (post : α → Prop) (fails : ε → Prop) : Except ε α → Prop
  | .ok value => post value
  | .error error => fails error

section Yields

variable {post : α → Prop} {fails : ε → Prop} {outcome : Except ε α}

lemma Yields.of_ok (worked : outcome = .ok value) (holds : post value) :
    Yields post fails outcome := by
  rw [worked]
  exact holds

lemma Yields.of_error (failed : outcome = .error error) (holds : fails error) :
    Yields post fails outcome := by
  rw [failed]
  exact holds

lemma Yields.ok (yields : Yields post fails outcome) (worked : outcome = .ok value) :
    post value := by
  rw [worked] at yields
  exact yields

lemma Yields.error {error} (yields : Yields post fails outcome) (failed : outcome = .error error) :
    fails error := by
  rw [failed] at yields
  exact yields

lemma Yields.bind {final : β → Prop} {next : α → Except ε β} (first : Yields post fails outcome)
    (rest : ∀ value, post value → Yields final fails (next value)) :
    Yields final fails (outcome >>= next) := by
  cases outcome with
  | error => exact first
  | ok value => exact rest value first

lemma Yields.bind_ok {final : β → Prop} {next : α → Except ε β} (worked : outcome = .ok value)
    (rest : Yields final fails (next value)) : Yields final fails (outcome >>= next) := by
  rw [worked]
  exact rest

lemma Yields.foldlM {step : σ → α → Except ε σ} {invariant : σ → Prop} {items : List α}
    (hk : ∀ item ∈ items, ∀ state, invariant state → Yields invariant fails (step state item))
    (initial : invariant start) : Yields invariant fails (items.foldlM step start) := by
  induction items generalizing start with
  | nil => exact initial
  | cons item rest ih =>
    rw [foldlM_cons]
    refine (hk item mem_cons_self start initial).bind fun next hh => ?_
    exact ih (fun later hm => hk later (mem_cons_of_mem _ hm)) hh

end Yields

variable {results : List β}

lemma paired_left (paired : List.Forall₂ related items results) (hm : item ∈ items) :
    ∃ result ∈ results, related item result := by
  induction paired with
  | nil => cases hm
  | @cons first result _ _ hh _ ih =>
    rcases mem_cons.mp hm with rfl | hl
    · exact ⟨result, mem_cons_self, hh⟩
    · obtain ⟨other, mem, ht⟩ := ih hl
      exact ⟨other, mem_cons_of_mem _ mem, ht⟩

lemma paired_right (paired : List.Forall₂ related items results) (hm : result ∈ results) :
    ∃ item ∈ items, related item result := paired_left paired.flip hm

lemma paired_trans {γ : Type} {first : α → β → Prop} {second : β → γ → Prop} {middle results}
    (one : List.Forall₂ first items middle) (two : List.Forall₂ second middle results) :
    List.Forall₂ (fun item result => ∃ between, first item between ∧ second between result) items
      results := by
  induction one generalizing results with
  | nil =>
    cases two
    exact .nil
  | cons hh _ ih =>
    cases two with
    | cons ht rest => exact .cons ⟨_, hh, ht⟩ (ih rest)

lemma paired_map {γ : Type} {f : α → γ} {g : β → γ}
    (paired : List.Forall₂ (fun item result => g result = f item) items results) :
    results.map g = items.map f := by
  induction paired with
  | nil => rfl
  | cons hh _ ih => rw [map_cons, map_cons, hh, ih]

lemma mapM_ok {f : α → Except ε β} :
    items.mapM f = .ok results ↔ List.Forall₂ (fun item result => f item = .ok result) items results := by
  induction items generalizing results with
  | nil =>
    rw [mapM_nil, forall₂_nil_left_iff]
    exact ⟨fun hd => (Except.ok.inj hd).symm, fun none => none ▸ rfl⟩
  | cons item rest ih =>
    rw [mapM_cons, forall₂_cons_left_iff, bind_ok]
    constructor
    · rintro ⟨result, hh, hl⟩
      obtain ⟨others, maps, hd⟩ := bind_ok.mp hl
      exact ⟨result, others, hh, ih.mp maps, (Except.ok.inj hd).symm⟩
    · rintro ⟨result, others, hh, maps, rfl⟩
      exact ⟨result, hh, bind_ok.mpr ⟨others, ih.mpr maps, rfl⟩⟩

lemma mapM_error {f : α → Except ε β} (fails : items.mapM f = .error error) :
    ∃ item ∈ items, f item = .error error := by
  induction items with
  | nil => cases fails
  | cons item rest ih =>
    rw [mapM_cons] at fails
    cases hh : f item with
    | error =>
      rw [hh] at fails
      cases fails
      exact ⟨item, mem_cons_self, hh⟩
    | ok =>
      rw [hh] at fails
      cases later : rest.mapM f with
      | error other =>
        rw [later] at fails
        cases fails
        obtain ⟨other, hm, fails⟩ := ih later
        exact ⟨other, mem_cons_of_mem _ hm, fails⟩
      | ok =>
        rw [later] at fails
        cases fails

/-- A map in `Option` whose function succeeds on every item succeeds, with the
    results of the items. -/
lemma mapM_total {f : α → Option β} (total : ∀ item ∈ items, ∃ result, f item = some result) :
    ∃ results, items.mapM f = some results ∧
      ∀ result, result ∈ results ↔ ∃ item ∈ items, f item = some result := by
  induction items with
  | nil => exact ⟨[], rfl, by simp⟩
  | cons item rest ih =>
    obtain ⟨first, hh⟩ := total item mem_cons_self
    obtain ⟨results, hl, hmem⟩ := ih fun other hm =>
      total other (mem_cons_of_mem _ hm)
    refine ⟨first :: results, by simp [mapM_cons, hh, hl], fun result => ?_⟩
    simp only [mem_cons, hmem, exists_eq_or_imp, hh, Option.some.injEq, eq_comm (a := result)]

end Wyrd
