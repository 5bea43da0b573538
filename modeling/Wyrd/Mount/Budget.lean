import Mathlib

/-! # The write budget

One entry per dirty handle, with the length of its buffered image, and their total. A
fold adds the bytes it submits to the total while it is in flight.
-/

namespace Wyrd.Mount

open List Option Nat AList

abbrev HandleId := Nat

/-- The bounds of a budget: of one handle, of all together, and on the number of dirty
    handles. -/
structure Limits where
  perHandle : Nat
  aggregate : Nat
  dirtyHandles : Nat
  deriving DecidableEq, Repr

inductive BudgetError where
  | handle
  | aggregate
  | dirtyHandles
  deriving DecidableEq, Repr

structure WriteBudget where
  lengths : AList (fun _ : HandleId => Nat)
  total : Nat

namespace WriteBudget

def empty : WriteBudget := ⟨∅, 0⟩

def entry (budget : WriteBudget) (handle : HandleId) : Option Nat := budget.lengths.lookup handle

def dirtyHandles (budget : WriteBudget) : Nat := budget.lengths.entries.length

/-- The lengths reserved for all handles together. -/
def sum (budget : WriteBudget) : Nat := (budget.lengths.entries.map Sigma.snd).sum

def reserve (limits : Limits) (budget : WriteBudget) (handle : HandleId) (newLen : Nat) :
    Except BudgetError WriteBudget :=
  if limits.perHandle < newLen then .error .handle
  else
    let old := budget.entry handle
    if old = none ∧ limits.dirtyHandles ≤ budget.dirtyHandles then .error .dirtyHandles
    else
      let adjusted := budget.total - old.getD 0 + newLen
      if limits.aggregate < adjusted then .error .aggregate
      else .ok ⟨budget.lengths.insert handle newLen, adjusted⟩

def release (budget : WriteBudget) (handle : HandleId) : WriteBudget :=
  match budget.entry handle with
  | none => budget
  | some length => ⟨budget.lengths.erase handle, budget.total - length⟩

def reserveFold (limits : Limits) (budget : WriteBudget) (bytes : Nat) :
    Except BudgetError WriteBudget :=
  if limits.aggregate < budget.total + bytes then .error .aggregate
  else .ok { budget with total := budget.total + bytes }

def releaseFold (budget : WriteBudget) (bytes : Nat) : WriteBudget :=
  { budget with total := budget.total - bytes }

variable {limits : Limits} {budget after : WriteBudget} {handle other : HandleId} {newLen : Nat}

/-- The lengths reserved for all handles but one. -/
def sumBut (budget : WriteBudget) (handle : HandleId) : Nat :=
  ((List.kerase handle budget.lengths.entries).map Sigma.snd).sum

lemma sum_split (budget : WriteBudget) (handle : HandleId) :
    budget.sum = (budget.entry handle).getD 0 + budget.sumBut handle := by
  unfold sum sumBut entry
  by_cases hm : handle ∈ budget.lengths
  · obtain ⟨length, before, behind, -, split, he⟩ := exists_of_kerase hm
    have hf : budget.lengths.lookup handle = some length :=
      mem_lookup_iff.mpr (by rw [split]; simp)
    rw [he, split, hf]
    simp only [map_append, map_cons, sum_append_nat, sum_cons, getD_some]
    omega
  · rw [lookup_eq_none.mpr hm, kerase_of_notMem_keys hm, getD_none, zero_add]

/-- The total is what is reserved for handles and for folds in flight, and nothing that was
    admitted is above its bound. -/
structure Balanced (limits : Limits) (budget : WriteBudget) (leased : Nat) : Prop where
  total : budget.total = budget.sum + leased
  together : budget.total ≤ limits.aggregate
  each : ∀ handle length, budget.entry handle = some length → length ≤ limits.perHandle

section

variable (admitted : budget.reserve limits handle newLen = .ok after)
include admitted

lemma reserve_ok :
    after.lengths = budget.lengths.insert handle newLen ∧
      after.total = budget.total - (budget.entry handle).getD 0 + newLen ∧
      newLen ≤ limits.perHandle ∧ after.total ≤ limits.aggregate := by
  unfold reserve at admitted
  dsimp only at admitted
  split_ifs at admitted with large _ full
  cases admitted
  exact ⟨rfl, rfl, not_lt.mp large, not_lt.mp full⟩

lemma reserve_entry : after.entry handle = some newLen := by
  rw [entry, (reserve_ok admitted).1, lookup_insert]

lemma reserve_other (hne : other ≠ handle) : after.entry other = budget.entry other := by
  rw [entry, (reserve_ok admitted).1, lookup_insert_ne hne, entry]

lemma reserve_balanced (balanced : budget.Balanced limits leased) :
    after.Balanced limits leased := by
  obtain ⟨inserted, total, small, fits⟩ := reserve_ok admitted
  refine ⟨?_, fits, fun other length found => ?_⟩
  · have after_sum : after.sum = newLen + budget.sumBut handle := by
      rw [sum, inserted]
      rfl
    have split := budget.sum_split handle
    have before := balanced.total
    omega
  · by_cases same : other = handle
    · rw [same, reserve_entry admitted] at found
      exact Option.some.inj found ▸ small
    · exact balanced.each other length (reserve_other admitted same ▸ found)

end

@[simp] lemma release_entry (budget : WriteBudget) (handle : HandleId) :
    (budget.release handle).entry handle = none := by
  unfold release
  split
  · assumption
  · exact lookup_erase ..

lemma release_other (hne : other ≠ handle) :
    (budget.release handle).entry other = budget.entry other := by
  unfold release
  split
  · rfl
  · exact lookup_erase_ne hne

lemma release_balanced (balanced : budget.Balanced limits leased) :
    (budget.release handle).Balanced limits leased := by
  have each (other : HandleId) (length : Nat)
      (found : (budget.release handle).entry other = some length) : length ≤ limits.perHandle := by
    by_cases same : other = handle
    · rw [same, release_entry] at found
      cases found
    · exact balanced.each other length (release_other same ▸ found)
  have before := balanced.total
  have together := balanced.together
  unfold release at each ⊢
  split
  · exact balanced
  · next length found =>
    rw [found] at each
    have split := budget.sum_split handle
    rw [found, getD_some] at split
    have erased : (⟨budget.lengths.erase handle, budget.total - length⟩ : WriteBudget).sum =
        budget.sumBut handle := rfl
    exact ⟨by dsimp only at erased ⊢; omega, by dsimp only; omega, each⟩

lemma release_sum (budget : WriteBudget) (handle : HandleId) :
    (budget.release handle).sum = budget.sumBut handle := by
  unfold release
  split
  · next absent =>
    have split := budget.sum_split handle
    rwa [absent, getD_none, zero_add] at split
  · rfl

/-- Lengths that the entries of distinct handles cover are at most what is reserved. -/
lemma sum_distinct_le {α : Type*} {items : List α} {owner : α → HandleId} {length : α → Nat}
    (distinct : (items.map owner).Nodup)
    (covered : ∀ item ∈ items, ∃ reserved,
      budget.entry (owner item) = some reserved ∧ length item ≤ reserved) :
    (items.map length).sum ≤ budget.sum := by
  induction items generalizing budget with
  | nil => exact zero_le _
  | cons item items ih =>
    obtain ⟨apart, distinct⟩ := nodup_cons.mp distinct
    obtain ⟨reserved, entry, small⟩ := covered item mem_cons_self
    have rest : (items.map length).sum ≤ (budget.release (owner item)).sum := by
      refine ih distinct fun other member => ?_
      have other_owner : owner other ≠ owner item := fun same =>
        apart (same ▸ mem_map_of_mem member)
      rw [release_other other_owner]
      exact covered other (mem_cons_of_mem _ member)
    rw [release_sum] at rest
    have split := budget.sum_split (owner item)
    rw [entry, getD_some] at split
    rw [map_cons, sum_cons]
    omega

lemma reserveFold_ok (granted : budget.reserveFold limits bytes = .ok after) :
    after = { budget with total := budget.total + bytes } ∧
      budget.total + bytes ≤ limits.aggregate := by
  unfold reserveFold at granted
  split_ifs at granted with full
  exact ⟨(Except.ok.inj granted).symm, not_lt.mp full⟩

lemma releaseFold_balanced (balanced : budget.Balanced limits (bytes + leased)) :
    (budget.releaseFold bytes).Balanced limits leased := by
  obtain ⟨total, together, each⟩ := balanced
  refine ⟨?_, (sub_le ..).trans together, each⟩
  have same : (budget.releaseFold bytes).sum = budget.sum := rfl
  rw [same, releaseFold, total]
  dsimp only
  omega

end WriteBudget

end Wyrd.Mount
