import Mathlib

/-! # Exploring with a worklist

A stack of items still to visit and the set of items seen. Visiting an item
pushes those of its successors that are new. An item is pushed once, so fuel for
all that can be named is enough, and what is seen at the end is what can be
reached.
-/

namespace Wyrd.Worklist

open List

variable {α : Type} [DecidableEq α]

/-- See one successor: push it if it is new. -/
def push (stack : List α) (seen : Finset α) (item : α) : List α × Finset α :=
  if item ∈ seen then (stack, seen) else (item :: stack, insert item seen)

def pushAll : List α → List α → Finset α → List α × Finset α
  | [], stack, seen => (stack, seen)
  | item :: rest, stack, seen =>
    let pushed := push stack seen item
    pushAll rest pushed.1 pushed.2

def explore (next : α → List α) : Nat → List α → Finset α → Finset α
  | 0, _, seen => seen
  | _ + 1, [], seen => seen
  | fuel + 1, item :: stack, seen =>
    let pushed := pushAll (next item) stack seen
    explore next fuel pushed.1 pushed.2

/-- Everything pushed is seen, seen items stay, and each push sees a new item. -/
structure Pushed (items stack : List α) (seen : Finset α) (after : List α × Finset α) : Prop where
  sees : ∀ item, item ∈ after.2 ↔ item ∈ seen ∨ item ∈ items
  keeps : ∀ item ∈ stack, item ∈ after.1
  fresh : ∀ item ∈ after.1, item ∈ stack ∨ item ∈ items
  visited : ∀ item ∈ after.2, item ∈ seen ∨ item ∈ after.1
  count : after.1.length + seen.card = stack.length + after.2.card

lemma pushAll_pushed (items stack : List α) (seen : Finset α) :
    Pushed items stack seen (pushAll items stack seen) := by
  induction items generalizing stack seen with
  | nil => exact ⟨by simp [pushAll], fun _ hm => hm, fun _ hm => .inl hm, fun _ hm => .inl hm, rfl⟩
  | cons item rest ih =>
    simp only [pushAll, push]
    split_ifs with known
    · obtain ⟨all, stack, new, met, count⟩ := ih stack seen
      refine ⟨fun other => ?_, stack, fun other hm => ?_, met, count⟩
      · rw [all, mem_cons]
        constructor
        · rintro (old | later)
          · exact .inl old
          · exact .inr (.inr later)
        · rintro (old | rfl | later)
          · exact .inl old
          · exact .inl known
          · exact .inr later
      · rcases new other hm with old | later
        · exact .inl old
        · exact .inr (mem_cons_of_mem _ later)
    · obtain ⟨all, stacked, new, met, count⟩ := ih (item :: stack) (insert item seen)
      refine ⟨fun other => ?_, fun other hm => stacked other (mem_cons_of_mem _ hm),
        fun other hm => ?_, fun other hm => ?_, ?_⟩
      · rw [all, Finset.mem_insert, mem_cons]
        tauto
      · rcases new other hm with old | later
        · rcases mem_cons.mp old with rfl | old
          · exact .inr mem_cons_self
          · exact .inl old
        · exact .inr (mem_cons_of_mem _ later)
      · rcases met other hm with old | later
        · rcases Finset.mem_insert.mp old with rfl | old
          · exact .inr (stacked other mem_cons_self)
          · exact .inl old
        · exact .inr later
      · rw [Finset.card_insert_of_notMem known, length_cons] at count
        dsimp only
        omega

end Wyrd.Worklist
