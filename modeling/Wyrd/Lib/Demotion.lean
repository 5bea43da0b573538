import Mathlib

/-! # In-place demotion loops

A table holds a value for each item, and one value is provisional. Rounds visit
the items in a fixed order, re-derive each item that still holds the provisional
value and write a different result back at once; a demoted item keeps what it
got. The loop ends after a round without a change.

Which items stay provisional does not depend on the order when the rule is
monotone: they are the largest set that supports itself. What a demoted item
gets may depend on it, and `Steps` says which results an order can force.
-/

namespace Wyrd.Demotion

open List

variable {ι V : Type*} [DecidableEq ι]

section Loop

variable [DecidableEq V] (top : V) (derive : (ι → V) → ι → V)

/-- Visit one item; the flag records whether anything changed. -/
def visit (round : (ι → V) × Bool) (item : ι) : (ι → V) × Bool :=
  if round.1 item = top then
    let next := derive round.1 item
    if next = top then round else (Function.update round.1 item next, true)
  else round

def pass (order : List ι) (table : ι → V) : (ι → V) × Bool :=
  order.foldl (visit top derive) (table, false)

/-- Rounds until one changes nothing. -/
def settle (order : List ι) : Nat → (ι → V) → (ι → V)
  | 0, table => table
  | fuel + 1, table =>
    let next := pass top derive order table
    if next.2 then settle order fuel next.1 else next.1

end Loop

section Rules

variable (top : V) (derive : (ι → V) → ι → V)

/-- One item loses the provisional value. -/
def Demotes (order : List ι) (before after : ι → V) : Prop :=
  ∃ item ∈ order, before item = top ∧ derive before item ≠ top ∧
    after = Function.update before item (derive before item)

def Run (order : List ι) : (ι → V) → (ι → V) → Prop :=
  Relation.ReflTransGen (Demotes top derive order)

/-- No further demotion is due. -/
def Stable (order : List ι) (table : ι → V) : Prop :=
  ∀ item ∈ order, table item = top → derive table item = top

/-- While all of a set is provisional, each member derives so. -/
def Supported (support : Set ι) : Prop :=
  ∀ table : ι → V, (∀ item ∈ support, table item = top) → ∀ item ∈ support, derive table item = top

/-- More provisional items never take the provisional value away. -/
def Monotone : Prop :=
  ∀ (fewer more : ι → V) (item : ι), (∀ other, fewer other = top → more other = top) →
    derive fewer item = top → derive more item = top

end Rules

variable {top : V} {derive : (ι → V) → ι → V} {order : List ι}

variable {before after : ι → V}

lemma Demotes.frozen (step : Demotes top derive order before after)
    (lowered : before item ≠ top) : after item = before item := by
  obtain ⟨visited, _, ht, _, rfl⟩ := step
  have apart : item ≠ visited := fun hs => lowered (hs ▸ ht)
  exact Function.update_of_ne apart _ _

section

variable (run : Run top derive order before after)
include run

lemma Run.preserves (invariant : (ι → V) → Prop) (start : invariant before)
    (step : ∀ table, ∀ item ∈ order, invariant table → table item = top →
      derive table item ≠ top → invariant (Function.update table item (derive table item))) :
    invariant after := by
  induction run with
  | refl => exact start
  | tail _ hm ih =>
    obtain ⟨item, hl, hh, lost, rfl⟩ := hm
    exact step _ item hl ih hh lost

lemma Run.frozen (lowered : before item ≠ top) : after item = before item := by
  induction run with
  | refl => rfl
  | tail _ hs ih => rw [hs.frozen (ih ▸ lowered), ih]

lemma Run.provisional (hk : after item = top) : before item = top := by
  by_contra lowered
  exact lowered ((run.frozen lowered).symm.trans hk)

end

lemma Demotes.keeps (step : Demotes top derive order before after)
    (backed : Supported top derive support) (held : ∀ item ∈ support, before item = top) :
    ∀ item ∈ support, after item = top := by
  obtain ⟨visited, _, _, lost, rfl⟩ := step
  intro item hm
  have apart : item ≠ visited := by
    rintro rfl
    exact lost (backed before held item hm)
  rw [Function.update_of_ne apart]
  exact held item hm

lemma Run.keeps (run : Run top derive order before after)
    (backed : Supported top derive support) (held : ∀ item ∈ support, before item = top) :
    ∀ item ∈ support, after item = top := by
  induction run with
  | refl => exact held
  | tail _ hs ih => exact hs.keeps backed ih

omit [DecidableEq ι] in
/-- What a stable table leaves provisional supports itself. -/
lemma Stable.supported (mono : Monotone top derive) (stable : Stable top derive order table)
    (hl : ∀ item, table item = top → item ∈ order) :
    Supported top derive {item | table item = top} := by
  intro other hh item hm
  exact mono table other item hh (stable item (hl item hm) hm)

/-- The provisional items of a stable end are those of some self-supporting set
    of the start, whatever the order of the demotions. -/
lemma stable_iff (mono : Monotone top derive) (run : Run top derive order start final)
    (stable : Stable top derive order final) (hl : ∀ item, start item = top → item ∈ order)
    (item : ι) :
    final item = top ↔ ∃ support : Set ι, Supported top derive support ∧
      (∀ other ∈ support, start other = top) ∧ item ∈ support := by
  constructor
  · intro hk
    exact ⟨{other | final other = top},
      stable.supported mono fun other held => hl other (run.provisional held),
      fun other held => run.provisional held, hk⟩
  · rintro ⟨support, hb, held, hm⟩
    exact run.keeps hb held item hm

def provisional [DecidableEq V] (top : V) (order : List ι) (table : ι → V) : Finset ι :=
  order.toFinset.filter (fun item => table item = top)

lemma Demotes.card_lt [DecidableEq V] (step : Demotes top derive order before after) :
    (provisional top order after).card < (provisional top order before).card := by
  obtain ⟨visited, hl, held, lost, rfl⟩ := step
  apply Finset.card_lt_card
  refine (Finset.ssubset_iff_of_subset fun item hm => ?_).mpr ⟨visited, ?_, ?_⟩
  · obtain ⟨hr, hk⟩ := Finset.mem_filter.mp hm
    refine Finset.mem_filter.mpr ⟨hr, ?_⟩
    by_cases hs : item = visited
    · rw [hs, held]
    · rwa [Function.update_of_ne hs] at hk
  · exact Finset.mem_filter.mpr ⟨mem_toFinset.mpr hl, held⟩
  · simp [provisional, lost]

lemma transGen_card_lt [DecidableEq V]
    (steps : Relation.TransGen (Demotes top derive order) before after) :
    (provisional top order after).card < (provisional top order before).card := by
  induction steps with
  | single step => exact step.card_lt
  | tail _ step ih => exact step.card_lt.trans ih

lemma provisional_card_le [DecidableEq V] (top : V) (order : List ι) (table : ι → V) :
    (provisional top order table).card ≤ order.length :=
  (Finset.card_filter_le _ _).trans (toFinset_card_le order)

section Spec

variable [DecidableEq V] (top : V) (derive : (ι → V) → ι → V)

lemma visit_run (round : (ι → V) × Bool) (hl : item ∈ order) :
    Run top derive order round.1 (visit top derive round item).1 ∧
      ((visit top derive round item).2 = false →
        visit top derive round item = round ∧
          (round.1 item = top → derive round.1 item = top)) ∧
      ((visit top derive round item).2 = true →
        round.2 = true ∨ Relation.TransGen (Demotes top derive order) round.1
          (visit top derive round item).1) := by
  simp only [visit]
  split_ifs with tentative stays
  · exact ⟨.refl, fun _ => ⟨rfl, fun _ => stays⟩, .inl⟩
  · have step : Demotes top derive order round.1
        (Function.update round.1 item (derive round.1 item)) :=
      ⟨item, hl, tentative, stays, rfl⟩
    exact ⟨.single step, fun flag => absurd flag (by simp), fun _ => .inr (.single step)⟩
  · exact ⟨.refl, fun _ => ⟨rfl, fun hh => absurd hh tentative⟩, .inl⟩

lemma foldl_visit (items : List ι) (hl : ∀ item ∈ items, item ∈ order) (round : (ι → V) × Bool) :
    Run top derive order round.1 (items.foldl (visit top derive) round).1 ∧
      ((items.foldl (visit top derive) round).2 = false →
        items.foldl (visit top derive) round = round ∧ Stable top derive items round.1) ∧
      ((items.foldl (visit top derive) round).2 = true →
        round.2 = true ∨ Relation.TransGen (Demotes top derive order) round.1
          (items.foldl (visit top derive) round).1) := by
  induction items generalizing round with
  | nil => exact ⟨.refl, fun _ => ⟨rfl, by simp [Stable]⟩, .inl⟩
  | cons item rest ih =>
    obtain ⟨first, hq, moved⟩ := visit_run top derive round (hl item mem_cons_self)
    obtain ⟨later, hq', moved'⟩ := ih (fun other hm =>
      hl other (mem_cons_of_mem _ hm)) (visit top derive round item)
    rw [foldl_cons]
    refine ⟨first.trans later, fun flag => ?_, fun flag => ?_⟩
    · obtain ⟨hs, stable⟩ := hq' flag
      rw [hs] at flag
      obtain ⟨same, hh⟩ := hq flag
      rw [same] at stable
      refine ⟨hs.trans same, fun other hm => ?_⟩
      rcases mem_cons.mp hm with rfl | hi
      · exact hh
      · exact stable other hi
    · rcases moved' flag with ha | strictly
      · rcases moved ha with before | strictly
        · exact .inl before
        · exact .inr (strictly.trans_left later)
      · exact .inr (Relation.TransGen.trans_right first strictly)

lemma pass_run (order : List ι) (table : ι → V) :
    Run top derive order table (pass top derive order table).1 :=
  (foldl_visit top derive order (fun _ => id) (table, false)).1

lemma settle_run (fuel : Nat) (table : ι → V) :
    Run top derive order table (settle top derive order fuel table) := by
  induction fuel generalizing table with
  | zero => exact .refl
  | succ fuel ih =>
    have first := pass_run top derive order table
    rw [settle]
    by_cases flag : (pass top derive order table).2 = true
    · simp only [flag, if_true]
      exact first.trans (ih _)
    · simpa only [flag, Bool.false_eq_true, if_false] using first

lemma settle_stable (fuel : Nat) (table : ι → V)
    (ample : (provisional top order table).card < fuel) :
    Stable top derive order (settle top derive order fuel table) := by
  induction fuel generalizing table with
  | zero => omega
  | succ fuel ih =>
    obtain ⟨_, hq, moved⟩ := foldl_visit top derive order (fun _ => id) (table, false)
    rw [← pass] at hq moved
    rw [settle]
    by_cases flag : (pass top derive order table).2 = true
    · rcases moved flag with hi | strictly
      · cases hi
      · have fewer := transGen_card_lt strictly
        dsimp only at fewer
        simp only [flag, if_true]
        exact ih _ (by omega)
    · obtain ⟨hs, stable⟩ := hq (by simpa using flag)
      simp only [hs, Bool.false_eq_true, if_false]
      exact stable

end Spec

/-- Demoting the listed items one after another. -/
inductive Steps (top : V) (derive : (ι → V) → ι → V) : (ι → V) → List ι → (ι → V) → Prop where
  | nil {table} : Steps top derive table [] table
  | cons {before item rest after} : before item = top → derive before item ≠ top →
      Steps top derive (Function.update before item (derive before item)) rest after →
      Steps top derive before (item :: rest) after

namespace Steps

variable {before after : ι → V} {items : List ι}

lemma run (steps : Steps top derive before items after) (hl : ∀ item ∈ items, item ∈ order) :
    Run top derive order before after := by
  induction steps with
  | nil => exact .refl
  | cons hh lost _ ih =>
    exact .head ⟨_, hl _ mem_cons_self, hh, lost, rfl⟩
      (ih fun item hm => hl item (mem_cons_of_mem _ hm))

lemma append (first : Steps top derive before items middle)
    (second : Steps top derive middle more after) :
    Steps top derive before (items ++ more) after := by
  induction first with
  | nil => exact second
  | cons hh lost _ ih => exact .cons hh lost (ih second)

section

variable (steps : Steps top derive before items after)
include steps

lemma untouched (apart : item ∉ items) : after item = before item := by
  induction steps with
  | nil => rfl
  | cons hh lost _ ih =>
    rw [mem_cons, not_or] at apart
    rw [ih apart.2, Function.update_of_ne apart.1]

lemma held : (∀ item ∈ items, before item = top ∧ after item ≠ top) ∧ items.Nodup := by
  induction steps with
  | nil => simp
  | @cons before item rest after hh lost hl ih =>
    obtain ⟨each, ho⟩ := ih
    have new : item ∉ rest := by
      intro again
      have still := (each item again).1
      rw [Function.update_self] at still
      exact lost still
    have stays : after item = derive before item := by
      have run : Run top derive rest _ _ := hl.run fun _ => id
      rw [run.frozen (by rw [Function.update_self]; exact lost), Function.update_self]
    refine ⟨fun other hm => ?_, nodup_cons.mpr ⟨new, ho⟩⟩
    rcases mem_cons.mp hm with rfl | inRest
    · exact ⟨hh, stays ▸ lost⟩
    · have apart : other ≠ item := fun hs => new (hs ▸ inRest)
      obtain ⟨prior', ha'⟩ := each other inRest
      rw [Function.update_of_ne apart] at prior'
      exact ⟨prior', ha'⟩

lemma foldl_visit [DecidableEq V] (flag : Bool) :
    (items.foldl (visit top derive) (before, flag)).1 = after := by
  induction steps generalizing flag with
  | nil => rfl
  | cons hh lost _ ih =>
    rw [foldl_cons]
    simp only [visit, hh, lost, if_true, if_false]
    exact ih true

/-- An order that begins with the listed items makes their demotions first. -/
lemma settle [DecidableEq V] (rest : List ι) (fuel : Nat) :
    Run top derive (items ++ rest) after
      (Demotion.settle top derive (items ++ rest) (fuel + 1) before) := by
  have first : Run top derive (items ++ rest) after (pass top derive (items ++ rest) before).1 := by
    have later := (Demotion.foldl_visit top derive rest
      (fun item hm => mem_append_right items hm)
      (items.foldl (visit top derive) (before, false))).1
    rwa [steps.foldl_visit, ← foldl_append, ← pass] at later
  rw [Demotion.settle]
  by_cases flag : (pass top derive (items ++ rest) before).2 = true
  · simp only [flag, if_true]
    exact first.trans (settle_run top derive fuel _)
  · simpa only [flag, Bool.false_eq_true, if_false] using first

end

/-- Outside a fixed set, demotions can always be carried on until none is due. -/
lemma exhaust [DecidableEq V] (top : V) (derive : (ι → V) → ι → V) (order : List ι)
    (fixed : Set ι) (start : ι → V) (hl : ∀ item, start item = top → item ∈ order) :
    ∃ items final, Steps top derive start items final ∧ (∀ item ∈ items, item ∉ fixed) ∧
      ∀ item, final item = top → item ∉ fixed → derive final item = top := by
  induction size : (provisional top order start).card using Nat.strong_induction_on
    generalizing start with
  | _ n ih =>
    by_cases due : ∃ item, start item = top ∧ item ∉ fixed ∧ derive start item ≠ top
    · obtain ⟨item, held, out, lost⟩ := due
      have step : Demotes top derive order start (Function.update start item (derive start item)) :=
        ⟨item, hl item held, held, lost, rfl⟩
      have run : Run top derive order start
          (Function.update start item (derive start item)) := .single step
      have fewer := step.card_lt
      obtain ⟨items, final, later, ha, hd⟩ := ih _ (size ▸ fewer)
        (Function.update start item (derive start item))
        (fun other hk => hl other (run.provisional hk)) rfl
      refine ⟨item :: items, final, .cons held lost later, fun other hm => ?_, hd⟩
      rcases mem_cons.mp hm with rfl | hi
      · exact out
      · exact ha other hi
    · refine ⟨[], start, .nil, by simp, fun item held out => ?_⟩
      by_contra lost
      exact due ⟨item, held, out, lost⟩

end Steps

section Rename

variable {κ : Type*} [DecidableEq κ] [DecidableEq V] {derive' : (κ → V) → κ → V} (rename : ι ≃ κ)

section

variable (agree : ∀ table item, derive' table (rename item) = derive (table ∘ rename) item)
include agree

lemma visit_rename (round : (κ → V) × Bool) (item : ι) :
    visit top derive (round.1 ∘ rename, round.2) item =
      ((visit top derive' round (rename item)).1 ∘ rename,
        (visit top derive' round (rename item)).2) := by
  simp only [visit, Function.comp_apply, agree]
  split_ifs
  · rfl
  · simp only [Prod.mk.injEq, and_true]
    funext other
    simp [Function.update_apply]
  · rfl

lemma foldl_visit_rename (items : List ι) (round : (κ → V) × Bool) :
    items.foldl (visit top derive) (round.1 ∘ rename, round.2) =
      (((items.map rename).foldl (visit top derive') round).1 ∘ rename,
        ((items.map rename).foldl (visit top derive') round).2) := by
  induction items generalizing round with
  | nil => rfl
  | cons item rest ih =>
    rw [foldl_cons, visit_rename rename agree, ih, map_cons, foldl_cons]

/-- The loop commutes with a renaming of the items that the rule respects. -/
lemma settle_rename (fuel : Nat) (table : κ → V) :
    settle top derive order fuel (table ∘ rename) =
      settle top derive' (order.map rename) fuel table ∘ rename := by
  induction fuel generalizing table with
  | zero => rfl
  | succ fuel ih =>
    simp only [settle, pass, foldl_visit_rename rename agree order (table, false)]
    by_cases changed : ((order.map rename).foldl (visit top derive') (table, false)).2 = true
    · simp only [changed, if_true]
      exact ih _
    · simp only [changed, if_false, Bool.false_eq_true]

end

end Rename

end Wyrd.Demotion
