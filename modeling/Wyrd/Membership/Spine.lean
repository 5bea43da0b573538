import Wyrd.Membership.Walk

/-! # The order of slots and what each one decides

Slots are visited along one `prev`-linked chain of valid transitions whose
epochs count up from one. A slot only touches transitions one or two epochs
above it, and those below the next slot, so no transition is touched twice and
the status the walk leaves is the one its slot gave.
-/

namespace Wyrd.Membership

open List Relation.ReflTransGen

variable {P : Primitives} {log : MembershipLog P}

/-- A `prev`-linked chain of valid transitions from a genesis. -/
inductive Spine (log : MembershipLog P) : List TransitionId → Prop where
  | nil : Spine log []
  | snoc {chain id} : Spine log chain → isValid (linkOf log) id = true →
      prevOf log id = chain.getLast? → Spine log (chain ++ [id])

/-- The epoch of a slot; the empty slot is before epoch one. -/
def slotEpoch (log : MembershipLog P) (slot : Option TransitionId) : Nat :=
  slot.elim 0 (epochOf log)

lemma valid_epoch {id} (hv : isValid (linkOf log) id = true) :
    epochOf log id = slotEpoch log (prevOf log id) + 1 := by
  obtain ⟨state, admitted, ht⟩ := isValid_iff.mp hv
  obtain ⟨t, hf, hi, genesis | ⟨prevId, prevT, _, _, _, succeeds⟩⟩ := linkOf_valid ht
  · rw [prevOf_of_transition hf, genesis.1, epochOf_of_transition hf]
    exact (checkIntrinsic_ok P hi).1.mp genesis.1
  · rw [prevOf_of_transition hf, succeeds.prev, epochOf_of_transition hf, ← succeeds.epoch]
    simp [slotEpoch, epochOf_of_transition succeeds.observed]

lemma valid_prev {id prev} (hv : isValid (linkOf log) id = true)
    (hn : prevOf log id = some prev) : isValid (linkOf log) prev = true := by
  obtain ⟨state, admitted, ht⟩ := isValid_iff.mp hv
  obtain ⟨t, hf, _, hg | ⟨prevId, _, prevState, prevAdmitted, hp, hs⟩⟩ :=
    linkOf_valid ht
  · rw [prevOf_of_transition hf, hg.1] at hn
    cases hn
  · rw [prevOf_of_transition hf, hs.prev] at hn
    cases hn
    exact isValid_iff.mpr ⟨prevState, prevAdmitted, hp⟩

lemma valid_resolves {id entry} (hv : isValid (linkOf log) id = true)
    (hn : entry ∈ resolvesOf log id) :
    isValid (linkOf log) entry = true ∧ epochOf log entry + 1 = epochOf log id := by
  obtain ⟨state, admitted, ht⟩ := isValid_iff.mp hv
  obtain ⟨t, hf, hi, hg | ⟨prevId, prevT, _, _, _, hs⟩⟩ := linkOf_valid ht
  · rw [resolvesOf_of_transition hf, (checkIntrinsic_ok P hi).2 hg.1] at hn
    simp at hn
  · rw [resolvesOf_of_transition hf] at hn
    obtain ⟨he, below, hb, hu⟩ := hs.resolves entry hn
    rw [epochOf_of_transition hf, epochOf_of_transition hb]
    exact ⟨he, (checkedAdd_eq_some.mp hu).1⟩

namespace Spine

variable {chain : List TransitionId}

section

variable (spine : Spine log chain)
include spine

lemma valid : ∀ id ∈ chain, isValid (linkOf log) id = true := by
  induction spine with
  | nil => simp
  | snoc _ hv _ ih =>
    intro id hm
    rcases mem_append.mp hm with hi | hl
    · exact ih id hi
    · exact mem_singleton.mp hl ▸ hv

lemma length_eq : chain.length = slotEpoch log chain.getLast? := by
  induction spine with
  | nil => rfl
  | snoc _ hv ht ih =>
    rw [length_append, length_singleton, List.getLast?_concat, ih, ← ht]
    exact (valid_epoch hv).symm

lemma epochs_eq : chain.map (epochOf log) = List.range' 1 chain.length := by
  induction spine with
  | nil => rfl
  | snoc spine hv ht ih =>
    rw [map_append, ih, length_append, length_singleton, range'_1_concat,
      map_singleton, valid_epoch hv, ht, ← spine.length_eq, Nat.add_comm 1]

lemma epoch_mem {id} (hm : id ∈ chain) : 1 ≤ epochOf log id ∧ epochOf log id ≤ chain.length := by
  have hl : epochOf log id ∈ chain.map (epochOf log) := mem_map_of_mem hm
  rw [spine.epochs_eq, mem_range'_1] at hl
  omega

lemma nodup : chain.Nodup := by
  apply List.Nodup.of_map (epochOf log)
  rw [spine.epochs_eq]
  exact nodup_range'

lemma length_le : chain.length ≤ log.len := by
  have seen : chain ⊆ log.observedIds :=
    fun id hm => mem_observedIds.mpr (isValid_observed (spine.valid id hm))
  simpa [MembershipLog.observedIds, MembershipLog.len] using (spine.nodup.subperm seen).length_le

end

lemma unique (first : Spine log left) (second : Spine log right)
    (hs : left.getLast? = right.getLast?) : left = right := by
  induction first generalizing right with
  | nil =>
    cases second with
    | nil => rfl
    | snoc => simp at hs
  | snoc _ _ ht ih =>
    cases second with
    | nil => simp at hs
    | snoc spine _ ho =>
      rw [List.getLast?_concat, List.getLast?_concat, Option.some.injEq] at hs
      subst hs
      rw [ih spine (ht.symm.trans ho)]

lemma of_append (spine : Spine log (front ++ back)) : Spine log front := by
  induction back using List.reverseRecOn with
  | nil => simpa using spine
  | append_singleton back id ih =>
    rw [← append_assoc] at spine
    generalize joined : front ++ back ++ [id] = chain at spine
    cases spine with
    | nil => simp at joined
    | snoc inner =>
      obtain ⟨rfl, _⟩ := append_inj' joined rfl
      exact ih inner

lemma linked {front back id} (spine : Spine log (front ++ id :: back)) :
    prevOf log id = front.getLast? := by
  have inner : Spine log (front ++ [id]) := by
    have split : front ++ id :: back = front ++ [id] ++ back := by simp
    exact Spine.of_append (split ▸ spine)
  generalize joined : front ++ [id] = chain at inner
  cases inner with
  | nil => simp at joined
  | snoc _ _ hn =>
    obtain ⟨rfl, hs⟩ := append_inj' joined rfl
    cases hs
    exact hn

end Spine

variable {slot : Option TransitionId} {picked : List TransitionId}

/-- A selection either takes the only contender, or a winner together with the
    only resolution that names exactly the others. -/
lemma advance_cases (moves : advance log slot = some (picked, tip)) :
    (contenders log slot = [tip] ∧ resolvesOf log tip = [] ∧ picked = [tip]) ∨
      ∃ winner, 2 ≤ (contenders log slot).length ∧
        resolutions log (contenders log slot) = [tip] ∧ prevOf log tip = some winner ∧
        winner ∈ contenders log slot ∧ picked = [winner, tip] := by
  simp only [advance] at moves
  cases vies : contenders log slot with
  | nil => simp [vies] at moves
  | cons first rest =>
    cases rest with
    | nil =>
      simp only [vies] at moves
      split_ifs at moves with hp
      simp only [Option.some.injEq, Prod.mk.injEq] at moves
      obtain ⟨rfl, rfl⟩ := moves
      exact .inl ⟨rfl, hp, rfl⟩
    | cons second rest =>
      simp only [vies] at moves
      cases exact : resolutions log (first :: second :: rest) with
      | nil => simp [exact] at moves
      | cons r others =>
        cases others with
        | cons => simp [exact] at moves
        | nil =>
          obtain ⟨winner, hm, prev, _⟩ :=
            mem_resolutions.mp (exact ▸ mem_singleton_self r)
          simp only [exact, prev, Option.map_some, Option.some.injEq, Prod.mk.injEq] at moves
          obtain ⟨rfl, rfl⟩ := moves
          exact .inr ⟨winner, by simp, rfl, prev, hm, rfl⟩

lemma picked_length (moves : advance log slot = some (picked, tip)) : 1 ≤ picked.length := by
  rcases advance_cases moves with ⟨_, _, rfl⟩ | ⟨_, _, _, _, _, rfl⟩ <;> simp

/-- The walk reaches a slot, having selected a chain. -/
inductive Reaches (log : MembershipLog P) : Option TransitionId → List TransitionId → Prop where
  | root : Reaches log none []
  | next {slot chain picked tip} : Reaches log slot chain →
      advance log slot = some (picked, tip) → Reaches log (some tip) (chain ++ picked)

def Tip (log : MembershipLog P) (slot : Option TransitionId) : Prop :=
  ∃ chain, Reaches log slot chain

/-- One move of the walk, with the chain selected so far. -/
def Move (log : MembershipLog P) (a b : Option TransitionId × List TransitionId) : Prop :=
  ∃ picked tip, advance log a.1 = some (picked, tip) ∧ b = (some tip, a.2 ++ picked)

lemma Move.rightUnique (log : MembershipLog P) : Relator.RightUnique (Move log) := by
  rintro a b c ⟨picked, tip, hm, rfl⟩ ⟨picked', tip', moves', rfl⟩
  rw [hm] at moves'
  cases moves'
  rfl

lemma Move.extends_chain (moves : Relation.ReflTransGen (Move log) a b) : a.2 <+: b.2 := by
  induction moves with
  | refl => exact prefix_rfl
  | tail _ move ih =>
    obtain ⟨picked, tip, _, rfl⟩ := move
    exact ih.trans (prefix_append _ _)

variable {chain : List TransitionId}

section

variable (path : Reaches log slot chain)
include path

lemma Reaches.moves : Relation.ReflTransGen (Move log) (none, []) (slot, chain) := by
  induction path with
  | root => exact .refl
  | next _ hm ih => exact ih.tail ⟨_, _, hm, rfl⟩

lemma Reaches.spine : Spine log chain ∧ chain.getLast? = slot := by
  induction path with
  | root => exact ⟨.nil, rfl⟩
  | @next slot chain picked tip _ moves ih =>
    obtain ⟨spine, last⟩ := ih
    rcases advance_cases moves with ⟨only, _, rfl⟩ | ⟨winner, _, exact, hp, hm, rfl⟩
    · obtain ⟨hv, hn⟩ := mem_contenders.mp (only ▸ mem_singleton_self tip)
      exact ⟨.snoc spine hv (hn.trans last.symm), List.getLast?_concat⟩
    · obtain ⟨hv, hn⟩ := mem_contenders.mp hm
      obtain ⟨_, _, _, ht, _⟩ := mem_resolutions.mp (exact ▸ mem_singleton_self tip)
      have upToWinner : Spine log (chain ++ [winner]) :=
        .snoc spine hv (hn.trans last.symm)
      have whole : Spine log (chain ++ [winner] ++ [tip]) :=
        .snoc upToWinner ht (by rw [List.getLast?_concat, hp])
      exact ⟨by simpa using whole, by simp⟩

lemma Reaches.length_eq : chain.length = slotEpoch log slot := by
  obtain ⟨spine, hl⟩ := path.spine
  rw [spine.length_eq, hl]

end

lemma Reaches.unique (first : Reaches log slot left) (second : Reaches log slot right) :
    left = right :=
  first.spine.1.unique second.spine.1 (first.spine.2.trans second.spine.2.symm)

/-- Of two slots the walk reaches, the earlier one advances and all it selects
    is on the chain of the later one. -/
lemma Reaches.compare (first : Reaches log slot chain) (second : Reaches log slot' chain') :
    slot = slot' ∨
      (∃ picked tip, advance log slot = some (picked, tip) ∧ chain ++ picked <+: chain') ∨
      (∃ picked tip, advance log slot' = some (picked, tip) ∧ chain' ++ picked <+: chain) := by
  rcases total_of_right_unique (Move.rightUnique log) first.moves second.moves with
    later | later
  · rcases cases_head later with hs | ⟨mid, move, rest⟩
    · exact .inl (Prod.mk.inj hs).1
    · obtain ⟨picked, tip, moves, rfl⟩ := move
      exact .inr (.inl ⟨picked, tip, moves, Move.extends_chain rest⟩)
  · rcases cases_head later with hs | ⟨mid, move, rest⟩
    · exact .inl (Prod.mk.inj hs).1.symm
    · obtain ⟨picked, tip, moves, rfl⟩ := move
      exact .inr (.inr ⟨picked, tip, moves, Move.extends_chain rest⟩)

end Wyrd.Membership
