import Wyrd.Authorization.Recovery

/-! # What the visiting order decides

A snapshot leaves the live lineage for good with the first verdict that is not
live. Which snapshots leave does not depend on the order of the visits, but
whether one leaves dead or undecided may: a snapshot with undecided ancestry can
be found childless before the news of that ancestry reaches it. This module says
exactly when the order of the visits shows in the verdicts.
-/

namespace Wyrd.Authorization

open List Function

open Wyrd.Membership

variable {P : Primitives} {dag : SnapshotDag P} {k : Option Nat}

/-- A liveness verdict without the reason for indecision. -/
inductive Kind where
  | live
  | dead
  | undecided
  deriving DecidableEq

def Live.kind : Live → Kind
  | .live => .live
  | .dead => .dead
  | .undecided _ => .undecided

lemma Live.kind_live {verdict : Live} : verdict.kind = .live ↔ verdict = .live := by
  cases verdict <;> simp [Live.kind]

lemma kind_live {verdict : Option Live} :
    verdict.map Live.kind = some .live ↔ verdict = some .live := by
  cases verdict with
  | none => simp
  | some => simp [Live.kind_live]

lemma kind_eq_of (sameNone : one = none ↔ two = none)
    (sameLive : one = some .live ↔ two = some .live)
    (clash : ∀ reason, one = some (.undecided reason) → two ≠ some .dead)
    (clash' : ∀ reason, two = some (.undecided reason) → one ≠ some .dead) :
    one.map Live.kind = two.map Live.kind := by
  rcases one with _ | _ | _ | reason <;> rcases two with _ | _ | _ | reason' <;>
    simp_all [Live.kind]

section Causes

variable (dag : SnapshotDag P) (k : Option Nat) (pre : SnapshotId → Option Pre)

/-- A parent the seed leaves live, at an epoch at most the given one. -/
def SeededBelow (epoch : Nat) (parent : SnapshotId) : Prop :=
  seedLive dag pre parent = some .live ∧ ∃ ps, dag.snapshot parent = some ps ∧ ps.epoch ≤ epoch

/-- A verdict a snapshot can catch from its ancestry: it is seeded with it, or
    the parents before some parent are in order and that parent can catch it.
    Death also comes from a parent at a later epoch. -/
inductive Catches (kind : Kind) : SnapshotId → Prop where
  | seeded {id} : (seedLive dag pre id).map Live.kind = some kind → Catches kind id
  | inherited {id s front parent back} : seedLive dag pre id = some .live →
      dag.snapshot id = some s → s.parents = front ++ parent :: back →
      (∀ other ∈ front, SeededBelow dag pre s.epoch other) → Catches kind parent →
      Catches kind id
  | reversed {id s front parent back ps} : kind = .dead → seedLive dag pre id = some .live →
      dag.snapshot id = some s → s.parents = front ++ parent :: back →
      (∀ other ∈ front, SeededBelow dag pre s.epoch other) →
      seedLive dag pre parent = some .live → dag.snapshot parent = some ps → s.epoch < ps.epoch →
      Catches kind id

/-- A seeded set in which each member but the exempt ones has its parents and,
    below the current epoch, a child. -/
def Sustained (exempt held : Set SnapshotId) : Prop :=
  ∀ id ∈ held, seedLive dag pre id = some .live ∧ (id ∈ exempt ∨ ∃ s, dag.snapshot id = some s ∧
    (∀ parent ∈ s.parents, parent ∈ held ∧
      ∃ ps, dag.snapshot parent = some ps ∧ ps.epoch ≤ s.epoch) ∧
    (k = some s.epoch ∨ ∃ child ∈ held, ParentEdge dag id child))

/-- A snapshot of a past epoch with its parents in order whose children cannot
    last even while it and its parents do. -/
def Abandoned (id : SnapshotId) : Prop :=
  seedLive dag pre id = some .live ∧ ∃ s, dag.snapshot id = some s ∧ k ≠ some s.epoch ∧
    (∀ parent ∈ s.parents, SeededBelow dag pre s.epoch parent) ∧
    ∀ held, Sustained dag k pre (insert id {parent | parent ∈ s.parents}) held →
      ∀ child ∈ held, ¬ ParentEdge dag id child

/-- No snapshot can be reached by indecision and by death. -/
def NoRace : Prop :=
  ∀ id, Catches dag pre .undecided id → ¬ Catches dag pre .dead id ∧ ¬ Abandoned dag k pre id

end Causes

variable {pre : SnapshotId → Option Pre}

variable {live : SnapshotId → Option Live}

/-- Where the parent loop stopped, and why. -/
lemma parentsVerdict_some (stops : parentsVerdict dag live epoch parents = some verdict) :
    ∃ front parent back, parents = front ++ parent :: back ∧
      (∀ other ∈ front, live other = some .live ∧
        ∃ ps, dag.snapshot other = some ps ∧ ps.epoch ≤ epoch) ∧
      ((live parent = some verdict ∧ verdict ≠ .live) ∨ live parent = none ∨
        (live parent = some .live ∧ verdict = .dead ∧
          ∀ ps, dag.snapshot parent = some ps → epoch < ps.epoch)) := by
  induction parents with
  | nil => simp [parentsVerdict] at stops
  | cons parent rest ih =>
    simp only [parentsVerdict] at stops
    cases now : live parent with
    | none => exact ⟨[], parent, rest, rfl, by simp, .inr (.inl now)⟩
    | some value =>
      cases value with
      | undecided | dead =>
        simp only [now, Option.some.injEq] at stops
        exact ⟨[], parent, rest, rfl, by simp, .inl ⟨stops ▸ now, by simp [← stops]⟩⟩
      | live =>
        simp only [now] at stops
        cases hf : dag.snapshot parent with
        | none =>
          simp only [hf, Option.some.injEq] at stops
          exact ⟨[], parent, rest, rfl, by simp, .inr (.inr ⟨now, stops.symm, by simp [hf]⟩)⟩
        | some ps =>
          simp only [hf] at stops
          split_ifs at stops with later
          · refine ⟨[], parent, rest, rfl, by simp,
              .inr (.inr ⟨now, (Option.some.inj stops).symm, fun ps' hf' => ?_⟩)⟩
            cases hf.symm.trans hf'
            exact later
          · obtain ⟨front, other, back, split, hr, cause⟩ := ih stops
            refine ⟨parent :: front, other, back, by rw [split]; rfl, ?_, cause⟩
            rw [forall_mem_cons]
            exact ⟨⟨now, ps, hf, not_lt.mp later⟩, hr⟩

/-- The parent loop stops with the given kind when it meets it before any other. -/
lemma parentsVerdict_kind (notLive : kind ≠ .live)
    (ranked : ∀ other ∈ front, (live other).map Live.kind = some kind ∨
      (live other = some .live ∧ ∃ ps, dag.snapshot other = some ps ∧ ps.epoch ≤ epoch))
    (stops : (live parent).map Live.kind = some kind ∨
      (kind = .dead ∧ live parent = some .live ∧
        ∃ ps, dag.snapshot parent = some ps ∧ epoch < ps.epoch)) :
    ∃ verdict, parentsVerdict dag live epoch (front ++ parent :: back) = some verdict ∧
      verdict.kind = kind := by
  have caught : ∀ (other : SnapshotId) (rest : List SnapshotId),
      (live other).map Live.kind = some kind →
      ∃ verdict, parentsVerdict dag live epoch (other :: rest) = some verdict ∧
        verdict.kind = kind := by
    intro other rest hs
    cases now : live other with
    | none => simp [now] at hs
    | some value =>
      simp only [now, Option.map_some, Option.some.injEq] at hs
      cases value with
      | live => exact absurd hs.symm notLive
      | dead => exact ⟨.dead, by simp [parentsVerdict, now], hs⟩
      | undecided reason => exact ⟨.undecided reason, by simp [parentsVerdict, now], hs⟩
  induction front with
  | nil =>
    rcases stops with hs | ⟨hd, now, ps, hf, hl⟩
    · exact caught parent back hs
    · exact ⟨.dead, by simp [parentsVerdict, now, hf, hl], hd.symm⟩
  | cons other rest ih =>
    rw [forall_mem_cons] at ranked
    rcases ranked.1 with hs | ⟨now, ps, hf, ho⟩
    · exact caught other (rest ++ parent :: back) hs
    · obtain ⟨verdict, stopped, hs⟩ := ih ranked.2
      refine ⟨verdict, ?_, hs⟩
      simp only [cons_append, parentsVerdict, now, hf, gt_iff_lt, not_lt.mpr ho, if_false]
      exact stopped

variable {id : SnapshotId}

lemma rederive_cases (legal : pre id = some .authorized) (hf : dag.snapshot id = some s) :
    parentsVerdict dag live s.epoch s.parents = some (rederive dag k pre live id) ∨
      (parentsVerdict dag live s.epoch s.parents = none ∧ k ≠ some s.epoch ∧
        (∀ child, ParentEdge dag id child → live child ≠ some .live) ∧
        rederive dag k pre live id = .dead) ∨
      rederive dag k pre live id = .live := by
  simp only [rederive, legal, hf]
  cases hp : parentsVerdict dag live s.epoch s.parents with
  | some => exact .inl rfl
  | none =>
    dsimp only
    split_ifs with lost
    · refine .inr (.inl ⟨rfl, lost.1, fun child he ha => ?_, rfl⟩)
      have hl : child ∈ childrenOf dag id := mem_childrenOf.mpr he
      have none := any_eq_false.mp lost.2 child hl
      exact none (by simpa using ha)
    · exact .inr (.inr rfl)

lemma seedLive_none : seedLive dag pre id = none ↔ dag.snapshot id = none := by
  simp [seedLive]

/-- What a table of verdicts owes to the seed. -/
structure Explained (dag : SnapshotDag P) (k : Option Nat) (pre : SnapshotId → Option Pre)
    (live : SnapshotId → Option Live) : Prop where
  seeded : ∀ id, live id = some .live → seedLive dag pre id = some .live
  total : ∀ id, live id = none ↔ dag.snapshot id = none
  lasting : ∀ exempt held, Sustained dag k pre exempt held →
    (∀ id ∈ held, id ∈ exempt → live id = some .live) → ∀ id ∈ held, live id = some .live
  undecided : ∀ id reason, live id = some (.undecided reason) → Catches dag pre .undecided id
  dead : ∀ id, live id = some .dead → Catches dag pre .dead id ∨
    (Abandoned dag k pre id ∧ ∀ child, ParentEdge dag id child → live child ≠ some .live)

lemma explained_seed (dag : SnapshotDag P) (k : Option Nat) (pre : SnapshotId → Option Pre) :
    Explained dag k pre (seedLive dag pre) where
  seeded _ alive := alive
  total _ := seedLive_none
  lasting _ _ stays _ id hm := (stays id hm).1
  undecided id reason hs := .seeded (by rw [hs]; rfl)
  dead id hd := .inl (.seeded (by rw [hd]; rfl))

namespace Explained

variable {live : SnapshotId → Option Live} {id : SnapshotId}

/-- A visit that takes a snapshot out of the lineage has a cause. -/
lemma caught (shown : Explained dag k pre live) (alive : live id = some .live)
    (drawn : rederive dag k pre live id = verdict) (lost : verdict ≠ .live) :
    Catches dag pre verdict.kind id ∨ (verdict = .dead ∧ Abandoned dag k pre id ∧
      ∀ child, ParentEdge dag id child → live child ≠ some .live) := by
  have seeded := shown.seeded id alive
  obtain ⟨hl, s, hf, hp⟩ := seedLive_live.mp seeded
  rcases rederive_cases hl hf with stops | ⟨ranked, past, leaf, hd⟩ | stays
  · left
    rw [drawn] at stops
    obtain ⟨front, parent, back, split, ranked, cause⟩ := parentsVerdict_some stops
    have prior : ∀ other ∈ front, SeededBelow dag pre s.epoch other := fun other hm =>
      ⟨shown.seeded other (ranked other hm).1, (ranked other hm).2⟩
    have hn : parent ∈ s.parents := by simp [split]
    obtain ⟨⟨ps, seen⟩, _⟩ := hp parent hn
    rcases cause with ⟨now, _⟩ | missing | ⟨parentLive, rfl, later⟩
    · refine .inherited seeded hf split prior ?_
      cases verdict with
      | live => exact absurd rfl lost
      | undecided reason => exact shown.undecided parent reason now
      | dead =>
        rcases shown.dead parent now with hc | ⟨_, noChild⟩
        · exact hc
        · exact absurd alive (noChild id ⟨s, hf, hn⟩)
    · rw [(shown.total parent).mp missing] at seen
      cases seen
    · exact .reversed rfl seeded hf split prior (shown.seeded parent parentLive) seen (later ps seen)
  · right
    rw [parentsVerdict_none] at ranked
    refine ⟨drawn.symm.trans hd, ⟨seeded, s, hf, past, fun parent hn => ?_,
      fun held hs child hm he => ?_⟩, leaf⟩
    · exact ⟨shown.seeded parent (ranked parent hn).1, (ranked parent hn).2⟩
    · refine leaf child he (shown.lasting _ held hs (fun other _ exempt => ?_) child hm)
      rcases exempt with rfl | hn
      · exact alive
      · exact (ranked other hn).1
  · exact absurd (drawn.symm.trans stays) lost

lemma visit (shown : Explained dag k pre live) (alive : live id = some .live)
    (lost : rederived dag k pre live id ≠ some .live) :
    Explained dag k pre (update live id (rederived dag k pre live id)) := by
  have still : ∀ other, update live id (rederived dag k pre live id) other = some .live →
      other ≠ id ∧ live other = some .live := by
    intro other now
    have apart : other ≠ id := by
      rintro rfl
      rw [update_self] at now
      exact lost now
    exact ⟨apart, by rwa [update_of_ne apart] at now⟩
  refine ⟨fun other now => shown.seeded other (still other now).2, fun other => ?_,
    fun exempt held stays hk other hm => ?_, fun other reason stalled => ?_,
    fun other dead => ?_⟩
  · by_cases hs : other = id
    · rw [hs, update_self, ← shown.total id, alive, rederived]
      simp
    · rw [update_of_ne hs]
      exact shown.total other
  · have prior := shown.lasting exempt held stays fun other mem out =>
      (still other (hk other mem out)).2
    have apart : other ≠ id := by
      rintro rfl
      obtain ⟨seeded, exempted | ⟨s, hf, parents, current⟩⟩ := stays other hm
      · exact (still other (hk other hm exempted)).1 rfl
      · refine lost ?_
        rw [rederived, Option.some.injEq, rederive_live]
        refine ⟨(seedLive_live.mp seeded).1, s, hf, fun parent hn => ?_, ?_⟩
        · exact ⟨prior parent (parents parent hn).1, (parents parent hn).2⟩
        · rcases current with now | ⟨child, mem, cs, hc, hn⟩
          · exact .inl now
          · exact .inr ⟨child, cs, hc, hn, prior child mem⟩
    rw [update_of_ne apart]
    exact prior other hm
  · by_cases hs : other = id
    · rw [hs, update_self, rederived, Option.some.injEq] at stalled
      rw [hs]
      exact (shown.caught alive stalled (by simp)).resolve_right (by simp)
    · rw [update_of_ne hs] at stalled
      exact shown.undecided other reason stalled
  · have cause : Catches dag pre .dead other ∨ (Abandoned dag k pre other ∧
        ∀ child, ParentEdge dag other child → live child ≠ some .live) := by
      by_cases hs : other = id
      · rw [hs, update_self, rederived, Option.some.injEq] at dead
        rw [hs]
        exact (shown.caught alive dead (by simp)).imp_right And.right
      · rw [update_of_ne hs] at dead
        exact shown.dead other dead
    refine cause.imp_right fun gone => ⟨gone.1, fun child he now => ?_⟩
    exact gone.2 child he (still child now).2

end Explained

lemma firstLive_explained (dag : SnapshotDag P) (order : List SnapshotId) (k : Option Nat)
    (pre : SnapshotId → Option Pre) : Explained dag k pre (firstLive dag order k pre) :=
  (liveFixedPoint_spec dag k pre order _).1.preserves (Explained dag k pre)
    (explained_seed dag k pre) fun _ _ _ hs ha lost => hs.visit ha lost

lemma exists_order
    (steps : Demotion.Steps (some .live) (rederived dag k pre) (seedLive dag pre) items table) :
    ∃ order, order.Perm dag.ids ∧
      ∀ id, table id ≠ some .live → firstLive dag order k pre id = table id := by
  obtain ⟨each, ho⟩ := steps.held
  refine ⟨items ++ dag.ids.filter (fun id => decide (id ∉ items)), ?_, fun id lowered => ?_⟩
  · have apart : items.Disjoint (dag.ids.filter (fun id => decide (id ∉ items))) := by
      intro id inItems hi
      simp [inItems] at hi
    refine (perm_ext_iff_of_nodup (ho.append (dag.snapshots.ids_nodup.filter _) apart)
      dag.snapshots.ids_nodup).mpr fun id => ?_
    rw [mem_append, mem_filter, decide_eq_true_eq]
    constructor
    · rintro (inItems | ⟨hl, _⟩)
      · exact seedLive_observed (each id inItems).1
      · exact hl
    · intro hl
      by_cases inItems : id ∈ items
      · exact .inl inItems
      · exact .inr ⟨hl, inItems⟩
  · exact (steps.settle _ _).frozen lowered

/-- Demotions from the seed to a table in which an id has a kind, with no other
    change of kind on the way. -/
def Forces (dag : SnapshotDag P) (k : Option Nat) (pre : SnapshotId → Option Pre) (kind : Kind)
    (id : SnapshotId) : Prop :=
  ∃ items table,
    Demotion.Steps (some .live) (rederived dag k pre) (seedLive dag pre) items table ∧
    (table id).map Live.kind = some kind ∧
    ∀ other, table other = seedLive dag pre other ∨ (table other).map Live.kind = some kind

lemma forces_child (notLive : kind ≠ .live) {s : Snapshot}
    (seeded : seedLive dag pre id = some .live) (hf : dag.snapshot id = some s)
    (split : s.parents = front ++ parent :: back)
    (prior : ∀ other ∈ front, SeededBelow dag pre s.epoch other)
    (steps : Demotion.Steps (some .live) (rederived dag k pre) (seedLive dag pre) items table)
    (only : ∀ other, table other = seedLive dag pre other ∨ (table other).map Live.kind = some kind)
    (stops : (table parent).map Live.kind = some kind ∨ (kind = .dead ∧
      table parent = some .live ∧ ∃ ps, dag.snapshot parent = some ps ∧ s.epoch < ps.epoch)) :
    Forces dag k pre kind id := by
  rcases only id with hs | ha
  · rw [seeded] at hs
    have ranked : ∀ other ∈ front, (table other).map Live.kind = some kind ∨
        (table other = some .live ∧ ∃ ps, dag.snapshot other = some ps ∧ ps.epoch ≤ s.epoch) := by
      intro other hm
      rcases only other with hk | now
      · exact .inr ⟨hk.trans (prior other hm).1, (prior other hm).2⟩
      · exact .inl now
    obtain ⟨verdict, stopped, ofKind⟩ := parentsVerdict_kind notLive ranked stops
    rw [← split] at stopped
    have drawn : rederived dag k pre table id = some verdict := by
      simp [rederived, rederive, (seedLive_live.mp seeded).1, hf, stopped]
    have lost : rederived dag k pre table id ≠ some .live := by
      rw [drawn, Ne, Option.some.injEq, ← Live.kind_live, ofKind]
      exact notLive
    refine ⟨items ++ [id], _, steps.append (.cons hs lost .nil), ?_, fun other => ?_⟩
    · rw [update_self, drawn, Option.map_some, ofKind]
    · by_cases hh : other = id
      · rw [hh, update_self, drawn, Option.map_some, ofKind]
        exact .inr rfl
      · rw [update_of_ne hh]
        exact only other
  · exact ⟨items, table, steps, ha, only⟩

lemma Catches.forces (notLive : kind ≠ .live) (catches : Catches dag pre kind id) :
    Forces dag k pre kind id := by
  induction catches with
  | seeded hh => exact ⟨[], _, .nil, hh, fun _ => .inl rfl⟩
  | inherited seeded hf split prior _ ih =>
    obtain ⟨items, table, steps, ha, only⟩ := ih
    exact forces_child notLive seeded hf split prior steps only (.inl ha)
  | reversed hd seeded hf split prior live hs hl =>
    exact forces_child notLive seeded hf split prior .nil (fun _ => .inl rfl)
      (.inr ⟨hd, live, _, hs, hl⟩)

lemma Abandoned.steps (dead : Abandoned dag k pre id) :
    ∃ items table,
      Demotion.Steps (some .live) (rederived dag k pre) (seedLive dag pre) items table ∧
      table id = some .dead := by
  obtain ⟨seeded, s, hf, past, parents, alone⟩ := dead
  obtain ⟨items, table, steps, ha, hd⟩ := Demotion.Steps.exhaust (some .live)
    (rederived dag k pre) dag.ids (insert id {parent | parent ∈ s.parents}) (seedLive dag pre)
    fun other => seedLive_observed
  have run : Demotion.Run (some .live) (rederived dag k pre) items (seedLive dag pre) table :=
    steps.run fun _ hl => hl
  have hk : ∀ other ∈ insert id {parent | parent ∈ s.parents},
      table other = seedLive dag pre other :=
    fun other exempt => steps.untouched fun hl => ha other hl exempt
  have stays : Sustained dag k pre (insert id {parent | parent ∈ s.parents})
      {other | table other = some .live} := by
    intro other alive
    refine ⟨run.provisional alive, ?_⟩
    by_cases exempt : other ∈ insert id {parent | parent ∈ s.parents}
    · exact .inl exempt
    · have drawn := hd other alive exempt
      rw [rederived, Option.some.injEq, rederive_live] at drawn
      obtain ⟨_, os, hs, ranked, now⟩ := drawn
      refine .inr ⟨os, hs, ranked, now.imp_right ?_⟩
      rintro ⟨child, cs, hc, hn, childLive⟩
      exact ⟨child, childLive, cs, hc, hn⟩
  have alive : table id = some .live := (hk id (Set.mem_insert _ _)).trans seeded
  have ranked : parentsVerdict dag table s.epoch s.parents = none := by
    refine parentsVerdict_none.mpr fun parent hn => ⟨?_, (parents parent hn).2⟩
    exact (hk parent (Set.mem_insert_of_mem _ hn)).trans (parents parent hn).1
  have leaf : (childrenOf dag id).any (fun c => decide (table c = some .live)) = false := by
    rw [any_eq_false]
    intro child hl childLive
    exact alone _ stays child (by simpa using childLive) (mem_childrenOf.mp hl)
  have drawn : rederived dag k pre table id = some .dead := by
    simp [rederived, rederive, (seedLive_live.mp seeded).1, hf, ranked, past, leaf]
  refine ⟨items ++ [id], _, steps.append (.cons alive (by simp [drawn]) .nil), ?_⟩
  rw [update_self, drawn]

lemma Catches.exists_order (notLive : kind ≠ .live) (catches : Catches dag pre kind id) :
    ∃ order, order.Perm dag.ids ∧ (firstLive dag order k pre id).map Live.kind = some kind := by
  obtain ⟨_, table, steps, ofKind, _⟩ := catches.forces notLive
  obtain ⟨order, perm, hr⟩ := Authorization.exists_order steps
  refine ⟨order, perm, ?_⟩
  rw [hr id, ofKind]
  rw [Ne, ← kind_live, ofKind, Option.some.injEq]
  exact notLive

lemma Abandoned.exists_order (abandoned : Abandoned dag k pre id) :
    ∃ order, order.Perm dag.ids ∧
      (firstLive dag order k pre id).map Live.kind = some .dead := by
  obtain ⟨_, table, steps, dead⟩ := abandoned.steps
  obtain ⟨order, perm, hr⟩ := Authorization.exists_order steps
  exact ⟨order, perm, by rw [hr id (by simp [dead]), dead]; rfl⟩

variable {order : List SnapshotId}

lemma liveness_frozen (lowered : firstLive dag order k pre id ≠ some .live) :
    (liveness dag order k pre).2 id = firstLive dag order k pre id := by
  simp only [liveness]
  split_ifs
  · exact (liveFixedPoint_spec dag k _ order _).1.frozen lowered
  · rfl

/-- The recovery rule reads only which snapshots are live. -/
lemma preAfterRecovery_congr (hs : ∀ id, live id = some .live ↔ live' id = some .live) :
    preAfterRecovery dag k pre live = preAfterRecovery dag k pre live' := by
  funext id
  have able : recoveryParentsEligible dag k live id =
      recoveryParentsEligible dag k live' id := by
    cases hf : dag.snapshot id with
    | none => simp [recoveryParentsEligible, hf]
    | some =>
      rw [Bool.eq_iff_iff, recoveryParentsEligible_iff hf, recoveryParentsEligible_iff hf]
      simp only [hs]
  have bars : recoveryRejects dag k pre live id = recoveryRejects dag k pre live' id := by
    simp only [recoveryRejects, able]
  rw [preAfterRecovery, preAfterRecovery, bars]

/-- Without a race the verdicts of the first run are the same for all orders. -/
lemma NoRace.firstLive_kind (noRace : NoRace dag k pre) (hl : ∀ id ∈ dag.ids, id ∈ order)
    (hl' : ∀ id ∈ dag.ids, id ∈ order') (id : SnapshotId) :
    (firstLive dag order k pre id).map Live.kind =
      (firstLive dag order' k pre id).map Live.kind := by
  have one := firstLive_explained dag order k pre
  have two := firstLive_explained dag order' k pre
  have sameNone := (one.total id).trans (two.total id).symm
  have sameLive : firstLive dag order k pre id = some .live ↔
      firstLive dag order' k pre id = some .live := by
    rw [firstLive_live hl, firstLive_live hl']
  have clash : ∀ {live live' reason}, Explained dag k pre live → Explained dag k pre live' →
      live id = some (.undecided reason) → live' id ≠ some .dead := by
    intro live live' reason stalls dies stalled dead
    obtain ⟨uncaught, hu⟩ := noRace id (stalls.undecided id reason stalled)
    rcases dies.dead id dead with hc | ⟨hd, _⟩
    · exact uncaught hc
    · exact hu hd
  exact kind_eq_of sameNone sameLive (fun _ => clash one two)
    (fun _ stalled dead => clash two one stalled dead)

/-- Without a race neither do the final verdicts depend on the order. -/
lemma NoRace.liveness_kind (noRace : NoRace dag k pre) (hl : ∀ id ∈ dag.ids, id ∈ order)
    (hl' : ∀ id ∈ dag.ids, id ∈ order') (id : SnapshotId) :
    ((liveness dag order k pre).2 id).map Live.kind =
      ((liveness dag order' k pre).2 id).map Live.kind := by
  have sameFirst : ∀ other, firstLive dag order k pre other = some .live ↔
      firstLive dag order' k pre other = some .live := fun other => by
    rw [firstLive_live hl, firstLive_live hl']
  by_cases first : firstLive dag order k pre id = some .live
  · have sameLive : (liveness dag order k pre).2 id = some .live ↔
        (liveness dag order' k pre).2 id = some .live := by
      rw [liveness_live hl, liveness_live hl', liveness_pre, liveness_pre,
        preAfterRecovery_congr sameFirst]
    rcases liveness_settled hl first with one | one <;>
      rcases liveness_settled hl' ((sameFirst id).mp first) with two | two <;>
      simp_all
  · have first' : firstLive dag order' k pre id ≠ some .live := fun ha =>
      first ((sameFirst id).mpr ha)
    rw [liveness_frozen first, liveness_frozen first']
    exact noRace.firstLive_kind hl hl' id

lemma noRace_of_kind
    (hs : ∀ order, order.Perm dag.ids → ∀ id, ((liveness dag order k pre).2 id).map Live.kind =
      ((liveness dag dag.ids k pre).2 id).map Live.kind) : NoRace dag k pre := by
  have final : ∀ {order id kind}, kind ≠ Kind.live →
      (firstLive dag order k pre id).map Live.kind = some kind →
      ((liveness dag order k pre).2 id).map Live.kind = some kind := by
    intro order id kind hn first
    rw [liveness_frozen, first]
    rw [Ne, ← kind_live, first, Option.some.injEq]
    exact hn
  intro id stalls
  obtain ⟨order, perm, stalled⟩ := stalls.exists_order (k := k) (by simp)
  have atIds := (hs order perm id).symm.trans (final (by simp) stalled)
  have never : ∀ order, order.Perm dag.ids →
      (firstLive dag order k pre id).map Live.kind ≠ some .dead := by
    intro order' perm' died
    have both := (final (by simp) died).symm.trans ((hs order' perm' id).trans atIds)
    cases both
  constructor
  · intro dies
    obtain ⟨order', perm', died⟩ := dies.exists_order (k := k) (by simp)
    exact never order' perm' died
  · intro hd
    obtain ⟨order', perm', died⟩ := hd.exists_order
    exact never order' perm' died

end Wyrd.Authorization
