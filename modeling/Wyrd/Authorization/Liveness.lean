import Wyrd.Authorization.Classify

/-! # The live lineage as a self-supporting set

What the fixed point leaves live is the largest set of authorized snapshots in
which every member has all its parents, at epochs no later than its own, and is
at the current epoch or has a child. The visiting order does not matter for
this, nor does the second run, which only shrinks the set.
-/

namespace Wyrd.Authorization

open List

open Wyrd.Membership

variable {P : Primitives} {dag : SnapshotDag P} {k : Option Nat}
  {pre : SnapshotId → Option Pre} {order : List SnapshotId}

variable {id : SnapshotId}

lemma mem_ids : id ∈ dag.ids ↔ ∃ s, dag.snapshot id = some s :=
  Observed.mem_ids

lemma mem_childrenOf :
    child ∈ childrenOf dag id ↔ ∃ s, dag.snapshot child = some s ∧ id ∈ s.parents := by
  simp only [childrenOf, mem_flatMap]
  constructor
  · rintro ⟨other, _, hm⟩
    cases hf : dag.snapshot other with
    | none => simp [hf] at hm
    | some s =>
      simp only [hf, mem_map, mem_filter, decide_eq_true_eq] at hm
      obtain ⟨parent, ⟨hn, rfl⟩, rfl⟩ := hm
      exact ⟨s, hf, hn⟩
  · rintro ⟨s, hf, hn⟩
    refine ⟨child, mem_ids.mpr ⟨s, hf⟩, ?_⟩
    simp only [hf, mem_map, mem_filter, decide_eq_true_eq]
    exact ⟨id, ⟨hn, rfl⟩, trivial⟩

/-- Every parent is live at an epoch at most this one. -/
def ParentsLive (dag : SnapshotDag P) (live : SnapshotId → Option Live) (s : Snapshot) : Prop :=
  ∀ parent ∈ s.parents, live parent = some .live ∧
    ∃ ps, dag.snapshot parent = some ps ∧ ps.epoch ≤ s.epoch

variable {live : SnapshotId → Option Live} {parents : List SnapshotId}

lemma parentsVerdict_none :
    parentsVerdict dag live epoch parents = none ↔
      ∀ parent ∈ parents, live parent = some .live ∧
        ∃ ps, dag.snapshot parent = some ps ∧ ps.epoch ≤ epoch := by
  induction parents with
  | nil => simp [parentsVerdict]
  | cons parent rest ih =>
    simp only [parentsVerdict, forall_mem_cons]
    cases hr : live parent with
    | none => simp
    | some v =>
      cases v with
      | undecided => simp
      | dead => simp
      | live =>
        cases hf : dag.snapshot parent with
        | none => simp
        | some ps =>
          by_cases later : ps.epoch > epoch
          · simp [later]
          · simp [later, ih, not_lt.mp later]

lemma parentsVerdict_ne_live : parentsVerdict dag live epoch parents ≠ some .live := by
  induction parents with
  | nil => simp [parentsVerdict]
  | cons parent rest ih =>
    simp only [parentsVerdict]
    split
    · simp
    · simp
    · simp
    · split
      · simp
      · split_ifs
        · simp
        · exact ih

lemma rederive_live :
    rederive dag k pre live id = .live ↔
      pre id = some .authorized ∧ ∃ s, dag.snapshot id = some s ∧ ParentsLive dag live s ∧
        (k = some s.epoch ∨
          ∃ child cs, dag.snapshot child = some cs ∧ id ∈ cs.parents ∧ live child = some .live) := by
  have current : ∀ s : Snapshot, ¬ (k ≠ some s.epoch ∧
      (childrenOf dag id).any (fun c => decide (live c = some .live)) = false) ↔
      (k = some s.epoch ∨
        ∃ child cs, dag.snapshot child = some cs ∧ id ∈ cs.parents ∧ live child = some .live) := by
    intro s
    rw [not_and_or, not_not, Bool.not_eq_false, any_eq_true]
    simp only [mem_childrenOf, decide_eq_true_eq]
    constructor
    · rintro (now | ⟨child, ⟨cs, hf, hn⟩, alive⟩)
      · exact .inl now
      · exact .inr ⟨child, cs, hf, hn, alive⟩
    · rintro (now | ⟨child, cs, hf, hn, alive⟩)
      · exact .inl now
      · exact .inr ⟨child, ⟨cs, hf, hn⟩, alive⟩
  cases verdict : pre id with
  | none => simp [rederive, verdict]
  | some v =>
    cases v with
    | rejected => simp [rederive, verdict]
    | pending => simp [rederive, verdict]
    | voided => simp [rederive, verdict]
    | authorized =>
      cases hf : dag.snapshot id with
      | none => simp [rederive, verdict, hf]
      | some s =>
        simp only [rederive, verdict, hf, true_and, Option.some.injEq, exists_eq_left']
        rw [ParentsLive, ← parentsVerdict_none, ← current s]
        cases parents : parentsVerdict dag live s.epoch s.parents with
        | none =>
          by_cases lost : k ≠ some s.epoch ∧
              (childrenOf dag id).any (fun c => decide (live c = some .live)) = false
          · rw [if_pos lost]
            exact ⟨fun alive => absurd alive (by simp), fun hh => absurd lost hh.2⟩
          · rw [if_neg lost]
            exact ⟨fun _ => ⟨rfl, lost⟩, fun _ => rfl⟩
        | some decided =>
          have notLive : decided ≠ .live := by
            rintro rfl
            exact parentsVerdict_ne_live parents
          simp [notLive]

/-- A set of authorized snapshots that contains its members' parents, at epochs
    no later, and a child of each member below the current epoch. -/
def SelfLive (dag : SnapshotDag P) (k : Option Nat) (pre : SnapshotId → Option Pre)
    (lineage : Set SnapshotId) : Prop :=
  ∀ id ∈ lineage, pre id = some .authorized ∧ ∃ s, dag.snapshot id = some s ∧
    (∀ parent ∈ s.parents, parent ∈ lineage ∧
      ∃ ps, dag.snapshot parent = some ps ∧ ps.epoch ≤ s.epoch) ∧
    (k = some s.epoch ∨ ∃ child ∈ lineage, ∃ cs, dag.snapshot child = some cs ∧ id ∈ cs.parents)

/-- The rule of one visit, as the loop applies it. -/
def rederived (dag : SnapshotDag P) (k : Option Nat) (pre : SnapshotId → Option Pre)
    (live : SnapshotId → Option Live) (id : SnapshotId) : Option Live :=
  some (rederive dag k pre live id)

lemma rederived_monotone (dag : SnapshotDag P) (k : Option Nat) (pre : SnapshotId → Option Pre) :
    Demotion.Monotone (some .live) (rederived dag k pre) := by
  intro fewer more id wider drawn
  rw [rederived, Option.some.injEq, rederive_live] at drawn ⊢
  obtain ⟨hl, s, hf, parents, current⟩ := drawn
  refine ⟨hl, s, hf, fun parent hn => ?_, ?_⟩
  · obtain ⟨alive, hs⟩ := parents parent hn
    exact ⟨wider parent alive, hs⟩
  · rcases current with now | ⟨child, cs, hc, hn, alive⟩
    · exact .inl now
    · exact .inr ⟨child, cs, hc, hn, wider child alive⟩

lemma supported_iff (lineage : Set SnapshotId) :
    Demotion.Supported (some .live) (rederived dag k pre) lineage ↔
      SelfLive dag k pre lineage := by
  classical
  constructor
  · intro hb id hm
    have drawn := hb (fun other => if other ∈ lineage then some .live else none)
      (fun other held => if_pos held) id hm
    rw [rederived, Option.some.injEq, rederive_live] at drawn
    obtain ⟨legal, s, hf, parents, current⟩ := drawn
    refine ⟨legal, s, hf, fun parent hn => ?_, ?_⟩
    · obtain ⟨alive, seen⟩ := parents parent hn
      exact ⟨by simpa using alive, seen⟩
    · rcases current with now | ⟨child, cs, childFound, hn, alive⟩
      · exact .inl now
      · exact .inr ⟨child, by simpa using alive, cs, childFound, hn⟩
  · intro hl table held id hm
    obtain ⟨legal, s, hf, parents, current⟩ := hl id hm
    rw [rederived, Option.some.injEq, rederive_live]
    refine ⟨legal, s, hf, fun parent hn => ?_, ?_⟩
    · obtain ⟨mem, seen⟩ := parents parent hn
      exact ⟨held parent mem, seen⟩
    · rcases current with now | ⟨child, mem, cs, childFound, hn⟩
      · exact .inl now
      · exact .inr ⟨child, cs, childFound, hn, held child mem⟩

/-- The fixed point is a run of demotions to a table where none is due. -/
lemma liveFixedPoint_spec (dag : SnapshotDag P) (k : Option Nat)
    (pre : SnapshotId → Option Pre) (order : List SnapshotId) (start : SnapshotId → Option Live) :
    Demotion.Run (some .live) (rederived dag k pre) order start
        (liveFixedPoint dag order k pre start) ∧
      Demotion.Stable (some .live) (rederived dag k pre) order
        (liveFixedPoint dag order k pre start) :=
  ⟨Demotion.settle_run _ _ _ _, Demotion.settle_stable _ _ _ _
    (Nat.lt_succ_of_le (Demotion.provisional_card_le _ _ _))⟩

/-- What the fixed point leaves live, for any order of visits. -/
lemma liveFixedPoint_live (start : SnapshotId → Option Live)
    (hl : ∀ id, start id = some .live → id ∈ order) (id : SnapshotId) :
    liveFixedPoint dag order k pre start id = some .live ↔
      ∃ lineage, SelfLive dag k pre lineage ∧ (∀ other ∈ lineage, start other = some .live) ∧
        id ∈ lineage := by
  obtain ⟨run, hs⟩ := liveFixedPoint_spec dag k pre order start
  rw [Demotion.stable_iff (rederived_monotone dag k pre) run hs hl]
  simp only [supported_iff]

lemma fateOf_ok :
    fateOf dag pre parents = .ok ↔ ∀ parent ∈ parents,
      (∃ ps, dag.snapshot parent = some ps) ∧ (pre parent = none ∨ pre parent = some .authorized) := by
  induction parents with
  | nil => simp [fateOf]
  | cons parent rest ih =>
    simp only [fateOf, forall_mem_cons]
    cases hf : dag.snapshot parent with
    | none => simp
    | some =>
      cases hr : pre parent with
      | none => simp [ih]
      | some v => cases v <;> simp [ih]

lemma seedLive_live :
    seedLive dag pre id = some .live ↔ pre id = some .authorized ∧
      ∃ s, dag.snapshot id = some s ∧ ∀ parent ∈ s.parents,
        (∃ ps, dag.snapshot parent = some ps) ∧
          (pre parent = none ∨ pre parent = some .authorized) := by
  rw [seedLive, parentFate]
  cases hf : dag.snapshot id with
  | none => simp
  | some s =>
    simp only [Option.map_some, Option.some.injEq, exists_eq_left', ← fateOf_ok]
    cases hr : pre id with
    | none => simp
    | some v =>
      cases v with
      | authorized => cases fateOf dag pre s.parents <;> simp
      | rejected => simp
      | pending => simp
      | voided => simp

lemma seedLive_observed (seeded : seedLive dag pre id = some .live) : id ∈ dag.ids := by
  obtain ⟨_, s, hf, _⟩ := seedLive_live.mp seeded
  exact mem_ids.mpr ⟨s, hf⟩

lemma SelfLive.seeded (live : SelfLive dag k pre lineage) (hm : id ∈ lineage) :
    seedLive dag pre id = some .live := by
  obtain ⟨hl, s, hf, parents, _⟩ := live id hm
  refine seedLive_live.mpr ⟨hl, s, hf, fun parent hn => ?_⟩
  obtain ⟨mem, ps, hs, _⟩ := parents parent hn
  exact ⟨⟨ps, hs⟩, .inr (live parent mem).1⟩

lemma firstLive_live (hl : ∀ id ∈ dag.ids, id ∈ order) (id : SnapshotId) :
    firstLive dag order k pre id = some .live ↔
      ∃ lineage, SelfLive dag k pre lineage ∧ id ∈ lineage := by
  rw [firstLive, liveFixedPoint_live _ fun other hs => hl other (seedLive_observed hs)]
  constructor
  · rintro ⟨lineage, live, _, hm⟩
    exact ⟨lineage, live, hm⟩
  · rintro ⟨lineage, live, hm⟩
    exact ⟨lineage, live, fun other mem => live.seeded mem, hm⟩

lemma recoveryRejects_observed (bars : recoveryRejects dag k pre live id = true) :
    id ∈ dag.ids := by
  rw [recoveryRejects] at bars
  cases hf : dag.snapshot id with
  | none => simp [hf] at bars
  | some s => exact mem_ids.mpr ⟨s, hf⟩

lemma preAfterRecovery_authorized :
    preAfterRecovery dag k pre live id = some .authorized ↔
      pre id = some .authorized ∧ recoveryRejects dag k pre live id = false := by
  rw [preAfterRecovery]
  cases recoveryRejects dag k pre live id <;> simp

lemma SelfLive.weaken (selfLive : SelfLive dag k (preAfterRecovery dag k pre live) lineage) :
    SelfLive dag k pre lineage := by
  intro id hm
  obtain ⟨hl, rest⟩ := selfLive id hm
  exact ⟨(preAfterRecovery_authorized.mp hl).1, rest⟩

lemma liveness_pre (dag : SnapshotDag P) (order : List SnapshotId) (k : Option Nat)
    (pre : SnapshotId → Option Pre) :
    (liveness dag order k pre).1 =
      preAfterRecovery dag k pre (firstLive dag order k pre) := by
  simp only [liveness]
  split_ifs <;> rfl

lemma liveness_live (hl : ∀ id ∈ dag.ids, id ∈ order) (id : SnapshotId) :
    (liveness dag order k pre).2 id = some .live ↔
      ∃ lineage, SelfLive dag k (liveness dag order k pre).1 lineage ∧ id ∈ lineage := by
  rw [liveness_pre]
  simp only [liveness]
  split_ifs with hb
  · rw [liveFixedPoint_live]
    · constructor
      · rintro ⟨lineage, live, _, hm⟩
        exact ⟨lineage, live, hm⟩
      · rintro ⟨lineage, live, hm⟩
        exact ⟨lineage, live, fun other mem =>
          (firstLive_live hl other).mpr ⟨lineage, live.weaken, mem⟩, hm⟩
    · intro other ha
      obtain ⟨lineage, live, mem⟩ := (firstLive_live hl other).mp ha
      exact hl other (seedLive_observed (live.seeded mem))
  · have same : preAfterRecovery dag k pre (firstLive dag order k pre) = pre := by
      funext other
      rw [preAfterRecovery, if_neg]
      intro bars
      exact hb (any_eq_true.mpr ⟨other, recoveryRejects_observed bars, bars⟩)
    rw [same]
    exact firstLive_live hl id

lemma parentsVerdict_dead
    (fixed : ∀ parent ∈ parents, live parent = some .live ∨ live parent = some .dead)
    (hf : parentsVerdict dag live epoch parents = some verdict) : verdict = .dead := by
  induction parents with
  | nil => simp [parentsVerdict] at hf
  | cons parent rest ih =>
    rw [forall_mem_cons] at fixed
    simp only [parentsVerdict] at hf
    rcases fixed.1 with ha | hd
    · simp only [ha] at hf
      split at hf
      · exact (Option.some.inj hf).symm
      · split_ifs at hf
        · exact (Option.some.inj hf).symm
        · exact ih fixed.2 hf
    · simp only [hd] at hf
      exact (Option.some.inj hf).symm

/-- A snapshot that phase 1 decided, with decided parents, is live or dead. -/
lemma rederive_settled (decided : ∀ reason, pre id ≠ some (.pending reason))
    (fixed : ∀ s, dag.snapshot id = some s →
      ∀ parent ∈ s.parents, live parent = some .live ∨ live parent = some .dead) :
    rederive dag k pre live id = .live ∨ rederive dag k pre live id = .dead := by
  rw [rederive]
  split
  · rename_i reason pending
    exact absurd pending (decided reason)
  · split
    · exact .inr rfl
    · rename_i s found
      split
      · rename_i verdict ended
        exact .inr (parentsVerdict_dead (fixed s found) ended)
      · split_ifs
        · exact .inr rfl
        · exact .inl rfl
  · exact .inr rfl

/-- What the second run takes from the first live lineage, it leaves dead. -/
lemma liveness_settled (hl : ∀ id ∈ dag.ids, id ∈ order)
    (first : firstLive dag order k pre id = some .live) :
    (liveness dag order k pre).2 id = some .live ∨ (liveness dag order k pre).2 id = some .dead := by
  simp only [liveness]
  split_ifs with hb
  · obtain ⟨run, _⟩ := liveFixedPoint_spec dag k
      (preAfterRecovery dag k pre (firstLive dag order k pre)) order (firstLive dag order k pre)
    obtain ⟨lineage, selfLive, hm⟩ := (firstLive_live hl id).mp first
    have start : ∀ other ∈ lineage, firstLive dag order k pre other = some .live :=
      fun other mem => (firstLive_live hl other).mpr ⟨lineage, selfLive, mem⟩
    refine run.preserves (fun live => ∀ other ∈ lineage,
      live other = some .live ∨ live other = some .dead)
      (fun other mem => .inl (start other mem)) ?_ id hm
    intro live visited _ fixed _ _ other mem
    by_cases hs : other = visited
    · subst hs
      obtain ⟨legal, s, hf, parents, _⟩ := selfLive other mem
      simp only [Function.update_self, rederived, Option.some.injEq]
      refine rederive_settled (fun reason => ?_) fun s' hf' parent hn => ?_
      · rw [preAfterRecovery, legal]
        split_ifs <;> simp
      · cases hf.symm.trans hf'
        exact fixed parent (parents parent hn).1
    · rw [Function.update_of_ne hs]
      exact fixed other mem
  · exact .inl first

end Wyrd.Authorization
