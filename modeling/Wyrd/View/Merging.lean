import Wyrd.View.Drive

/-! # What a merge serves

Each outcome of a merge has its own condition on what the heads resolve to, and the
conditions leave one outcome. None depends on the order of the heads.
-/

namespace Wyrd.View

open List Option

variable {resolutions other : Resolutions} {content : EntryContent}

/-- The same node up to the order of heads. -/
def Node.Similar : Node → Node → Prop
  | .leaf content, .leaf content' => content = content'
  | .mergedDir subtrees, .mergedDir subtrees' => subtrees.Perm subtrees'
  | .conflict versions, .conflict versions' => versions.Perm versions'
  | _, _ => False

lemma present_length_le (resolutions : Resolutions) :
    (present resolutions).length ≤ resolutions.length := length_filterMap_le ..

lemma mem_present : version ∈ present resolutions ↔ (version.1, some version.2) ∈ resolutions := by
  unfold present
  rw [mem_filterMap]
  constructor
  · rintro ⟨⟨snapshot, node⟩, hm, hf⟩
    obtain ⟨content, rfl, rfl⟩ := map_eq_some_iff.mp hf
    exact hm
  · intro hm
    exact ⟨_, hm, rfl⟩

lemma present_eq_nil : present resolutions = [] ↔ ∀ resolution ∈ resolutions, resolution.2 = none := by
  rw [eq_nil_iff_forall_not_mem]
  constructor
  · intro gone resolution hm
    rw [eq_none_iff_forall_ne_some]
    intro content hf
    refine gone (resolution.1, content) (mem_present.mpr ?_)
    rw [← hf]
    exact hm
  · intro gone version hm
    exact absurd (gone _ (mem_present.mp hm)) (by simp)

lemma present_complete (full : (present resolutions).length = resolutions.length) :
    resolutions = (present resolutions).map fun version => (version.1, some version.2) := by
  induction resolutions with
  | nil => rfl
  | cons resolution rest ih =>
    obtain ⟨snapshot, node⟩ := resolution
    cases node with
    | none =>
      have less : present ((snapshot, none) :: rest) = present rest := rfl
      rw [less, length_cons] at full
      have := present_length_le rest
      omega
    | some content =>
      have longer : present ((snapshot, some content) :: rest) =
        (snapshot, content) :: present rest := rfl
      rw [longer, length_cons, length_cons] at full
      rw [longer, map_cons, ← ih (by omega)]

lemma dirSide_some : dirSide version = some side ↔ version = (side.1, .dir side.2) := by
  obtain ⟨snapshot, content⟩ := version
  cases content with
  | dir => simp [dirSide, Prod.ext_iff]
  | file => simp [dirSide]
  | symlink => simp [dirSide]

lemma allDirs_some :
    allDirs versions = some subtrees ↔
      versions = subtrees.map fun side => (side.1, .dir side.2) := by
  induction versions generalizing subtrees with
  | nil => cases subtrees <;> simp [allDirs]
  | cons version rest ih =>
    unfold allDirs at ih ⊢
    rw [mapM_cons]
    constructor
    · intro all
      obtain ⟨side, hh, later⟩ := bind_eq_some_iff.mp all
      obtain ⟨sides, hr, hd⟩ := bind_eq_some_iff.mp later
      cases hd
      rw [map_cons, ← ih.mp hr, ← dirSide_some.mp hh]
    · intro all
      cases subtrees with
      | nil => cases all
      | cons =>
        obtain ⟨hh, later⟩ := List.cons.inj all
        rw [dirSide_some.mpr hh, bind_eq_bind, bind_some, ih.mpr later]
        rfl

lemma allDirs_none (none : allDirs versions = none) :
    ∃ version ∈ versions, ∀ subtree, version.2 ≠ .dir subtree := by
  by_contra dirs
  push Not at dirs
  have total : ∃ subtrees, allDirs versions = some subtrees := by
    obtain ⟨subtrees, all, -⟩ := mapM_total fun version hm => by
      obtain ⟨subtree, dir⟩ := dirs version hm
      exact ⟨(version.1, subtree), dirSide_some.mpr (Prod.ext rfl dir)⟩
    exact ⟨subtrees, all⟩
  rw [none] at total
  obtain ⟨_, ha⟩ := total
  cases ha

lemma present_incomplete (incomplete : (present resolutions).length ≠ resolutions.length) :
    ∃ resolution ∈ resolutions, resolution.2 = none := by
  have less := lt_of_le_of_ne (present_length_le resolutions) incomplete
  obtain ⟨resolution, hm, hg⟩ := length_filterMap_lt_length_iff_exists.mp less
  exact ⟨resolution, hm, map_eq_none_iff.mp hg⟩

/-- What heads resolve to alike. -/
def Unanimous (resolutions : Resolutions) (content : EntryContent) : Prop :=
  resolutions ≠ [] ∧ ∀ resolution ∈ resolutions, resolution.2 = some content

inductive Merges (resolutions : Resolutions) : Except ViewError Node → Prop
  | nowhere (absent : present resolutions = []) : Merges resolutions (.error .notFound)
  | unanimous {content : EntryContent} (same : Unanimous resolutions content) :
      Merges resolutions (.ok (.leaf content))
  | directories {subtrees : List (SnapshotId × ContentId)} (some : present resolutions ≠ [])
      (all : resolutions = subtrees.map fun side => (side.1, Option.some (.dir side.2)))
      (apart : ∀ content, ¬ Unanimous resolutions content) :
      Merges resolutions (.ok (.mergedDir subtrees))
  | disagreement (some : present resolutions ≠ [])
      (mixed : ∃ resolution ∈ resolutions, ∀ subtree, resolution.2 ≠ Option.some (.dir subtree))
      (apart : ∀ content, ¬ Unanimous resolutions content) :
      Merges resolutions (.ok (.conflict (present resolutions)))

lemma merges (resolutions : Resolutions) : Merges resolutions (merge resolutions) := by
  unfold merge
  split
  · next none => exact .nowhere none
  · next first rest some =>
    rw [← some]
    have filled : present resolutions ≠ [] := by
      rw [some]
      exact cons_ne_nil first rest
    have hm : first ∈ present resolutions := by
      rw [some]
      exact mem_cons_self
    by_cases full : (present resolutions).length = resolutions.length
    · rw [if_pos full]
      have all := present_complete full
      by_cases hs : ∀ version ∈ present resolutions, version.2 = first.2
      · rw [if_pos hs]
        refine .unanimous ⟨fun none => ?_, fun resolution hm => ?_⟩
        · rw [none] at filled
          exact filled rfl
        · rw [all, List.mem_map] at hm
          obtain ⟨version, hm, rfl⟩ := hm
          rw [hs version hm]
      · rw [if_neg hs]
        have apart (content : EntryContent) : ¬ Unanimous resolutions content := by
          rintro ⟨-, alike⟩
          refine hs fun version hm' => ?_
          have hh := alike _ (mem_present.mp hm')
          have first := alike _ (mem_present.mp hm)
          exact Option.some.inj (hh.trans first.symm)
        split
        · next subtrees dirs =>
          refine .directories filled ?_ apart
          rw [all, allDirs_some.mp dirs, List.map_map]
          rfl
        · next none =>
          refine .disagreement filled ?_ apart
          obtain ⟨version, hm, other⟩ := allDirs_none none
          exact ⟨_, mem_present.mp hm, fun subtree hs => other subtree (Option.some.inj hs)⟩
    · rw [if_neg full]
      obtain ⟨resolution, hm, gone⟩ := present_incomplete full
      refine .disagreement filled ⟨resolution, hm, by simp [gone]⟩ ?_
      rintro content ⟨-, hs⟩
      exact absurd (gone.symm.trans (hs resolution hm)) (by simp)

lemma Unanimous.somewhere (hs : Unanimous resolutions content) : present resolutions ≠ [] := by
  obtain ⟨resolution, hm⟩ := exists_mem_of_ne_nil _ hs.1
  intro hg
  exact absurd (present_eq_nil.mp hg resolution hm) (by simp [hs.2 resolution hm])

lemma not_mixed {subtrees : List (SnapshotId × ContentId)}
    (all : resolutions = subtrees.map fun side => (side.1, some (.dir side.2))) :
    ¬ ∃ resolution ∈ resolutions, ∀ subtree, resolution.2 ≠ some (.dir subtree) := by
  rintro ⟨resolution, hm, other⟩
  rw [all, List.mem_map] at hm
  obtain ⟨side, -, rfl⟩ := hm
  exact other side.2 rfl

lemma Merges.merge (merged : Merges resolutions outcome) : View.merge resolutions = outcome := by
  have makes := merges resolutions
  generalize View.merge resolutions = result at makes
  cases merged with
  | nowhere gone =>
    cases makes with
    | nowhere => rfl
    | unanimous hs => exact absurd gone hs.somewhere
    | directories some => exact absurd gone some
    | disagreement some => exact absurd gone some
  | unanimous hs =>
    cases makes with
    | nowhere gone => exact absurd gone hs.somewhere
    | unanimous hs' =>
      obtain ⟨resolution, hm⟩ := exists_mem_of_ne_nil _ hs.1
      cases (hs.2 resolution hm).symm.trans (hs'.2 resolution hm)
      rfl
    | directories _ _ apart => exact absurd hs (apart _)
    | disagreement _ _ apart => exact absurd hs (apart _)
  | directories some all apart =>
    cases makes with
    | nowhere gone => exact absurd gone some
    | unanimous hs => exact absurd hs (apart _)
    | directories _ all' =>
      have inj : Function.Injective
          fun side : SnapshotId × ContentId => (side.1, Option.some (EntryContent.dir side.2)) := by
        rintro ⟨snapshot, subtree⟩ ⟨snapshot', subtree'⟩ hs
        cases hs
        rfl
      rw [map_injective_iff.mpr inj (all.symm.trans all')]
    | disagreement _ mixed => exact absurd mixed (not_mixed all)
  | disagreement some mixed apart =>
    cases makes with
    | nowhere gone => exact absurd gone some
    | unanimous hs => exact absurd hs (apart _)
    | directories _ all => exact absurd mixed (not_mixed all)
    | disagreement => rfl

lemma Unanimous.perm (perm : resolutions.Perm other) (hs : Unanimous resolutions content) :
    Unanimous other content := by
  refine ⟨fun none => hs.1 ?_, fun resolution hm => hs.2 resolution (perm.mem_iff.mpr hm)⟩
  rw [none] at perm
  exact perm.eq_nil

/-- The order of the heads makes no difference but to the order of the versions. -/
lemma merge_perm (perm : resolutions.Perm other) (merged : merge resolutions = .ok node) :
    ∃ served, merge other = .ok served ∧ node.Similar served := by
  have versions : (present resolutions).Perm (present other) := perm.filterMap _
  have some (filled : present resolutions ≠ []) : present other ≠ [] := by
    intro none
    rw [none] at versions
    exact filled versions.eq_nil
  have makes := merges resolutions
  rw [merged] at makes
  cases makes with
  | unanimous hs => exact ⟨_, (Merges.unanimous (hs.perm perm)).merge, rfl⟩
  | @directories subtrees filled all apart =>
    have apart' (content : EntryContent) : ¬ Unanimous other content :=
      fun hs => apart content (hs.perm perm.symm)
    obtain ⟨sides, all', perm'⟩ : ∃ sides : List (SnapshotId × ContentId),
        other = sides.map (fun side => (side.1, Option.some (.dir side.2))) ∧ subtrees.Perm sides := by
      have paired : List.Forall₂ (fun resolution side => resolution = (side.1, Option.some (.dir side.2)))
          resolutions subtrees := by
        rw [all, forall₂_map_left_iff]
        exact forall₂_same.mpr fun _ _ => rfl
      obtain ⟨sides, paired, perm⟩ := perm_comp_forall₂ perm.symm paired
      refine ⟨sides, ?_, perm.symm⟩
      rw [← forall₂_map_right_iff, forall₂_eq_eq_eq] at paired
      exact paired
    exact ⟨_, (Merges.directories (some filled) all' apart').merge, perm'⟩
  | disagreement filled mixed apart =>
    obtain ⟨resolution, hm, hne⟩ := mixed
    exact ⟨_, (Merges.disagreement (some filled)
      ⟨resolution, perm.mem_iff.mp hm, hne⟩
      fun content hs => apart content (hs.perm perm.symm)).merge, versions⟩

lemma insertPair_perm {α : Type} {pair : SnapshotId × α} {map : List (SnapshotId × α)}
    (new : pair.1 ∉ map.map Prod.fst) : (insertPair pair map).Perm (pair :: map) := by
  induction map with
  | nil => exact .refl _
  | cons first rest ih =>
    rw [map_cons, mem_cons, not_or] at new
    unfold insertPair
    split_ifs with hb hs
    · exact .refl _
    · exact absurd hs new.1
    · exact ((ih new.2).cons first).trans (.swap ..)

lemma ordered_perm {α : Type} {pairs : List (SnapshotId × α)}
    (once : (pairs.map Prod.fst).Nodup) : (ordered pairs).Perm pairs := by
  suffices he : ∀ map : List (SnapshotId × α), ((map ++ pairs).map Prod.fst).Nodup →
      (pairs.foldl (fun map pair => insertPair pair map) map).Perm (map ++ pairs) from
    he [] once
  clear once
  induction pairs with
  | nil =>
    intro map _
    rw [append_nil]
    exact .refl _
  | cons pair rest ih =>
    intro map once
    have moved : (map ++ pair :: rest).Perm (pair :: map ++ rest) := perm_middle
    have once' := (moved.map Prod.fst).nodup_iff.mp once
    have new : pair.1 ∉ map.map Prod.fst := by
      intro again
      rw [cons_append, map_cons, nodup_cons, map_append] at once'
      exact once'.1 (mem_append_left _ again)
    have grown := (insertPair_perm new).append_right rest
    have inserted := ih (insertPair pair map) ((grown.map Prod.fst).nodup_iff.mpr once')
    exact inserted.trans (grown.trans moved.symm)

end Wyrd.View
