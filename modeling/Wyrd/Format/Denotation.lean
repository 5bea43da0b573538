import Wyrd.Format.Mutation
import Wyrd.Lib.PathMap

/-! # The hierarchy a root denotes

A root denotes a map from paths when every directory it reaches is in the store. More
objects do not change what a root denotes.
-/

namespace Wyrd

open List

/-- What stands at a path. -/
inductive Node where
  | file (size : UInt64) (executable : Bool) (chunks : List ContentId)
  | symlink (target : String)
  | directory
  deriving DecidableEq

def EntryContent.node : EntryContent → Node
  | .file size executable chunks => .file size executable chunks
  | .symlink target => .symlink target
  | .dir _ => .directory

abbrev Hierarchy := PathMap Component Node

/-- A node denotes a map: a directory, with every entry's own map below it. -/
inductive Tree.Denotes (held : ContentId → Option Bytes) : Tree → Hierarchy → Prop
  | intro {tree : Tree} {map : Hierarchy} (top : map [] = some .directory)
      (absent : ∀ name, tree.find name = none → map.under name = fun _ => none)
      (leaf : ∀ name content, tree.find name = some content → content.isDir = false →
        map.under name = PathMap.leaf content.node)
      (stored : ∀ name subtree, tree.find name = some (.dir subtree) →
        ∃ child, heldTree held subtree = some child)
      (dir : ∀ name subtree child, tree.find name = some (.dir subtree) →
        heldTree held subtree = some child → Tree.Denotes held child (map.under name)) :
      Tree.Denotes held tree map

def Denotes (held : ContentId → Option Bytes) (root : ContentId) (map : Hierarchy) : Prop :=
  ∃ tree, heldTree held root = some tree ∧ tree.Denotes held map

def EntryContent.Denotes (held : ContentId → Option Bytes) : EntryContent → Hierarchy → Prop
  | .dir subtree, map => Wyrd.Denotes held subtree map
  | content, map => map = PathMap.leaf content.node

variable {held before after : ContentId → Option Bytes} {tree child : Tree} {map sub : Hierarchy}
  {root subtree : ContentId} {content : EntryContent} {name : Component}

lemma EntryContent.denotes_leaf (leaf : content.isDir = false) :
    content.Denotes held map ↔ map = PathMap.leaf content.node := by
  cases content with
  | dir => cases leaf
  | file => exact Iff.rfl
  | symlink => exact Iff.rfl

lemma Tree.denotes_iff : tree.Denotes held map ↔ map [] = some .directory ∧ ∀ name,
    match tree.find name with
    | none => map.under name = fun _ => none
    | some content => content.Denotes held (map.under name) := by
  constructor
  · rintro ⟨top, hg, leaf, hs, dir⟩
    refine ⟨top, fun name => ?_⟩
    cases hf : tree.find name with
    | none => exact hg name hf
    | some content =>
      cases content with
      | dir subtree =>
        obtain ⟨child, hh⟩ := hs name subtree hf
        exact ⟨child, hh, dir name subtree child hf hh⟩
      | file => exact leaf name _ hf rfl
      | symlink => exact leaf name _ hf rfl
  · rintro ⟨top, each⟩
    have atName {name : Component} {content : EntryContent}
        (hf : tree.find name = some content) : content.Denotes held (map.under name) := by
      have hh := each name
      rw [hf] at hh
      exact hh
    refine ⟨top, fun name hl => ?_, fun name content hf leaf => ?_,
      fun name subtree hf => ?_, fun name subtree child hf hh => ?_⟩
    · have hh := each name
      rw [hl] at hh
      exact hh
    · exact (EntryContent.denotes_leaf leaf).mp (atName hf)
    · obtain ⟨child, hh, -⟩ := atName hf
      exact ⟨child, hh⟩
    · obtain ⟨other, ht, hm⟩ := atName hf
      cases hh.symm.trans ht
      exact hm

lemma Tree.Denotes.grow (means : tree.Denotes before map) (grow : Grows before after) :
    tree.Denotes after map := by
  induction means with
  | intro top hg leaf stored dir ih =>
    refine ⟨top, hg, leaf, fun name subtree hf => ?_, fun name subtree child hf hh => ?_⟩
    · obtain ⟨child, hh⟩ := stored name subtree hf
      exact ⟨child, grow.tree hh⟩
    · obtain ⟨other, there⟩ := stored name subtree hf
      cases hh.symm.trans (grow.tree there)
      exact ih name subtree child hf there

lemma Denotes.grow (means : Denotes before root map) (grow : Grows before after) :
    Denotes after root map := by
  obtain ⟨tree, hf, means⟩ := means
  exact ⟨tree, grow.tree hf, means.grow grow⟩

lemma EntryContent.Denotes.grow (means : content.Denotes before map)
    (grow : Grows before after) : content.Denotes after map := by
  cases content with
  | dir => exact Wyrd.Denotes.grow means grow
  | file => exact means
  | symlink => exact means

lemma Tree.Denotes.top (means : tree.Denotes held map) : map [] = some .directory :=
  (Tree.denotes_iff.mp means).1

lemma Tree.Denotes.absent (means : tree.Denotes held map) (lost : tree.find name = none) :
    map.under name = fun _ => none := by
  have hh := (Tree.denotes_iff.mp means).2 name
  rw [lost] at hh
  exact hh

lemma Tree.Denotes.found (means : tree.Denotes held map)
    (hf : tree.find name = some content) : content.Denotes held (map.under name) := by
  have hh := (Tree.denotes_iff.mp means).2 name
  rw [hf] at hh
  exact hh

lemma EntryContent.Denotes.top (means : content.Denotes held map) : map [] = some content.node := by
  cases content with
  | dir =>
    obtain ⟨tree, -, means⟩ := means
    exact means.top
  | file => rw [means]; rfl
  | symlink => rw [means]; rfl

lemma Tree.Denotes.find_eq_none (means : tree.Denotes held map) :
    tree.find name = none ↔ map [name] = none := by
  cases hf : tree.find name with
  | none =>
    have bare : map [name] = none := congrFun (means.absent hf) []
    simp [bare]
  | some content =>
    have top : map [name] = some content.node := (means.found hf).top
    simp [top]

lemma Tree.denotes_empty : Tree.empty.Denotes held (PathMap.leaf .directory) :=
  Tree.denotes_iff.mpr ⟨rfl, fun name => by
    have lost : Tree.empty.find name = none := rfl
    rw [lost]
    rfl⟩

lemma findEntry_upsert :
    findEntry (upsert entries entry) name =
      if name = entry.name then some entry.content else findEntry entries name := by
  unfold findEntry
  induction entries with
  | nil =>
    by_cases hs : name = entry.name
    · simp [upsert, hs]
    · simp [upsert, hs, Ne.symm hs]
  | cons first rest ih =>
    simp only [upsert]
    by_cases swaps : first.name = entry.name
    · rw [if_pos swaps]
      by_cases hs : name = entry.name
      · simp [hs]
      · simp [hs, Ne.symm hs, swaps]
    · rw [if_neg swaps]
      by_cases hh : first.name = name
      · have hne : name ≠ entry.name := fun hs => swaps (hh.trans hs)
        simp [hh, hne]
      · simpa [List.find?_cons, hh] using ih

lemma Tree.Denotes.replace {next : Tree} {changed : Hierarchy} (means : tree.Denotes held map)
    (rest : ∀ other, other ≠ name → next.find other = tree.find other)
    (entry : match next.find name with
      | none => changed.under name = fun _ => none
      | some content => content.Denotes held (changed.under name))
    (top : changed [] = some .directory)
    (frame : ∀ other, other ≠ name → changed.under other = map.under other) :
    next.Denotes held changed := by
  refine Tree.denotes_iff.mpr ⟨top, fun other => ?_⟩
  by_cases hs : other = name
  · rw [hs]
    exact entry
  · rw [rest other hs, frame other hs]
    exact (Tree.denotes_iff.mp means).2 other

end Wyrd
