import Wyrd.Format.Updates

/-! # One root for a hierarchy

The root depends on what a drive holds, not on the device or the mutations that led there.
-/

namespace Wyrd

variable {ours theirs : ContentId → Option Bytes} {tree other : Tree} {map : Hierarchy}
  {derive : ObjectKind → Bytes → ContentId}

/-- What the store reads as a tree was addressed as one. -/
def HashNamed (derive : ObjectKind → Bytes → ContentId) (held : ContentId → Option Bytes) : Prop :=
  ∀ id tree, heldTree held id = some tree → derive .tree tree.encode = id

lemma Tree.ext_find (hfind : ∀ name, tree.find name = other.find name) : tree = other := by
  have : Std.Asymm fun first second : Entry => first.name < second.name :=
    ⟨fun _ _ => lt_asymm⟩
  have same : tree.entries = other.entries := tree.sorted.eq_of_mem_iff other.sorted fun entry => by
    rw [← findEntry_eq_some tree.names_nodup, ← findEntry_eq_some other.names_nodup]
    exact Eq.congr_left (hfind entry.name)
  cases tree
  cases other
  simpa using same

lemma Tree.Denotes.tree_unique (named : HashNamed derive ours) (named' : HashNamed derive theirs)
    (means : tree.Denotes ours map) (apart : other.Denotes theirs map) : tree = other := by
  induction means generalizing other with
  | @intro tree map top absent leaf stored dir ih =>
    have means : tree.Denotes ours map := ⟨top, absent, leaf, stored, dir⟩
    refine Tree.ext_find fun name => ?_
    have hnone := (@means.find_eq_none _ _ _ name).trans apart.find_eq_none.symm
    cases hf : tree.find name with
    | none => exact (hnone.mp hf).symm
    | some content =>
      cases hf' : other.find name with
      | none => simp [hf, hf'] at hnone
      | some content' =>
        have hnode : content.node = content'.node :=
          Option.some.inj ((means.found hf).top.symm.trans (apart.found hf').top)
        cases content with
        | file | symlink => cases content' <;> simp_all [EntryContent.node]
        | dir subtree =>
          cases content' with
          | file | symlink => cases hnode
          | dir subtree' =>
            -- The children denote the same map, so they are one tree with one address.
            obtain ⟨child, hh, -⟩ := means.found hf
            obtain ⟨child', hh', means'⟩ := apart.found hf'
            have hs := ih name subtree child hf hh means'
            rw [← named subtree child hh, ← named' subtree' child' hh', hs]

/-- Roots of one hierarchy are equal, whatever else the stores hold. -/
theorem roots_agree {root root' : ContentId} (ourIds : HashNamed derive ours)
    (theirIds : HashNamed derive theirs) (denotes : Denotes ours root map)
    (denotes' : Denotes theirs root' map) : root = root' := by
  obtain ⟨tree, hh, hm⟩ := denotes
  obtain ⟨tree', hh', hm'⟩ := denotes'
  rw [← ourIds root tree hh, ← theirIds root' tree' hh', hm.tree_unique ourIds theirIds hm']

section Sample

open Mutation

/-- A device that also holds another directory. -/
def crowdedDrive : MemoryObjects :=
  (sampleHash .tree (upperTree ⟨1⟩ ⟨2⟩).encode, (upperTree ⟨1⟩ ⟨2⟩).encode) :: emptyDrive

lemma hashNamed_of_all {drive : MemoryObjects}
    (addressed : ∀ object ∈ drive, sampleHash .tree object.2 = object.1) :
    HashNamed sampleHash drive.held := by
  intro id tree found
  obtain ⟨bytes, held, reads⟩ := Option.bind_eq_some_iff.mp found
  obtain ⟨object, first, rfl⟩ := Option.map_eq_some_iff.mp held
  have same : object.1 = id := by simpa using List.find?_some first
  cases decoded : Tree.decode object.2 with
  | error =>
    rw [decoded] at reads
    cases reads
  | ok =>
    rw [decoded] at reads
    cases reads
    rw [Tree.encode_decode decoded, ← same]
    exact addressed object (List.mem_of_find?_eq_some first)

theorem roots_agree_filled : ∃ root root', (filled emptyDrive).2 = .ok root ∧
    (filled crowdedDrive).2 = .ok root' ∧ root = root' := by
  have crowded : Denotes crowdedDrive.held emptyRoot (PathMap.leaf .directory) :=
    empty_denotes (by decide +kernel)
  obtain ⟨root, made⟩ : ∃ root, (filled emptyDrive).2 = .ok root := ⟨filledRoot, by decide +kernel⟩
  obtain ⟨root', made'⟩ : ∃ root, (filled crowdedDrive).2 = .ok root :=
    ⟨filledRoot, by decide +kernel⟩
  refine ⟨root, root', made, made', roots_agree (hashNamed_of_all (by decide +kernel))
    (hashNamed_of_all (by decide +kernel)) (filled_denotes emptyRoot_denotes made)
    (filled_denotes crowded made')⟩

end Sample

end Wyrd
