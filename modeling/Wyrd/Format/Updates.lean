import Wyrd.Format.Denotation

/-! # Mutations update the hierarchy

What each operation on a node does to the map the node denotes, by induction on the path:
one component further down an operation is the same operation on the map below that
component.
-/

namespace Wyrd

open List Option

namespace Mutation

variable {derive : ObjectKind → Bytes → ContentId} {σ ε : Type} {store : ObjectStore derive σ ε}
  {state : σ} {tree : Tree} {head : Component} {map sub changed : Hierarchy} {entry : Entry}
  {facts : Prop}

lemma loadTree_ends (id : ContentId) : (loadTree store id).Ends state fun outcome final =>
    final = state ∧ ∀ tree, outcome = .ok tree → heldTree (store.held state) id = some tree := by
  unfold Effect.Ends loadTree
  split
  · exact ⟨rfl, fun _ hd => nomatch hd⟩
  · exact ⟨rfl, fun _ hd => nomatch hd⟩
  · next bytes got =>
    refine ⟨rfl, fun tree hd => ?_⟩
    have hh := store.get_held state id (some bytes) got
    rw [mapError_ok] at hd
    exact bind_eq_some_iff.mpr ⟨bytes, hh.symm, by rw [hd]; rfl⟩

lemma insertTree_ends (tree : Tree) : (insertTree store tree).Ends state fun outcome final =>
    Grows (store.held state) (store.held final) ∧
      ∀ id, outcome = .ok id → heldTree (store.held final) id = some tree := by
  obtain ⟨hg, hf⟩ := store.insert_held .tree tree.encode state
  refine ⟨hg, fun id hd => ?_⟩
  obtain ⟨-, hh⟩ := hf id (mapError_ok.mp hd)
  exact bind_eq_some_iff.mpr ⟨tree.encode, hh, by rw [Tree.decode_encode]; rfl⟩

lemma rebuild_ends (entries : List Entry) :
    (rebuild store entries).Ends state fun outcome final =>
      Grows (store.held state) (store.held final) ∧
        ∀ id, outcome = .ok id → ∃ tree, heldTree (store.held final) id = some tree ∧
          ∀ name, tree.find name = findEntry entries name := by
  unfold rebuild
  rw [Effect.ends_bind, Effect.ends_lift]
  cases hm : Tree.fromEntries entries with
  | error => exact ⟨Grows.refl _, fun _ hd => nomatch hd⟩
  | ok tree =>
    refine (insertTree_ends tree).mono fun outcome final holds => ⟨holds.1, fun id hd => ?_⟩
    exact ⟨tree, holds.2 id hd, fun name => Tree.find_fromEntries hm⟩

/-- What every operation leaves behind: all that was stored, and on success a root for the
    changed map. -/
def Leaves (store : ObjectStore derive σ ε) (state : σ) (changed : Hierarchy) (facts : Prop)
    (outcome : Except (MutationError ε) ContentId) (final : σ) : Prop :=
  Grows (store.held state) (store.held final) ∧
    ∀ root, outcome = .ok root → Denotes (store.held final) root changed ∧ facts

lemma leaves_fail : Leaves store state changed facts (.error error) state :=
  ⟨Grows.refl _, fun _ hd => nomatch hd⟩

namespace Leaves

variable {middle final : σ} {outcome : Except (MutationError ε) ContentId}

lemma weaken {weaker : Prop} (leaves : Leaves store state changed facts outcome final)
    (implies : facts → weaker) : Leaves store state changed weaker outcome final :=
  ⟨leaves.1, fun root hd => (leaves.2 root hd).imp_right implies⟩

lemma after (grow : Grows (store.held state) (store.held middle))
    (leaves : Leaves store middle changed facts outcome final) :
    Leaves store state changed facts outcome final :=
  ⟨grow.trans leaves.1, leaves.2⟩

end Leaves

lemma load_ends {α : Type} {next : Tree → Effect σ (MutationError ε) α}
    {post : Except (MutationError ε) α → σ → Prop} {id}
    (means : Denotes (store.held state) id map) (fails : ∀ error, post (.error error) state)
    (inner : ∀ tree, tree.Denotes (store.held state) map → (next tree).Ends state post) :
    (loadTree store id >>= next).Ends state post := by
  obtain ⟨tree, hh, means⟩ := means
  refine (loadTree_ends id).bind ?_ fun error middle loaded => ?_
  · rintro known _ ⟨rfl, loaded⟩
    cases hh.symm.trans (loaded known rfl)
    exact inner tree means
  · rw [loaded.1]
    exact fails error

/-- A directory that differs from another one under one name at most. -/
structure Differs (map : Hierarchy) (head : Component) (changed : Hierarchy) : Prop where
  top : changed [] = some .directory
  frame : ∀ other, other ≠ head → changed.under other = map.under other

lemma differs_put (tail : List Component) :
    Differs map head (map.put .directory (head :: tail) sub) :=
  ⟨PathMap.put_top, fun _ => PathMap.put_under_other⟩

lemma rebuild_replaces (content : Option EntryContent) (means : tree.Denotes (store.held state) map)
    (hf : ∀ name, findEntry entries name = if name = head then content else tree.find name)
    (entry : match content with
      | none => changed.under head = fun _ => none
      | some content => content.Denotes (store.held state) (changed.under head))
    (differs : Differs map head changed) (holds : facts) :
    (rebuild store entries).Ends state (Leaves store state changed facts) := by
  refine (rebuild_ends entries).mono fun outcome final rebuilt => ⟨rebuilt.1, fun root hd => ?_⟩
  obtain ⟨next, hh, finds⟩ := rebuilt.2 root hd
  refine ⟨⟨next, hh, (means.grow rebuilt.1).replace (fun other hne => ?_) ?_
    differs.top differs.frame⟩, holds⟩
  · rw [finds, hf, if_neg hne]
  · rw [finds, hf, if_pos rfl]
    cases content with
    | none => exact entry
    | some => exact entry.grow rebuilt.1

lemma rework_ends (means : tree.Denotes (store.held state) map)
    (inner : operation.Ends state (Leaves store state (changed.under head) facts))
    (differs : Differs map head changed) :
    (do
      let newSubtree ← operation
      rebuild store (upsert tree.entries ⟨head, .dir newSubtree⟩)).Ends state
      (Leaves store state changed facts) := by
  refine inner.bind ?_ fun error middle works => ⟨works.1, fun _ hd => nomatch hd⟩
  intro newSubtree middle works
  obtain ⟨hb, hh⟩ := works.2 newSubtree rfl
  have rebuilt : (rebuild store (upsert tree.entries ⟨head, .dir newSubtree⟩)).Ends middle
      (Leaves store middle changed facts) :=
    rebuild_replaces (some (.dir newSubtree)) (means.grow works.1)
      (fun name => findEntry_upsert) hb differs hh
  exact rebuilt.mono fun _ _ hl => hl.after works.1

/-- What leads to a path is a directory, or missing where a call may create it. -/
def Ways (creates : Bool) (map : Hierarchy) (path : List Component) : Prop :=
  ∀ way, way <+: path → way ≠ path →
    map way = some .directory ∨ creates = true ∧ map way = none

variable {creates : Bool}

lemma Ways.single (top : map [] = some .directory) : Ways creates map [head] := by
  intro way above differs
  rcases prefix_cons_iff.mp above with rfl | ⟨rest, rfl, inner⟩
  · exact .inl top
  · rw [prefix_nil.mp inner] at differs
    exact absurd rfl differs

lemma Ways.cons (top : map [] = some .directory) (ways : Ways creates (map.under head) path) :
    Ways creates map (head :: path) := by
  intro way above differs
  rcases prefix_cons_iff.mp above with rfl | ⟨rest, rfl, inner⟩
  · exact .inl top
  · exact ways rest inner fun same => differs (congrArg _ same)

lemma Ways.there (ways : Ways false map path) (way : List Component) (above : way <+: path)
    (differs : way ≠ path) : map way = some .directory :=
  (ways way above differs).resolve_right (by simp)

variable (tail : List Component)

lemma putNode_ends (means : tree.Denotes (store.held state) map)
    (content : entry.content.Denotes (store.held state) sub) :
    (putNode store tree head entry creates tail).Ends state
      (Leaves store state (map.put .directory (head :: tail) sub)
        (Ways creates map (head :: tail))) := by
  induction tail generalizing tree head map with
  | nil =>
    simp only [putNode]
    split_ifs with hn
    · exact leaves_fail
    · obtain rfl := not_not.mp hn
      refine rebuild_replaces (some entry.content) means (fun name => findEntry_upsert) ?_
        (differs_put []) (Ways.single means.top)
      rw [PathMap.put_under, PathMap.put_nil]
      exact content
  | cons next tail ih =>
    simp only [putNode]
    split
    · next subtree led =>
      refine load_ends (means.found led) (fun _ => leaves_fail) fun child hb => ?_
      refine rework_ends means ?_ (differs_put _)
      rw [PathMap.put_under]
      exact (ih hb).mono fun _ _ leaves => leaves.weaken (Ways.cons means.top)
    · exact leaves_fail
    · next missing =>
      split_ifs with hc
      · refine rework_ends means ?_ (differs_put _)
        have gone := means.absent missing
        rw [PathMap.put_under, gone, ← PathMap.put_leaf]
        refine (ih Tree.denotes_empty).mono fun _ _ leaves => leaves.weaken fun _ => ?_
        refine Ways.cons means.top fun way _ _ => .inr ⟨hc, ?_⟩
        rw [gone]
      · exact leaves_fail

lemma atPath_ends {post root text operation} (means : Denotes (store.held state) root map)
    (fails : ∀ error, post (.error error) state)
    (inner : ∀ tree path, parsePath text = .ok path → tree.Denotes (store.held state) map →
      (operation tree path).Ends state post) :
    (atPath store root text operation).Ends state post := by
  unfold atPath
  rw [Effect.ends_bind, Effect.ends_lift]
  cases hp : parsePath text with
  | error => exact fails _
  | ok path => exact load_ends means fails fun tree hb => inner tree path hp hb

inductive Operation where
  | put (path : String) (entry : Entry)
  | putStrict (path : String) (entry : Entry)
  | remove (path : String)
  | mkdir (path : String)
  | rmdir (path : String)
  | rename (source target : String)

namespace Operation

def apply (store : ObjectStore derive σ ε) (root : ContentId) :
    Operation → Effect σ (MutationError ε) ContentId
  | .put path entry => Mutation.put store root path entry
  | .putStrict path entry => Mutation.putStrict store root path entry
  | .remove path => Mutation.remove store root path
  | .mkdir path => Mutation.mkdir store root path
  | .rmdir path => Mutation.rmdir store root path
  | .rename source target => Mutation.rename store root source target

end Operation

def sampleHash (_ : ObjectKind) (bytes : Bytes) : ContentId :=
  ⟨Fin.ofNat (2 ^ 256) (ofBe bytes % (2 ^ 256 - 189))⟩

def emptyRoot : ContentId := sampleHash .tree Tree.empty.encode

def emptyDrive : MemoryObjects := [(emptyRoot, Tree.empty.encode)]

lemma empty_denotes {drive : MemoryObjects} (held : drive.held emptyRoot = some Tree.empty.encode) :
    Denotes drive.held emptyRoot (PathMap.leaf .directory) := by
  refine ⟨Tree.empty, ?_, Tree.denotes_empty⟩
  rw [heldTree, held, bind_some, Tree.decode_encode]
  rfl

lemma emptyRoot_denotes : Denotes emptyDrive.held emptyRoot (PathMap.leaf .directory) :=
  empty_denotes (by simp [emptyDrive, MemoryObjects.held])

def dirName : Component := ⟨"d", by decide⟩

def innerName : Component := ⟨"e", by decide⟩

/-- A directory with an empty directory in it, made in one call. -/
def filled (drive : MemoryObjects) : MemoryObjects × Except (MutationError Unit) ContentId :=
  put (MemoryObjects.store sampleHash) emptyRoot "d/e" ⟨innerName, .dir emptyRoot⟩ drive

def filledRoot : ContentId := (filled emptyDrive).2.toOption.getD emptyRoot

def filledMap : Hierarchy :=
  PathMap.put .directory (PathMap.leaf .directory) [dirName, innerName] (PathMap.leaf .directory)

lemma filled_denotes {drive : MemoryObjects}
    (denotes : Denotes drive.held emptyRoot (PathMap.leaf .directory))
    (made : (filled drive).2 = .ok root) : Denotes (filled drive).1.held root filledMap := by
  have parsed : parsePath "d/e" = .ok ⟨dirName, [innerName]⟩ := by decide +kernel
  have ends : (put (MemoryObjects.store sampleHash) emptyRoot "d/e"
      ⟨innerName, .dir emptyRoot⟩).Ends drive
      (Leaves (MemoryObjects.store sampleHash) drive filledMap True) := by
    refine atPath_ends denotes (fun _ => leaves_fail) fun tree path parsed' top => ?_
    cases parsed.symm.trans parsed'
    have content : (EntryContent.dir emptyRoot).Denotes
        ((MemoryObjects.store sampleHash).held drive) (PathMap.leaf .directory) := denotes
    exact (putNode_ends [innerName] top content).mono fun _ _ left => left.weaken fun _ => trivial
  exact (ends.2 root made).1

end Mutation

end Wyrd
