import Wyrd.View.Merging

/-! # Listing and lookup

A lookup of a child walks every head from its root; a listing of the parent merges the
directories of the parent's node. Both come down to the child in each of these
directories, so they agree wherever the parent is a directory in every head.
-/

namespace Wyrd.View

open List

variable {resolutions : Resolutions} {content : EntryContent} {name : Component}

namespace DriveView

variable {view : DriveView} {components : List Component} {treeId : ContentId} {node : Node}
  {entries : List DirEntry}

/-- A child of what a head has at a path. -/
def below (view : DriveView) (name : Component) : Option EntryContent → Except ViewError (Option EntryContent)
  | none => .ok none
  | some (.dir subtree) => do
      let tree ← view.loadTree subtree
      return tree.find name
  | some _ => .error .notADirectory

section Walk

variable {tree : Tree} {first : Component} {remaining : List Component}

lemma resolveOne_nil (loaded : view.loadTree treeId = .ok tree) :
    view.resolveOne treeId [] = .ok (some (.dir treeId)) := by
  simp [resolveOne, loaded, bind, Except.bind, pure, Except.pure]

lemma below_dir (loaded : view.loadTree treeId = .ok tree) :
    view.below name (some (.dir treeId)) = .ok (tree.find name) := by
  simp [below, loaded, bind, Except.bind, pure, Except.pure]

/-- The rest of a walk: it goes on through a directory only. -/
def through (view : DriveView) (remaining : List Component) :
    Option EntryContent → Except ViewError (Option EntryContent)
  | none => .ok none
  | some content =>
    if remaining = [] then .ok (some content)
    else
      match content with
      | .dir subtree => view.resolveOne subtree remaining
      | _ => .error .notADirectory

lemma resolveOne_cons : view.resolveOne treeId (first :: remaining) =
    view.below first (some (.dir treeId)) >>= view.through remaining := by
  rw [resolveOne]
  cases loaded : view.loadTree treeId with
  | error => simp [below, loaded, bind, Except.bind]
  | ok tree =>
    rw [below_dir loaded]
    cases hf : tree.find first with
    | none => simp [hf, through, bind, Except.bind, pure, Except.pure]
    | some content =>
      simp only [hf, through, bind, Except.bind]
      cases content <;> rfl

lemma resolveOne_single : view.resolveOne treeId [name] = view.below name (some (.dir treeId)) := by
  have stops : view.through [] = pure := by
    funext found
    cases found <;> rfl
  rw [resolveOne_cons, stops, bind_pure]

lemma through_snoc (hb : ∀ treeId, view.resolveOne treeId (remaining ++ [name]) =
    view.resolveOne treeId remaining >>= view.below name) (found : Option EntryContent) :
    view.through (remaining ++ [name]) found = view.through remaining found >>= view.below name := by
  cases found with
  | none => rfl
  | some content =>
    have more : remaining ++ [name] ≠ [] := by simp
    simp only [through, if_neg more]
    by_cases last : remaining = []
    · rw [if_pos last, last]
      cases content with
      | dir => exact resolveOne_single
      | file => rfl
      | symlink => rfl
    · rw [if_neg last]
      cases content with
      | dir subtree => exact hb subtree
      | file => rfl
      | symlink => rfl

lemma resolveOne_snoc : view.resolveOne treeId (components ++ [name]) =
    view.resolveOne treeId components >>= view.below name := by
  induction components generalizing treeId with
  | nil =>
    rw [nil_append, resolveOne_single]
    cases loaded : view.loadTree treeId with
    | error => simp [resolveOne, below, loaded, bind, Except.bind]
    | ok => simp [resolveOne_nil loaded, bind, Except.bind]
  | cons first remaining ih =>
    rw [cons_append, resolveOne_cons, resolveOne_cons, bind_assoc]
    congr 1
    funext found
    exact through_snoc (fun _ => ih) found

end Walk

def Resolved (view : DriveView) (components : List Component) (resolutions : Resolutions) : Prop :=
  List.Forall₂ (fun head resolution => resolution.1 = head.snapshot ∧
    view.resolveOne head.tree components = .ok resolution.2) view.heads resolutions

lemma resolve_iff {head : Head} {resolution : SnapshotId × Option EntryContent} :
    (do return (head.snapshot, ← view.resolveOne head.tree components) :
        Except ViewError (SnapshotId × Option EntryContent)) = .ok resolution ↔
      resolution.1 = head.snapshot ∧ view.resolveOne head.tree components = .ok resolution.2 := by
  rw [bind_ok]
  constructor
  · rintro ⟨found, solved, ⟨⟩⟩
    exact ⟨rfl, solved⟩
  · rintro ⟨hs, solved⟩
    exact ⟨_, solved, by rw [← hs]; rfl⟩

lemma Resolved.lookupLiteral (solved : view.Resolved components resolutions) :
    view.lookupLiteral components = merge resolutions := by
  have maps := mapM_ok.mpr (solved.imp fun _ _ hh => resolve_iff.mpr hh)
  unfold DriveView.lookupLiteral
  rw [maps]
  rfl

lemma lookupLiteral_ok (hf : view.lookupLiteral components = .ok node) :
    ∃ resolutions, view.Resolved components resolutions ∧ merge resolutions = .ok node := by
  obtain ⟨resolutions, hm, merges⟩ := bind_ok.mp hf
  exact ⟨resolutions, (mapM_ok.mp hm).imp fun _ _ hh => resolve_iff.mp hh, merges⟩

/-- No error, or another one than that nothing is found. -/
def Finds {α : Type} : Except ViewError α → Prop := Yields (fun _ => True) (· ≠ .notFound)

lemma loadTree_finds (id : ContentId) : Finds (view.loadTree id) := by
  have read : Finds (view.treeBytes id) := by
    unfold treeBytes
    split
    · trivial
    · unfold absent
      split <;> nofun
    · split_ifs <;> nofun
  refine read.bind fun bytes _ => ?_
  cases Tree.decode bytes with
  | error => nofun
  | ok => trivial

lemma resolveOne_finds : Finds (view.resolveOne treeId components) := by
  induction components generalizing treeId with
  | nil => exact (loadTree_finds treeId).bind fun _ _ => trivial
  | cons first remaining ih =>
    rw [resolveOne_cons]
    have step : Finds (view.below first (some (.dir treeId))) :=
      (loadTree_finds treeId).bind fun _ _ => trivial
    refine step.bind fun found _ => ?_
    cases found with
    | none => trivial
    | some content =>
      unfold through
      split_ifs
      · trivial
      · cases content with
        | dir => exact ih
        | file => nofun
        | symlink => nofun

lemma lookupLiteral_notFound (fails : view.lookupLiteral components = .error .notFound) :
    ∃ resolutions, view.Resolved components resolutions ∧
      ∀ resolution ∈ resolutions, resolution.2 = none := by
  unfold lookupLiteral at fails
  cases maps : view.heads.mapM (fun head => do
      return (head.snapshot, ← view.resolveOne head.tree components) :
      Head → Except ViewError (SnapshotId × Option EntryContent)) with
  | error error =>
    rw [maps] at fails
    cases fails
    obtain ⟨head, -, fails⟩ := mapM_error maps
    cases walk : view.resolveOne head.tree components with
    | error =>
      rw [walk] at fails
      cases fails
      exact absurd rfl (resolveOne_finds.error walk)
    | ok =>
      rw [walk] at fails
      cases fails
  | ok resolutions =>
    rw [maps] at fails
    have solved : view.Resolved components resolutions :=
      (mapM_ok.mp maps).imp fun _ _ hh => resolve_iff.mp hh
    refine ⟨resolutions, solved, present_eq_nil.mp ?_⟩
    have makes := merges resolutions
    have fails : merge resolutions = .error .notFound := fails
    rw [fails] at makes
    cases makes with
    | nowhere hg => exact hg

lemma find_isSome {tree : Tree} : (∃ content, tree.find name = some content) ↔
    name ∈ tree.entries.map Entry.name := by
  constructor
  · rintro ⟨content, hf⟩
    exact mem_map.mpr ⟨_, (findEntry_eq_some tree.names_nodup).mp hf, rfl⟩
  · intro hm
    obtain ⟨⟨named, content⟩, mem, rfl⟩ := mem_map.mp hm
    exact ⟨content, (findEntry_eq_some tree.names_nodup).mpr mem⟩

def Loaded (view : DriveView) (subtrees : List (SnapshotId × ContentId))
    (loaded : List (SnapshotId × Tree)) : Prop :=
  List.Forall₂ (fun side tree => tree.1 = side.1 ∧ view.loadTree side.2 = .ok tree.2) subtrees loaded

variable {subtrees : List (SnapshotId × ContentId)}

lemma readdirUnion_ok (hl : view.readdirUnion subtrees = .ok entries) :
    ∃ loaded, view.Loaded subtrees loaded ∧
      (∀ name, (∃ entry ∈ entries, entry.name = name) ↔
        ∃ side ∈ loaded, ∃ content, side.2.find name = some content) ∧
      ∀ entry ∈ entries, merge ((ordered loaded).map fun side => (side.1, side.2.find entry.name)) =
        .ok entry.node := by
  obtain ⟨loaded, maps, hl⟩ := bind_ok.mp hl
  have sides : view.Loaded subtrees loaded := by
    refine (mapM_ok.mp maps).imp fun side tree hh => ?_
    obtain ⟨found, hr, hd⟩ := bind_ok.mp hh
    cases hd
    exact ⟨rfl, hr⟩
  have items := mapM_ok.mp hl
  have each {named : Component} {entry : DirEntry}
      (hh : (do
        let node ← merge ((ordered loaded).map fun side => (side.1, side.2.find named))
        return ⟨named, node⟩ : Except ViewError DirEntry) = .ok entry) :
      entry.name = named ∧
        merge ((ordered loaded).map fun side => (side.1, side.2.find named)) = .ok entry.node := by
    obtain ⟨node, merges, hd⟩ := bind_ok.mp hh
    cases hd
    exact ⟨rfl, merges⟩
  refine ⟨loaded, sides, fun name => ?_, fun entry hm => ?_⟩
  · have named : name ∈ (loaded.flatMap fun side => side.2.entries.map Entry.name).dedup.insertionSort
        (· ≤ ·) ↔ ∃ side ∈ loaded, ∃ content, side.2.find name = some content := by
      simp only [mem_insertionSort, mem_dedup, mem_flatMap, find_isSome]
    rw [← named]
    constructor
    · rintro ⟨entry, hm, rfl⟩
      obtain ⟨other, mem, hh⟩ := paired_right items hm
      rw [(each hh).1]
      exact mem
    · intro mem
      obtain ⟨entry, hm, hh⟩ := paired_left items mem
      exact ⟨entry, hm, (each hh).1⟩
  · obtain ⟨named, -, hh⟩ := paired_right items hm
    obtain ⟨rfl, merges⟩ := each hh
    exact merges

lemma Resolved.child (solved : view.Resolved components resolutions)
    (steps : List.Forall₂ (fun resolution child => child.1 = resolution.1 ∧
      view.below name resolution.2 = .ok child.2) resolutions children) :
    view.Resolved (components ++ [name]) children := by
  refine (paired_trans solved steps).imp ?_
  rintro head child ⟨resolution, ⟨hs, hw⟩, hs', step⟩
  refine ⟨hs'.trans hs, ?_⟩
  rw [resolveOne_snoc, hw]
  exact step

lemma Resolved.snapshots (solved : view.Resolved components resolutions) :
    resolutions.map Prod.fst = view.heads.map Head.snapshot :=
  paired_map (solved.imp fun _ _ hh => hh.1)

lemma Loaded.snapshots (sides : view.Loaded subtrees loaded) :
    loaded.map Prod.fst = subtrees.map Prod.fst :=
  paired_map (sides.imp fun _ _ hh => hh.1)

variable {entry : DirEntry}

lemma readdir_leaf (hl : view.readdir (.leaf content) = .ok entries) (hm : entry ∈ entries) :
    ∃ child, view.below entry.name (some content) = .ok (some child) ∧ entry.node = .leaf child := by
  cases content with
  | file => cases hl
  | symlink => cases hl
  | dir =>
    obtain ⟨tree, loaded, hd⟩ := bind_ok.mp hl
    cases hd
    obtain ⟨stored, mem, rfl⟩ := mem_map.mp hm
    refine ⟨stored.content, ?_, rfl⟩
    rw [below_dir loaded]
    exact congrArg _ ((findEntry_eq_some tree.names_nodup).mpr mem)

/-- Where every head has a directory, a child is looked up as it is listed. -/
lemma lookupLiteral_child (distinct : (view.heads.map Head.snapshot).Nodup)
    (hf : view.lookupLiteral components = .ok node)
    (agreed : ∀ versions, node ≠ .conflict versions) (hl : view.readdir node = .ok entries)
    (hm : entry ∈ entries) :
    ∃ served, view.lookupLiteral (components ++ [entry.name]) = .ok served ∧
      entry.node.Similar served := by
  obtain ⟨resolutions, solved, merged⟩ := lookupLiteral_ok hf
  have makes := merges resolutions
  rw [merged] at makes
  cases makes with
  | disagreement => exact absurd rfl (agreed _)
  | @unanimous content hs =>
    obtain ⟨child, step, served⟩ := readdir_leaf hl hm
    have children : view.Resolved (components ++ [entry.name])
        (resolutions.map fun resolution => (resolution.1, some child)) := by
      refine solved.child (forall₂_map_right_iff.mpr (forall₂_same.mpr ?_))
      intro resolution mem
      rw [hs.2 resolution mem]
      exact ⟨rfl, step⟩
    have agree : Unanimous (resolutions.map fun resolution => (resolution.1, some child)) child := by
      refine ⟨by simpa using hs.1, fun resolution mem => ?_⟩
      obtain ⟨_, -, rfl⟩ := mem_map.mp mem
      rfl
    refine ⟨.leaf child, children.lookupLiteral.trans (Merges.unanimous agree).merge, ?_⟩
    rw [served]
    rfl
  | @directories subtrees _ all =>
    obtain ⟨loaded, sides, -, nodes⟩ := readdirUnion_ok hl
    have children : view.Resolved (components ++ [entry.name])
        (loaded.map fun side => (side.1, side.2.find entry.name)) := by
      refine solved.child ?_
      rw [all, forall₂_map_left_iff, forall₂_map_right_iff]
      refine sides.imp fun side tree hh => ⟨hh.1, ?_⟩
      rw [below_dir hh.2]
    have once : (loaded.map Prod.fst).Nodup := by
      rw [sides.snapshots]
      have hs := solved.snapshots
      rw [all, map_map] at hs
      exact (hs ▸ distinct :)
    obtain ⟨served, merged', similar⟩ := merge_perm ((ordered_perm once).map _) (nodes entry hm)
    exact ⟨served, children.lookupLiteral.trans merged', similar⟩

lemma child_somewhere (child : view.lookupLiteral (components ++ [name]) = .ok served) :
    ∃ head ∈ view.heads, ∃ subtree tree content,
      view.resolveOne head.tree components = .ok (some (.dir subtree)) ∧
        view.loadTree subtree = .ok tree ∧ tree.find name = some content := by
  obtain ⟨children, hs, merges⟩ := lookupLiteral_ok child
  have somewhere : present children ≠ [] := by
    intro none
    rw [(Merges.nowhere none).merge] at merges
    cases merges
  obtain ⟨version, hm⟩ := exists_mem_of_ne_nil _ somewhere
  obtain ⟨head, mem, -, walk⟩ := paired_right hs (mem_present.mp hm)
  rw [resolveOne_snoc] at walk
  obtain ⟨parent, walk, step⟩ := bind_ok.mp walk
  match parent, step with
  | none, step => cases step
  | some (.dir subtree), step =>
    obtain ⟨tree, hl, stored⟩ := bind_ok.mp step
    exact ⟨head, mem, subtree, tree, version.2, walk, hl, Except.ok.inj stored⟩
  | some (.file ..), step => cases step
  | some (.symlink _), step => cases step

lemma listed_of_side (hl : view.readdirUnion subtrees = .ok entries)
    (hm : side ∈ subtrees) (loaded : view.loadTree side.2 = .ok tree)
    (stored : tree.find name = some content) : ∃ entry ∈ entries, entry.name = name := by
  obtain ⟨trees, sides, hn, -⟩ := readdirUnion_ok hl
  obtain ⟨⟨snapshot, other⟩, mem, -, hl'⟩ := paired_left sides hm
  cases loaded.symm.trans hl'
  exact (hn name).mpr ⟨_, mem, content, stored⟩

lemma listed_of_lookup (hf : view.lookupLiteral components = .ok node)
    (hl : view.readdir node = .ok entries)
    (child : view.lookupLiteral (components ++ [name]) = .ok served) :
    ∃ entry ∈ entries, entry.name = name := by
  obtain ⟨resolutions, solved, merged⟩ := lookupLiteral_ok hf
  obtain ⟨head, mem, subtree, tree, content, hw, loaded, stored⟩ := child_somewhere child
  obtain ⟨⟨snapshot, resolution⟩, hm, -, hw'⟩ := paired_left solved mem
  cases hw.symm.trans hw'
  have makes := merges resolutions
  rw [merged] at makes
  cases makes with
  | unanimous hs =>
    cases hs.2 _ hm
    obtain ⟨other, loaded', hd⟩ := bind_ok.mp hl
    cases loaded.symm.trans loaded'
    cases hd
    have hh := (findEntry_eq_some tree.names_nodup).mp stored
    exact ⟨_, mem_map.mpr ⟨_, hh, rfl⟩, rfl⟩
  | @directories subtrees _ all =>
    rw [all, mem_map] at hm
    obtain ⟨side, hm, hs⟩ := hm
    cases hs
    exact listed_of_side hl hm loaded stored
  | disagreement =>
    have side : (snapshot, subtree) ∈ (present resolutions).filterMap dirSide :=
      mem_filterMap.mpr ⟨(snapshot, .dir subtree), mem_present.mpr hm, rfl⟩
    exact listed_of_side hl side loaded stored

lemma parseRef_lt (parsed : parseRef components = some target) :
    target.index < components.length := by
  obtain ⟨⟨component, index⟩, hm, hh⟩ := exists_of_findSome?_eq_some parsed
  obtain ⟨version, -, rfl⟩ := Option.map_eq_some_iff.mp hh
  exact (mem_zipIdx' (mem_reverse.mp hm)).1

lemma parseRef_snoc (plain : versionOf name.name = none) :
    parseRef (components ++ [name]) = parseRef components := by
  unfold parseRef
  rw [zipIdx_append, reverse_append]
  simp [plain]

/-- A path below no head's name stays below none. -/
lemma lookupLiteral_child_notFound (fails : view.lookupLiteral components = .error .notFound) :
    view.lookupLiteral (components ++ [name]) = .error .notFound := by
  obtain ⟨resolutions, hs, gone⟩ := lookupLiteral_notFound fails
  have children : view.Resolved (components ++ [name]) resolutions := by
    refine hs.child (forall₂_same.mpr fun resolution hm => ⟨rfl, ?_⟩)
    rw [gone resolution hm]
    rfl
  rw [children.lookupLiteral, (Merges.nowhere (present_eq_nil.mpr gone)).merge]

lemma unversionedPrefix_snoc (mem : target.index < components.length) :
    unversionedPrefix (components ++ [name]) target = unversionedPrefix components target := by
  unfold unversionedPrefix
  rw [take_append_of_le_length mem.le]

lemma belowVersion_eq (rest : List Component) : view.belowVersion content rest =
    view.through rest (some content) >>= fun
      | none => .error .notFound
      | some content => .ok (.leaf content) := by
  unfold belowVersion
  simp only [through]
  split_ifs with hl
  · rfl
  · cases content <;> rfl

lemma belowVersion_child (hf : view.belowVersion content rest = .ok node)
    (hl : view.readdir node = .ok entries) (hm : entry ∈ entries) :
    view.belowVersion content (rest ++ [entry.name]) = .ok entry.node := by
  rw [belowVersion_eq] at hf ⊢
  obtain ⟨resolved, hw, hf⟩ := bind_ok.mp hf
  cases resolved with
  | none => cases hf
  | some =>
    cases hf
    obtain ⟨child, step, hs⟩ := readdir_leaf hl hm
    rw [through_snoc (fun _ => resolveOne_snoc), hw, hs]
    exact bind_ok.mpr ⟨some child, step, rfl⟩

/-- A child below a version is looked up as it is listed, unless its own name asks for a
    version. -/
lemma lookupVersioned_child (plain : versionOf entry.name.name = none)
    (hf : view.lookupVersioned components = .ok node) (hl : view.readdir node = .ok entries)
    (hm : entry ∈ entries) :
    view.lookupVersioned (components ++ [entry.name]) = .ok entry.node := by
  unfold lookupVersioned at hf ⊢
  rw [parseRef_snoc plain]
  cases parsed : parseRef components with
  | none =>
    rw [parsed] at hf
    cases hf
  | some target =>
    rw [parsed] at hf
    have mem := parseRef_lt parsed
    obtain ⟨unversioned, hs, hf⟩ := bind_ok.mp hf
    obtain ⟨conflicted, looked, hf⟩ := bind_ok.mp hf
    have rest : (components ++ [entry.name]).drop (target.index + 1) =
        components.drop (target.index + 1) ++ [entry.name] :=
      drop_append_of_le_length mem
    refine bind_ok.mpr ⟨unversioned, (unversionedPrefix_snoc mem).trans hs,
      bind_ok.mpr ⟨conflicted, looked, ?_⟩⟩
    cases conflicted with
    | leaf => cases hf
    | mergedDir => cases hf
    | conflict versions =>
      cases chosen : selectVersion versions target.version with
      | none =>
        simp only [chosen] at hf
        cases hf
      | some =>
        simp only [chosen] at hf
        simp only [chosen, rest]
        exact belowVersion_child hf hl hm

end DriveView

def childPath (path : String) (name : Component) : String :=
  if trimmed path.toList = [] then "/" ++ name.name else path ++ "/" ++ name.name

lemma parsePart_name (name : Component) : parsePart name.name.toList = some name := by
  unfold parsePart
  rw [String.ofList_toList, Component.new_name]
  rfl

lemma no_separator (name : Component) : '/' ∉ name.name.toList := by
  have hv := name.valid
  unfold Component.fault at hv
  split_ifs at hv with he dot dots hs
  exact hs

lemma trimmed_cons (first : Char) (rest : List Char) :
    trimmed (first :: rest) = if first = '/' then rest else first :: rest := by
  unfold trimmed
  split
  · next hs =>
    cases hs
    rfl
  · next ho =>
    rw [if_neg]
    rintro rfl
    exact ho rest rfl

lemma trimmed_append (some : trimmed text ≠ []) :
    trimmed (text ++ more) = trimmed text ++ more := by
  cases text with
  | nil => exact absurd rfl some
  | cons =>
    rw [cons_append, trimmed_cons, trimmed_cons]
    split_ifs <;> rfl

lemma parsePath_childPath (parsed : parsePath path = .ok components) :
    parsePath (childPath path name) =
      if maxPathDepth < components.length + 1 then .error .invalidPath
      else .ok (components ++ [name]) := by
  have single : name.name.toList.splitOn '/' = [name.name.toList] :=
    splitOn_eq_singleton (no_separator name)
  unfold parsePath at parsed
  by_cases root : trimmed path.toList = []
  · rw [if_pos root] at parsed
    cases parsed
    have spells : trimmed (childPath path name).toList = name.name.toList := by
      unfold childPath
      rw [if_pos root, String.toList_append]
      exact trimmed_cons ..
    have filled : name.name.toList ≠ [] := by
      have hv := name.valid
      unfold Component.fault at hv
      split_ifs at hv with he
      simpa using he
    unfold parsePath
    rw [spells, if_neg filled, single, mapM_cons, parsePart_name]
    rfl
  · rw [if_neg root] at parsed
    have spells : trimmed (childPath path name).toList =
        trimmed path.toList ++ '/' :: name.name.toList := by
      unfold childPath
      rw [if_neg root, String.toList_append, String.toList_append, append_assoc]
      exact trimmed_append root
    have filled : trimmed path.toList ++ '/' :: name.name.toList ≠ [] := by simp
    unfold parsePath
    rw [spells, if_neg filled, splitOn_append_cons_self, single]
    split at parsed
    · cases parsed
    · next found spells =>
      split_ifs at parsed with deep
      cases parsed
      have longer : (components ++ [name]).length = components.length + 1 := by simp
      rw [mapM_append, spells, ← longer]
      simp only [mapM_cons, parsePart_name, mapM_nil]
      rfl

lemma parsePath_child (parsed : parsePath path = .ok components)
    (shallow : components.length < maxPathDepth) :
    parsePath (childPath path name) = .ok (components ++ [name]) :=
  (parsePath_childPath parsed).trans (if_neg (by omega))

namespace DriveView

variable {view : DriveView} {components : List Component} {node : Node} {path : String}

section

variable (parsed : parsePath path = .ok components)
include parsed

/-- The ways a lookup succeeds. -/
lemma lookup_ok (hf : view.lookup path = .ok node) :
    (components = [] ∧ view.heads = [] ∧ node = .mergedDir []) ∨
      view.lookupLiteral components = .ok node ∨
      view.lookupLiteral components = .error .notFound ∧
        view.lookupVersioned components = .ok node := by
  unfold lookup at hf
  rw [parsed] at hf
  by_cases new : components = [] ∧ view.heads = []
  · simp only [bind, Except.bind, if_pos new] at hf
    cases hf
    exact .inl ⟨new.1, new.2, rfl⟩
  · simp only [bind, Except.bind, if_neg new] at hf
    split at hf
    · next failed => exact .inr (.inr ⟨failed, hf⟩)
    · exact .inr (.inl hf)

lemma lookup_literal (nested : components ≠ [])
    (hf : view.lookupLiteral components = .ok served) : view.lookup path = .ok served := by
  unfold lookup
  rw [parsed]
  simp only [bind, Except.bind, if_neg fun hn : components = [] ∧ _ => nested hn.1, hf]

lemma lookup_versioned (nested : components ≠ [])
    (fails : view.lookupLiteral components = .error .notFound) :
    view.lookup path = view.lookupVersioned components := by
  unfold lookup
  rw [parsed]
  simp only [bind, Except.bind, if_neg fun hn : components = [] ∧ _ => nested hn.1, fails]

end

lemma lookup_invalid (fails : parsePath path = .error error) : view.lookup path = .error error := by
  unfold lookup
  rw [fails]
  rfl

/-- Listing and lookup agree. What is listed below a path that is no conflict is looked up
    the same, as long as the path is not at the depth limit already and a name below a
    version does not ask for a version again; and what a literal lookup finds is listed. -/
theorem listing_agrees_with_lookup (view : DriveView)
    (distinct : (view.heads.map Head.snapshot).Nodup) (path : String) (components : List Component)
    (parsed : parsePath path = .ok components) (node : Node) (found : view.lookup path = .ok node)
    (entries : List DirEntry) (listed : view.readdir node = .ok entries) :
    (components.length < maxPathDepth → (∀ versions, node ≠ .conflict versions) →
      ∀ entry ∈ entries,
        (versionOf entry.name.name = none ∨ ∃ literal, view.lookupLiteral components = .ok literal) →
        ∃ served, view.lookup (childPath path entry.name) = .ok served ∧
          entry.node.Similar served) ∧
    ∀ name served, view.lookupLiteral (components ++ [name]) = .ok served →
      ∃ entry ∈ entries, entry.name = name := by
  have nested (name : Component) : components ++ [name] ≠ [] := by simp
  rcases lookup_ok parsed found with ⟨rfl, hn, rfl⟩ | literal | ⟨fails, hv⟩
  · obtain ⟨loaded, sides, names, -⟩ := readdirUnion_ok listed
    cases sides
    refine ⟨fun _ _ entry hm _ => ?_, fun name served child => ?_⟩
    · obtain ⟨side, none, -⟩ := (names entry.name).mp ⟨entry, hm, rfl⟩
      cases none
    · obtain ⟨head, mem, -⟩ := child_somewhere child
      rw [hn] at mem
      cases mem
  · refine ⟨fun shallow ha entry hm _ => ?_, fun name served child => ?_⟩
    · obtain ⟨served, child, hs⟩ := lookupLiteral_child distinct literal ha listed hm
      exact ⟨served, lookup_literal (parsePath_child parsed shallow) (nested _) child, hs⟩
    · exact listed_of_lookup literal listed child
  · refine ⟨fun shallow _ entry hm plain => ?_, fun name served child => ?_⟩
    · have plain : versionOf entry.name.name = none := by
        rcases plain with plain | ⟨literal, hh⟩
        · exact plain
        · rw [fails] at hh
          cases hh
      refine ⟨entry.node, ?_, ?_⟩
      · rw [lookup_versioned (parsePath_child parsed shallow) (nested _)
          (lookupLiteral_child_notFound fails)]
        exact lookupVersioned_child plain hv listed hm
      · cases entry.node with
        | leaf => exact rfl
        | mergedDir => exact List.Perm.refl _
        | conflict => exact List.Perm.refl _
    · rw [lookupLiteral_child_notFound fails] at child
      cases child

def sampleName : Component := ⟨"x", by decide⟩

/-- A tree with one entry that is no file. -/
def sampleTree (content : EntryContent) (narrow : Entry.overflow ⟨sampleName, content⟩ = none) : Tree where
  entries := [⟨sampleName, content⟩]
  sorted := pairwise_singleton ..
  fits := ⟨by simp [countLimit], fun entry member => by rw [mem_singleton.mp member, narrow]⟩

/-- Two heads that disagree on a link. -/
def sampleView : DriveView where
  get := fun id =>
    if id = ⟨0⟩ then .ok (some (sampleTree (.symlink "t") (by decide)).encode)
    else .ok (some (sampleTree (.symlink "u") (by decide)).encode)
  status := fun _ => .available
  heads := [⟨⟨0⟩, ⟨0⟩⟩, ⟨⟨1⟩, ⟨1⟩⟩]

def sampleEntries : List DirEntry :=
  [⟨sampleName, .conflict [(⟨0⟩, .symlink "t"), (⟨1⟩, .symlink "u")]⟩]

theorem listing_agrees_with_lookup_root :
    sampleView.lookup "" = .ok (.mergedDir [(⟨0⟩, ⟨0⟩), (⟨1⟩, ⟨1⟩)]) ∧
      ∀ entry ∈ sampleEntries, ∃ served, sampleView.lookup (childPath "" entry.name) = .ok served ∧
        entry.node.Similar served := by
  refine ⟨by decide +kernel, fun entry hm => ?_⟩
  have plain : versionOf entry.name.name = none := by
    rw [mem_singleton.mp hm]
    decide +kernel
  exact (listing_agrees_with_lookup sampleView (by decide) "" [] (by decide +kernel)
    (.mergedDir [(⟨0⟩, ⟨0⟩), (⟨1⟩, ⟨1⟩)]) (by decide +kernel) sampleEntries (by decide +kernel)).1
    (by decide) (by simp) entry hm (.inl plain)

/-- Directories in directories, deeper than any path. -/
def deepView : DriveView where
  get := fun id => .ok (some (sampleTree (.dir ⟨Fin.ofNat _ (id.raw.val + 1)⟩) rfl).encode)
  status := fun _ => .available
  heads := [⟨⟨0⟩, ⟨0⟩⟩]

lemma deepView_loadTree (id : ContentId) :
    deepView.loadTree id = .ok (sampleTree (.dir ⟨Fin.ofNat _ (id.raw.val + 1)⟩) rfl) := by
  unfold loadTree treeBytes
  simp only [deepView, bind, Except.bind, Tree.decode_encode]
  rfl

lemma deepView_resolveOne (depth : Nat) :
    deepView.resolveOne ⟨0⟩ (List.replicate depth sampleName) =
      .ok (some (.dir ⟨Fin.ofNat (2 ^ 256) depth⟩)) := by
  induction depth with
  | zero => exact resolveOne_nil (deepView_loadTree ⟨0⟩)
  | succ depth ih =>
    rw [replicate_succ', resolveOne_snoc, ih]
    refine (below_dir (deepView_loadTree _)).trans ?_
    have next : Fin.ofNat (2 ^ 256) ((Fin.ofNat (2 ^ 256) depth).val + 1) =
        Fin.ofNat (2 ^ 256) (depth + 1) := by
      ext
      simp [Fin.ofNat]
    rw [next]
    rfl

def deepPath : Nat → String
  | 0 => ""
  | depth + 1 => childPath (deepPath depth) sampleName

lemma parsePath_deepPath (shallow : depth ≤ maxPathDepth) :
    parsePath (deepPath depth) = .ok (List.replicate depth sampleName) := by
  induction depth with
  | zero => rfl
  | succ depth ih =>
    rw [replicate_succ']
    exact parsePath_child (ih (by omega)) (by rw [length_replicate]; omega)

/-- What is listed at the depth limit is beyond every lookup. -/
theorem deep_child_not_looked_up :
    deepView.lookup (deepPath maxPathDepth) =
        .ok (.leaf (.dir ⟨Fin.ofNat (2 ^ 256) maxPathDepth⟩)) ∧
      deepView.readdir (.leaf (.dir ⟨Fin.ofNat (2 ^ 256) maxPathDepth⟩)) =
        .ok [⟨sampleName, .leaf (.dir ⟨Fin.ofNat (2 ^ 256) (maxPathDepth + 1)⟩)⟩] ∧
      deepView.lookup (childPath (deepPath maxPathDepth) sampleName) = .error .invalidPath := by
  have spells := parsePath_deepPath le_rfl
  have solved : deepView.Resolved (List.replicate maxPathDepth sampleName)
      [(⟨0⟩, some (.dir ⟨Fin.ofNat (2 ^ 256) maxPathDepth⟩))] :=
    .cons ⟨rfl, deepView_resolveOne maxPathDepth⟩ .nil
  refine ⟨lookup_literal spells ?_ solved.lookupLiteral, ?_, ?_⟩
  · intro none
    exact absurd (congrArg List.length none) (by rw [length_replicate]; decide)
  · exact bind_ok.mpr ⟨_, deepView_loadTree _, rfl⟩
  · refine lookup_invalid ((parsePath_childPath spells).trans (if_pos ?_))
    rw [length_replicate]
    exact Nat.lt_succ_self _

end DriveView

end Wyrd.View
