import Wyrd.Author.Recover

/-! # Merging heads

A plan lists every root path that a selected head holds, with the version of each head. Paths
the heads agree on take themselves; the others take what the specification selects, or the
version of the default head.
-/

namespace Wyrd.Author

open List Option Function

open Wyrd.Runtime Authorization Closure Wyrd.Membership

inductive MergeSelection where
  /-- The version of one head, which may be none. -/
  | take (head : SnapshotId)
  | absent
  deriving DecidableEq

/-- The lines of a merge specification, ascending by path. -/
abbrev MergeSpec := List (String × MergeSelection)

inductive MergeError (ε : Type) where
  | duplicateMergeHead (head : SnapshotId)
  | tooManyMergeHeads (count ceiling : Nat)
  | mergeBlockedByFreeze (epoch : Nat)
  | mergeNeedsTwoHeads
  | notEligibleHead (head : SnapshotId)
  | mergeDefaultNotAHead (head : SnapshotId)
  | mergeSelectionNotAHead (head : SnapshotId)
  | unknownMergePath (path : String)
  | mergePathAgreed (path : String)
  | unresolvedMergePath (path : String)
  | mergeTreeInvalid (error : TreeError)
  /-- Loading a root, or the locality of an adopted entry. -/
  | local (error : RecoverError ε)
  | engine (error : EngineError)

/-- One root path, with what each head holds there, in the order of the heads. -/
structure MergePath where
  path : String
  versions : List (SnapshotId × Option Entry)

structure MergePlan where
  heads : List SnapshotId
  paths : List MergePath

def maxSnapshotParents : Nat := 64

/-- The first of two equal neighbours. -/
def repeated : List SnapshotId → Option SnapshotId
  | first :: second :: rest => if first = second then some first else repeated (second :: rest)
  | _ => none

namespace MergePath

variable (path : MergePath)

def agreed : Bool :=
  match path.versions with
  | [] => true
  | (_, first) :: rest => rest.all fun version => decide (version.2 = first)

def agreedEntry : Option Entry := if path.agreed then path.versions.findSome? Prod.snd else none

def resolve {ε : Type} (default : Option SnapshotId) (spec : MergeSpec) :
    Except (MergeError ε) (Option Entry) :=
  if path.agreed then .ok path.agreedEntry
  else match (spec.lookup path.path).or (default.map .take) with
    | none => .error (.unresolvedMergePath path.path)
    | some .absent => .ok none
    | some (.take head) => .ok ((path.versions.find? (·.1 = head)).bind Prod.snd)

end MergePath

/-- A cursor is what is left of the entries of a head; it only advances. -/
def advance (name : String) (entries : List Entry) : List Entry :=
  entries.dropWhile (·.name.name < name)

def versionAt (name : String) (entries : List Entry) : Option Entry :=
  entries.head?.filter (·.name.name = name)

/-- One lockstep pass: at each name every cursor advances to it. -/
def planPaths : List String → List (SnapshotId × List Entry) → List MergePath
  | [], _ => []
  | name :: names, cursors =>
    let advanced := cursors.map fun cursor => (cursor.1, advance name cursor.2)
    ⟨name, advanced.map fun cursor => (cursor.1, versionAt name cursor.2)⟩ ::
      planPaths names advanced

def rootNames (roots : List (SnapshotId × Tree)) : List String :=
  (roots.flatMap fun root => root.2.entries.map (·.name.name)).dedup.insertionSort (· ≤ ·)

/-- Prove the specification closed over the plan, and resolve it to the adopted entries. -/
def validateSpec {ε : Type} (plan : MergePlan) (default : Option SnapshotId) (spec : MergeSpec) :
    Except (MergeError ε) (List Entry) := do
  default.toList.forM fun head => demand (.mergeDefaultNotAHead head) (head ∈ plan.heads)
  spec.forM fun line =>
    match line.2 with
    | .take head => demand (.mergeSelectionNotAHead head) (head ∈ plan.heads)
    | .absent => .ok ()
  spec.forM fun line => do
    let _ ← (Component.new line.1).mapError fun _ => .unknownMergePath line.1
    let path ← expect (.unknownMergePath line.1) (plan.paths.find? (·.path = line.1))
    demand (.mergePathAgreed line.1) (path.agreed = false)
  let taken ← plan.paths.mapM fun path => path.resolve default spec
  return taken.reduceOption

namespace Recovery

variable {P : Primitives} {ε : Type} (merging : Recovery P ε)

def headRoot (head : SnapshotId) : Except (MergeError ε) (SnapshotId × Tree) := do
  let body ← expect (.notEligibleHead head) (merging.engine.dag.snapshot head)
  let root ← (merging.loadRoot body.tree).mapError .local
  return (head, root)

/-- Why fewer than two heads are refused: a frozen drive names its freeze, unless two heads
    are eligible. -/
def shortSelection : MergeError ε :=
  match merging.engine.log.frozenAt with
  | some epoch =>
    if merging.engine.heads.length < 2 then .mergeBlockedByFreeze epoch else .mergeNeedsTwoHeads
  | none => .mergeNeedsTwoHeads

def planOver (heads : List SnapshotId) : Except (MergeError ε) MergePlan := do
  let sorted := heads.insertionSort (· ≤ ·)
  (repeated sorted).toList.forM fun head => throw (.duplicateMergeHead head)
  demand (.tooManyMergeHeads sorted.length maxSnapshotParents) (sorted.length ≤ maxSnapshotParents)
  demand merging.shortSelection (2 ≤ sorted.length)
  sorted.forM fun head => demand (.notEligibleHead head) (head ∈ merging.engine.heads)
  let roots ← sorted.mapM merging.headRoot
  return ⟨sorted, planPaths (rootNames roots) (roots.map fun root => (root.1, root.2.entries))⟩

/-- The plan, and the entries a commit would author. -/
def preview (heads : List SnapshotId) (default : Option SnapshotId) (spec : MergeSpec) :
    Except (MergeError ε) (MergePlan × List Entry) := do
  let plan ← merging.planOver heads
  let taken ← validateSpec plan default spec
  taken.forM fun entry =>
    (settled (merging.env.checkLocal merging.session merging.fuel entry)).mapError .local
  return (plan, taken)

/-- Author the merged tree on the selected heads. `inserted` is the store's answer to the tree;
    the result is the store with it, and the snapshot. -/
def merge (host : Host) (inserted : Except ε Unit) (now : Nat) (heads : List SnapshotId)
    (default : Option SnapshotId) (spec : MergeSpec) :
    Except (MergeError ε) (Env ε × Snapshot) := do
  let (plan, taken) ← merging.preview heads default spec
  let merged ← (Tree.fromEntries taken).mapError .mergeTreeInvalid
  inserted.mapError fun error => .local (.author (.objectStore error))
  let s ← (merging.engine.authorOver host (merging.env.treeIdOf merged) plan.heads 0 now).mapError
    .engine
  return (merging.env.withTree merged, s)

end Recovery

def rootEntry (root : Tree) (name : String) : Option Entry :=
  root.entries.find? (·.name.name = name)

lemma rootEntry_eq_some {root name entry} :
    rootEntry root name = some entry ↔ entry ∈ root.entries ∧ entry.name.name = name := by
  refine find_key ?_
  have nodup := root.names_nodup.map Component.name_injective
  rwa [List.map_map] at nodup

section Cursors

variable {name : String} {entries : List Entry}

def Ascending (entries : List Entry) : Prop :=
  entries.Pairwise fun first second => first.name.name < second.name.name

lemma versionAt_advance (rises : Ascending entries) :
    versionAt name (advance name entries) = entries.find? (·.name.name = name) := by
  induction entries with
  | nil => rfl
  | cons entry rest ih =>
    obtain ⟨least, rises⟩ := pairwise_cons.mp rises
    unfold advance at ih ⊢
    rw [dropWhile_cons, List.find?_cons]
    rcases lt_trichotomy entry.name.name name with hb | hs | above
    · rw [if_pos (decide_eq_true hb), ih rises]
      simp [hb.ne]
    · simp [hs, versionAt]
    · -- No later entry has the name either.
      have lost : rest.find? (·.name.name = name) = none := by
        refine List.find?_eq_none.mpr fun other hm => ?_
        simpa using (above.trans (least other hm)).ne'
      simp [above.not_gt, above.ne', lost, versionAt]

lemma find_advance (hb : name < later) :
    (advance name entries).find? (·.name.name = later) = entries.find? (·.name.name = later) := by
  induction entries with
  | nil => rfl
  | cons entry rest ih =>
    unfold advance at ih ⊢
    rw [dropWhile_cons]
    split_ifs with hp
    · have other : entry.name.name ≠ later := ((of_decide_eq_true hp).trans hb).ne
      rw [ih, List.find?_cons_of_neg (by simpa using other)]
    · rfl

/-- The versions of a plan are those found by looking each name up in each root. -/
lemma planPaths_eq (ordered : names.Pairwise (· < ·))
    (rises : ∀ cursor ∈ cursors, Ascending cursor.2) :
    planPaths names cursors = names.map fun name =>
      ⟨name, cursors.map fun cursor => (cursor.1, cursor.2.find? (·.name.name = name))⟩ := by
  induction names generalizing cursors with
  | nil => rfl
  | cons name names ih =>
    obtain ⟨least, ordered⟩ := pairwise_cons.mp ordered
    rw [planPaths, map_cons, ih ordered]
    · simp only [List.map_map]
      congr 1
      · congr 1
        exact map_congr_left fun cursor hm =>
          Prod.ext rfl (versionAt_advance (rises cursor hm))
      · refine map_congr_left fun later hm => ?_
        congr 1
        exact map_congr_left fun cursor _ => Prod.ext rfl (find_advance (least later hm))
    · intro cursor moved
      obtain ⟨before, hm, rfl⟩ := mem_map.mp moved
      exact (rises before hm).sublist (dropWhile_sublist _)

end Cursors

lemma mem_rootNames {roots name} :
    name ∈ rootNames roots ↔ ∃ root ∈ roots, ∃ entry ∈ root.2.entries, entry.name.name = name := by
  simp [rootNames, mem_insertionSort]

lemma rootNames_sorted (roots : List (SnapshotId × Tree)) : (rootNames roots).Pairwise (· < ·) := by
  have once : (rootNames roots).Nodup :=
    (perm_insertionSort _ _).nodup_iff.mpr (nodup_dedup _)
  exact ((pairwise_insertionSort (· ≤ ·) _).and once).imp fun both =>
    lt_of_le_of_ne both.1 both.2

section Taken

variable {roots : List (SnapshotId × Tree)} {name : String} {entry : Entry}

/-- All roots hold the same under a name, or all nothing. -/
def Agreed (roots : List (SnapshotId × Tree)) (name : String) : Prop :=
  ∀ first ∈ roots, ∀ second ∈ roots, rootEntry first.2 name = rootEntry second.2 name

def rowAt (roots : List (SnapshotId × Tree)) (name : String) : MergePath :=
  ⟨name, roots.map fun root => (root.1, rootEntry root.2 name)⟩

lemma agreed_iff : (rowAt roots name).agreed = true ↔ Agreed roots name := by
  cases roots with
  | nil => simp [rowAt, MergePath.agreed, Agreed]
  | cons root rest =>
    simp only [rowAt, MergePath.agreed, List.map_cons, List.all_map, List.all_eq_true,
      comp_apply, decide_eq_true_eq]
    constructor
    · intro hs
      have first (other) (hm : other ∈ root :: rest) :
          rootEntry other.2 name = rootEntry root.2 name := by
        rcases List.mem_cons.mp hm with rfl | hm
        · rfl
        · exact hs other hm
      exact fun one mem other hm => (first one mem).trans (first other hm).symm
    · exact fun ha other hm =>
        ha other (mem_cons_of_mem _ hm) root List.mem_cons_self

lemma agreedEntry_eq_some (agreed : Agreed roots name) :
    (rowAt roots name).agreedEntry = some entry ↔
      ∃ root ∈ roots, rootEntry root.2 name = some entry := by
  rw [MergePath.agreedEntry, if_pos (agreed_iff.mpr agreed), rowAt, List.findSome?_map]
  constructor
  · intro hf
    exact exists_of_findSome?_eq_some hf
  · rintro ⟨root, hm, held⟩
    have some : (roots.findSome? fun root => rootEntry root.2 name).isSome := by
      rw [List.findSome?_isSome_iff]
      exact ⟨root, hm, held ▸ rfl⟩
    obtain ⟨other, hf⟩ := isSome_iff_exists.mp some
    obtain ⟨holder, mem, hh⟩ := exists_of_findSome?_eq_some hf
    have hs : other = entry :=
      Option.some.inj (hh.symm.trans ((agreed holder mem root hm).trans held))
    exact hs ▸ hf

/-- What a row takes: the version all heads hold, and otherwise that of the selected head. -/
lemma resolve_ok {ε : Type} {default spec taken} (once : (roots.map Prod.fst).Nodup)
    (solved : (rowAt roots name).resolve default spec = (.ok taken : Except (MergeError ε) _)) :
    (Agreed roots name ∨ ((spec.lookup name).or (default.map .take)).isSome) ∧
    ∀ entry, taken = some entry ↔ ∃ root ∈ roots, rootEntry root.2 name = some entry ∧
      (Agreed roots name ∨ (spec.lookup name).or (default.map .take) = some (.take root.1)) := by
  unfold MergePath.resolve at solved
  split_ifs at solved with hs
  · have agreed := agreed_iff.mp hs
    cases solved
    refine ⟨.inl agreed, fun entry => ?_⟩
    rw [agreedEntry_eq_some agreed]
    simp [agreed]
  · have torn : ¬ Agreed roots name := fun agreed => hs (agreed_iff.mpr agreed)
    simp only [torn, false_or]
    change (match (spec.lookup name).or (default.map .take) with
      | none => _ | some .absent => _ | some (.take head) => _) = _ at solved
    cases chosen : (spec.lookup name).or (default.map MergeSelection.take) with
    | none =>
      rw [chosen] at solved
      cases solved
    | some selection =>
      rw [chosen] at solved
      refine ⟨rfl, fun entry => ?_⟩
      cases selection with
      | absent =>
        cases solved
        simp
      | take =>
        cases solved
        rw [bind_eq_some_iff]
        have keys : ((rowAt roots name).versions.map Prod.fst).Nodup := by
          simpa [rowAt, List.map_map, comp_def] using once
        simp only [find_key keys]
        constructor
        · rintro ⟨version, ⟨hm, rfl⟩, held⟩
          obtain ⟨root, mem, rfl⟩ := mem_map.mp hm
          exact ⟨root, mem, held, rfl⟩
        · rintro ⟨root, mem, held, hc⟩
          cases hc
          exact ⟨_, ⟨mem_map_of_mem mem, rfl⟩, held⟩

end Taken

lemma nodup_of_repeated (ordered : ids.Pairwise (· ≤ ·)) (once : repeated ids = none) :
    ids.Nodup := by
  induction ids with
  | nil => exact .nil
  | cons first rest ih =>
    obtain ⟨least, later⟩ := pairwise_cons.mp ordered
    cases rest with
    | nil => exact nodup_singleton _
    | cons second =>
      unfold repeated at once
      split_ifs at once with hs
      refine nodup_cons.mpr ⟨fun hm => hs ?_, ih later once⟩
      -- An id between two equal ones is equal to them.
      rcases mem_cons.mp hm with rfl | hm
      · rfl
      · exact le_antisymm (least second mem_cons_self) ((pairwise_cons.mp later).1 first hm)

namespace Recovery

variable {P : Primitives} {ε : Type} {merging : Recovery P ε} {heads : List SnapshotId}
  {plan : MergePlan}

/-- A plan is over the roots of the selected heads: it has a row for every name. -/
lemma planOver_ok (plans : merging.planOver heads = .ok plan) :
    ∃ roots : List (SnapshotId × Tree), (roots.map Prod.fst).Nodup ∧
      plan = ⟨roots.map Prod.fst, (rootNames roots).map (rowAt roots)⟩ ∧
      plan.heads = heads.insertionSort (· ≤ ·) ∧
      ∀ root ∈ roots, root.1 ∈ merging.engine.heads ∧ ∃ body bytes,
        merging.engine.dag.snapshot root.1 = some body ∧
        merging.env.loadTree body.tree = .ok (bytes, root.2) := by
  obtain ⟨_, ho, plans⟩ := bind_ok.mp plans
  obtain ⟨_, -, plans⟩ := bind_ok.mp plans
  obtain ⟨_, -, plans⟩ := bind_ok.mp plans
  obtain ⟨_, ha, plans⟩ := bind_ok.mp plans
  obtain ⟨roots, loaded, hd⟩ := bind_ok.mp plans
  cases hd
  have paired := Wyrd.mapM_ok.mp loaded
  have rooted {head : SnapshotId} {root : SnapshotId × Tree}
      (made : merging.headRoot head = .ok root) : root.1 = head ∧ ∃ body bytes,
        merging.engine.dag.snapshot head = some body ∧
        merging.env.loadTree body.tree = .ok (bytes, root.2) := by
    obtain ⟨body, hf, made⟩ := bind_ok.mp made
    obtain ⟨tree, read, hd⟩ := bind_ok.mp made
    cases hd
    obtain ⟨bytes, read⟩ := loadRoot_ok.mp (mapError_ok.mp read)
    exact ⟨rfl, body, bytes, expect_ok.mp hf, read⟩
  have fronts : roots.map Prod.fst = heads.insertionSort (· ≤ ·) := by
    rw [← map_id (heads.insertionSort _)]
    exact paired_map (paired.imp fun _ _ made => (rooted made).1)
  refine ⟨roots, ?_, ?_, rfl, fun root hm => ?_⟩
  · rw [fronts]
    refine nodup_of_repeated (pairwise_insertionSort ..) ?_
    cases hs : repeated (heads.insertionSort (· ≤ ·)) with
    | none => rfl
    | some head => exact nomatch forM_ok.mp ho head (by simp [hs])
  · rw [fronts, planPaths_eq (rootNames_sorted roots)]
    · simp [rowAt, rootEntry, List.map_map, comp_def]
    · intro cursor hl
      obtain ⟨root, -, rfl⟩ := mem_map.mp hl
      exact root.2.sorted
  · obtain ⟨head, hc, made⟩ := paired_right paired hm
    obtain ⟨rfl, hh⟩ := rooted made
    exact ⟨demand_ok.mp (forM_ok.mp ha _ hc), hh⟩

end Recovery

/-- An accepted specification: every row resolves, and every line is on a conflicted path. -/
lemma validateSpec_ok {ε : Type} {plan default spec taken}
    (hok : validateSpec plan default spec = (.ok taken : Except (MergeError ε) _)) :
    (∀ line ∈ spec, ∃ path ∈ plan.paths, path.path = line.1 ∧ path.agreed = false) ∧
    ∃ results, List.Forall₂
      (fun path result => path.resolve default spec = (.ok result : Except (MergeError ε) _))
      plan.paths results ∧ taken = results.reduceOption := by
  obtain ⟨_, -, hok⟩ := bind_ok.mp hok
  obtain ⟨_, -, hok⟩ := bind_ok.mp hok
  obtain ⟨_, lines, hok⟩ := bind_ok.mp hok
  obtain ⟨results, hs, hd⟩ := bind_ok.mp hok
  cases hd
  refine ⟨fun line hm => ?_, results, mapM_ok.mp hs, rfl⟩
  obtain ⟨_, -, check⟩ := bind_ok.mp (forM_ok.mp lines line hm)
  obtain ⟨path, hf, check⟩ := bind_ok.mp check
  have hf := expect_ok.mp hf
  exact ⟨path, mem_of_find?_eq_some hf, by simpa using List.find?_some hf, demand_ok.mp check⟩

lemma reduceOption_ascending {names results}
    (hn : List.Forall₂ (fun name result => ∀ entry, result = some entry → entry.name.name = name)
      names results) (ordered : names.Pairwise (· < ·)) : Ascending results.reduceOption := by
  induction hn with
  | nil => exact .nil
  | @cons name result names results hh hl ih =>
    obtain ⟨least, ordered⟩ := pairwise_cons.mp ordered
    cases result with
    | none => exact ih ordered
    | some entry =>
      rw [reduceOption_cons_of_some]
      refine pairwise_cons.mpr ⟨fun other hm => ?_, ih ordered⟩
      obtain ⟨next, mem, hf⟩ := paired_right hl (reduceOption_mem_iff.mp hm)
      rw [hh entry rfl, hf other rfl]
      exact least next mem

namespace Recovery

variable {P : Primitives} {ε : Type} {merging : Recovery P ε} {heads : List SnapshotId}
  {plan : MergePlan} {default : Option SnapshotId} {spec : MergeSpec} {taken : List Entry}

lemma merge_ok {host inserted now after s} (plans : merging.planOver heads = .ok plan)
    (hok : validateSpec plan default spec = (.ok taken : Except (MergeError ε) _))
    (rises : Ascending taken)
    (merged : merging.merge host inserted now heads default spec = .ok (after, s)) :
    s.parents = plan.heads ∧
      ∃ tree : Tree, tree.entries = taken ∧ after.get s.tree = .ok (some tree.encode) := by
  obtain ⟨⟨_, _⟩, preview, merged⟩ := bind_ok.mp merged
  obtain ⟨_, again, preview⟩ := bind_ok.mp preview
  cases plans.symm.trans again
  obtain ⟨_, again, preview⟩ := bind_ok.mp preview
  cases hok.symm.trans again
  obtain ⟨_, -, hd⟩ := bind_ok.mp preview
  cases hd
  obtain ⟨tree, hm, merged⟩ := bind_ok.mp merged
  obtain ⟨_, -, merged⟩ := bind_ok.mp merged
  obtain ⟨_, wrote, hd⟩ := bind_ok.mp merged
  cases hd
  have wrote := mapError_ok.mp wrote
  refine ⟨(Engine.authorOver_ok wrote).parents, tree, ?_, ?_⟩
  · refine List.Perm.eq_of_pairwise (fun _ _ _ _ hb ha => absurd hb (lt_asymm ha))
      tree.sorted rises (Tree.fromEntries_perm (mapError_ok.mp hm))
  · rw [(authorOver_drafts wrote).1]
    exact Env.get_merged

/-- A merge is the selection its specification states. The plan has, for every name that a
    selected head holds, the version found in each root; what is taken ascends and has, for each
    name, the version all heads hold, or that of the head selected for it, and nothing else.
    Every conflicted name is covered and every line names one. The tree that the merge authors
    on the selected heads has the taken entries. -/
theorem merge_selects (planned : merging.planOver heads = .ok plan)
    (accepted : validateSpec plan default spec = (.ok taken : Except (MergeError ε) _)) :
    ∃ roots : List (SnapshotId × Tree), roots.map Prod.fst = plan.heads ∧ plan.heads.Nodup ∧
      (∀ head, head ∈ plan.heads ↔ head ∈ heads) ∧
      (∀ root ∈ roots, root.1 ∈ merging.engine.heads ∧ ∃ body bytes,
        merging.engine.dag.snapshot root.1 = some body ∧
        merging.env.loadTree body.tree = .ok (bytes, root.2)) ∧
      (∀ name, (∃ path ∈ plan.paths, path.path = name) ↔
        ∃ root ∈ roots, ∃ entry ∈ root.2.entries, entry.name.name = name) ∧
      (∀ path ∈ plan.paths,
        path.versions = roots.map fun root => (root.1, rootEntry root.2 path.path)) ∧
      (taken.Pairwise fun first second => first.name < second.name) ∧
      (∀ entry, entry ∈ taken ↔ ∃ root ∈ roots, entry ∈ root.2.entries ∧
        (Agreed roots entry.name.name ∨
          (spec.lookup entry.name.name).or (default.map .take) = some (.take root.1))) ∧
      (∀ name, ¬ Agreed roots name → (spec.lookup name).isSome ∨ default.isSome) ∧
      (∀ line ∈ spec, ¬ Agreed roots line.1) ∧
      ∀ host inserted now after s,
        merging.merge host inserted now heads default spec = .ok (after, s) →
        s.parents = plan.heads ∧
          ∃ tree : Tree, tree.entries = taken ∧ after.get s.tree = .ok (some tree.encode) := by
  obtain ⟨roots, once, shape, sorted, hr⟩ := planOver_ok planned
  obtain ⟨lines, results, paired, picks⟩ := validateSpec_ok accepted
  have rows : plan.paths = (rootNames roots).map (rowAt roots) := by rw [shape]
  rw [rows, forall₂_map_left_iff] at paired
  have rises : Ascending taken := by
    rw [picks]
    refine reduceOption_ascending (paired.imp fun name result solved entry hs => ?_)
      (rootNames_sorted roots)
    obtain ⟨root, -, held, -⟩ := ((resolve_ok once solved).2 entry).mp hs
    exact (rootEntry_eq_some.mp held).2
  have resolves {name : String} (held : ∃ root ∈ roots, ∃ entry ∈ root.2.entries,
      entry.name.name = name) := paired_left paired (mem_rootNames.mpr held)
  refine ⟨roots, by rw [shape], by rw [shape]; exact once, fun head => ?_, hr, fun name => ?_,
    fun path hm => ?_, rises, fun entry => ?_, fun name torn => ?_,
    fun line hm => ?_, fun host inserted now after s => merge_ok planned accepted rises⟩
  · rw [sorted, mem_insertionSort]
  · rw [← mem_rootNames, rows]
    simp [rowAt]
  · rw [rows] at hm
    obtain ⟨name, -, rfl⟩ := mem_map.mp hm
    rfl
  · rw [picks, reduceOption_mem_iff]
    constructor
    · intro taken
      obtain ⟨name, -, solved⟩ := paired_right paired taken
      obtain ⟨root, mem, held, chosen⟩ := ((resolve_ok once solved).2 entry).mp rfl
      obtain ⟨hm, rfl⟩ := rootEntry_eq_some.mp held
      exact ⟨root, mem, hm, chosen⟩
    · rintro ⟨root, mem, hm, chosen⟩
      obtain ⟨result, taken, solved⟩ := resolves ⟨root, mem, entry, hm, rfl⟩
      have hs : result = some entry := ((resolve_ok once solved).2 entry).mpr
        ⟨root, mem, rootEntry_eq_some.mpr ⟨hm, rfl⟩, chosen⟩
      exact hs ▸ taken
  · -- Heads that all lack a name agree on it, so one holds this name.
    have held : ∃ root ∈ roots, ∃ entry ∈ root.2.entries, entry.name.name = name := by
      by_contra hl
      refine torn fun first mem second hm => ?_
      have gone (root) (mem : root ∈ roots) : rootEntry root.2 name = none :=
        eq_none_iff_forall_not_mem.mpr fun entry hf =>
          hl ⟨root, mem, entry, rootEntry_eq_some.mp hf⟩
      rw [gone first mem, gone second hm]
    obtain ⟨result, -, solved⟩ := resolves held
    have covered := (resolve_ok once solved).1.resolve_left torn
    simpa [isSome_or] using covered
  · obtain ⟨path, row, hn, torn⟩ := lines line hm
    rw [rows] at row
    obtain ⟨name, -, rfl⟩ := mem_map.mp row
    rw [← hn]
    exact fun ha => Bool.false_ne_true (torn.symm.trans (agreed_iff.mpr ha))

end Recovery

section Sample

/-- A second head beside the first: it holds nothing. -/
def forkedEngine : Engine samplePrimitives :=
  liveEngine.commit { firstSnapshot with tree := leafId, signature := 2 }

def sampleMerging : Recovery samplePrimitives Unit :=
  { sampleRecovery with engine := forkedEngine }

def forkPlan : Except (MergeError Unit) MergePlan :=
  sampleMerging.planOver [sampleId 2, sampleId 1]

/-- The file and the link are dropped, the directory is taken from the head that holds it. -/
def forkTaken (plan : MergePlan) : Except (MergeError Unit) (List Entry) :=
  validateSpec plan (some (sampleId 1)) [("a", .absent), ("l", .absent)]

theorem merge_selects_fork : ∃ plan taken, forkPlan = .ok plan ∧ forkTaken plan = .ok taken ∧
    taken.map (·.name) = [directoryName] ∧ plan.heads.Nodup ∧
    taken.Pairwise fun first second => first.name < second.name := by
  obtain ⟨plan, plans, taken, hok, hn⟩ : ∃ plan, forkPlan = .ok plan ∧ ∃ taken,
      forkTaken plan = .ok taken ∧ taken.map (·.name) = [directoryName] := by decide +kernel
  obtain ⟨_, -, ho, -, -, -, -, hr, -⟩ := Recovery.merge_selects plans hok
  exact ⟨plan, taken, plans, hok, hn, ho, hr⟩

end Sample

end Wyrd.Author
