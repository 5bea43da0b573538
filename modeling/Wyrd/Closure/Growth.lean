import Wyrd.Closure.Exact

/-! # Verifying against a store that grows

Objects and manifests arrive over time. Where a closure corresponds in a larger store, the
walk over the smaller one is led by the assignment of the larger: every check that it comes
to passes, or it stops at a tree or a record that the smaller store lacks. So only the
errors that report something lacking can heal, and a closure that was verified stays so.
-/

namespace Wyrd.Closure

open Function

variable {ε : Type} {claimed : Claimed ε} {walk next : Walk}
  {id treeId subtree : ContentId} {tree : Tree} {size : Nat} {manifest : Manifest}
  {assign : ContentId → Manifest} {get : ContentId → Except ε (Option Bytes)}
  {children : ContentId → Option Manifest}

namespace Claimed

structure Grown (claimed : Claimed ε) (get : ContentId → Except ε (Option Bytes))
    (children : ContentId → Option Manifest) : Prop where
  get : ∀ id bytes, claimed.get id = .ok (some bytes) → get id = .ok (some bytes)
  children : ∀ id manifest, claimed.children id = some manifest → children id = some manifest

lemma Grown.refl (claimed : Claimed ε) : claimed.Grown claimed.get claimed.children :=
  ⟨fun _ _ held => held, fun _ _ held => held⟩

lemma Readable.grown (grown : claimed.Grown get children) (reads : claimed.Readable id tree size) :
    (claimed.against get children).Readable id tree size := by
  obtain ⟨bytes, hh, rest⟩ := reads
  exact ⟨bytes, grown.get id bytes hh, rest⟩

lemma Reaches.grown (grown : claimed.Grown get children) (hr : claimed.Reaches id) :
    (claimed.against get children).Reaches id := by
  induction hr with
  | root => exact Reaches.root
  | step _ reads hn ih => exact .step ih (reads.grown grown) hn

lemma Reaches.of_grown (grown : claimed.Grown get children)
    (stored : ∀ id, claimed.Reaches id → ∃ tree size, claimed.Readable id tree size)
    (hr : (claimed.against get children).Reaches id) : claimed.Reaches id := by
  induction hr with
  | root => exact .root
  | step _ reads hn ih =>
    obtain ⟨tree, size, reads'⟩ := stored _ ih
    rw [((reads'.grown grown).unique reads).1] at hn
    exact .step ih reads' hn

section Settled

variable (grown : claimed.Grown get children)
  (stored : ∀ id, claimed.Reaches id → ∃ tree size, claimed.Readable id tree size)

include grown stored

lemma Readable.of_grown (hr : claimed.Reaches id)
    (reads : (claimed.against get children).Readable id tree size) :
    claimed.Readable id tree size := by
  obtain ⟨other, length, reads'⟩ := stored id hr
  obtain ⟨rfl, rfl⟩ := (reads'.grown grown).unique reads
  exact reads'

lemma reaches_grown : (claimed.against get children).Reaches id ↔ claimed.Reaches id :=
  ⟨.of_grown grown stored, .grown grown⟩

lemma reachesChunk_grown :
    (claimed.against get children).ReachesChunk chunk ↔ claimed.ReachesChunk chunk := by
  constructor
  · rintro ⟨id, tree, size, hr, reads, mem⟩
    have hr := (reaches_grown grown stored).mp hr
    exact ⟨id, tree, size, hr, reads.of_grown grown stored hr, mem⟩
  · rintro ⟨id, tree, size, hr, reads, mem⟩
    exact ⟨id, tree, size, hr.grown grown, reads.grown grown, mem⟩

lemma justified_grown :
    (claimed.against get children).Justified entry ↔ claimed.Justified entry := by
  constructor
  · rintro ⟨related, chunk, sizes⟩
    rw [reachesChunk_grown grown stored] at related chunk
    rw [reaches_grown grown stored] at related
    exact ⟨related, chunk, fun tree size hr reads =>
      sizes tree size (hr.grown grown) (reads.grown grown)⟩
  · rintro ⟨related, chunk, sizes⟩
    rw [← reachesChunk_grown grown stored] at related chunk
    rw [← reaches_grown grown stored] at related
    refine ⟨related, chunk, fun tree size hr reads => ?_⟩
    have hr := (reaches_grown grown stored).mp hr
    exact sizes tree size hr (reads.of_grown grown stored hr)

end Settled

/-- A closure that corresponds keeps its assignment. -/
lemma Corresponds.grown (corresponds : claimed.Corresponds assign)
    (grown : claimed.Grown get children) : (claimed.against get children).Corresponds assign := by
  have back {id : ContentId} (reached : (claimed.against get children).Reaches id) :
      claimed.Reaches id := reached.of_grown grown corresponds.stored
  have read {id : ContentId} {tree : Tree} {size : Nat} (reached : claimed.Reaches id)
      (readable : (claimed.against get children).Readable id tree size) :
      claimed.Readable id tree size := readable.of_grown grown corresponds.stored reached
  constructor
  case root => exact corresponds.root
  case rootId => exact corresponds.rootId
  case stored =>
    intro id reached
    obtain ⟨tree, size, readable⟩ := corresponds.stored id (back reached)
    exact ⟨tree, size, readable.grown grown⟩
  case recorded =>
    exact fun id reached other => grown.children _ _ (corresponds.recorded id (back reached) other)
  case snapshot => exact fun id reached => corresponds.snapshot id (back reached)
  case small => exact fun id reached => corresponds.small id (back reached)
  case links =>
    exact fun id tree size reached readable =>
      corresponds.links id tree size (back reached) (read (back reached) readable)
  case named => exact fun id reached => corresponds.named id (back reached)
  case chunks =>
    exact fun id tree size reached readable =>
      corresponds.chunks id tree size (back reached) (read (back reached) readable)
  case entries =>
    exact fun id reached entry member =>
      (justified_grown grown corresponds.stored).mpr
        (corresponds.entries id (back reached) entry member)

def Lacks (claimed : Claimed ε) (assign : ContentId → Manifest) : ClosureError ε → Prop
  | .treeUnavailable id => claimed.Reaches id ∧ ∀ tree size, ¬ claimed.Readable id tree size
  | .missingChildManifestRecord subtree _ => claimed.Reaches subtree ∧ subtree ≠ claimed.tree ∧
      claimed.children (claimed.manifestId (assign subtree)) = none
  | _ => False

lemma Lacks.isPending (lacks : claimed.Lacks assign error) : error.isPending = true := by
  cases error <;> first | rfl | exact lacks.elim

lemma Corresponds.complete (corresponds : claimed.Corresponds assign) :
    ¬ claimed.Lacks assign error := by
  intro lacks
  unfold Lacks at lacks
  split at lacks
  · obtain ⟨tree, size, hr⟩ := corresponds.stored _ lacks.1
    exact lacks.2 tree size hr
  · exact absurd (corresponds.recorded _ lacks.1 lacks.2.1) (by simp [lacks.2.2])
  · exact lacks

/-- The mapping names the manifests that were assigned. -/
structure Guided (claimed : Claimed ε) (assign : ContentId → Manifest) (walk : Walk) : Prop where
  root : walk.mapping claimed.tree = some claimed.rootId
  named : ∀ id named, walk.mapping id = some named → named = claimed.manifestId (assign id)

section Leading

variable (grown : claimed.Grown get children)
  (corresponds : (claimed.against get children).Corresponds assign)
  (total : ∀ id, claimed.Reaches id → ∃ held, claimed.get id = .ok held)

include grown corresponds

lemma recorded_assigned (hr : claimed.Reaches id) (other : id ≠ claimed.tree)
    (hh : named = claimed.manifestId (assign id))
    (hf : claimed.children named = some manifest) : manifest = assign id := by
  have larger := grown.children _ _ hf
  rw [hh] at larger
  exact Option.some.inj (larger.symm.trans (corresponds.recorded id (hr.grown grown) other))

lemma Guided.manifestOf (guided : claimed.Guided assign walk) (hr : claimed.Reaches id)
    (hf : claimed.manifestOf walk id = some manifest) : manifest = assign id := by
  unfold Claimed.manifestOf at hf
  split_ifs at hf with root
  · cases hf
    rw [root]
    exact corresponds.root.symm
  · obtain ⟨named, hm, hn⟩ := Option.bind_eq_some_iff.mp hf
    exact recorded_assigned grown corresponds hr root (guided.named id named hm) hn

omit grown in
lemma guided_start : claimed.Guided assign claimed.start := by
  refine ⟨start_mapping.mpr ⟨rfl, rfl⟩, fun id named hf => ?_⟩
  obtain ⟨rfl, rfl⟩ := start_mapping.mp hf
  have rootId := corresponds.rootId
  have root := corresponds.root
  exact (congrArg claimed.manifestId root ▸ rootId).symm

lemma checkChunk_guided (hr : claimed.Reaches treeId)
    (reads : claimed.Readable treeId tree size) (mem : chunk ∈ chunksOf tree) :
    (checkChunk treeId (assign treeId) chunk : Except (ClosureError ε) Unit) = .ok () := by
  have hr := hr.grown grown
  have reads := reads.grown grown
  obtain ⟨entry, hm, hs, -⟩ :=
    corresponds.chunks treeId tree size hr reads chunk mem
  obtain ⟨last, hf⟩ : ∃ last, lastWhere (·.contentId = chunk) (assign treeId).entries = some last :=
    lastWhere_isSome hm (decide_eq_true hs)
  obtain ⟨hm, hs⟩ := lastWhere_some hf
  have hs := of_decide_eq_true hs
  -- No entry for a chunk that a file has is of another kind.
  have justified := corresponds.entries treeId hr last hm
  have kind : last.kind = .chunk :=
    justified.chunk ⟨treeId, tree, size, hr, reads, by rw [hs]; exact mem⟩
  exact bind_ok.mpr ⟨last, expect_ok.mpr hf, demand_ok.mpr kind⟩

lemma Guided.follow (guided : claimed.Guided assign walk) (hr : claimed.Reaches treeId)
    (reads : claimed.Readable treeId tree size) (mem : subtree ∈ directories tree) :
    Yields (claimed.Guided assign) (claimed.Lacks assign)
      (claimed.follow treeId (assign treeId) walk subtree) := by
  have hr' := hr.grown grown
  obtain ⟨link, hm, hs⟩ :=
    (corresponds.links treeId tree size hr' (reads.grown grown) subtree).mp mem
  obtain ⟨last, hf⟩ : ∃ last, lastWhere (·.tree = subtree) (assign treeId).children = some last :=
    lastWhere_isSome hm (decide_eq_true hs)
  obtain ⟨hm, hs⟩ := lastWhere_some hf
  have hs := of_decide_eq_true hs
  have hn : last.manifest = claimed.manifestId (assign subtree) := by
    rw [← hs]
    exact corresponds.named treeId hr' last hm
  have hb : claimed.Reaches subtree := .step hr reads mem
  unfold Claimed.follow
  refine Yields.bind_ok (expect_ok.mpr hf) ?_
  cases known : walk.mapping subtree with
  | some existing =>
    have agree : existing = last.manifest := (guided.named _ _ known).trans hn.symm
    exact Yields.bind_ok (demand_ok.mpr agree : _ = Except.ok ()) guided
  | none =>
    have other : subtree ≠ claimed.tree := by
      rintro rfl
      exact absurd (known.symm.trans guided.root) (by simp)
    cases noted : claimed.children last.manifest with
    | none =>
      rw [hn] at noted
      have lacks : claimed.Lacks assign (.missingChildManifestRecord subtree last.manifest) :=
        ⟨hb, other, noted⟩
      exact lacks
    | some child =>
      have assigned := recorded_assigned grown corresponds hb other hn noted
      have check : claimed.checkChild last child = .ok () := by
        rw [assigned]
        exact checkChild_ok.mpr ⟨hn.symm, corresponds.snapshot _ (hb.grown grown),
          corresponds.small _ (hb.grown grown)⟩
      refine Yields.bind_ok (expect_ok.mpr rfl) (Yields.bind_ok check ?_)
      refine ⟨?_, fun id target hf' => ?_⟩
      · exact (update_of_ne other.symm ..).trans guided.root
      · by_cases new : id = subtree
        · subst new
          cases (update_self ..).symm.trans hf'
          exact hn
        · exact guided.named id target ((update_of_ne new ..).symm.trans hf')

include total

lemma readTree_guided (hr : claimed.Reaches id) :
    Yields (fun read => claimed.Readable id read.1 read.2) (claimed.Lacks assign)
      (claimed.readTree id) := by
  obtain ⟨held, got⟩ := total id hr
  cases held with
  | none =>
    have fails : claimed.readTree id = .error (.treeUnavailable id) := by
      unfold readTree
      rw [got]
      rfl
    refine .of_error fails ⟨hr, ?_⟩
    rintro tree size ⟨bytes, got', -⟩
    exact absurd (got.symm.trans got') (by simp)
  | some bytes =>
    obtain ⟨tree, size, other, got', rest⟩ := corresponds.stored id (hr.grown grown)
    cases (grown.get id bytes got).symm.trans got'
    have reads : claimed.Readable id tree size := ⟨bytes, got, rest⟩
    exact .of_ok (readTree_ok.mpr reads) reads

lemma Guided.visit (guided : claimed.Guided assign walk) (hr : claimed.Reaches treeId) :
    Yields (claimed.Guided assign) (claimed.Lacks assign)
      (claimed.visit walk treeId (assign treeId)) := by
  unfold Claimed.visit
  refine (readTree_guided grown corresponds total hr).bind ?_
  rintro ⟨tree, size⟩ reads
  have chunks : (tree.entries.flatMap fileChunks).forM (checkChunk treeId (assign treeId)) =
      (.ok () : Except (ClosureError ε) Unit) :=
    forM_ok.mpr fun chunk mem =>
      checkChunk_guided grown corresponds hr reads (List.mem_toFinset.mpr mem)
  have links : ((assign treeId).children.forM fun link =>
      demand (.unexpectedChildManifest treeId link.tree) (link.tree ∈ directories tree)) =
      (.ok () : Except (ClosureError ε) Unit) :=
    forM_ok.mpr fun link hm => demand_ok.mpr
      ((corresponds.links treeId tree size (hr.grown grown) (reads.grown grown) _).mpr
        ⟨link, hm, rfl⟩)
  refine Yields.bind_ok chunks (Yields.bind_ok links ?_)
  refine Yields.foldlM (fun subtree hm state led => ?_) ⟨guided.root, guided.named⟩
  exact led.follow grown corresponds hr reads ((Finset.mem_sort _).mp hm)

lemma Guided.walkAll (guided : claimed.Guided assign walk) (maps : claimed.Mapped walk)
    (covered : claimed.Covered walk) (walked : claimed.walkAll fuel walk = some outcome) :
    Yields (fun final => claimed.Guided assign final ∧ claimed.Finished final)
      (claimed.Lacks assign) outcome := by
  induction fuel generalizing walk with
  | zero => cases walked
  | succ fuel ih =>
    unfold Claimed.walkAll at walked
    split at walked
    · next empty =>
      cases walked
      exact ⟨guided, maps, covered, empty⟩
    · next treeId manifest rest stacked =>
      obtain ⟨hs, ⟨named, hf⟩, -⟩ := maps.waiting treeId manifest (by simp [stacked])
      have hr := maps.reached treeId named hf
      have assigned := guided.manifestOf grown corresponds hr hs
      have led : claimed.Guided assign { walk with stack := rest } :=
        ⟨guided.root, guided.named⟩
      have met := led.visit grown corresponds total hr
      rw [← assigned] at met
      split at walked
      · next error failed =>
        cases walked
        exact met.error failed
      · next middle succeeded =>
        obtain ⟨maps', covered', -⟩ := maps.visit covered stacked succeeded
        exact ih (met.ok succeeded) maps' covered' walked

/-- Led by an assignment, the verifier succeeds or stops at what is lacking. -/
lemma verify_guided (proven : claimed.verifySnapshotManifest fuel = some outcome) :
    Yields (fun _ => True) (claimed.Lacks assign) outcome := by
  have root : claimed.checkRoot = .ok () := by
    have snap := corresponds.snapshot _ .root
    have small := corresponds.small _ .root
    rw [corresponds.root] at snap small
    exact checkRoot_ok.mpr ⟨snap, corresponds.rootId, small⟩
  unfold verifySnapshotManifest at proven
  rw [root] at proven
  obtain ⟨walked, he, rfl⟩ := Option.map_eq_some_iff.mp proven
  have led := (guided_start corresponds).walkAll grown corresponds total mapped_start
    covered_start he
  refine led.bind fun final hr => ?_
  obtain ⟨hg, done⟩ := hr
  refine .of_ok (forM_ok.mpr fun manifest met => forM_ok.mpr fun entry hm => ?_ :
    _ = Except.ok ()) trivial
  obtain ⟨id, size, hsz, hs⟩ := done.covered.visited manifest met
  have hh := done.reached hsz
  rw [hg.manifestOf grown corresponds hh hs] at hm
  have stored (id : ContentId) (hr : claimed.Reaches id) :
      ∃ tree size, claimed.Readable id tree size := by
    obtain ⟨size, hsz⟩ := done.treeSizes hr
    obtain ⟨-, tree, reads⟩ := done.sizes_iff.mp hsz
    exact ⟨tree, size, reads⟩
  exact done.checkReached.mpr ((justified_grown grown stored).mp
    (corresponds.entries id (hh.grown grown) entry hm))

end Leading

end Claimed

end Wyrd.Closure
