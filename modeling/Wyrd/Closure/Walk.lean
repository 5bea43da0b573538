import Wyrd.Closure.Verify

/-! # What the walk of a closure has established

The mapping names one manifest for every tree that was met; a tree that was met waits on
the stack or was read. What is known about a tree that was read stays known, because the
mapping only grows.
-/

namespace Wyrd.Closure

open Option Function Finset

section Checks

variable {ε ε' α : Type}

lemma demand_ok {error : ε} {condition : Prop} [Decidable condition] {done : Unit} :
    demand error condition = .ok done ↔ condition := by
  unfold demand
  split_ifs with hh <;> simp [hh]

lemma expect_ok {error : ε} {found : Option α} {value : α} :
    expect error found = .ok value ↔ found = some value := by
  cases found <;> simp [expect]

lemma forM_ok {check : α → Except ε Unit} {items : List α} :
    items.forM check = .ok done ↔ ∀ item ∈ items, check item = .ok () := by
  induction items with
  | nil => simp [pure, Except.pure]
  | cons item items ih =>
    change (check item >>= fun _ => items.forM check) = .ok done ↔ _
    rw [bind_ok]
    simp only [List.forall_mem_cons, ← ih]
    constructor
    · rintro ⟨⟨⟩, hh, later⟩
      exact ⟨hh, later⟩
    · rintro ⟨hh, later⟩
      exact ⟨(), hh, later⟩

lemma lastWhere_some {keep : α → Bool} (hf : lastWhere keep items = some item) :
    item ∈ items ∧ keep item = true :=
  List.mem_filter.mp (List.mem_of_getLast? hf)

lemma lastWhere_isSome {keep : α → Bool} (hm : item ∈ items) (hk : keep item = true) :
    ∃ last, lastWhere keep items = some last := by
  have filled : items.filter keep ≠ [] :=
    List.ne_nil_of_mem (List.mem_filter.mpr ⟨hm, hk⟩)
  exact ⟨_, List.getLast?_eq_some_getLast filled⟩

@[simp] lemma checkCanonical_ok (manifest : Manifest) :
    (checkCanonical manifest : Except (ClosureError ε) Unit) = .ok () :=
  demand_ok.mpr ⟨manifest.entriesSorted.isChain, manifest.childrenSorted.isChain⟩

end Checks

variable {ε : Type} {claimed : Claimed ε} {walk next : Walk} {id treeId subtree : ContentId}
  {tree : Tree} {size : Nat} {manifest : Manifest}

namespace Claimed

/-- A tree is in the store, hashes to its identity, decodes and is within limits. -/
def Readable (claimed : Claimed ε) (id : ContentId) (tree : Tree) (size : Nat) : Prop :=
  ∃ bytes, claimed.get id = .ok (some bytes) ∧ claimed.derive .tree bytes = id ∧
    Tree.decode bytes = .ok tree ∧ checkTree claimed.limits tree = .ok () ∧ bytes.length = size

lemma readTree_ok : claimed.readTree id = .ok (tree, size) ↔ claimed.Readable id tree size := by
  constructor
  · intro read
    obtain ⟨found, got, read⟩ := bind_ok.mp read
    obtain ⟨bytes, hh, read⟩ := bind_ok.mp read
    obtain ⟨_, self, read⟩ := bind_ok.mp read
    obtain ⟨decoded, hv, read⟩ := bind_ok.mp read
    obtain ⟨_, check, read⟩ := bind_ok.mp read
    cases read
    rw [expect_ok.mp hh] at got
    exact ⟨bytes, mapError_ok.mp got, demand_ok.mp self, mapError_ok.mp hv, mapError_ok.mp check, rfl⟩
  · rintro ⟨bytes, got, self, hv, check, rfl⟩
    exact bind_ok.mpr ⟨some bytes, mapError_ok.mpr got, bind_ok.mpr ⟨bytes, rfl,
      bind_ok.mpr ⟨(), demand_ok.mpr self, bind_ok.mpr ⟨tree, mapError_ok.mpr hv,
        bind_ok.mpr ⟨(), mapError_ok.mpr check, rfl⟩⟩⟩⟩⟩

lemma Readable.unique (reads : claimed.Readable id tree size)
    (reads' : claimed.Readable id other length) : other = tree ∧ length = size := by
  have hs := (readTree_ok.mpr reads').symm.trans (readTree_ok.mpr reads)
  cases hs
  exact ⟨rfl, rfl⟩

/-- The trees that the tree of the snapshot leads to. -/
inductive Reaches (claimed : Claimed ε) : ContentId → Prop
  | root : Reaches claimed claimed.tree
  | step {id subtree : ContentId} {tree : Tree} {size : Nat} (reached : Reaches claimed id)
      (readable : claimed.Readable id tree size) (named : subtree ∈ directories tree) :
      Reaches claimed subtree

lemma checkChunk_ok {chunk : ContentId}
    (check : (checkChunk treeId manifest chunk : Except (ClosureError ε) Unit) = .ok ()) :
    ∃ entry ∈ manifest.entries, entry.contentId = chunk ∧ entry.kind = .chunk := by
  obtain ⟨declared, hf, kind⟩ := bind_ok.mp check
  obtain ⟨hm, hs⟩ := lastWhere_some (expect_ok.mp hf)
  exact ⟨declared, hm, of_decide_eq_true hs, demand_ok.mp kind⟩

lemma checkChild_ok :
    claimed.checkChild link child = .ok () ↔ claimed.manifestId child = link.manifest ∧
      child.snapshot = claimed.snapshotId ∧ checkManifest claimed.limits child = .ok () := by
  constructor
  · intro check
    obtain ⟨_, -, check⟩ := bind_ok.mp check
    obtain ⟨_, self, check⟩ := bind_ok.mp check
    obtain ⟨_, snap, check⟩ := bind_ok.mp check
    exact ⟨demand_ok.mp self, demand_ok.mp snap, mapError_ok.mp check⟩
  · rintro ⟨self, snap, hs⟩
    exact bind_ok.mpr ⟨(), checkCanonical_ok child, bind_ok.mpr ⟨(), demand_ok.mpr self,
      bind_ok.mpr ⟨(), demand_ok.mpr snap, mapError_ok.mpr hs⟩⟩⟩

def manifestOf (claimed : Claimed ε) (walk : Walk) (id : ContentId) : Option Manifest :=
  if id = claimed.tree then some claimed.root else (walk.mapping id).bind claimed.children

/-- What a manifest that a parent links was checked for. -/
structure Linked (claimed : Claimed ε) (id : ContentId) (manifest : Manifest) : Prop where
  recorded : claimed.children id = some manifest
  identity : claimed.manifestId manifest = id
  snapshot : manifest.snapshot = claimed.snapshotId
  small : checkManifest claimed.limits manifest = .ok ()

structure Mapped (claimed : Claimed ε) (walk : Walk) : Prop where
  root : walk.mapping claimed.tree = some claimed.rootId
  linked : ∀ id named, walk.mapping id = some named → id ≠ claimed.tree →
    ∃ manifest, claimed.Linked named manifest
  reached : ∀ id named, walk.mapping id = some named → claimed.Reaches id
  waiting : ∀ id manifest, (id, manifest) ∈ walk.stack → claimed.manifestOf walk id = some manifest ∧
    (∃ named, walk.mapping id = some named) ∧ walk.treeSizes id = none
  distinct : (walk.stack.map Prod.fst).Nodup
  met : ∀ id named, walk.mapping id = some named →
    (∃ size, walk.treeSizes id = some size) ∨ id ∈ walk.stack.map Prod.fst
  sized : ∀ id size, walk.treeSizes id = some size → ∃ named, walk.mapping id = some named

/-- The mapping grew; nothing else changed but the stack. -/
structure Extends (walk next : Walk) : Prop where
  mapping : ∀ id named, walk.mapping id = some named → next.mapping id = some named
  treeSizes : next.treeSizes = walk.treeSizes
  chunks : next.chunks = walk.chunks
  visited : next.visitedManifests = walk.visitedManifests

lemma Extends.refl (walk : Walk) : Extends walk walk := ⟨fun _ _ hf => hf, rfl, rfl, rfl⟩

lemma Extends.trans (first : Extends walk middle) (second : Extends middle next) :
    Extends walk next :=
  ⟨fun id named hf => second.mapping id named (first.mapping id named hf),
    second.treeSizes.trans first.treeSizes, second.chunks.trans first.chunks,
    second.visited.trans first.visited⟩

lemma Extends.manifestOf (longer : Extends walk next)
    (hf : claimed.manifestOf walk id = some manifest) :
    claimed.manifestOf next id = some manifest := by
  unfold Claimed.manifestOf at hf ⊢
  split_ifs at hf ⊢ with root
  · exact hf
  · obtain ⟨named, hm, hn⟩ := bind_eq_some_iff.mp hf
    exact bind_eq_some_iff.mpr ⟨named, longer.mapping id named hm, hn⟩

lemma Mapped.follow (maps : claimed.Mapped walk) (reached : claimed.Reaches treeId)
    (reads : claimed.Readable treeId tree size) (named : subtree ∈ directories tree)
    (followed : claimed.follow treeId manifest walk subtree = .ok next) :
    claimed.Mapped next ∧ Extends walk next ∧
      ∃ link ∈ manifest.children, link.tree = subtree ∧
        next.mapping subtree = some link.manifest := by
  obtain ⟨link, hf, followed⟩ := bind_ok.mp followed
  obtain ⟨hm, same⟩ := lastWhere_some (expect_ok.mp hf)
  have same := of_decide_eq_true same
  cases known : walk.mapping subtree with
  | some =>
    rw [known] at followed
    obtain ⟨_, ha, followed⟩ := bind_ok.mp followed
    cases followed
    exact ⟨maps, .refl walk, link, hm, same, by rw [known, demand_ok.mp ha]⟩
  | none =>
    rw [known] at followed
    obtain ⟨child, hn, followed⟩ := bind_ok.mp followed
    obtain ⟨_, hc, followed⟩ := bind_ok.mp followed
    cases followed
    have other {id named : ContentId} (earlier : walk.mapping id = some named) : id ≠ subtree := by
      rintro rfl
      exact absurd (known.symm.trans earlier) (by simp)
    have hk (id named : ContentId) (earlier : walk.mapping id = some named) :
        update walk.mapping subtree (some link.manifest) id = some named :=
      (update_of_ne (other earlier) ..).trans earlier
    have longer : Extends walk { walk with
        mapping := update walk.mapping subtree (some link.manifest)
        stack := (subtree, child) :: walk.stack } := ⟨hk, rfl, rfl, rfl⟩
    obtain ⟨self, snap, small⟩ := checkChild_ok.mp hc
    have record : claimed.Linked link.manifest child :=
      ⟨expect_ok.mp hn, self, snap, small⟩
    have fresh : subtree ≠ claimed.tree := fun root => other maps.root root.symm
    refine ⟨?_, longer, link, hm, same, update_self ..⟩
    constructor
    case root => exact hk _ _ maps.root
    case linked =>
      intro id target hf' hne
      by_cases new : id = subtree
      · subst new
        cases (update_self ..).symm.trans hf'
        exact ⟨child, record⟩
      · exact maps.linked id target ((update_of_ne new ..).symm.trans hf') hne
    case reached =>
      intro id target hf'
      by_cases new : id = subtree
      · subst new
        exact .step reached reads named
      · exact maps.reached id target ((update_of_ne new ..).symm.trans hf')
    case waiting =>
      intro id waits stacked
      rcases List.mem_cons.mp stacked with hh | earlier
      · cases hh
        refine ⟨?_, ⟨_, update_self ..⟩, ?_⟩
        · unfold Claimed.manifestOf
          rw [if_neg fresh]
          exact bind_eq_some_iff.mpr ⟨_, update_self .., record.recorded⟩
        · refine eq_none_iff_forall_ne_some.mpr fun length sized => ?_
          obtain ⟨target, hf'⟩ := maps.sized _ length sized
          exact other hf' rfl
      · obtain ⟨hs, ⟨target, hf'⟩, hu⟩ := maps.waiting id waits earlier
        exact ⟨longer.manifestOf hs, ⟨target, hk id target hf'⟩, hu⟩
    case distinct =>
      refine List.nodup_cons.mpr ⟨fun again => ?_, maps.distinct⟩
      obtain ⟨⟨id, waits⟩, stacked, hh⟩ := List.mem_map.mp again
      obtain ⟨-, ⟨target, hf'⟩, -⟩ := maps.waiting id waits stacked
      exact other hf' hh
    case met =>
      intro id target hf'
      by_cases new : id = subtree
      · exact .inr (List.mem_cons.mpr (.inl new))
      · exact (maps.met id target ((update_of_ne new ..).symm.trans hf')).imp_right
          (List.mem_cons_of_mem _)
    case sized =>
      intro id length sized
      obtain ⟨target, hf'⟩ := maps.sized id length sized
      exact ⟨target, hk id target hf'⟩

/-- What a walk has established about a tree that it read. -/
structure Declares (walk : Walk) (tree : Tree) (manifest : Manifest) : Prop where
  chunks : ∀ chunk ∈ chunksOf tree, ∃ entry ∈ manifest.entries,
    entry.contentId = chunk ∧ entry.kind = .chunk
  kept : chunksOf tree ⊆ walk.chunks
  children : ∀ link ∈ manifest.children, link.tree ∈ directories tree
  links : ∀ subtree ∈ directories tree, ∃ link ∈ manifest.children, link.tree = subtree ∧
    walk.mapping subtree = some link.manifest

lemma Declares.mono (states : Declares walk tree manifest) (chunks : walk.chunks ⊆ next.chunks)
    (mapping : ∀ id named, walk.mapping id = some named → next.mapping id = some named) :
    Declares next tree manifest := by
  refine ⟨states.chunks, states.kept.trans chunks, states.children, fun subtree named => ?_⟩
  obtain ⟨link, hm, hs, hf⟩ := states.links subtree named
  exact ⟨link, hm, hs, mapping _ _ hf⟩

structure Covered (claimed : Claimed ε) (walk : Walk) : Prop where
  read : ∀ id size, walk.treeSizes id = some size → ∃ tree manifest,
    claimed.Readable id tree size ∧ claimed.manifestOf walk id = some manifest ∧
      manifest ∈ walk.visitedManifests ∧ Declares walk tree manifest
  visited : ∀ manifest ∈ walk.visitedManifests, ∃ id size, walk.treeSizes id = some size ∧
    claimed.manifestOf walk id = some manifest
  chunks : ∀ chunk ∈ walk.chunks, ∃ id tree size, walk.treeSizes id = some size ∧
    claimed.Readable id tree size ∧ chunk ∈ chunksOf tree

def read (walk : Walk) (rest : List (ContentId × Manifest)) (treeId : ContentId)
    (manifest : Manifest) (tree : Tree) (size : Nat) : Walk :=
  { walk with
    stack := rest
    treeSizes := update walk.treeSizes treeId (some size)
    chunks := walk.chunks ∪ chunksOf tree
    visitedManifests := walk.visitedManifests ++ [manifest] }

lemma Mapped.read (maps : claimed.Mapped walk)
    (stacked : walk.stack = (treeId, manifest) :: rest) (tree : Tree) (size : Nat) :
    claimed.Mapped (Claimed.read walk rest treeId manifest tree size) := by
  have top : (treeId, manifest) ∈ walk.stack := by simp [stacked]
  have distinct := maps.distinct
  rw [stacked, List.map_cons, List.nodup_cons] at distinct
  constructor
  case root => exact maps.root
  case linked => exact maps.linked
  case reached => exact maps.reached
  case waiting =>
    intro id waits later
    have old : (id, waits) ∈ walk.stack := by
      rw [stacked]
      exact List.mem_cons_of_mem _ later
    obtain ⟨hs, hf, hu⟩ := maps.waiting id waits old
    refine ⟨hs, hf, ?_⟩
    have hne : id ≠ treeId := by
      rintro rfl
      exact distinct.1 (List.mem_map.mpr ⟨_, later, rfl⟩)
    exact (update_of_ne hne ..).trans hu
  case distinct => exact distinct.2
  case met =>
    intro id named hf
    by_cases hh : id = treeId
    · exact .inl ⟨size, by rw [hh]; exact update_self ..⟩
    · rcases maps.met id named hf with ⟨length, sized⟩ | waits
      · exact .inl ⟨length, (update_of_ne hh ..).trans sized⟩
      · rw [stacked, List.map_cons, List.mem_cons] at waits
        exact .inr (waits.resolve_left hh)
  case sized =>
    intro id length sized
    by_cases hh : id = treeId
    · rw [hh]
      exact (maps.waiting treeId manifest top).2.1
    · exact maps.sized id length ((update_of_ne hh ..).symm.trans sized)

lemma Mapped.followAll {names : List ContentId} (maps : claimed.Mapped walk)
    (hr : claimed.Reaches treeId) (reads : claimed.Readable treeId tree size)
    (hn : ∀ subtree ∈ names, subtree ∈ directories tree)
    (followed : names.foldlM (claimed.follow treeId manifest) walk = .ok next) :
    claimed.Mapped next ∧ Extends walk next ∧ ∀ subtree ∈ names, ∃ link ∈ manifest.children,
      link.tree = subtree ∧ next.mapping subtree = some link.manifest := by
  induction names generalizing walk with
  | nil =>
    cases followed
    exact ⟨maps, .refl _, fun _ none => absurd none List.not_mem_nil⟩
  | cons first rest ih =>
    rw [List.foldlM_cons] at followed
    obtain ⟨middle, hh, later⟩ := bind_ok.mp followed
    obtain ⟨maps', longer, link, hm, hs, hf⟩ :=
      maps.follow hr reads (hn first List.mem_cons_self) hh
    obtain ⟨maps'', longer', others⟩ := ih maps'
      (fun subtree hm => hn subtree (List.mem_cons_of_mem _ hm)) later
    refine ⟨maps'', longer.trans longer', fun subtree hl => ?_⟩
    rcases List.mem_cons.mp hl with rfl | hl
    · exact ⟨link, hm, hs, longer'.mapping _ _ hf⟩
    · exact others subtree hl

lemma visit_ok {base : Walk} (met : claimed.visit base treeId manifest = .ok next) :
    ∃ tree size, claimed.Readable treeId tree size ∧
      (∀ chunk ∈ chunksOf tree, ∃ entry ∈ manifest.entries,
        entry.contentId = chunk ∧ entry.kind = .chunk) ∧
      (∀ link ∈ manifest.children, link.tree ∈ directories tree) ∧
      ((directories tree).sort (· ≤ ·)).foldlM (claimed.follow treeId manifest)
        (Claimed.read base base.stack treeId manifest tree size) = .ok next := by
  obtain ⟨⟨tree, size⟩, hr, met⟩ := bind_ok.mp met
  obtain ⟨_, hc, met⟩ := bind_ok.mp met
  obtain ⟨_, links, hf⟩ := bind_ok.mp met
  refine ⟨tree, size, readTree_ok.mp hr, fun chunk hm => ?_, fun link hm => ?_, hf⟩
  · exact checkChunk_ok (forM_ok.mp hc chunk (List.mem_toFinset.mp hm))
  · exact demand_ok.mp (forM_ok.mp links link hm)

lemma Mapped.visit (maps : claimed.Mapped walk) (covered : claimed.Covered walk)
    (stacked : walk.stack = (treeId, manifest) :: rest)
    (met : claimed.visit { walk with stack := rest } treeId manifest = .ok next) :
    claimed.Mapped next ∧ claimed.Covered next ∧ ∃ tree size,
      claimed.Readable treeId tree size ∧
        next.treeSizes = update walk.treeSizes treeId (some size) := by
  have top : (treeId, manifest) ∈ walk.stack := by simp [stacked]
  obtain ⟨stated, ⟨target, hf⟩, hu⟩ := maps.waiting treeId manifest top
  obtain ⟨tree, size, reads, chunks, hc, followed⟩ := visit_ok met
  obtain ⟨maps', longer, links⟩ := (maps.read stacked tree size).followAll
    (maps.reached treeId target hf) reads (fun _ hm => (mem_sort _).mp hm)
    followed
  have sizes : next.treeSizes = update walk.treeSizes treeId (some size) :=
    longer.treeSizes
  have grown : next.chunks = walk.chunks ∪ chunksOf tree := longer.chunks
  have seen : next.visitedManifests = walk.visitedManifests ++ [manifest] := longer.visited
  have mapping : ∀ id named, walk.mapping id = some named → next.mapping id = some named :=
    longer.mapping
  have manifests {id : ContentId} {known : Manifest}
      (hh : claimed.manifestOf walk id = some known) : claimed.manifestOf next id = some known :=
    longer.manifestOf hh
  have others {id : ContentId} {length : Nat} (hsz : walk.treeSizes id = some length) :
      next.treeSizes id = some length := by
    have hne : id ≠ treeId := by
      rintro rfl
      exact absurd (hu.symm.trans hsz) (by simp)
    rw [sizes, update_of_ne hne, hsz]
  refine ⟨maps', ⟨fun id length hsz => ?_, fun known hm => ?_, fun chunk hm => ?_⟩,
    tree, size, reads, sizes⟩
  · rw [sizes] at hsz
    by_cases hh : id = treeId
    · subst hh
      cases (update_self ..).symm.trans hsz
      refine ⟨tree, manifest, reads, manifests stated, by simp [seen], chunks, ?_, hc,
        fun subtree named => links subtree ((mem_sort _).mpr named)⟩
      rw [grown]
      exact subset_union_right
    · obtain ⟨other, known, reads', stated', hm, hs⟩ :=
        covered.read id length ((update_of_ne hh ..).symm.trans hsz)
      refine ⟨other, known, reads', manifests stated', by simp [seen, hm], hs.mono ?_ mapping⟩
      rw [grown]
      exact subset_union_left
  · rw [seen] at hm
    rcases List.mem_append.mp hm with old | hh
    · obtain ⟨id, length, hsz, stated'⟩ := covered.visited known old
      exact ⟨id, length, others hsz, manifests stated'⟩
    · rw [List.mem_singleton.mp hh]
      exact ⟨treeId, size, by rw [sizes, update_self], manifests stated⟩
  · rw [grown] at hm
    rcases mem_union.mp hm with old | hh
    · obtain ⟨id, other, length, hsz, reads', mem⟩ := covered.chunks chunk old
      exact ⟨id, other, length, others hsz, reads', mem⟩
    · exact ⟨treeId, tree, size, by rw [sizes, update_self], reads, hh⟩

lemma start_mapping {manifestId} : claimed.start.mapping id = some manifestId ↔
    id = claimed.tree ∧ claimed.rootId = manifestId := by
  unfold start
  by_cases hh : id = claimed.tree
  · simp [hh]
  · simp [hh]

lemma mapped_start : claimed.Mapped claimed.start := by
  constructor
  case root => exact start_mapping.mpr ⟨rfl, rfl⟩
  case linked => exact fun id named hf hne => absurd (start_mapping.mp hf).1 hne
  case reached =>
    intro id named hf
    rw [(start_mapping.mp hf).1]
    exact .root
  case waiting =>
    intro id manifest hs
    cases List.mem_singleton.mp hs
    exact ⟨if_pos rfl, ⟨_, start_mapping.mpr ⟨rfl, rfl⟩⟩, rfl⟩
  case distinct => exact List.nodup_singleton _
  case met =>
    intro id named hf
    exact .inr (List.mem_singleton.mpr (start_mapping.mp hf).1)
  case sized =>
    intro id size sized
    cases sized

lemma covered_start : claimed.Covered claimed.start := by
  refine ⟨fun id size hsz => ?_, fun manifest hm => ?_, fun chunk hm => ?_⟩
  · cases hsz
  · cases hm
  · exact absurd hm (notMem_empty chunk)

lemma Mapped.walkAll (maps : claimed.Mapped walk) (covered : claimed.Covered walk)
    (walked : claimed.walkAll fuel walk = some (.ok final)) :
    claimed.Mapped final ∧ claimed.Covered final ∧ final.stack = [] := by
  induction fuel generalizing walk with
  | zero => cases walked
  | succ fuel ih =>
    unfold Claimed.walkAll at walked
    split at walked
    · next he =>
      cases walked
      exact ⟨maps, covered, he⟩
    · next treeId manifest rest stacked =>
      split at walked
      · cases walked
      · next middle visited =>
        obtain ⟨maps', covered', -⟩ := maps.visit covered stacked visited
        exact ih maps' covered' walked

/-- Trees of a finite set that were not read yet. -/
def unread (bound : Finset ContentId) (walk : Walk) : Finset ContentId :=
  bound.filter fun id => walk.treeSizes id = none

lemma Mapped.walkAll_isSome
    (finite : ∀ id tree size, claimed.Reaches id → claimed.Readable id tree size → id ∈ bound)
    (maps : claimed.Mapped walk) (covered : claimed.Covered walk)
    (ample : (unread bound walk).card + 2 ≤ fuel) :
    ∃ outcome, claimed.walkAll fuel walk = some outcome := by
  induction fuel generalizing walk with
  | zero => omega
  | succ fuel ih =>
    unfold Claimed.walkAll
    split
    · exact ⟨_, rfl⟩
    · next treeId manifest rest stacked =>
      split
      · exact ⟨_, rfl⟩
      · next middle visited =>
        obtain ⟨maps', covered', tree, size, hr, sizes⟩ :=
          maps.visit covered stacked visited
        obtain ⟨-, ⟨named, hf⟩, waits⟩ := maps.waiting treeId manifest (by simp [stacked])
        have mem := finite treeId tree size (maps.reached treeId named hf) hr
        refine ih maps' covered' ?_
        have fewer : (unread bound middle).card < (unread bound walk).card := by
          refine card_lt_card (ssubset_iff_of_subset ?_ |>.mpr ⟨treeId, ?_, ?_⟩)
          · intro id left
            obtain ⟨mem, none⟩ := mem_filter.mp left
            rw [sizes] at none
            refine mem_filter.mpr ⟨mem, ?_⟩
            by_cases hh : id = treeId
            · rw [hh, waits]
            · rwa [update_of_ne hh] at none
          · exact mem_filter.mpr ⟨mem, waits⟩
          · intro left
            have none := (mem_filter.mp left).2
            rw [sizes, update_self] at none
            cases none
        omega

end Claimed

end Wyrd.Closure
