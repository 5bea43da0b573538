import Wyrd.Closure.Walk

/-! # What a verified closure is

A closure corresponds when one manifest can be assigned to every tree the snapshot
reaches, such that the manifests declare what the trees hold. The verifier finds the
assignment if there is one; where there is one for a larger store, it finds it or reports
what the smaller store lacks.
-/

namespace Wyrd.Closure

variable {ε : Type} {claimed : Claimed ε} {walk next final : Walk}
  {id treeId subtree : ContentId} {tree : Tree} {size : Nat} {manifest : Manifest}
  {assign : ContentId → Manifest}

lemma link_unique (one : first ∈ manifest.children) (other : second ∈ manifest.children)
    (hs : first.tree = second.tree) : first = second := by
  have once : (manifest.children.map (·.tree)).Nodup :=
    List.pairwise_map.mpr (manifest.childrenSorted.imp ne_of_lt)
  exact List.inj_on_of_nodup_map once one other hs

namespace Claimed

/-- The chunks of the files that the tree of the snapshot leads to. -/
def ReachesChunk (claimed : Claimed ε) (chunk : ContentId) : Prop :=
  ∃ id tree size, claimed.Reaches id ∧ claimed.Readable id tree size ∧ chunk ∈ chunksOf tree

/-- An entry is about a chunk or a tree that is reached, and about nothing else. -/
structure Justified (claimed : Claimed ε) (entry : ManifestEntry) : Prop where
  related : claimed.ReachesChunk entry.contentId ∨ claimed.Reaches entry.contentId
  chunk : claimed.ReachesChunk entry.contentId → entry.kind = .chunk
  tree : ∀ tree size, claimed.Reaches entry.contentId →
    claimed.Readable entry.contentId tree size → entry.kind = .tree ∧ entry.size = size

/-- Manifests that declare what the trees of a snapshot hold. -/
structure Corresponds (claimed : Claimed ε) (assign : ContentId → Manifest) : Prop where
  root : assign claimed.tree = claimed.root
  rootId : claimed.manifestId claimed.root = claimed.rootId
  stored : ∀ id, claimed.Reaches id → ∃ tree size, claimed.Readable id tree size
  recorded : ∀ id, claimed.Reaches id → id ≠ claimed.tree →
    claimed.children (claimed.manifestId (assign id)) = some (assign id)
  snapshot : ∀ id, claimed.Reaches id → (assign id).snapshot = claimed.snapshotId
  small : ∀ id, claimed.Reaches id → checkManifest claimed.limits (assign id) = .ok ()
  -- Children ascend strictly, so a directory has no second link.
  links : ∀ id tree size, claimed.Reaches id → claimed.Readable id tree size →
    ∀ subtree, subtree ∈ directories tree ↔ ∃ link ∈ (assign id).children, link.tree = subtree
  named : ∀ id, claimed.Reaches id → ∀ link ∈ (assign id).children,
    link.manifest = claimed.manifestId (assign link.tree)
  chunks : ∀ id tree size, claimed.Reaches id → claimed.Readable id tree size →
    ∀ chunk ∈ chunksOf tree, ∃ entry ∈ (assign id).entries,
      entry.contentId = chunk ∧ entry.kind = .chunk
  entries : ∀ id, claimed.Reaches id → ∀ entry ∈ (assign id).entries, claimed.Justified entry

lemma checkRoot_ok : claimed.checkRoot = .ok () ↔ claimed.root.snapshot = claimed.snapshotId ∧
    claimed.manifestId claimed.root = claimed.rootId ∧
      checkManifest claimed.limits claimed.root = .ok () := by
  constructor
  · intro check
    obtain ⟨_, snap, check⟩ := bind_ok.mp check
    obtain ⟨_, -, check⟩ := bind_ok.mp check
    obtain ⟨_, self, check⟩ := bind_ok.mp check
    exact ⟨demand_ok.mp snap, demand_ok.mp self, mapError_ok.mp check⟩
  · rintro ⟨snap, self, hs⟩
    exact bind_ok.mpr ⟨(), demand_ok.mpr snap, bind_ok.mpr ⟨(), checkCanonical_ok _,
      bind_ok.mpr ⟨(), demand_ok.mpr self, mapError_ok.mpr hs⟩⟩⟩

lemma checkReached_ok :
    (checkReached walk entry : Except (ClosureError ε) Unit) = .ok () ↔
      (entry.contentId ∈ walk.chunks ∨ (walk.treeSizes entry.contentId).isSome) ∧
      (entry.contentId ∈ walk.chunks → entry.kind = .chunk) ∧
      ∀ size, walk.treeSizes entry.contentId = some size → entry.kind = .tree ∧ entry.size = size := by
  unfold checkReached
  constructor
  · intro check
    obtain ⟨_, related, check⟩ := bind_ok.mp check
    obtain ⟨_, chunk, check⟩ := bind_ok.mp check
    refine ⟨demand_ok.mp related, demand_ok.mp chunk, fun size hsz => ?_⟩
    rw [hsz] at check
    obtain ⟨_, kind, check⟩ := bind_ok.mp check
    exact ⟨demand_ok.mp kind, demand_ok.mp check⟩
  · rintro ⟨related, chunk, sizes⟩
    refine bind_ok.mpr ⟨(), demand_ok.mpr related, bind_ok.mpr ⟨(), demand_ok.mpr chunk, ?_⟩⟩
    split
    · rfl
    · next actual hsz =>
      obtain ⟨kind, size⟩ := sizes actual hsz
      exact bind_ok.mpr ⟨(), demand_ok.mpr kind, demand_ok.mpr size⟩

/-- A walk that came to its end has read exactly the trees that are reached. -/
structure Finished (claimed : Claimed ε) (walk : Walk) : Prop where
  mapped : claimed.Mapped walk
  covered : claimed.Covered walk
  ended : walk.stack = []

section

variable (done : claimed.Finished walk)
include done

lemma Finished.read (hf : walk.mapping id = some named) :
    ∃ size, walk.treeSizes id = some size := by
  rcases done.mapped.met id named hf with hsz | waits
  · exact hsz
  · rw [done.ended] at waits
    cases waits

lemma Finished.treeSizes (hr : claimed.Reaches id) : ∃ size, walk.treeSizes id = some size := by
  induction hr with
  | root => exact done.read done.mapped.root
  | step hr reads hn ih =>
    obtain ⟨size, hsz⟩ := ih
    obtain ⟨tree, manifest, reads', -, -, hs⟩ := done.covered.read _ size hsz
    rw [(reads'.unique reads).1] at hn
    obtain ⟨link, -, -, hf⟩ := hs.links _ hn
    exact done.read hf

lemma Finished.reached (hsz : walk.treeSizes id = some size) : claimed.Reaches id := by
  obtain ⟨named, hf⟩ := done.mapped.sized id size hsz
  exact done.mapped.reached id named hf

lemma Finished.sizes_iff :
    walk.treeSizes id = some size ↔
      claimed.Reaches id ∧ ∃ tree, claimed.Readable id tree size := by
  constructor
  · intro hsz
    obtain ⟨tree, -, reads, -⟩ := done.covered.read id size hsz
    exact ⟨done.reached hsz, tree, reads⟩
  · rintro ⟨hr, tree, reads⟩
    obtain ⟨length, hsz⟩ := done.treeSizes hr
    obtain ⟨other, -, reads', -⟩ := done.covered.read id length hsz
    rw [hsz, (reads.unique reads').2]

lemma Finished.chunks_iff : chunk ∈ walk.chunks ↔ claimed.ReachesChunk chunk := by
  constructor
  · intro hm
    obtain ⟨id, tree, size, hsz, reads, mem⟩ := done.covered.chunks chunk hm
    exact ⟨id, tree, size, done.reached hsz, reads, mem⟩
  · rintro ⟨id, tree, size, hr, reads, mem⟩
    obtain ⟨length, hsz⟩ := done.treeSizes hr
    obtain ⟨other, manifest, reads', -, -, states⟩ := done.covered.read id length hsz
    rw [← (reads'.unique reads).1] at states
    exact states.kept mem

lemma Finished.checkReached :
    (checkReached walk entry : Except (ClosureError ε) Unit) = .ok () ↔
      claimed.Justified entry := by
  have isSome : (walk.treeSizes entry.contentId).isSome ↔ claimed.Reaches entry.contentId := by
    rw [Option.isSome_iff_exists]
    exact ⟨fun ⟨_, hsz⟩ => done.reached hsz, done.treeSizes⟩
  rw [checkReached_ok, done.chunks_iff, isSome]
  constructor
  · rintro ⟨related, chunk, sizes⟩
    exact ⟨related, chunk, fun tree size hr reads =>
      sizes size (done.sizes_iff.mpr ⟨hr, tree, reads⟩)⟩
  · rintro ⟨related, chunk, sizes⟩
    refine ⟨related, chunk, fun size hsz => ?_⟩
    obtain ⟨hr, tree, reads⟩ := done.sizes_iff.mp hsz
    exact sizes tree size hr reads

end

def assigned (claimed : Claimed ε) (walk : Walk) (id : ContentId) : Manifest :=
  (claimed.manifestOf walk id).getD claimed.root

lemma assigned_eq (hf : claimed.manifestOf walk id = some manifest) :
    claimed.assigned walk id = manifest := by
  unfold assigned
  rw [hf, Option.getD_some]

lemma Finished.linked (done : claimed.Finished walk) (hf : walk.mapping id = some named)
    (other : id ≠ claimed.tree) : claimed.Linked named (claimed.assigned walk id) := by
  obtain ⟨manifest, ht⟩ := done.mapped.linked id named hf other
  have hh : claimed.manifestOf walk id = some manifest := by
    unfold manifestOf
    rw [if_neg other, hf]
    exact ht.recorded
  rwa [assigned_eq hh]

lemma Finished.assigned_root (walk : Walk) : claimed.assigned walk claimed.tree = claimed.root :=
  assigned_eq (if_pos rfl)

lemma Finished.identity (done : claimed.Finished walk)
    (rootId : claimed.manifestId claimed.root = claimed.rootId)
    (hf : walk.mapping id = some named) :
    claimed.manifestId (claimed.assigned walk id) = named := by
  by_cases root : id = claimed.tree
  · subst root
    rw [Finished.assigned_root, rootId]
    exact Option.some.inj (done.mapped.root.symm.trans hf)
  · exact (done.linked hf root).identity

lemma Finished.corresponds (done : claimed.Finished walk) (check : claimed.checkRoot = .ok ())
    (entries : ∀ manifest ∈ walk.visitedManifests, ∀ entry ∈ manifest.entries,
      claimed.Justified entry) : claimed.Corresponds (claimed.assigned walk) := by
  obtain ⟨snapshot, rootId, small⟩ := checkRoot_ok.mp check
  have stated {id : ContentId} (hr : claimed.Reaches id) :
      ∃ tree size, claimed.Readable id tree size ∧
        claimed.assigned walk id ∈ walk.visitedManifests ∧
        Declares walk tree (claimed.assigned walk id) := by
    obtain ⟨size, hsz⟩ := done.treeSizes hr
    obtain ⟨tree, manifest, reads, found, met, states⟩ :=
      done.covered.read id size hsz
    rw [assigned_eq found]
    exact ⟨tree, size, reads, met, states⟩
  have named {id : ContentId} (hr : claimed.Reaches id) :
      ∃ named, walk.mapping id = some named := by
    obtain ⟨size, hsz⟩ := done.treeSizes hr
    exact done.mapped.sized id size hsz
  constructor
  case root => exact Finished.assigned_root walk
  case rootId => exact rootId
  case stored =>
    intro id hr
    obtain ⟨tree, size, reads, -⟩ := stated hr
    exact ⟨tree, size, reads⟩
  case recorded =>
    intro id hr other
    obtain ⟨name, found⟩ := named hr
    rw [done.identity rootId found]
    exact (done.linked found other).recorded
  case snapshot =>
    intro id hr
    by_cases root : id = claimed.tree
    · rw [root, Finished.assigned_root, snapshot]
    · obtain ⟨name, found⟩ := named hr
      exact (done.linked found root).snapshot
  case small =>
    intro id hr
    by_cases root : id = claimed.tree
    · rw [root, Finished.assigned_root, small]
    · obtain ⟨name, found⟩ := named hr
      exact (done.linked found root).small
  case links =>
    intro id tree size hr reads subtree
    obtain ⟨other, length, reads', -, states⟩ := stated hr
    rw [← (reads'.unique reads).1] at states
    constructor
    · intro hm
      obtain ⟨link, hm, hs, -⟩ := states.links subtree hm
      exact ⟨link, hm, hs⟩
    · rintro ⟨link, hm, rfl⟩
      exact states.children link hm
  case named =>
    intro id hr link hm
    obtain ⟨tree, size, reads, -, states⟩ := stated hr
    obtain ⟨found, hm', hs, mapping⟩ := states.links _ (states.children link hm)
    rw [link_unique hm' hm hs] at mapping
    exact (done.identity rootId mapping).symm
  case chunks =>
    intro id tree size hr reads chunk hm
    obtain ⟨other, length, reads', -, states⟩ := stated hr
    rw [← (reads'.unique reads).1] at states
    exact states.chunks chunk hm
  case entries =>
    intro id hr entry hm
    obtain ⟨-, -, -, met, -⟩ := stated hr
    exact entries _ met entry hm

end Claimed

end Wyrd.Closure
