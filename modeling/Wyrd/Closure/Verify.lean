import Wyrd.Format.TreeCodec

/-! # Verifying a closure

A snapshot names a root tree; its manifests declare the same content a second time. The
verifier walks both from their roots in lockstep, with one manifest for each tree, and
then looks for entries that neither a file nor a directory reaches. The walk goes on
while there is fuel; a finite store needs only so much.
-/

namespace Wyrd.Closure

open Function

structure Limits where
  maxTreeEntries : Nat
  maxFileNameBytes : Nat
  maxSymlinkBytes : Nat
  maxFileChunks : Nat
  maxManifestEntries : Nat
  maxManifestChildren : Nat

inductive IngestError where
  | tooMany (what : String) (count max : Nat)
  deriving DecidableEq

def checkCount (max : Nat) (what : String) (count : Nat) : Except IngestError Unit :=
  if max < count then .error (.tooMany what count max) else .ok ()

def checkEntry (limits : Limits) (entry : Entry) : Except IngestError Unit := do
  checkCount limits.maxFileNameBytes "path component bytes" entry.name.name.utf8ByteSize
  match entry.content with
  | .file _ _ chunks => checkCount limits.maxFileChunks "file chunks" chunks.length
  | .symlink target => checkCount limits.maxSymlinkBytes "symlink bytes" target.utf8ByteSize
  | .dir _ => .ok ()

def checkTree (limits : Limits) (tree : Tree) : Except IngestError Unit := do
  checkCount limits.maxTreeEntries "tree entries" tree.entries.length
  tree.entries.forM (checkEntry limits)

def checkManifest (limits : Limits) (manifest : Manifest) : Except IngestError Unit := do
  checkCount limits.maxManifestEntries "manifest entries" manifest.entries.length
  checkCount limits.maxManifestChildren "manifest children" manifest.children.length

inductive ClosureError (ε : Type) where
  | rootSnapshotMismatch (expected found : SnapshotId)
  | rootManifestMissing (snapshot : SnapshotId)
  | rootIdentityMismatch (found derived : ContentId)
  | childIdentityMismatch (expected derived : ContentId)
  | nonCanonicalManifest
  | treeUnavailable (tree : ContentId)
  | treeIdentityMismatch (tree : ContentId)
  | invalidTree (tree : ContentId)
  | ambiguousTreeMapping (tree first second : ContentId)
  | missingChildManifest (tree child : ContentId)
  | missingChildManifestRecord (child manifest : ContentId)
  | childSnapshotMismatch (manifest : ContentId)
  | unexpectedChildManifest (tree child : ContentId)
  | missingChunkEntry (tree chunk : ContentId)
  | unrelatedEntry (content : ContentId)
  | kindMismatch (content : ContentId) (expected found : ObjectKind)
  | treeEntrySizeMismatch (content : ContentId) (expected found : Nat)
  | ingest (error : IngestError)
  | objectStore (error : ε)
  deriving DecidableEq

/-- The closure has not been fetched yet. -/
def ClosureError.isPending {ε : Type} : ClosureError ε → Bool
  | .rootManifestMissing _ | .treeUnavailable _ | .missingChildManifestRecord _ _ => true
  | _ => false

structure Claimed (ε : Type) where
  derive : ObjectKind → Bytes → ContentId
  limits : Limits
  snapshotId : SnapshotId
  /-- The tree of the snapshot. -/
  tree : ContentId
  rootId : ContentId
  root : Manifest
  get : ContentId → Except ε (Option Bytes)
  /-- The manifests the source can resolve. -/
  children : ContentId → Option Manifest

structure Walk where
  /-- The one manifest that declares each tree. -/
  mapping : ContentId → Option ContentId
  stack : List (ContentId × Manifest)
  /-- The plaintext length of every tree that was read. -/
  treeSizes : ContentId → Option Nat
  chunks : Finset ContentId
  visitedManifests : List Manifest

def expect {ε α : Type} (error : ε) : Option α → Except ε α
  | none => .error error
  | some value => .ok value

def demand {ε : Type} (error : ε) (condition : Prop) [Decidable condition] : Except ε Unit :=
  if condition then .ok () else .error error

/-- The last item with a property: what a map collected from a list keeps. -/
def lastWhere {α : Type} (keep : α → Bool) (items : List α) : Option α := (items.filter keep).getLast?

def checkCanonical {ε : Type} (manifest : Manifest) : Except (ClosureError ε) Unit :=
  demand .nonCanonicalManifest
    (manifest.entries.IsChain (fun first second => first.sortKey < second.sortKey) ∧
      manifest.children.IsChain fun first second => first.tree < second.tree)

def directories (tree : Tree) : Finset ContentId :=
  (tree.entries.filterMap fun entry =>
    match entry.content with
    | .dir subtree => some subtree
    | _ => none).toFinset

def fileChunks (entry : Entry) : List ContentId :=
  match entry.content with
  | .file _ _ chunks => chunks
  | _ => []

def chunksOf (tree : Tree) : Finset ContentId := (tree.entries.flatMap fileChunks).toFinset

variable {ε : Type}

namespace Claimed

variable (claimed : Claimed ε)

def manifestId (manifest : Manifest) : ContentId := claimed.derive .manifest manifest.canonicalBytes

/-- A tree with the length of its plaintext. -/
def readTree (treeId : ContentId) : Except (ClosureError ε) (Tree × Nat) := do
  let bytes ← expect (.treeUnavailable treeId) (← (claimed.get treeId).mapError .objectStore)
  demand (.treeIdentityMismatch treeId) (claimed.derive .tree bytes = treeId)
  let tree ← (Tree.decode bytes).mapError fun _ => .invalidTree treeId
  (checkTree claimed.limits tree).mapError .ingest
  return (tree, bytes.length)

/-- A file's chunk is declared as one. -/
def checkChunk (treeId : ContentId) (manifest : Manifest) (chunk : ContentId) :
    Except (ClosureError ε) Unit := do
  let declared ← expect (.missingChunkEntry treeId chunk)
    (lastWhere (·.contentId = chunk) manifest.entries)
  demand (.kindMismatch chunk .chunk declared.kind) (declared.kind = .chunk)

def checkChild (link : ChildManifest) (child : Manifest) : Except (ClosureError ε) Unit := do
  checkCanonical child
  demand (.childIdentityMismatch link.manifest (claimed.manifestId child))
    (claimed.manifestId child = link.manifest)
  demand (.childSnapshotMismatch link.manifest) (child.snapshot = claimed.snapshotId)
  (checkManifest claimed.limits child).mapError .ingest

/-- Follow the link of one directory. -/
def follow (treeId : ContentId) (manifest : Manifest) (walk : Walk) (subtree : ContentId) :
    Except (ClosureError ε) Walk := do
  let link ← expect (.missingChildManifest treeId subtree)
    (lastWhere (·.tree = subtree) manifest.children)
  match walk.mapping subtree with
  | some existing =>
    demand (.ambiguousTreeMapping subtree existing link.manifest) (existing = link.manifest)
    return walk
  | none =>
    let child ← expect (.missingChildManifestRecord subtree link.manifest)
      (claimed.children link.manifest)
    claimed.checkChild link child
    return { walk with
      mapping := update walk.mapping subtree (some link.manifest)
      stack := (subtree, child) :: walk.stack }

def visit (walk : Walk) (treeId : ContentId) (manifest : Manifest) :
    Except (ClosureError ε) Walk := do
  let (tree, size) ← claimed.readTree treeId
  (tree.entries.flatMap fileChunks).forM (checkChunk treeId manifest)
  -- A child link the tree does not name is an unrelated declaration.
  manifest.children.forM fun link =>
    demand (.unexpectedChildManifest treeId link.tree) (link.tree ∈ directories tree)
  ((directories tree).sort (· ≤ ·)).foldlM (claimed.follow treeId manifest) { walk with
    treeSizes := update walk.treeSizes treeId (some size)
    chunks := walk.chunks ∪ chunksOf tree
    visitedManifests := walk.visitedManifests ++ [manifest] }

def start : Walk where
  mapping := update (fun _ => none) claimed.tree (some claimed.rootId)
  stack := [(claimed.tree, claimed.root)]
  treeSizes := fun _ => none
  chunks := ∅
  visitedManifests := []

def walkAll : Nat → Walk → Option (Except (ClosureError ε) Walk)
  | 0, _ => none
  | fuel + 1, walk =>
    match walk.stack with
    | [] => some (.ok walk)
    | (treeId, manifest) :: rest =>
      match claimed.visit { walk with stack := rest } treeId manifest with
      | .error error => some (.error error)
      | .ok next => walkAll fuel next

/-- Every entry lands in one of the two closures. -/
def checkReached (walk : Walk) (entry : ManifestEntry) : Except (ClosureError ε) Unit := do
  demand (.unrelatedEntry entry.contentId)
    (entry.contentId ∈ walk.chunks ∨ (walk.treeSizes entry.contentId).isSome)
  demand (.kindMismatch entry.contentId .chunk entry.kind)
    (entry.contentId ∈ walk.chunks → entry.kind = .chunk)
  match walk.treeSizes entry.contentId with
  | none => return ()
  | some actual =>
    demand (.kindMismatch entry.contentId .tree entry.kind) (entry.kind = .tree)
    demand (.treeEntrySizeMismatch entry.contentId actual entry.size) (entry.size = actual)

def checkRoot : Except (ClosureError ε) Unit := do
  demand (.rootSnapshotMismatch claimed.snapshotId claimed.root.snapshot)
    (claimed.root.snapshot = claimed.snapshotId)
  checkCanonical claimed.root
  demand (.rootIdentityMismatch claimed.rootId (claimed.manifestId claimed.root))
    (claimed.manifestId claimed.root = claimed.rootId)
  (checkManifest claimed.limits claimed.root).mapError .ingest

/-- The manifest hierarchy at the root manifest corresponds to the tree closure. -/
def verifySnapshotManifest (fuel : Nat) : Option (Except (ClosureError ε) Unit) :=
  match claimed.checkRoot with
  | .error error => some (.error error)
  | .ok () => (claimed.walkAll fuel claimed.start).map fun walked => do
      let walk ← walked
      walk.visitedManifests.forM fun manifest => manifest.entries.forM (checkReached walk)

/-- The same claim, read from another store and other records. -/
def against (get : ContentId → Except ε (Option Bytes)) (children : ContentId → Option Manifest) :
    Claimed ε :=
  { claimed with get := get, children := children }

end Claimed

/-- What the gate reads about a head: its store and its records. -/
structure Gate (ε : Type) where
  derive : ObjectKind → Bytes → ContentId
  limits : Limits
  get : ContentId → Except ε (Option Bytes)
  manifests : ContentId → Option Manifest
  /-- The root manifest recorded for a snapshot, with its identity. -/
  roots : SnapshotId → Option (ContentId × Manifest)

/-- A head with the root manifest recorded for it. -/
def Gate.claimed (gate : Gate ε) (snapshotId : SnapshotId) (tree : ContentId)
    (root : ContentId × Manifest) : Claimed ε where
  derive := gate.derive
  limits := gate.limits
  snapshotId := snapshotId
  tree := tree
  rootId := root.1
  root := root.2
  get := gate.get
  children := gate.manifests

/-- Verify one head against the store; a head that fails is not installed. -/
def Gate.verifyHeadClosure (gate : Gate ε) (snapshotId : SnapshotId) (tree : ContentId)
    (fuel : Nat) : Option (Except (ClosureError ε) Unit) :=
  match gate.roots snapshotId with
  | none => some (.error (.rootManifestMissing snapshotId))
  | some root => (gate.claimed snapshotId tree root).verifySnapshotManifest fuel

end Wyrd.Closure
