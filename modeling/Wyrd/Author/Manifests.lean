import Wyrd.Closure.Verdicts
import Wyrd.Lib.Effect
import Wyrd.Lib.Machine

/-! # Authoring the manifests of a snapshot

The author walks the tree closure of the snapshot with a stack of frames. A chunk is
mapped to a recorded representation that this device can serve, or is sealed fresh; a
tree is always sealed. A frame without entries left becomes a manifest, and its parent
links it. What is sealed is cached for the session, and the vault keeps it.
-/

namespace Wyrd.Author

open Function

open Closure Seal

abbrev Nonce := { nonce : Bytes // nonce.length = sealNonceLen }

abbrev Mappings := Observed (Prod.fst : ContentId × ManifestEntry → ContentId)

/-- An ordered map from a subtree to the link of its manifest. -/
abbrev Links := Observed (Prod.fst : ContentId × ChildManifest → ContentId)

def limitsV0 : Limits where
  maxTreeEntries := 1000000
  maxFileNameBytes := 1024
  maxSymlinkBytes := 4096
  maxFileChunks := 65536
  maxManifestEntries := 580000
  maxManifestChildren := 1000000

inductive ManifestError where
  | unsortedEntries
  | unsortedChildren
  | countOverflow (length : Nat)
  deriving DecidableEq

inductive AuthorError (ε : Type) where
  | objectStore (error : ε)
  | treeUnavailable (tree : ContentId)
  | treeMismatch (tree : ContentId)
  | invalidTree (tree : ContentId)
  | chunkUnavailable (chunk : ContentId)
  | representationMissing (manifest : ContentId)
  | ingest (error : IngestError)
  | manifest (error : ManifestError)
  | crypto (error : CryptoError)
  deriving DecidableEq

/-- Build a manifest from maps: every key names the value stored under it. -/
def fromSorted (snapshot : SnapshotId) (entries : Mappings) (links : Links) :
    Except ManifestError Manifest :=
  if countLimit < entries.size then .error (.countOverflow entries.size)
  else if countLimit < links.size then .error (.countOverflow links.size)
  else if keyed : ∀ pair ∈ entries.docs, pair.1 = pair.2.contentId then
    if linked : ∀ pair ∈ links.docs, pair.1 = pair.2.tree then
      .ok {
        snapshot := snapshot
        entries := entries.docs.map Prod.snd
        children := links.docs.map Prod.snd
        entriesSorted := by
          refine List.pairwise_map.mpr (entries.ascending.imp_of_mem fun first second below => ?_)
          rw [keyed _ first, keyed _ second] at below
          exact Prod.Lex.left _ _ below
        childrenSorted := by
          refine List.pairwise_map.mpr (links.ascending.imp_of_mem fun first second below => ?_)
          rwa [linked _ first, linked _ second] at below }
    else .error .unsortedChildren
  else .error .unsortedEntries

/-- Seal plaintext under a nonce; content that is not this plaintext is refused. -/
def sealContent (K : Sealing) (key : Digest) (kind : ObjectKind) (content : ContentId)
    (plaintext : Bytes) (nonce : Nonce) : Except CryptoError EncryptedObject :=
  if K.contentId kind plaintext ≠ content then .error .identityMismatch
  else
    match K.aeadSeal key nonce.1 plaintext (sealAad sealVersion kind content) with
    | none => .error .sealFailed
    | some ciphertext => .ok ⟨sealVersion, kind, nonce.1, ciphertext, nonce.2⟩

def entryFor (K : Sealing) (kind : ObjectKind) (epoch : Nat) (obj : EncryptedObject)
    (content : ContentId) (plaintext : Bytes) : Except CryptoError ManifestEntry :=
  if obj.version ≠ sealVersion ∨ obj.kind ≠ kind then .error .headerMismatch
  else if K.contentId kind plaintext ≠ content then .error .identityMismatch
  else .ok {
    contentId := content
    kind := kind
    version := obj.version
    storageId := obj.storageId K
    encryptionEpoch := epoch
    size := plaintext.length
    transport := transportRoot K obj }

/-- What an authoring reads: the drive and its canonical epoch, the snapshot, the object
    store, the recorded manifests in the order of their ids, the keyring, and nonces. -/
structure Env (ε : Type) where
  K : Sealing
  drive : DriveId
  epoch : Nat
  secret : EpochSecret
  snapshot : SnapshotId
  get : ContentId → Except ε (Option Bytes)
  has : ContentId → Except ε Bool
  recorded : List Manifest
  keyring : Nat → Option EpochSecret
  nonce : Nat → Nonce

structure Session where
  vault : BaoRoot → Option Bytes
  /-- The mappings this session found or made. -/
  sealed : ContentId → Option ManifestEntry
  /-- Content whose plaintext this device holds. -/
  localContent : Finset ContentId
  children : List ManifestRecord
  draws : Nat
  /-- Every sealing of content so far; not in the program's state. -/
  seals : List ContentId

def Session.begin (vault : BaoRoot → Option Bytes) (draws : Nat) : Session where
  vault := vault
  sealed := fun _ => none
  localContent := ∅
  children := []
  draws := draws
  seals := []

/-- One subtree in progress: the entries still to do, and what is assembled so far. -/
structure Frame where
  treeId : ContentId
  rest : List Entry
  entries : Mappings
  links : Links

/-- The walk: the stack is never empty. -/
structure Walking where
  top : Frame
  below : List Frame
  completed : ContentId → Option ChildManifest
  inProgress : Finset ContentId

/-- The link for an assembled subtree: its first sealed representation. -/
def childLink {ε : Type} (subtree : ContentId) (child : ManifestRecord) :
    Except (AuthorError ε) ChildManifest :=
  match child.representations.docs.head? with
  | none => .error (.representationMissing child.manifestId)
  | some (storage, _) => .ok ⟨subtree, child.manifestId, storage, child.transport⟩

namespace Env

variable {ε : Type} (env : Env ε)

/-- A computation of the author: it changes the session, and may fail. -/
abbrev Act (ε α : Type) := Effect Session (AuthorError ε) α

/-- Load a tree node: its address, its encoding and the ceilings are checked. -/
def loadTree (treeId : ContentId) : Except (AuthorError ε) (Bytes × Tree) := do
  let bytes ← expect (.treeUnavailable treeId) (← (env.get treeId).mapError .objectStore)
  demand (.treeMismatch treeId) (env.K.contentId .tree bytes = treeId)
  let tree ← (Tree.decode bytes).mapError fun _ => .invalidTree treeId
  (checkTree limitsV0 tree).mapError .ingest
  return (bytes, tree)

/-- Every recorded mapping for one plaintext content, in manifest order. -/
def recordedMappings (content : ContentId) : List ManifestEntry :=
  (env.recorded.flatMap (·.entries)).filter (·.contentId = content)

/-- The first recorded representation that this device holds the epoch secret for and the
    vault copy of. -/
def recordedEntry (session : Session) (chunk : ContentId) : Option ManifestEntry :=
  (env.recordedMappings chunk).find? fun entry =>
    (env.keyring entry.encryptionEpoch).isSome && (session.vault entry.transport).isSome

/-- Keep sealed bytes under their transport root; a root that is held stays. -/
def importVault (sealed : Bytes) : Act ε Unit := fun session =>
  let root := env.K.blobRoot sealed
  if (session.vault root).isSome then (session, .ok ())
  else ({ session with vault := update session.vault root (some sealed) }, .ok ())

def sealUnder (key : Digest) (kind : ObjectKind) (content : ContentId) (plaintext : Bytes) :
    Act ε EncryptedObject := fun session =>
  ({ session with draws := session.draws + 1 },
    (sealContent env.K key kind content plaintext (env.nonce session.draws)).mapError .crypto)

/-- The session after content was sealed: it is cached, local and counted. -/
def keep (content : ContentId) (entry : ManifestEntry) : Act ε Unit := fun session =>
  ({ session with
      sealed := update session.sealed content (some entry)
      localContent := insert content session.localContent
      seals := session.seals ++ [content] }, .ok ())

/-- Seal one object under the canonical epoch, and keep it. -/
def sealFresh (kind : ObjectKind) (content : ContentId) (plaintext : Bytes) :
    Act ε ManifestEntry := do
  let key := env.K.objectKey env.secret env.drive env.epoch content kind sealVersion
  let obj ← env.sealUnder key kind content plaintext
  let entry ← Effect.lift ((entryFor env.K kind env.epoch obj content plaintext).mapError .crypto)
  env.importVault obj.encode
  keep content entry
  return entry

/-- The mapping of a tree node: the cached one, else a fresh seal. -/
def sealTree (treeId : ContentId) (bytes : Bytes) : Act ε ManifestEntry := do
  match (← Effect.get).sealed treeId with
  | some entry => return entry
  | none => env.sealFresh .tree treeId bytes

/-- The mapping of a chunk: the cached one, else a recorded one that can be served, else a
    fresh seal of the local plaintext. -/
def resolve (chunk : ContentId) : Act ε ManifestEntry := do
  let session ← Effect.get
  match session.sealed chunk with
  | some entry => return entry
  | none =>
    match env.recordedEntry session chunk with
    | some entry =>
      Effect.set { session with sealed := update session.sealed chunk (some entry) }
      return entry
    | none =>
      let plaintext ← Effect.lift (do
        expect (.chunkUnavailable chunk) (← (env.get chunk).mapError .objectStore))
      env.sealFresh .chunk chunk plaintext

def resolveAll : List ContentId → Mappings → Act ε Mappings
  | [], entries => return entries
  | chunk :: rest, entries => do
      let mapping ← env.resolve chunk
      resolveAll rest (entries.observe (chunk, mapping))

def openFrame (treeId : ContentId) : Act ε Frame := do
  let (bytes, tree) ← Effect.lift (env.loadTree treeId)
  let mapping ← env.sealTree treeId bytes
  return ⟨treeId, tree.entries, Observed.empty.observe (treeId, mapping), .empty⟩

/-- Seal the manifest of a frame without entries left, and record it. -/
def assemble (frame : Frame) : Act ε ManifestRecord := do
  let manifest ← Effect.lift ((fromSorted env.snapshot frame.entries frame.links).mapError .manifest)
  Effect.lift ((checkManifest limitsV0 manifest).mapError .ingest)
  let manifestId := env.K.contentId .manifest manifest.canonicalBytes
  let obj ← env.sealUnder (env.K.manifestKey env.secret env.drive env.epoch env.snapshot) .manifest
    manifestId manifest.canonicalBytes
  env.importVault obj.encode
  let transport := transportRoot env.K obj
  return ⟨true, manifestId, Observed.empty.observe (obj.storageId env.K, transport), transport,
    manifest⟩

/-- An assembled child: recorded, and linked by the frame below. -/
def link (walking : Walking) (parent : Frame) (below : List Frame) (record : ManifestRecord) :
    Act ε Walking := do
  let link ← Effect.lift (childLink walking.top.treeId record)
  let session ← Effect.get
  Effect.set { session with children := session.children ++ [{ record with isRoot := false }] }
  return {
    top := { parent with links := parent.links.observe (walking.top.treeId, link) }
    below := below
    completed := update walking.completed walking.top.treeId (some link)
    inProgress := walking.inProgress.erase walking.top.treeId }

/-- One entry of the top frame, or its end: the walk goes on or has the root record. -/
def step (walking : Walking) : Act ε (Walking ⊕ ManifestRecord) := do
  match walking.top.rest with
  | [] =>
    let record ← env.assemble walking.top
    match walking.below with
    | [] => return .inr record
    | parent :: below => return .inl (← link walking parent below record)
  | entry :: rest =>
    match entry.content with
    | .file _ _ chunks =>
      -- Nothing enters the frame before every chunk is resolved; a failure ends the walk.
      let entries ← env.resolveAll chunks walking.top.entries
      return .inl { walking with top := { walking.top with rest := rest, entries := entries } }
    | .symlink _ => return .inl { walking with top := { walking.top with rest := rest } }
    | .dir subtree =>
      match walking.completed subtree with
      | some link => return .inl { walking with
          top := { walking.top with rest := rest, links := walking.top.links.observe (subtree, link) } }
      | none =>
        -- A re-entered subtree would be a hash cycle.
        if subtree ∈ walking.inProgress then Effect.fail (.treeMismatch subtree)
        let frame ← env.openFrame subtree
        return .inl { walking with
          top := frame
          below := { walking.top with rest := rest } :: walking.below
          inProgress := insert subtree walking.inProgress }

def pass (state : Walking × Session) :
    Pass (Walking × Session) (Session × Except (AuthorError ε) ManifestRecord) :=
  match env.step state.1 state.2 with
  | (session, .error error) => .done (session, .error error)
  | (session, .ok (.inr record)) => .done (session, .ok record)
  | (session, .ok (.inl next)) => .more (next, session)

def walk (fuel : Nat) (treeId : ContentId) (session : Session) :
    Option (Session × Except (AuthorError ε) ManifestRecord) :=
  match env.openFrame treeId session with
  | (session, .error error) => some (session, .error error)
  | (session, .ok frame) =>
    Machine.run env.pass fuel (⟨frame, [], fun _ => none, {treeId}⟩, session)

end Env

end Wyrd.Author
