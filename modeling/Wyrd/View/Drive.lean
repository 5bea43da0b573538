import Wyrd.Format.Mutation

/-! # The view of a drive

A view merges the trees of all its heads into one read-only namespace. Where every head
has the same at a path, that is served; where all have directories, they are served as
one; everything else is a conflict, whose versions are read under version-qualified names.
A lookup walks each head and then merges; a listing merges the directories of its node.
-/

namespace Wyrd.View

inductive Node where
  /-- A file, a directory or a symlink, as the entry of one tree has it. -/
  | leaf (content : EntryContent)
  /-- A directory in every head, with different contents. -/
  | mergedDir (subtrees : List (SnapshotId × ContentId))
  /-- The heads disagree; the versions are those of the heads that have the path. -/
  | conflict (versions : List (SnapshotId × EntryContent))
  deriving DecidableEq

structure DirEntry where
  name : Component
  node : Node
  deriving DecidableEq

inductive StoreFailure where
  | transient
  | storageFull
  | permissionDenied
  deriving DecidableEq

inductive FetchStatus where
  | remoteOnly
  | fetching
  | available
  | unavailable
  | corrupt
  deriving DecidableEq

inductive ViewError where
  | notFound
  | invalidPath
  | notADirectory
  | notAFile
  | conflict
  | notMaterialized (content : ContentId)
  | unavailable (content : ContentId)
  | corrupt
  | rejectedRepresentation (content : ContentId) (kind : ObjectKind)
  | lostRepresentation (content : ContentId) (kind : ObjectKind)
  | store (failure : StoreFailure) (text : String)
  deriving DecidableEq

/-- How a read of the store fails. -/
structure ReadFailure where
  verification : Bool
  failure : StoreFailure
  text : String
  deriving DecidableEq

structure Head where
  snapshot : SnapshotId
  tree : ContentId
  deriving DecidableEq

/-- The head set with the store that serves it. -/
structure DriveView where
  get : ContentId → Except ReadFailure (Option Bytes)
  status : ContentId → FetchStatus
  heads : List Head

abbrev Resolutions := List (SnapshotId × Option EntryContent)

/-- The heads where a path resolves. -/
def present (resolutions : Resolutions) : List (SnapshotId × EntryContent) :=
  resolutions.filterMap fun (snapshot, node) => node.map fun content => (snapshot, content)

def dirSide : SnapshotId × EntryContent → Option (SnapshotId × ContentId)
  | (snapshot, .dir subtree) => some (snapshot, subtree)
  | _ => none

/-- The subtree of each head, if every one resolves to a directory. -/
def allDirs (versions : List (SnapshotId × EntryContent)) :
    Option (List (SnapshotId × ContentId)) :=
  versions.mapM dirSide

def merge (resolutions : Resolutions) : Except ViewError Node :=
  match present resolutions with
  | [] => .error .notFound
  | first :: rest =>
    if (first :: rest).length = resolutions.length then
      if ∀ version ∈ first :: rest, version.2 = first.2 then .ok (.leaf first.2)
      else
        match allDirs (first :: rest) with
        | some subtrees => .ok (.mergedDir subtrees)
        | none => .ok (.conflict (first :: rest))
    else .ok (.conflict (first :: rest))

/-- A text at its last separator. -/
def rsplitOnce (separator : Char) (text : List Char) : Option (List Char × List Char) :=
  if separator ∈ text then
    let reversed := text.reverse
    some (((reversed.dropWhile (· ≠ separator)).drop 1).reverse,
      (reversed.takeWhile (· ≠ separator)).reverse)
  else none

/-- A number of 32 bits: decimal digits, which one plus sign may precede. -/
def parseNumber (text : List Char) : Option Nat :=
  let digits := match text with
    | '+' :: rest => rest
    | _ => text
  if digits ≠ [] ∧ digits.all Char.isDigit then
    let value := digits.foldl (fun value digit => 10 * value + (digit.toNat - '0'.toNat)) 0
    if value < 2 ^ 32 then some value else none
  else none

/-- The name and the version of a component with a version suffix. -/
def versionOf (component : String) : Option (String × Nat) := do
  let (name, suffix) ← rsplitOnce '@' component.toList
  if name = [] then none
  else
    let version ← parseNumber suffix
    if 1 ≤ version then some (String.ofList name, version) else none

structure VersionRef where
  index : Nat
  name : String
  version : Nat

/-- The rightmost component with a version suffix. -/
def parseRef (components : List Component) : Option VersionRef :=
  components.zipIdx.reverse.findSome? fun (component, index) =>
    (versionOf component.name).map fun (name, version) => ⟨index, name, version⟩

/-- The path of the conflict itself. -/
def unversionedPrefix (components : List Component) (target : VersionRef) :
    Except ViewError (List Component) := do
  let name ← (Component.new target.name).mapError fun _ => .notFound
  return components.take target.index ++ [name]

/-- Versions count from one in the order of their snapshots. -/
def selectVersion (versions : List (SnapshotId × EntryContent)) (version : Nat) :
    Option EntryContent :=
  ((versions.insertionSort fun first second => first.1 ≤ second.1)[version - 1]?).map Prod.snd

/-- One leading separator is taken off. -/
def trimmed : List Char → List Char
  | '/' :: rest => rest
  | text => text

def parsePart (part : List Char) : Option Component := (Component.new (String.ofList part)).toOption

/-- The components of a path, from the root. -/
def parsePath (path : String) : Except ViewError (List Component) :=
  if trimmed path.toList = [] then .ok []
  else
    match ((trimmed path.toList).splitOn '/').mapM parsePart with
    | none => .error .invalidPath
    | some components =>
      if maxPathDepth < components.length then .error .invalidPath else .ok components

section OrderedMap

variable {κ α : Type} [LinearOrder κ]

/-- Insert into the pairs of an ordered map. -/
def insertPair (pair : κ × α) : List (κ × α) → List (κ × α)
  | [] => [pair]
  | first :: rest =>
    if pair.1 < first.1 then pair :: first :: rest
    else if pair.1 = first.1 then pair :: rest
    else first :: insertPair pair rest

/-- The ordered map that pairs are inserted into, one after the other. -/
def ordered (pairs : List (κ × α)) : List (κ × α) :=
  pairs.foldl (fun map pair => insertPair pair map) []

end OrderedMap

namespace DriveView

variable (view : DriveView)

/-- Content the store does not hold. -/
def absent (id : ContentId) (kind : ObjectKind) : ViewError :=
  match view.status id with
  | .remoteOnly | .fetching => .notMaterialized id
  | .available => .lostRepresentation id kind
  | .unavailable => .unavailable id
  | .corrupt => .corrupt

def treeBytes (id : ContentId) : Except ViewError Bytes :=
  match view.get id with
  | .ok (some bytes) => .ok bytes
  | .ok none => .error (view.absent id .tree)
  | .error error =>
    if error.verification then .error (.rejectedRepresentation id .tree)
    else .error (.store error.failure error.text)

def loadTree (id : ContentId) : Except ViewError Tree := do
  let bytes ← view.treeBytes id
  (Tree.decode bytes).mapError fun _ => .corrupt

def resolveOne (treeId : ContentId) : List Component → Except ViewError (Option EntryContent)
  | [] => do
      let _ ← view.loadTree treeId
      return some (.dir treeId)
  | first :: remaining => do
      let tree ← view.loadTree treeId
      match tree.find first with
      | none => return none
      | some content =>
        if remaining = [] then return some content
        else
          match content with
          | .dir subtree => resolveOne subtree remaining
          | _ => throw .notADirectory

/-- Every component is a stored name. -/
def lookupLiteral (components : List Component) : Except ViewError Node := do
  let resolutions ← view.heads.mapM fun head => do
    return (head.snapshot, ← view.resolveOne head.tree components)
  merge resolutions

/-- What is below one version. -/
def belowVersion (content : EntryContent) (rest : List Component) : Except ViewError Node :=
  if rest = [] then .ok (.leaf content)
  else
    match content with
    | .dir subtree => do
        match ← view.resolveOne subtree rest with
        | none => throw .notFound
        | some content => return .leaf content
    | _ => .error .notADirectory

/-- One version of a conflicted path, or what is below it. -/
def lookupVersioned (components : List Component) : Except ViewError Node :=
  match parseRef components with
  | none => .error .notFound
  | some target => do
      let unversioned ← unversionedPrefix components target
      match ← view.lookupLiteral unversioned with
      | .conflict versions =>
        match selectVersion versions target.version with
        | none => throw .notFound
        | some content => view.belowVersion content (components.drop (target.index + 1))
      | _ => throw .notFound

def lookup (path : String) : Except ViewError Node := do
  let components ← parsePath path
  -- A drive without heads still has a root.
  if components = [] ∧ view.heads = [] then return .mergedDir []
  else
    match view.lookupLiteral components with
    | .error .notFound => view.lookupVersioned components
    | outcome => outcome

/-- The union of children, each name resolved across every source. -/
def readdirUnion (subtrees : List (SnapshotId × ContentId)) : Except ViewError (List DirEntry) := do
  let loaded ← subtrees.mapM fun (snapshot, subtree) => do
    return (snapshot, ← view.loadTree subtree)
  let names := (loaded.flatMap fun (_, tree) => tree.entries.map Entry.name).dedup
  (names.insertionSort (· ≤ ·)).mapM fun name => do
    let node ← merge ((ordered loaded).map fun (snapshot, tree) => (snapshot, tree.find name))
    return ⟨name, node⟩

def readdir : Node → Except ViewError (List DirEntry)
  | .leaf (.dir subtree) => do
      let tree ← view.loadTree subtree
      return tree.entries.map fun entry => ⟨entry.name, .leaf entry.content⟩
  | .mergedDir subtrees => view.readdirUnion subtrees
  -- A conflict lists the directories among its versions.
  | .conflict versions => view.readdirUnion (versions.filterMap dirSide)
  | .leaf _ => throw .notADirectory

end DriveView

end Wyrd.View
