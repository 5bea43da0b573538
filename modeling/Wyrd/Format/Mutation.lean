import Wyrd.Format.Objects

/-! # Copy-on-write tree mutation

Every operation loads the nodes along one path, rebuilds them bottom up, inserts the
rebuilt nodes and returns the new root. A rename removes the source and inserts it at
the destination of the tree that is left.
-/

namespace Wyrd

inductive PathError where
  | empty
  | emptyComponent
  | tooDeep (depth max : Nat)
  | component (error : ComponentError)
  deriving DecidableEq

def maxPathDepth : Nat := 256

/-- A parsed path has at least one component. -/
structure TreePath where
  head : Component
  tail : List Component
  deriving DecidableEq

namespace TreePath

def components (path : TreePath) : List Component := path.head :: path.tail

def last (path : TreePath) : Component := path.components.getLast (List.cons_ne_nil _ _)

end TreePath

def parsePart (part : List Char) : Except PathError Component :=
  if part = [] then .error .emptyComponent
  else (Component.new (String.ofList part)).mapError .component

/-- The parts behind the first `depth` ones. -/
def parseParts : List (List Char) → Nat → Except PathError (List Component)
  | [], _ => .ok []
  | part :: rest, depth => do
      let component ← parsePart part
      if maxPathDepth < depth + 1 then .error (.tooDeep (depth + 1) maxPathDepth)
      else
        let components ← parseParts rest (depth + 1)
        return component :: components

def parsePath (path : String) : Except PathError TreePath :=
  if path = "" then .error .empty
  else
    match path.toList.splitOn '/' with
    | [] => .error .empty
    | first :: rest => do
        let head ← parsePart first
        let tail ← parseParts rest 1
        return ⟨head, tail⟩

/-- One trailing separator is taken off, if it is not one of two and not the whole. -/
def splitTrailingSlash (path : String) : String × Bool :=
  let chars := path.toList
  let stripped := chars.dropLast
  if chars.getLast? = some '/' ∧ stripped ≠ [] ∧ stripped.getLast? ≠ some '/' then
    (String.ofList stripped, true)
  else (path, false)

/-- Why a rename makes no sense whatever stands at its destination. -/
inductive RenameFault where
  | trailingSlash (source : String)
  | inside (target source : String)
  deriving DecidableEq

inductive MutationError (ε : Type) where
  | path (error : PathError)
  | store (error : ε)
  | missingTree (id : ContentId)
  | tree (error : TreeError)
  | notADirectory (name : String)
  | isDirectory (name : String)
  | notFound (name : String)
  | alreadyExists (name : String)
  | directoryNotEmpty (name : String)
  | invalidRename (fault : RenameFault)
  | nameMismatch (path name : String)
  deriving DecidableEq

/-- Replace the entry with the same name, or append it. -/
def upsert : List Entry → Entry → List Entry
  | [], entry => [entry]
  | existing :: rest, entry =>
    if existing.name = entry.name then entry :: rest else existing :: upsert rest entry

def without (entries : List Entry) (name : Component) : List Entry :=
  entries.eraseP (·.name = name)

def EntryContent.isDir : EntryContent → Bool
  | .dir _ => true
  | _ => false

namespace Mutation

variable {derive : ObjectKind → Bytes → ContentId} {σ ε : Type} (store : ObjectStore derive σ ε)

def loadTree (id : ContentId) : Effect σ (MutationError ε) Tree := fun state =>
  match store.get state id with
  | .error error => (state, .error (.store error))
  | .ok none => (state, .error (.missingTree id))
  | .ok (some bytes) => (state, (Tree.decode bytes).mapError .tree)

def insertTree (tree : Tree) : Effect σ (MutationError ε) ContentId := fun state =>
  let inserted := store.insert .tree tree.encode state
  (inserted.1, inserted.2.mapError .store)

/-- The end of every operation on a node: the changed entries make a new one. -/
def rebuild (entries : List Entry) : Effect σ (MutationError ε) ContentId := do
  let rebuilt ← Effect.lift ((Tree.fromEntries entries).mapError .tree)
  insertTree store rebuilt

/-- The subtree of a directory that is on the way. -/
def subtreeOf (entries : List Entry) (name : Component) : Except (MutationError ε) ContentId :=
  match findEntry entries name with
  | some (.dir subtree) => .ok subtree
  | some _ => .error (.notADirectory name.name)
  | none => .error (.notFound name.name)

def putNode (tree : Tree) (head : Component) (entry : Entry) (createIntermediates : Bool) :
    List Component → Effect σ (MutationError ε) ContentId
  | [] =>
    if entry.name ≠ head then Effect.fail (.nameMismatch head.name entry.name.name)
    else rebuild store (upsert tree.entries entry)
  | next :: tail => do
      let child ←
        match findEntry tree.entries head with
        | some (.dir subtree) => loadTree store subtree
        | some _ => Effect.fail (.notADirectory head.name)
        | none =>
          if createIntermediates then pure Tree.empty else Effect.fail (.notFound head.name)
      let newSubtree ← putNode child next entry createIntermediates tail
      rebuild store (upsert tree.entries ⟨head, .dir newSubtree⟩)

def removeNode (tree : Tree) (head : Component) :
    List Component → Effect σ (MutationError ε) ContentId
  | [] =>
    if findEntry tree.entries head = none then Effect.fail (.notFound head.name)
    else rebuild store (without tree.entries head)
  | next :: tail => do
      let subtree ← Effect.lift (subtreeOf tree.entries head)
      let child ← loadTree store subtree
      let newSubtree ← removeNode child next tail
      -- The entry is there; it gets the new subtree.
      rebuild store (upsert tree.entries ⟨head, .dir newSubtree⟩)

def mkdirNode (tree : Tree) (head : Component) :
    List Component → Effect σ (MutationError ε) ContentId
  | [] =>
    if findEntry tree.entries head ≠ none then Effect.fail (.alreadyExists head.name)
    else do
      let empty ← insertTree store Tree.empty
      rebuild store (tree.entries ++ [⟨head, .dir empty⟩])
  | next :: tail => do
      let subtree ← Effect.lift (subtreeOf tree.entries head)
      let child ← loadTree store subtree
      let newSubtree ← mkdirNode child next tail
      rebuild store (upsert tree.entries ⟨head, .dir newSubtree⟩)

def isDirEmpty (subtree : ContentId) : Effect σ (MutationError ε) Bool := do
  let tree ← loadTree store subtree
  return tree.entries.isEmpty

def rmdirNode (tree : Tree) (head : Component) :
    List Component → Effect σ (MutationError ε) ContentId
  | [] => do
      let subtree ← Effect.lift (subtreeOf tree.entries head)
      let empty ← isDirEmpty store subtree
      if empty then rebuild store (without tree.entries head)
      else Effect.fail (.directoryNotEmpty head.name)
  | next :: tail => do
      let subtree ← Effect.lift (subtreeOf tree.entries head)
      let child ← loadTree store subtree
      let newSubtree ← rmdirNode child next tail
      rebuild store (upsert tree.entries ⟨head, .dir newSubtree⟩)

def resolveEntry (tree : Tree) (head : Component) :
    List Component → Effect σ (MutationError ε) EntryContent
  | [] =>
    match findEntry tree.entries head with
    | some content => pure content
    | none => Effect.fail (.notFound head.name)
  | next :: tail => do
      let subtree ← Effect.lift (subtreeOf tree.entries head)
      let child ← loadTree store subtree
      resolveEntry child next tail

def renameInsert (tree : Tree) (head : Component) (entry : Entry) (sourceIsDir : Bool) :
    List Component → Effect σ (MutationError ε) ContentId
  | [] =>
    if entry.name ≠ head then Effect.fail (.nameMismatch head.name entry.name.name)
    else
      match findEntry tree.entries head, sourceIsDir with
      | none, _ => rebuild store (tree.entries ++ [entry])
      | some (.dir subtree), true => do
          let empty ← isDirEmpty store subtree
          if empty then rebuild store (upsert tree.entries entry)
          else Effect.fail (.directoryNotEmpty head.name)
      | some (.dir _), false => Effect.fail (.isDirectory head.name)
      | some _, true => Effect.fail (.notADirectory head.name)
      | some _, false => rebuild store (upsert tree.entries entry)
  | next :: tail => do
      let subtree ← Effect.lift (subtreeOf tree.entries head)
      let child ← loadTree store subtree
      let newSubtree ← renameInsert child next entry sourceIsDir tail
      rebuild store (upsert tree.entries ⟨head, .dir newSubtree⟩)

variable (root : ContentId) (path : String)

/-- Parse a path, load the root and go on. -/
def atPath (operation : Tree → TreePath → Effect σ (MutationError ε) ContentId) :
    Effect σ (MutationError ε) ContentId := do
  let components ← Effect.lift ((parsePath path).mapError .path)
  let tree ← loadTree store root
  operation tree components

/-- Insert or replace, creating intermediate directories. -/
def put (entry : Entry) : Effect σ (MutationError ε) ContentId :=
  atPath store root path fun tree path => putNode store tree path.head entry true path.tail

/-- Insert or replace where the parent exists. -/
def putStrict (entry : Entry) : Effect σ (MutationError ε) ContentId :=
  atPath store root path fun tree path => putNode store tree path.head entry false path.tail

def remove : Effect σ (MutationError ε) ContentId :=
  atPath store root path fun tree path => removeNode store tree path.head path.tail

def mkdir : Effect σ (MutationError ε) ContentId :=
  atPath store root path fun tree path => mkdirNode store tree path.head path.tail

def rmdir : Effect σ (MutationError ε) ContentId :=
  atPath store root path fun tree path => rmdirNode store tree path.head path.tail

/-- The part of a rename behind its checks of the source. -/
def moveEntry (tree : Tree) (source target : TreePath) (content : EntryContent) :
    Effect σ (MutationError ε) ContentId := do
  let withoutSource ← removeNode store tree source.head source.tail
  let destTree ← loadTree store withoutSource
  renameInsert store destTree target.head ⟨target.last, content⟩ content.isDir target.tail

/-- A rename operand: its path, and whether it ended in a separator. -/
structure Operand where
  text : String
  path : TreePath
  slash : Bool

def Operand.parse (text : String) : Except PathError Operand := do
  let (name, slash) := splitTrailingSlash text
  let path ← parsePath name
  return ⟨name, path, slash⟩

/-- The checks of a rename behind the parsing of its operands. -/
def renameIn (tree : Tree) (source target : Operand) (content : EntryContent) :
    Effect σ (MutationError ε) ContentId :=
  if source.slash && !content.isDir then
    Effect.fail (.invalidRename (.trailingSlash source.text))
  else if source.path = target.path then pure root
  else if source.path.components <+: target.path.components then
    Effect.fail (.invalidRename (.inside target.text source.text))
  else if target.slash then do
    -- A destination with a trailing separator is an existing directory.
    let existing ← resolveEntry store tree target.path.head target.path.tail
    if existing.isDir then moveEntry store tree source.path target.path content
    else Effect.fail (.notADirectory target.path.last.name)
  else moveEntry store tree source.path target.path content

def rename (source target : String) : Effect σ (MutationError ε) ContentId := do
  let source ← Effect.lift ((Operand.parse source).mapError .path)
  let target ← Effect.lift ((Operand.parse target).mapError .path)
  let tree ← loadTree store root
  let content ← resolveEntry store tree source.path.head source.path.tail
  renameIn store root tree source target content

end Mutation

end Wyrd
