import Wyrd.Format.Documents

/-! # The inode table of a mount

The table keeps two indexes: which path an inode was minted for, and which inode owns a
path. Operations retire mappings, renames move them, and a removal takes two steps: it
is admitted, which marks the inode that owns the path, and it completes, which retires
the marked inode or restores it.
-/

namespace Wyrd.Mount

open Function

/-- The kinds of node a kernel knows. -/
inductive FileType where
  | namedPipe
  | charDevice
  | blockDevice
  | directory
  | regularFile
  | symlink
  | socket
  deriving DecidableEq, Repr

structure InodeEntry where
  path : String
  kind : FileType
  generation : Nat
  deriving DecidableEq, Repr

/-- The removals of one path that are still in flight, and the mapping the path had when
    the first of them was admitted. -/
structure RemovalFlight where
  tokens : List Nat
  retiring : Option (Nat × InodeEntry)
  committed : Bool
  deriving DecidableEq, Repr

inductive InodeError where
  | exhausted
  | stale
  deriving DecidableEq, Repr

structure InodeTable where
  byIno : Nat → Option InodeEntry
  byPath : String → Option Nat
  next : Nat
  removals : AList (fun _ : String => RemovalFlight)
  /-- Inodes that name a path without owning it; a missing bucket is an empty one. -/
  unowned : String → List Nat
  nextRemoval : Nat

namespace InodeTable

def new : InodeTable where
  byIno := update (fun _ => none) 1 (some ⟨"", .directory, 0⟩)
  byPath := update (fun _ => none) "" (some 1)
  next := 2
  removals := ∅
  unowned := fun _ => []
  nextRemoval := 1

def path (table : InodeTable) (ino : Nat) : Option String := (table.byIno ino).map InodeEntry.path

variable (table : InodeTable)

/-- Forget a mapping on both indexes, but only the slot the inode itself holds. -/
def retire (ino : Nat) : InodeTable :=
  match table.byIno ino with
  | none => table
  | some entry => { table with
      byIno := update table.byIno ino none
      byPath :=
        if table.byPath entry.path = some ino then update table.byPath entry.path none
        else table.byPath
      unowned := update table.unowned entry.path ((table.unowned entry.path).erase ino) }

variable (path : String)

/-- Forget whatever mapping owns a path. -/
def retirePath : InodeTable :=
  match table.byPath path with
  | none => table
  | some ino => { table with
      byPath := update table.byPath path none
      byIno := update table.byIno ino none }

def beginRemove : Except InodeError Nat × InodeTable :=
  match checkedAdd table.nextRemoval 1 with
  | none => (.error .exhausted, table)
  | some token =>
    let flight : RemovalFlight :=
      match table.removals.lookup path with
      | some flight => { flight with tokens := flight.tokens.insert token }
      | none => ⟨[token],
          (table.byPath path).bind fun ino => (table.byIno ino).map fun entry => (ino, entry),
          false⟩
    (.ok token, { table with
      nextRemoval := token, removals := table.removals.insert path flight })

/-- A removal was committed: the marked inode, those restored earlier and whatever owns
    the path now are dead. -/
def commitRemoval (flight : RemovalFlight) : InodeTable :=
  let marked :=
    match flight.retiring with
    | some (ino, _) => table.retire ino
    | none => table
  let reaped := (marked.unowned path).foldl retire
    { marked with unowned := update marked.unowned path [] }
  reaped.retirePath path

/-- A removal failed and none of its flight was committed: the marked inode is bound
    again, and owns the path unless a lookup has taken it. -/
def restore (ino : Nat) (entry : InodeEntry) : InodeTable :=
  let byIno :=
    if (table.byIno ino).isSome then table.byIno else update table.byIno ino (some entry)
  match table.byPath path with
  | none => { table with
      byIno := byIno, byPath := update table.byPath path (some ino) }
  | some owner => { table with
      byIno := byIno
      unowned :=
        if owner = ino then table.unowned
        else update table.unowned path ((table.unowned path).insert ino) }

/-- What is left of a flight behind one completion. -/
def landed (flight : RemovalFlight) : InodeTable :=
  { table with
    removals :=
      if flight.tokens = [] then table.removals.erase path
      else table.removals.insert path flight }

def finishRemove (token : Nat) (success : Bool) : InodeTable :=
  match table.removals.lookup path with
  | none => table
  | some flight =>
    if token ∉ flight.tokens then table
    else
      let rest := flight.tokens.erase token
      if success then
        (table.commitRemoval path flight).landed path ⟨rest, flight.retiring, true⟩
      else
        match flight.committed, flight.retiring with
        | false, some (ino, entry) =>
          (table.restore path ino entry).landed path { flight with tokens := rest }
        | _, _ => table.landed path { flight with tokens := rest }

def renamed (source target : String) : InodeTable :=
  if source = target then table
  else
    let cleared := table.retirePath target
    match cleared.byPath source with
    | none => cleared
    | some ino => { cleared with
        byIno := update cleared.byIno ino
          ((cleared.byIno ino).map fun entry => { entry with path := target })
        byPath := update (update cleared.byPath source none) target (some ino) }

/-- An inode was validated at a generation. -/
def stamp (ino generation : Nat) : InodeTable :=
  { table with
    byIno := update table.byIno ino
      ((table.byIno ino).map fun entry => { entry with generation := generation }) }

def validate (ino : Nat) (path : String) (kind : FileType) (generation : Nat) :
    Except InodeError Unit × InodeTable :=
  if (table.byIno ino).any fun entry => entry.path = path ∧ entry.kind = kind then
    (.ok (), table.stamp ino generation)
  else (.error .stale, table.retire ino)

def claims (ino : Nat) (path : String) (kind : FileType) (generation : Nat) :
    Except InodeError Unit × InodeTable :=
  match table.validate ino path kind generation with
  | (.ok (), validated) => (.ok (), validated)
  | (.error _, retired) =>
    let limbo := retired.removals.entries.any fun ⟨_, flight⟩ =>
      !flight.committed && flight.retiring.any fun (marked, entry) =>
        marked = ino ∧ entry.path = path ∧ entry.kind = kind
    (if limbo then .ok () else .error .stale, retired)

/-- Mint an inode for a path. -/
def mint (kind : FileType) (generation : Nat) : Except InodeError Nat × InodeTable :=
  match checkedAdd table.next 1 with
  | none => (.error .exhausted, table)
  | some next => (.ok table.next, { table with
      next := next
      byPath := update table.byPath path (some table.next)
      byIno := update table.byIno table.next (some ⟨path, kind, generation⟩) })

/-- The inode that owns a path is not handed out while a removal of the path has it
    marked, or has been committed. -/
def removalInFlight (ino : Nat) : Bool :=
  (table.removals.lookup path).any fun flight =>
    flight.committed || flight.retiring.any fun (marked, _) => marked = ino

def intern (kind : FileType) (generation : Nat) : Except InodeError Nat × InodeTable :=
  if path = "" then (.ok 1, table)
  else
    match table.byPath path with
    | none => table.mint path kind generation
    | some ino =>
      if table.removalInFlight path ino = false ∧
          (table.byIno ino).any (fun entry => entry.kind = kind) then
        (.ok ino, table.stamp ino generation)
      else (table.retire ino).mint path kind generation

end InodeTable

end Wyrd.Mount
