import Wyrd.Control.Message
import Wyrd.Lib.Spool

/-! # The dedupe log of the mailbox

One line per acknowledged wrap, appended and synced at every acknowledgement, and read
back as a bounded set when the log is opened. The disk answers each call of `record`:
an append can fail with any part of its line written, and a compaction can fail at
every stage.
-/

namespace Wyrd.Mailbox

open List

def maxSeenEntries : Nat := 65536

instance : NeZero maxSeenEntries := ⟨by decide⟩

/-- A line: 64 hex digits and the newline. -/
def maxRecordLen : Nat := 65

def newline : UInt8 := 10

/-- Ids in the order they came, without duplicates and at most `cap` of them. The
    source keeps the same ids in a hash set beside the queue. -/
structure BoundedIds (ε : Type) (cap : Nat) where
  order : List ε
  nodup : order.Nodup
  bounded : order.length ≤ cap

namespace BoundedIds

variable {ε : Type} {cap : Nat}

def new : BoundedIds ε cap := ⟨[], nodup_nil, Nat.zero_le _⟩

/-- The queue with room for one more. -/
def evict (ids : BoundedIds ε cap) : List ε :=
  if cap ≤ ids.order.length then ids.order.tail else ids.order

lemma evict_sublist (ids : BoundedIds ε cap) : ids.evict.Sublist ids.order := by
  unfold evict
  split
  · exact tail_sublist _
  · exact List.Sublist.refl _

lemma evict_length [NeZero cap] (ids : BoundedIds ε cap) : ids.evict.length < cap := by
  have := ids.bounded
  have := NeZero.pos cap
  unfold evict
  split
  · rw [length_tail]; omega
  · omega

variable [DecidableEq ε]

def contains (ids : BoundedIds ε cap) (id : ε) : Bool := decide (id ∈ ids.order)

/-- Insert, evicting the oldest id when the set is full. -/
def insert [NeZero cap] (ids : BoundedIds ε cap) (id : ε) : BoundedIds ε cap :=
  if known : id ∈ ids.order then ids
  else ⟨ids.evict ++ [id],
    (nodup_append.mpr ⟨ids.nodup.sublist ids.evict_sublist, nodup_singleton id,
      fun old member new fresh same => known (by
        rw [mem_singleton] at fresh
        exact fresh ▸ same ▸ ids.evict_sublist.subset member)⟩),
    by
      have := ids.evict_length
      rw [length_append, length_singleton]
      omega⟩

end BoundedIds

/-- The text of an event id, and the checks of a line read back. -/
structure IdText (ε : Type) where
  hex : ε → Bytes
  validUtf8 : Bytes → Bool
  fromHex : Bytes → Option ε

namespace IdText

variable {ε : Type}

def line (text : IdText ε) (id : ε) : Bytes := text.hex id ++ [newline]

def lines (text : IdText ε) (ids : List ε) : Bytes := ids.flatMap text.line

/-- An id is written as 64 ASCII digits, and read back. -/
structure Lawful (text : IdText ε) : Prop where
  length : ∀ id, (text.hex id).length = 64
  newline : ∀ id, newline ∉ text.hex id
  utf8 : ∀ id, text.validUtf8 (text.hex id) = true
  fromHex : ∀ id, text.fromHex (text.hex id) = some id

end IdText

/-- Read up to and with the first newline, and at most `limit` bytes. -/
def readUntil : Nat → Bytes → Bytes
  | 0, _ => []
  | _, [] => []
  | limit + 1, byte :: rest =>
    if byte = newline then [byte] else byte :: readUntil limit rest

structure SeenStore (ε : Type) (cap : Nat) where
  seen : BoundedIds ε cap
  file : Nat
  appended : Nat
  handleOk : Bool

/-- Where a compaction failed: while the temporary file was written and synced, at its
    rename, when the append handle was opened again, or when the directory was synced. -/
inductive Stage where
  | temporary
  | rename
  | reopen
  | syncDir
  deriving DecidableEq, Repr

/-- What the disk answers during one call of `record`: the error of each operation
    that fails, with the bytes of the line that had arrived when the append failed. -/
structure DiskAnswer where
  reopen : Option String
  append : Option (Nat × String)
  compaction : Option (Stage × String)
  deriving DecidableEq, Repr

def DiskAnswer.fine : DiskAnswer := ⟨none, none, none⟩

namespace SeenStore

variable {ε : Type} {cap : Nat} [NeZero cap] [DecidableEq ε]

/-- Read the log: the ids of its lines, and the length of a torn last line. -/
def load (text : IdText ε) : Nat → Bytes → BoundedIds ε cap → Except String (BoundedIds ε cap × Nat)
  | 0, _, seen => .ok (seen, 0)
  | fuel + 1, bytes, seen =>
    let chunk := readUntil (maxRecordLen + 1) bytes
    if chunk = [] then .ok (seen, 0)
    else if chunk.getLast? ≠ some newline then
      if maxRecordLen < chunk.length then .error "dedupe log: overlong corrupt line"
      else .ok (seen, chunk.length)
    else if text.validUtf8 chunk.dropLast = false then .error "dedupe log: not valid UTF-8"
    else
      match text.fromHex chunk.dropLast with
      | none => .error "dedupe log: corrupt entry"
      | some id => load text fuel (bytes.drop chunk.length) (seen.insert id)

def «open» (text : IdText ε) (spool : Spool) : Except String (SeenStore ε cap × Spool) := do
  let (seen, torn) ← load text (spool.bytes.length + 1) spool.bytes .new
  let opened := spool.openAppend
  let cut := if 0 < torn then opened.setLen (spool.bytes.length - torn) else opened
  return (⟨seen, cut.generation, 0, true⟩, cut)

def contains (store : SeenStore ε cap) (id : ε) : Bool := store.seen.contains id

def ioError (error : String) : String := "dedupe log: " ++ error

def ensureHandle (store : SeenStore ε cap) (spool : Spool) (answer : Option String) :
    Except String (SeenStore ε cap × Spool) :=
  if store.handleOk then .ok (store, spool)
  else
    match answer with
    | some error => .error (ioError error)
    | none =>
      let opened := spool.openAppend
      .ok ({ store with file := opened.generation, handleOk := true }, opened)

def compact (text : IdText ε) (store : SeenStore ε cap) (spool : Spool)
    (answer : Option (Stage × String)) : Except String Unit × SeenStore ε cap × Spool :=
  let replaced := spool.replace (text.lines store.seen.order)
  let reopened := { store with file := replaced.generation }
  match answer with
  | some (.temporary, error) | some (.rename, error) => (.error (ioError error), store, spool)
  | some (.reopen, error) => (.error (ioError error), { store with handleOk := false }, replaced)
  | some (.syncDir, error) => (.error (ioError error), reopened, replaced)
  | none => (.ok (), { reopened with appended := 0 }, replaced.syncDir)

/-- Behind the append: the id is held, and the log compacted when it is due. -/
def enter (text : IdText ε) (store : SeenStore ε cap) (spool : Spool) (id : ε)
    (answer : Option (Stage × String)) : Except String Unit × SeenStore ε cap × Spool :=
  let entered := { store with seen := store.seen.insert id, appended := store.appended + 1 }
  if cap ≤ entered.appended then compact text entered spool answer
  else (.ok (), entered, spool)

def record (text : IdText ε) (store : SeenStore ε cap) (spool : Spool) (id : ε)
    (answer : DiskAnswer) : Except String Unit × SeenStore ε cap × Spool :=
  if store.contains id then (.ok (), store, spool)
  else
    match ensureHandle store spool answer.reopen with
    | .error error => (.error error, store, spool)
    | .ok (store, spool) =>
      match answer.append with
      | some (arrived, error) =>
        (.error (ioError error), store, spool.append store.file (text.line id) arrived)
      | none =>
        let written := spool.append store.file (text.line id) (text.line id).length
        enter text store (written.sync store.file) id answer.compaction

end SeenStore

end Wyrd.Mailbox
