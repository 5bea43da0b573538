import Mathlib

/-! # A file that is appended to and replaced

What a path leads to, and what a loss of power may leave of it. A write reaches the
disk byte by byte and is durable once the file is synced; until then any state the
file had since its last sync may come back. Creating the file, or renaming another one
over it, is durable once the directory is synced; until then the path may lead back to
the file it led to before, or to none. A program writes through a handle, and a handle
from before a replacement writes to the file that was renamed away.
-/

namespace Wyrd

structure Spool where
  /-- The file the path leads to. -/
  present : Option (List UInt8)
  /-- What that file held since it was last synced. -/
  unsynced : List (List UInt8)
  /-- What the path led to before a change of the directory that is not durable. -/
  displaced : List (Option (List UInt8))
  /-- Which file the path leads to; a handle is the number of its file. -/
  generation : Nat
  deriving DecidableEq, Repr

/-- What a loss of power takes back: the latest states of the file, or those of the
    directory. -/
inductive Loss where
  | nothing
  | unsynced (index : Nat)
  | displaced (index : Nat)
  deriving DecidableEq, Repr

namespace Spool

def empty : Spool := ⟨none, [], [], 0⟩

/-- What the file holds; nothing if there is no file. -/
def bytes (spool : Spool) : List UInt8 := spool.present.getD []

/-- Open for appending, creating the file where there is none. -/
def openAppend (spool : Spool) : Spool :=
  match spool.present with
  | some _ => spool
  | none => ⟨some [], [], none :: spool.displaced, spool.generation + 1⟩

/-- Append through a handle: only so many bytes of the line arrive. -/
def append (spool : Spool) (handle : Nat) (line : List UInt8) (arrived : Nat) : Spool :=
  if handle = spool.generation then
    { spool with
      present := some (spool.bytes ++ line.take arrived)
      unsynced := (List.range arrived).map (spool.bytes ++ line.take ·) ++ spool.unsynced }
  else spool

def sync (spool : Spool) (handle : Nat) : Spool :=
  if handle = spool.generation then { spool with unsynced := [] } else spool

/-- Cut the file down to a length. -/
def setLen (spool : Spool) (length : Nat) : Spool :=
  { spool with
    present := some (spool.bytes.take length)
    unsynced := spool.bytes :: spool.unsynced }

/-- Rename a file over the path, one that was synced under another name. -/
def replace (spool : Spool) (bytes : List UInt8) : Spool :=
  ⟨some bytes, [], spool.present :: spool.unsynced.map some ++ spool.displaced,
    spool.generation + 1⟩

def syncDir (spool : Spool) : Spool := { spool with displaced := [] }

/-- What the path leads to when the power is back. -/
def survivor (spool : Spool) : Loss → Option (List UInt8)
  | .nothing => spool.present
  | .unsynced index => (spool.unsynced[index]?).or spool.present
  | .displaced index => (spool.displaced[index]?).getD spool.present

def lose (spool : Spool) (loss : Loss) : Spool :=
  ⟨spool.survivor loss, [], [], spool.generation + 1⟩

variable (spool : Spool) (line : List UInt8) (arrived length : Nat)

@[simp] lemma bytes_openAppend : spool.openAppend.bytes = spool.bytes := by
  unfold openAppend
  split
  · rfl
  · simp [bytes, *]

lemma unsynced_openAppend : spool.openAppend.unsynced ⊆ spool.unsynced := by
  unfold openAppend
  split <;> simp

lemma unsynced_append : (spool.append spool.generation line arrived).unsynced =
    (List.range arrived).map (spool.bytes ++ line.take ·) ++ spool.unsynced := by
  simp [append]

@[simp] lemma bytes_append :
    (spool.append spool.generation line arrived).bytes = spool.bytes ++ line.take arrived := by
  simp [append, bytes]

@[simp] lemma generation_append (handle : Nat) :
    (spool.append handle line arrived).generation = spool.generation := by
  unfold append
  split <;> rfl

@[simp] lemma bytes_sync (handle : Nat) : (spool.sync handle).bytes = spool.bytes := by
  unfold sync
  split <;> rfl

@[simp] lemma generation_sync (handle : Nat) :
    (spool.sync handle).generation = spool.generation := by
  unfold sync
  split <;> rfl

@[simp] lemma bytes_setLen : (spool.setLen length).bytes = spool.bytes.take length := rfl

@[simp] lemma generation_setLen : (spool.setLen length).generation = spool.generation := rfl

@[simp] lemma bytes_replace : (spool.replace line).bytes = line := rfl

@[simp] lemma bytes_syncDir : spool.syncDir.bytes = spool.bytes := rfl

@[simp] lemma generation_syncDir : spool.syncDir.generation = spool.generation := rfl

end Spool

end Wyrd
