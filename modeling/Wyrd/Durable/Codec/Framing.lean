import Wyrd.Durable.Codec.Records

/-! # The commit envelope

A commit file is a header with the sequence and the previous hash, the counted
records and a trailing hash over all of them. The decoder knows the ceilings and the
tags, never what a fact means: what it makes of an encoded file is what the decoder of
one record, a parameter here, makes of the records.
-/

namespace Wyrd.Durable

open List

open Reader

def maxCommitBytes : Nat := 64 * 1024 * 1024

def maxRecordBytes : Nat := 64 * 1024 * 1024

def commitVersion : UInt8 := 0x00

section Framing

variable {α : Type} (K : StoreKit) (drive : DriveId) (decode : Tag → Bytes → Option α)

/-- The chain hash: drive, sequence, previous hash and the exact records section. -/
def commitHash (seq : Nat) (prev : Digest) (records : Bytes) : Digest :=
  K.commitHash ("wyrd durable commit v1".toUTF8.toList ++ drive.asBytes ++ leBytes 8 seq ++
    digestBytes prev ++ records)

def frameRecord (record : Tag × Bytes) : Bytes :=
  [record.1.byte] ++ (leBytes 4 record.2.length ++ record.2)

def recordsBytes (records : List (Tag × Bytes)) : Bytes :=
  leBytes 4 records.length ++ records.flatMap frameRecord

def headerBytes (seq : Nat) (prev : Digest) : Bytes :=
  [commitVersion] ++ (leBytes 8 seq ++ digestBytes prev)

def encodeCommit (seq : Nat) (prev : Digest) (records : List (Tag × Bytes)) : Bytes × Digest :=
  let body := recordsBytes records
  let hash := commitHash K drive seq prev body
  (headerBytes seq prev ++ body ++ digestBytes hash, hash)

def readHeader (seq : Nat) (prev : Digest) : Reader Unit := do
  require ((← byte) = commitVersion)
  require ((← word 8) = seq)
  require ((← readDigest) = prev)

/-- One framed record; a tag this version does not know is skipped. -/
def readFrame : Reader (Option α) := do
  let tag ← byte
  let length ← word 4
  require (length ≤ maxRecordBytes)
  let record ← take length
  match Tag.ofByte tag with
  | none => return none
  | some tag => lift ((decode tag record).map some)

def readFrames : Reader (List (Option α)) := do
  let count ← word 4
  require (count ≤ maxRecordsPerCommit)
  times (readFrame decode) count

/-- Verify one commit file: every structural failure fails the file. -/
def decodeCommitFile (bytes : Bytes) (seq : Nat) (prev : Digest) :
    Except StoreError (List α × Digest) :=
  match readHeader seq prev bytes with
  | none => .error (.corruptCommit seq)
  | some ((), body) =>
    match readFrames decode body with
    | none => .error (.corruptCommit seq)
    | some (facts, trailer) =>
      -- the trailer sits exactly at the end
      if trailer.length ≠ 32 then .error (.corruptCommit seq)
      else
        let expected := commitHash K drive seq prev (body.take (body.length - 32))
        if trailer ≠ digestBytes expected then .error (.corruptCommit seq)
        else .ok (facts.reduceOption, expected)

end Framing

section ReadBack

variable {α : Type} {K : StoreKit} {drive : DriveId} {decode : Tag → Bytes → Option α}

lemma reads_header (fits : Fits64 seq) (prev : Digest) :
    Reads (readHeader seq prev) (headerBytes seq prev) (some ()) := by
  refine (reads_byte _).bind ((reads_require rfl).skip ?_)
  refine (reads_word64 fits).bind ((reads_require rfl).skip ?_)
  rw [← append_nil (digestBytes prev)]
  exact (reads_digest prev).bind (reads_require rfl)

lemma reads_frame (fits : record.2.length ≤ maxRecordBytes) :
    Reads (readFrame decode) (frameRecord record)
      ((decode record.1 record.2).map some) := by
  have short : record.2.length < 256 ^ 4 := by
    unfold maxRecordBytes at fits
    omega
  refine (reads_byte _).bind ((reads_word short).bind ((reads_require fits).skip ?_))
  rw [← append_nil record.2]
  refine (reads_take (by simp)).bind ?_
  rw [append_nil, Tag.ofByte_byte]
  exact reads_lift _

lemma reduceOption_mapM_some {β γ : Type} (decode : β → Option γ) (items : List β) :
    (items.mapM fun item => (decode item).map some).map List.reduceOption = items.mapM decode := by
  induction items with
  | nil => rfl
  | cons item items ih =>
    simp only [mapM_cons, ← ih]
    cases decode item with
    | none => rfl
    | some => cases items.mapM fun item => (decode item).map some <;> rfl

lemma length_encodeCommit (seq : Nat) (prev : Digest) (records : List (Tag × Bytes)) :
    (encodeCommit K drive seq prev records).1.length = 73 + (recordsBytes records).length := by
  simp only [encodeCommit, headerBytes, length_append, length_singleton, length_leBytes,
    length_digestBytes]
  omega

lemma length_record_le (hm : record ∈ records) :
    record.2.length ≤ (recordsBytes records).length := by
  have framed : (frameRecord record).length ≤ (records.flatMap frameRecord).length := by
    rw [length_flatMap]
    exact single_le_sum (by simp) _ (mem_map.mpr ⟨record, hm, rfl⟩)
  simp only [frameRecord, length_append] at framed
  simp only [recordsBytes, length_append]
  omega

/-- A commit within the ceilings decodes to what its records decode to. -/
lemma decodeCommitFile_encodeCommit (fits : Fits64 seq) (prev : Digest)
    (few : records.length ≤ maxRecordsPerCommit)
    (small : (encodeCommit K drive seq prev records).1.length ≤ maxCommitBytes) :
    decodeCommitFile K drive decode (encodeCommit K drive seq prev records).1 seq prev =
      match records.mapM fun record => decode record.1 record.2 with
      | none => .error (.corruptCommit seq)
      | some facts => .ok (facts, (encodeCommit K drive seq prev records).2) := by
  have each : ∀ record ∈ records, Reads (readFrame decode) (frameRecord record)
      ((decode record.1 record.2).map some) := by
    intro record hm
    have := length_record_le hm
    rw [length_encodeCommit] at small
    exact reads_frame (by unfold maxCommitBytes at small; unfold maxRecordBytes; omega)
  have frames : Reads (readFrames decode) (recordsBytes records)
      (records.mapM fun record => (decode record.1 record.2).map some) :=
    (reads_word (by unfold maxRecordsPerCommit at few; omega)).bind
      ((reads_require few).skip (reads_times records each))
  have body := frames (digestBytes (encodeCommit K drive seq prev records).2)
  rw [← reduceOption_mapM_some]
  simp only [decodeCommitFile, encodeCommit, append_assoc, reads_header fits prev _,
    Option.map_some] at body ⊢
  rw [body]
  cases records.mapM fun record => (decode record.1 record.2).map some with
  | none => rfl
  | some => simp

end ReadBack

end Wyrd.Durable
