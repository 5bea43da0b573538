import Mathlib

/-! # A directory that can lose power

A directory maps names to files. Its updates become durable in the order they were
made, all of them once the directory is synced; after a loss of power some number of
the updates since then survives. The contents of a file survive once the file was
synced, and are arbitrary before. A rename is one update.

Programs that replace files atomically write to names of their own first, the
scratch names, and publish a file by renaming it. `Intact` says that no file is
shared between a scratch name and a published one, in any state the directory can
come back in; under it a write to a scratch name disturbs nothing that is published.
-/

namespace Wyrd

open List Function

/-- One change of a directory. -/
inductive Update (ν : Type) where
  | link (name : ν) (file : Nat)
  | rename (source target : ν)

structure Volume (ν : Type) where
  durable : ν → Option Nat
  pending : List (Update ν)
  contents : Nat → List UInt8
  synced : Nat → Bool
  next : Nat

variable {ν : Type} [DecidableEq ν]

def Update.apply (directory : ν → Option Nat) : Update ν → ν → Option Nat
  | .link name file => update directory name (some file)
  | .rename source target =>
    update (update directory target (directory source)) source none

def Update.isRename : Update ν → Bool
  | .link _ _ => false
  | .rename _ _ => true

namespace Volume

def empty : Volume ν := ⟨fun _ => none, [], fun _ => [], fun _ => true, 0⟩

section Operations

variable (v : Volume ν)

/-- The directory with the first `kept` of the updates since the last sync. -/
def entries (kept : Nat) : ν → Option Nat := (v.pending.take kept).foldl Update.apply v.durable

/-- The directory as running programs see it. -/
def visible : ν → Option Nat := v.entries v.pending.length

def read (name : ν) : Option (List UInt8) := (v.visible name).map v.contents

def push (update : Update ν) : Volume ν := { v with pending := v.pending ++ [update] }

/-- Write a whole file: truncating it in place, or as a new file. -/
def create (name : ν) (bytes : List UInt8) : Volume ν :=
  match v.visible name with
  | some file => { v with
      contents := update v.contents file bytes
      synced := update v.synced file false }
  | none => { v.push (.link name v.next) with
      contents := update v.contents v.next bytes
      synced := update v.synced v.next false
      next := v.next + 1 }

def syncFile (name : ν) : Volume ν :=
  match v.visible name with
  | some file => { v with synced := update v.synced file true }
  | none => v

def rename (source target : ν) : Volume ν := v.push (.rename source target)

def syncDir : Volume ν := { v with durable := v.visible, pending := [] }

/-- Come back with `kept` of the updates, and what `torn` gives for every file that
    was not synced. -/
def powerLoss (kept : Nat) (torn : Nat → List UInt8) : Volume ν where
  durable := v.entries kept
  pending := []
  contents := fun file => if v.synced file then v.contents file else torn file
  synced := fun _ => true
  next := v.next

/-- How many files were published by the first `kept` of the updates. -/
def renames (kept : Nat) : Nat := (v.pending.take kept).countP Update.isRename

/-- If `kept` updates survive, so does the file under a name, with these contents. -/
def Bound (kept : Nat) (name : ν) (bytes : List UInt8) : Prop :=
  ∃ file, v.entries kept name = some file ∧ v.synced file = true ∧ v.contents file = bytes

/-- Whatever survives, the file under a name does, with these contents. -/
def Settled (name : ν) (bytes : List UInt8) : Prop := ∀ kept, v.Bound kept name bytes

/-- No state the directory can come back in shares a file, and none binds the file
    of a scratch name to another name. -/
structure Intact (scratch : ν → Prop) : Prop where
  bounded : ∀ kept name file, v.entries kept name = some file → file < v.next
  injective : ∀ kept name other file, v.entries kept name = some file →
    v.entries kept other = some file → name = other
  apart : ∀ name, scratch name → ∀ file, v.visible name = some file → ∀ kept other,
    v.entries kept other = some file → other = name

end Operations

variable {v : Volume ν} {scratch : ν → Prop} {name source target : ν} {bytes : List UInt8}

variable {kept : Nat}

lemma entries_all (all : v.pending.length ≤ kept) : v.entries kept = v.visible := by
  rw [visible, entries, entries, take_of_length_le all, take_length]

lemma entries_push (v : Volume ν) (update : Update ν) (kept : Nat) :
    (v.push update).entries kept =
      if kept ≤ v.pending.length then v.entries kept else update.apply v.visible := by
  simp only [entries, push]
  split_ifs with early
  · rw [take_append_of_le_length early]
  · rw [take_of_length_le (by simp; omega), foldl_append, visible, entries, take_length]
    rfl

lemma visible_push (v : Volume ν) (update : Update ν) :
    (v.push update).visible = update.apply v.visible := by
  rw [visible, entries_push, if_neg (by simp [push])]

lemma entries_congr {w : Volume ν} (saved : w.durable = v.durable)
    (waits : w.pending = v.pending) : w.entries = v.entries := by
  funext kept
  rw [entries, entries, saved, waits]

lemma visible_congr {w : Volume ν} (saved : w.durable = v.durable)
    (waits : w.pending = v.pending) : w.visible = v.visible := by
  rw [visible, visible, entries_congr saved waits, waits]

@[simp] lemma entries_syncFile (v : Volume ν) (name : ν) :
    (v.syncFile name).entries = v.entries := by
  unfold syncFile
  split <;> exact entries_congr rfl rfl

@[simp] lemma visible_syncFile (v : Volume ν) (name : ν) :
    (v.syncFile name).visible = v.visible := by
  unfold syncFile
  split <;> exact visible_congr rfl rfl

@[simp] lemma entries_syncDir (v : Volume ν) (kept : Nat) : v.syncDir.entries kept = v.visible := by
  simp [entries, syncDir]

@[simp] lemma visible_syncDir (v : Volume ν) : v.syncDir.visible = v.visible :=
  entries_syncDir v _

@[simp] lemma entries_powerLoss (v : Volume ν) (kept again : Nat) (torn : Nat → List UInt8) :
    (v.powerLoss kept torn).entries again = v.entries kept := by
  simp [entries, powerLoss]

@[simp] lemma visible_powerLoss (v : Volume ν) (kept : Nat) (torn : Nat → List UInt8) :
    (v.powerLoss kept torn).visible = v.entries kept := entries_powerLoss v kept _ torn

lemma entries_create_new (free : v.visible name = none) :
    (v.create name bytes).entries = (v.push (.link name v.next)).entries ∧
      (v.create name bytes).visible = (v.push (.link name v.next)).visible ∧
      (v.create name bytes).next = v.next + 1 := by
  rw [create, free]
  exact ⟨entries_congr rfl rfl, visible_congr rfl rfl, rfl⟩

lemma entries_create_old (bound : v.visible name = some file) :
    (v.create name bytes).entries = v.entries ∧ (v.create name bytes).visible = v.visible ∧
      (v.create name bytes).next = v.next := by
  rw [create, bound]
  exact ⟨entries_congr rfl rfl, visible_congr rfl rfl, rfl⟩

variable {other : ν}

lemma entries_create_other (hne : other ≠ name) (kept : Nat) :
    (v.create name bytes).entries kept other = v.entries kept other := by
  cases bound : v.visible name with
  | some => rw [(entries_create_old bound).1]
  | none =>
    rw [(entries_create_new bound).1, entries_push]
    split_ifs with early
    · rfl
    · rw [Update.apply, update_of_ne hne, entries_all (by omega)]

lemma entries_rename_other (notSource : other ≠ source) (aside : other ≠ target)
    (kept : Nat) : (v.rename source target).entries kept other = v.entries kept other := by
  rw [rename, entries_push]
  split_ifs with early
  · rfl
  · rw [Update.apply, update_of_ne notSource, update_of_ne aside, entries_all (by omega)]

lemma entries_rename_target (hne : source ≠ target) (kept : Nat) :
    (v.rename source target).entries kept target =
      if kept ≤ v.pending.length then v.entries kept target else v.visible source := by
  rw [rename, entries_push]
  split_ifs with early
  · rfl
  · rw [Update.apply, update_of_ne hne.symm, update_self]

lemma entries_rename_source (kept : Nat) :
    (v.rename source target).entries kept source =
      if kept ≤ v.pending.length then v.entries kept source else none := by
  rw [rename, entries_push]
  split_ifs with early
  · rfl
  · rw [Update.apply, update_self]

lemma visible_create (v : Volume ν) (name : ν) (bytes : List UInt8) :
    ∃ file, (v.create name bytes).visible name = some file ∧
      (v.create name bytes).contents file = bytes := by
  cases bound : v.visible name with
  | some file =>
    refine ⟨file, by rw [(entries_create_old bound).2.1, bound], ?_⟩
    simp [create, bound]
  | none =>
    refine ⟨v.next, ?_, by simp [create, bound]⟩
    rw [(entries_create_new bound).2.1, visible_push, Update.apply, update_self]

omit [DecidableEq ν] in
lemma renames_all (all : v.pending.length ≤ kept) :
    v.renames kept = v.renames v.pending.length := by
  rw [renames, renames, take_of_length_le all, take_length]

@[simp] lemma renames_syncFile (v : Volume ν) (name : ν) :
    (v.syncFile name).renames = v.renames := by
  unfold syncFile
  split <;> rfl

@[simp] lemma renames_syncDir (v : Volume ν) (kept : Nat) : v.syncDir.renames kept = 0 := by
  simp [renames, syncDir]

@[simp] lemma renames_powerLoss (v : Volume ν) (kept again : Nat) (torn : Nat → List UInt8) :
    (v.powerLoss kept torn).renames again = 0 := by
  simp [renames, powerLoss]

@[simp] lemma renames_create (v : Volume ν) (name : ν) (bytes : List UInt8) (kept : Nat) :
    (v.create name bytes).renames kept = v.renames kept := by
  unfold create
  split
  · rfl
  · have none : ∀ count, (List.take count [Update.link name v.next]).countP Update.isRename = 0 := by
      intro count
      cases count <;> simp [Update.isRename]
    simp only [renames, push, take_append, countP_append, none, Nat.add_zero]

lemma pending_le_create (v : Volume ν) (name : ν) (bytes : List UInt8) :
    v.pending.length ≤ (v.create name bytes).pending.length := by
  unfold create
  split <;> simp [push]

omit [DecidableEq ν] in
lemma renames_le (v : Volume ν) (kept : Nat) : v.renames kept ≤ v.renames v.pending.length := by
  rw [renames, renames, take_length]
  exact (take_sublist kept v.pending).countP_le

omit [DecidableEq ν] in
lemma renames_rename (v : Volume ν) (source target : ν) (kept : Nat) :
    (v.rename source target).renames kept =
      if kept ≤ v.pending.length then v.renames kept else v.renames v.pending.length + 1 := by
  simp only [renames, rename, push]
  split_ifs with early
  · rw [take_append_of_le_length early]
  · rw [take_of_length_le (by simp; omega), take_length, countP_append]
    rfl

lemma read_create_self (v : Volume ν) (name : ν) (bytes : List UInt8) :
    (v.create name bytes).read name = some bytes := by
  obtain ⟨file, hh, held⟩ := visible_create v name bytes
  rw [read, hh, Option.map_some, held]

lemma contents_create (intact : v.Intact scratch) (temp : scratch name)
    (hne : other ≠ name) (tied : v.entries kept other = some file) :
    (v.create name bytes).contents file = v.contents file ∧
      (v.create name bytes).synced file = v.synced file := by
  cases bound : v.visible name with
  | some changed =>
    have apart : file ≠ changed := by
      rintro rfl
      exact hne (intact.apart name temp file bound kept other tied)
    simp [create, bound, update_of_ne apart]
  | none =>
    have apart : file ≠ v.next := (intact.bounded kept other file tied).ne
    simp [create, bound, push, update_of_ne apart]

lemma read_create_other (intact : v.Intact scratch) (temp : scratch name)
    (hne : other ≠ name) : (v.create name bytes).read other = v.read other := by
  have late := entries_all (le_max_left (v.create name bytes).pending.length v.pending.length)
  have shown : (v.create name bytes).visible other = v.visible other := by
    rw [← late, entries_create_other hne, entries_all (le_max_right _ _)]
  rw [read, read, shown]
  cases ht : v.visible other with
  | none => rfl
  | some =>
    exact congrArg some (contents_create intact temp hne ht).1

@[simp] lemma read_syncFile (v : Volume ν) (name : ν) : (v.syncFile name).read = v.read := by
  funext other
  rw [read, read, visible_syncFile]
  unfold syncFile
  split <;> rfl

@[simp] lemma read_syncDir (v : Volume ν) : v.syncDir.read = v.read := by
  funext other
  rw [read, read, visible_syncDir]
  rfl

lemma visible_rename (v : Volume ν) (source target : ν) :
    (v.rename source target).visible = Update.apply v.visible (.rename source target) :=
  visible_push v _

lemma read_rename_target (hne : source ≠ target) :
    (v.rename source target).read target = v.read source := by
  rw [read, visible_rename, Update.apply, update_of_ne hne.symm, update_self]
  rfl

lemma read_rename_other (notSource : other ≠ source) (aside : other ≠ target) :
    (v.rename source target).read other = v.read other := by
  rw [read, visible_rename, Update.apply, update_of_ne notSource, update_of_ne aside]
  rfl

lemma Bound.read (bound : v.Bound v.pending.length name bytes) : v.read name = some bytes := by
  obtain ⟨file, hh, -, held⟩ := bound
  rw [Volume.read, visible, hh, Option.map_some, held]

/-- A file that is written and synced is as it was written, for as long as its name
    is. -/
lemma bound_of_synced (v : Volume ν) (name : ν) (bytes : List UInt8)
    (all : ((v.create name bytes).syncFile name).pending.length ≤ kept) :
    ((v.create name bytes).syncFile name).Bound kept name bytes := by
  obtain ⟨file, hh, held⟩ := visible_create v name bytes
  refine ⟨file, ?_, ?_, ?_⟩
  · rw [entries_all all, visible_syncFile, hh]
  · simp [syncFile, hh]
  · simp [syncFile, hh, held]

lemma Bound.syncFile (bound : v.Bound kept name bytes) (other : ν) :
    (v.syncFile other).Bound kept name bytes := by
  obtain ⟨file, hh, synced, held⟩ := bound
  refine ⟨file, by rw [entries_syncFile, hh], ?_, ?_⟩
  · unfold Volume.syncFile
    split
    · rename_i changed _
      by_cases hs : file = changed
      · simp [hs]
      · simp [update_of_ne hs, synced]
    · exact synced
  · unfold Volume.syncFile
    split <;> exact held

lemma Bound.create (bound : v.Bound kept name bytes) (intact : v.Intact scratch)
    (temp : scratch other) (hne : name ≠ other) (written : List UInt8) :
    (v.create other written).Bound kept name bytes := by
  obtain ⟨file, hh, synced, held⟩ := bound
  obtain ⟨hs, sameSynced⟩ := contents_create intact temp hne hh
  exact ⟨file, by rw [entries_create_other hne, hh], by rw [sameSynced, synced],
    by rw [hs, held]⟩

lemma Bound.rename (bound : v.Bound kept name bytes) (notSource : name ≠ source)
    (aside : name ≠ target) : (v.rename source target).Bound kept name bytes := by
  obtain ⟨file, hh, hs, held⟩ := bound
  exact ⟨file, by rw [entries_rename_other notSource aside, hh], hs, held⟩

/-- A synced file is published with its contents, once the rename survives. -/
lemma Bound.publish (bound : v.Bound v.pending.length source bytes) (hne : source ≠ target)
    (late : v.pending.length < kept) : (v.rename source target).Bound kept target bytes := by
  obtain ⟨file, hh, hs, held⟩ := bound
  refine ⟨file, ?_, hs, held⟩
  rw [entries_rename_target hne, if_neg (not_le.mpr late), visible, hh]

lemma Bound.syncDir (bound : v.Bound v.pending.length name bytes) :
    v.syncDir.Settled name bytes := by
  obtain ⟨file, hh, hs, held⟩ := bound
  exact fun kept => ⟨file, by rw [entries_syncDir, visible, hh], hs, held⟩

/-- Write, sync, rename, sync the directory: the file is there, whatever survives. -/
lemma settled_of_published (v : Volume ν) (hne : source ≠ target) (bytes : List UInt8) :
    (((v.create source bytes).syncFile source).rename source target).syncDir.Settled target
      bytes := by
  have ready := bound_of_synced v source bytes le_rfl
  exact (ready.publish hne (by simp [Volume.rename, push])).syncDir

lemma Bound.powerLoss (bound : v.Bound kept name bytes) (torn : Nat → List UInt8) :
    (v.powerLoss kept torn).Settled name bytes := by
  obtain ⟨file, hh, hs, held⟩ := bound
  intro again
  refine ⟨file, by rw [entries_powerLoss, hh], rfl, ?_⟩
  simp [Volume.powerLoss, hs, held]

lemma intact_empty : (empty : Volume ν).Intact scratch := by
  have bare : ∀ kept name, (empty : Volume ν).entries kept name = none := by
    simp [entries, empty]
  constructor
  · intro kept name file hh
    rw [bare] at hh
    cases hh
  · intro kept name other file hh
    rw [bare] at hh
    cases hh
  · intro name _ file _ kept other hh
    rw [bare] at hh
    cases hh

lemma Intact.syncFile (intact : v.Intact scratch) (name : ν) :
    (v.syncFile name).Intact scratch := by
  have next : (v.syncFile name).next = v.next := by
    unfold Volume.syncFile
    split <;> rfl
  constructor
  · simpa [next] using intact.bounded
  · simpa using intact.injective
  · simpa using intact.apart

lemma Intact.settle {w : Volume ν} (intact : v.Intact scratch) (next : w.next = v.next)
    (rows : ∀ again, w.entries again = v.entries kept) : w.Intact scratch := by
  constructor
  · intro again name file hh
    rw [rows] at hh
    exact next ▸ intact.bounded _ name file hh
  · intro again name other file hh there
    rw [rows] at hh there
    exact intact.injective _ name other file hh there
  · intro name _ file hh again other there
    rw [visible, rows] at hh
    rw [rows] at there
    exact intact.injective _ other name file there hh

lemma Intact.syncDir (intact : v.Intact scratch) : v.syncDir.Intact scratch :=
  intact.settle rfl v.entries_syncDir

lemma Intact.powerLoss (intact : v.Intact scratch) (kept : Nat) (torn : Nat → List UInt8) :
    (v.powerLoss kept torn).Intact scratch :=
  intact.settle rfl fun again => v.entries_powerLoss kept again torn

/-- A file bound after a write was bound before, or is the new one under the
    written name. -/
lemma entries_create_some (tied : (v.create name bytes).entries kept other = some file) :
    v.entries kept other = some file ∨ v.visible name = none ∧ other = name ∧ file = v.next := by
  by_cases hs : other = name
  · subst hs
    cases bound : v.visible other with
    | some => rw [(entries_create_old bound).1] at tied; exact .inl tied
    | none =>
      rw [(entries_create_new bound).1, entries_push] at tied
      split_ifs at tied
      · exact .inl tied
      · rw [Update.apply, update_self] at tied
        exact .inr ⟨rfl, rfl, (Option.some.inj tied).symm⟩
  · rw [entries_create_other hs] at tied
    exact .inl tied

lemma visible_create_some (tied : (v.create name bytes).visible other = some file) :
    v.visible other = some file ∨ v.visible name = none ∧ other = name ∧ file = v.next := by
  have late := entries_all (le_max_left (v.create name bytes).pending.length v.pending.length)
  rw [← late] at tied
  have prior := entries_create_some tied
  rwa [entries_all (le_max_right _ _)] at prior

lemma next_le_create : v.next ≤ (v.create name bytes).next := by
  cases bound : v.visible name with
  | some => rw [(entries_create_old bound).2.2]
  | none => rw [(entries_create_new bound).2.2]; omega

lemma Intact.create (intact : v.Intact scratch) (temp : scratch name)
    (bytes : List UInt8) : (v.create name bytes).Intact scratch := by
  have old : ∀ kept other, v.entries kept other ≠ some v.next := fun kept other tied =>
    (intact.bounded kept other v.next tied).ne rfl
  constructor
  · intro kept other file tied
    rcases entries_create_some tied with prior | ⟨hf, -, rfl⟩
    · exact (intact.bounded kept other file prior).trans_le next_le_create
    · rw [(entries_create_new hf).2.2]
      omega
  · intro kept one other file atOne ha
    rcases entries_create_some atOne with one | ⟨-, rfl, rfl⟩ <;>
      rcases entries_create_some ha with other | ⟨-, rfl, new⟩
    · exact intact.injective kept _ _ file one other
    · exact absurd (new ▸ one) (old kept _)
    · exact absurd other (old kept _)
    · rfl
  · intro one isOne file shown kept other tied
    rcases visible_create_some shown with prior | ⟨-, rfl, rfl⟩ <;>
      rcases entries_create_some tied with tied | ⟨-, rfl, new⟩
    · exact intact.apart one isOne file prior kept other tied
    · exact absurd (new ▸ prior) (old _ _)
    · exact absurd tied (old kept _)
    · rfl

lemma Intact.rename (intact : v.Intact scratch) (temp : scratch source)
    (published : ¬ scratch target) : (v.rename source target).Intact scratch := by
  have hne : source ≠ target := fun hs => published (hs ▸ temp)
  -- every binding was there before, or is that of the source under the target
  have bindings : ∀ kept other file, (v.rename source target).entries kept other = some file →
      v.entries kept other = some file ∧ (v.pending.length < kept → other ≠ source ∧ other ≠ target) ∨
        v.pending.length < kept ∧ other = target ∧ v.visible source = some file := by
    intro kept other file tied
    by_cases isSource : other = source
    · subst isSource
      rw [entries_rename_source] at tied
      split_ifs at tied with early
      exact .inl ⟨tied, fun late => absurd early (not_le.mpr late)⟩
    · by_cases isTarget : other = target
      · subst isTarget
        rw [entries_rename_target hne] at tied
        split_ifs at tied with early
        · exact .inl ⟨tied, fun late => absurd early (not_le.mpr late)⟩
        · exact .inr ⟨not_le.mp early, rfl, tied⟩
      · rw [entries_rename_other isSource isTarget] at tied
        exact .inl ⟨tied, fun _ => ⟨isSource, isTarget⟩⟩
  constructor
  · intro kept other file tied
    rcases bindings kept other file tied with ⟨prior, -⟩ | ⟨-, -, prior⟩
    · exact intact.bounded kept other file prior
    · exact intact.bounded _ source file prior
  · intro kept one other file atOne ha
    rcases bindings kept one file atOne with ⟨one, apart⟩ | ⟨late, rfl, one⟩ <;>
      rcases bindings kept other file ha with ⟨other, apart'⟩ | ⟨late', rfl, other⟩
    · exact intact.injective kept _ _ file one other
    · exact absurd (intact.apart source temp file other kept _ one) (apart late').1
    · exact absurd (intact.apart source temp file one kept _ other) (apart' late).1
    · rfl
  · intro one isOne file shown kept other tied
    have late : v.pending.length < (v.rename source target).pending.length := by
      simp [Volume.rename, push]
    rcases bindings _ one file shown with ⟨old, apart⟩ | ⟨-, rfl, -⟩
    · rw [entries_all late.le] at old
      rcases bindings kept other file tied with ⟨prior, -⟩ | ⟨-, rfl, prior⟩
      · exact intact.apart one isOne file old kept other prior
      · exact absurd (intact.injective _ one source file old prior) (apart late).1
    · exact absurd isOne published

end Volume

end Wyrd
