import Wyrd.Format.Objects
import Mathlib.Data.List.AList

/-! # The retained-bytes counter

The object store on disk with a byte accountant. A published object is charged, a rejected
one that was unlinked is subtracted. The counter stays at or above the bytes of the live
files as long as no directory sync fails after a rename, which leaves a live file without a
charge, and no corruption lengthens a file, whose removal then takes more than was charged.
It has 64 bits and wraps; the bytes seeded and inserted are to stay below them.
-/

namespace Wyrd

open List Option Function Nat AList

/-- A live file: its bytes, and its modification time where the system knows one. -/
structure LiveFile where
  bytes : Bytes
  modified : Option Nat
  deriving DecidableEq

structure VerifiedStamp where
  len : Nat
  modified : Option Nat
  deriving DecidableEq

def LiveFile.stamp (file : LiveFile) : VerifiedStamp := ⟨file.bytes.length, file.modified⟩

def VerifiedStamp.matches (stamp : VerifiedStamp) (file : LiveFile) : Bool :=
  stamp.modified.isSome && decide (stamp = file.stamp)

inductive FsStoreError where
  | io
  | identityMismatch
  deriving DecidableEq

inductive DiscardOutcome where
  | discarded (bytes : Nat)
  | absent
  | nowValid
  deriving DecidableEq

/-- How the disk answers one attempt to publish an object. -/
inductive Attempt where
  | tempFailed
  /-- whether a sweep had removed the temp file -/
  | renameFailed (vanished : Bool)
  | syncFailed (modified : Option Nat)
  | published (modified : Option Nat)
  deriving DecidableEq

/-- How the disk answers one insert. -/
structure InsertDisk where
  reconciles : Bool
  reads : Bool
  attempts : List Attempt
  verifies : Bool

/-- The live files by kind and address, the stamps of those this process has verified, and
    the bytes charged. -/
structure FsObjectStore where
  files : AList fun _ : ObjectKind × ContentId => LiveFile
  verified : ContentId → Option VerifiedStamp
  retained : Nat

namespace FsObjectStore

def allKinds : List ObjectKind := [.chunk, .tree, .snapshot, .manifest]

/-- The bytes of the live files. -/
def size (files : AList fun _ : ObjectKind × ContentId => LiveFile) : Nat :=
  (files.entries.map fun entry => entry.2.bytes.length).sum

/-- The counter is seeded from what is on disk. -/
def openWith (files : AList fun _ : ObjectKind × ContentId => LiveFile) : FsObjectStore :=
  ⟨files, fun _ => none, size files % 2 ^ 64⟩

variable (derive : ObjectKind → Bytes → ContentId) (store : FsObjectStore)

def forget (id : ContentId) : FsObjectStore :=
  { store with verified := update store.verified id none }

def remember (id : ContentId) (file : LiveFile) : FsObjectStore :=
  { store with verified := update store.verified id (some file.stamp) }

def find (id : ContentId) : Option (ObjectKind × LiveFile) :=
  allKinds.findSome? fun kind => (store.files.lookup (kind, id)).map (kind, ·)

/-- Whether the write counts as done, and the store after. A rename that failed over a live
    file counts; one whose temp was swept is tried again. -/
def atomicWrite (store : FsObjectStore) (name : ObjectKind × ContentId) (data : Bytes) :
    List Attempt → FsObjectStore × Bool
  | [] | .tempFailed :: _ => (store, false)
  | .renameFailed vanished :: rest =>
    if name ∈ store.files then (store, true)
    else if vanished then atomicWrite store name data rest
    else (store, false)
  | .syncFailed modified :: _ =>
    ({ store with files := store.files.insert name ⟨data, modified⟩ }, false)
  | .published modified :: _ =>
    ({ store with files := store.files.insert name ⟨data, modified⟩ }, true)

/-- A present file is left alone if its stamp matches or its bytes derive to the address;
    anything else is written and charged. -/
def insert (kind : ObjectKind) (data : Bytes) (disk : InsertDisk) :
    FsObjectStore × Except FsStoreError ContentId :=
  let id := derive kind data
  let present := store.files.lookup (kind, id)
  let stamped := present.any fun file => (store.verified id).any (·.matches file)
  let valid := stamped || present.any fun file => disk.reads && decide (derive kind file.bytes = id)
  if disk.reconciles = false then (store, .error .io)
  else if valid then
    if disk.verifies = false then (store, .error .io)
    else ((present.map (store.remember id)).getD store, .ok id)
  else
    match store.atomicWrite (kind, id) data disk.attempts with
    | (written, false) => (written, .error .io)
    | (written, true) =>
      let charged := { written with retained := (written.retained + data.length) % 2 ^ 64 }
      (((charged.files.lookup (kind, id)).map (charged.remember id)).getD charged, .ok id)

def insertVerified (kind : ObjectKind) (expected : ContentId) (data : Bytes) (disk : InsertDisk) :
    FsObjectStore × Except FsStoreError Unit :=
  if derive kind data ≠ expected then (store, .error .identityMismatch)
  else
    let done := store.insert derive kind data disk
    (done.1, done.2.map fun _ => ())

def discardRejected (id : ContentId) (reads removes : Bool) :
    FsObjectStore × Except FsStoreError DiscardOutcome :=
  match store.find id with
  | none => (store, .ok .absent)
  | some (kind, file) =>
    if reads = false then (store, .error .io)
    else if derive kind file.bytes = id then (store, .ok .nowValid)
    else if removes = false then (store.forget id, .error .io)
    else ({ store.forget id with files := store.files.erase (kind, id) },
      .ok (.discarded file.bytes.length))

/-- One rejection of a quarantine drain: what left the disk leaves the counter. -/
def quarantine (id : ContentId) (reads removes : Bool) : FsObjectStore :=
  match store.discardRejected derive id reads removes with
  | (after, .ok (.discarded bytes)) => { after with retained := after.retained - bytes }
  | (after, _) => after

inductive Event where
  | insert (kind : ObjectKind) (data : Bytes) (disk : InsertDisk)
  | insertVerified (kind : ObjectKind) (expected : ContentId) (data : Bytes) (disk : InsertDisk)
  | quarantine (id : ContentId) (reads removes : Bool)
  /-- a read, or the bound of the cache, changes what is remembered of a file -/
  | restamp (id : ContentId) (stamp : Option VerifiedStamp)
  /-- a live file changes under the store -/
  | corrupt (name : ObjectKind × ContentId) (file : LiveFile)

/-- The bytes an event may charge. -/
def Event.charge : Event → Nat
  | .insert _ data _ | .insertVerified _ _ data _ => data.length
  | _ => 0

def step (store : FsObjectStore) : Event → FsObjectStore
  | .insert kind data disk => (store.insert derive kind data disk).1
  | .insertVerified kind expected data disk =>
    (store.insertVerified derive kind expected data disk).1
  | .quarantine id reads removes => store.quarantine derive id reads removes
  | .restamp id stamp => { store with verified := update store.verified id stamp }
  | .corrupt name file =>
    if name ∈ store.files then { store with files := store.files.insert name file } else store

def run (store : FsObjectStore) (events : List Event) : FsObjectStore :=
  events.foldl (step derive) store

/-- No directory sync fails after a rename, and corruption makes no file longer. -/
def Sparing (store : FsObjectStore) : Event → Prop
  | .insert _ _ disk | .insertVerified _ _ _ disk =>
    ∀ modified, .syncFailed modified ∉ disk.attempts
  | .corrupt name file => ∀ old, store.files.lookup name = some old →
      file.bytes.length ≤ old.bytes.length
  | _ => True

def Event.clean : Event → Prop
  | .insert _ _ disk | .insertVerified _ _ _ disk => disk.reconciles = true ∧ disk.reads = true ∧
      disk.verifies = true ∧ ∃ modified rest, disk.attempts = .published modified :: rest
  | .quarantine _ reads removes => reads = true ∧ removes = true
  | .restamp _ _ => True
  | .corrupt _ _ => False

def Intact (store : FsObjectStore) : Prop :=
  ∀ name file, store.files.lookup name = some file → derive name.1 file.bytes = name.2

/-- Every live file derives to its address and is charged once. -/
def Exact (store : FsObjectStore) : Prop :=
  store.Intact derive ∧ store.retained = size store.files

/-- The counter is at least what a reopen would seed. -/
def Covers (store : FsObjectStore) : Prop := size store.files ≤ store.retained

variable {derive store} {name : ObjectKind × ContentId} {event : Event}

lemma size_kerase (entries : List (Sigma fun _ : ObjectKind × ContentId => LiveFile)) :
    ((entries.kerase name).map fun entry => entry.2.bytes.length).sum +
      ((entries.dlookup name).map fun file => file.bytes.length).getD 0 =
      (entries.map fun entry => entry.2.bytes.length).sum := by
  induction entries with
  | nil => rfl
  | cons entry rest ih =>
    by_cases hs : name = entry.1
    · obtain ⟨_, file⟩ := entry
      subst hs
      simp [add_comm]
    · rw [kerase_cons_ne hs, dlookup_cons_ne _ _ hs, map_cons, sum_cons, Nat.add_assoc, ih]
      rfl

lemma size_insert (file : LiveFile) :
    size (store.files.insert name file) +
      ((store.files.lookup name).map fun old => old.bytes.length).getD 0 =
      size store.files + file.bytes.length := by
  have rest := @size_kerase name store.files.entries
  rw [size, entries_insert, map_cons, sum_cons, size, ← rest]
  exact (Nat.add_assoc ..).trans (add_comm ..)

lemma size_erase : size (store.files.erase name) +
    ((store.files.lookup name).map fun old => old.bytes.length).getD 0 = size store.files :=
  size_kerase store.files.entries

lemma remembered (present : Option LiveFile) (id : ContentId) :
    ((present.map (store.remember id)).getD store).files = store.files ∧
      ((present.map (store.remember id)).getD store).retained = store.retained := by
  cases present with
  | none => exact ⟨rfl, rfl⟩
  | some => exact ⟨rfl, rfl⟩

/-- A write leaves the files as they are, or publishes. -/
lemma atomicWrite_eq {data attempts} (synced : ∀ modified, .syncFailed modified ∉ attempts) :
    (∃ done, store.atomicWrite name data attempts = (store, done)) ∨
      ∃ modified, store.atomicWrite name data attempts =
        ({ store with files := store.files.insert name ⟨data, modified⟩ }, true) := by
  induction attempts with
  | nil => exact .inl ⟨false, rfl⟩
  | cons attempt rest ih =>
    cases attempt with
    | tempFailed => exact .inl ⟨false, rfl⟩
    | renameFailed =>
      unfold atomicWrite
      split_ifs
      · exact .inl ⟨true, rfl⟩
      · exact ih fun modified hm => synced modified (mem_cons_of_mem _ hm)
      · exact .inl ⟨false, rfl⟩
    | syncFailed modified => exact absurd mem_cons_self (synced modified)
    | published modified => exact .inr ⟨modified, rfl⟩

lemma atomicWrite_retained {data attempts} :
    (store.atomicWrite name data attempts).1.retained = store.retained := by
  fun_induction atomicWrite <;> simp_all

lemma insert_retained {kind data} {disk : InsertDisk} :
    (store.insert derive kind data disk).1.retained ≤ store.retained + data.length := by
  unfold FsObjectStore.insert
  dsimp only
  split_ifs
  · exact Nat.le_add_right ..
  · exact Nat.le_add_right ..
  · rw [(remembered _ _).2]
    exact Nat.le_add_right ..
  · have kept := @atomicWrite_retained store (kind, derive kind data) data disk.attempts
    split
    · next written => exact (written ▸ kept).le.trans (Nat.le_add_right ..)
    · next after written =>
      rw [written] at kept
      rw [(remembered _ _).2, ← kept]
      exact mod_le ..

/-- A step adds to the counter no more than it may charge. -/
lemma step_retained : (store.step derive event).retained ≤ store.retained + event.charge := by
  cases event with
  | insert => exact insert_retained
  | insertVerified =>
    simp only [FsObjectStore.step, insertVerified]
    split_ifs
    · exact Nat.le_add_right ..
    · exact insert_retained
  | quarantine id reads removes =>
    simp only [FsObjectStore.step, quarantine, discardRejected]
    cases store.find id with
    | none => exact le_refl _
    | some pair =>
      dsimp only
      split_ifs
      · exact le_refl _
      · exact le_refl _
      · exact le_refl _
      · exact sub_le ..
  | restamp => exact le_refl _
  | corrupt =>
    simp only [FsObjectStore.step]
    split_ifs <;> exact le_refl _

lemma run_retained {files} (events : List Event) : ((openWith files).run derive events).retained ≤
    size files + (events.map Event.charge).sum := by
  induction events using List.reverseRecOn with
  | nil => exact mod_le ..
  | append_singleton done event ih =>
    rw [run, foldl_append, map_append, sum_append_nat, ← Nat.add_assoc]
    exact step_retained.trans (Nat.add_le_add ih (by simp))

lemma Covers.insert {kind data} {disk : InsertDisk} (covers : store.Covers)
    (fits : store.retained + data.length < 2 ^ 64)
    (synced : ∀ modified, .syncFailed modified ∉ disk.attempts) :
    (store.insert derive kind data disk).1.Covers := by
  unfold FsObjectStore.insert Covers
  dsimp only
  split_ifs
  · exact covers
  · exact covers
  · obtain ⟨files, hr⟩ := @remembered store (store.files.lookup (kind, derive kind data))
      (derive kind data)
    rw [files, hr]
    exact covers
  · have bound : size store.files ≤ store.retained := covers
    rcases @atomicWrite_eq store (kind, derive kind data) data _ synced with
      ⟨done, written⟩ | ⟨modified, written⟩
    · rw [written]
      cases done with
      | false => exact covers
      | true =>
        dsimp only
        rw [(remembered _ _).1, (remembered _ _).2, mod_eq_of_lt fits]
        exact le_add_right_of_le bound
    · have set := @size_insert store (kind, derive kind data) ⟨data, modified⟩
      rw [written]
      dsimp only
      rw [(remembered _ _).1, (remembered _ _).2, mod_eq_of_lt fits]
      dsimp only at set ⊢
      omega

lemma find_lookup {id kind file} (hf : store.find id = some (kind, file)) :
    store.files.lookup (kind, id) = some file := by
  obtain ⟨other, -, hh⟩ := exists_of_findSome?_eq_some hf
  obtain ⟨same, hl, pair⟩ := map_eq_some_iff.mp hh
  cases pair
  exact hl

lemma Covers.step (covers : store.Covers) (fits : store.retained + event.charge < 2 ^ 64) (sparing : store.Sparing event) :
    (store.step derive event).Covers := by
  cases event with
  | insert => exact covers.insert fits sparing
  | insertVerified kind expected data disk =>
    simp only [FsObjectStore.step, insertVerified]
    split_ifs
    · exact covers
    · exact covers.insert fits sparing
  | quarantine id reads removes =>
    simp only [FsObjectStore.step, quarantine, discardRejected]
    cases hf : store.find id with
    | none => exact covers
    | some pair =>
      obtain ⟨kind, file⟩ := pair
      have erased := @size_erase store (kind, id)
      rw [find_lookup hf, map_some, getD_some] at erased
      dsimp only
      split_ifs
      · exact covers
      · exact covers
      · exact covers
      · have bound : size store.files ≤ store.retained := covers
        show size (store.files.erase (kind, id)) ≤ store.retained - file.bytes.length
        omega
  | restamp => exact covers
  | corrupt name file =>
    simp only [FsObjectStore.step]
    split_ifs with ht
    · obtain ⟨old, hf⟩ := isSome_iff_exists.mp (lookup_isSome.mpr ht)
      have set := @size_insert store name file
      rw [hf, map_some, getD_some] at set
      have less := sparing old hf
      have bound : size store.files ≤ store.retained := covers
      show size (store.files.insert name file) ≤ store.retained
      omega
    · exact covers

lemma Exact.insert {kind data} {disk : InsertDisk} (counts : store.Exact derive)
    (fits : store.retained + data.length < 2 ^ 64) (reads : disk.reads = true) {modified rest}
    (published : disk.attempts = .published modified :: rest) :
    (store.insert derive kind data disk).1.Exact derive := by
  obtain ⟨intact, retained⟩ := counts
  unfold FsObjectStore.insert
  dsimp only
  split_ifs with hr valid fails
  · exact ⟨intact, retained⟩
  · exact ⟨intact, retained⟩
  · have hk := @remembered store (store.files.lookup (kind, derive kind data)) (derive kind data)
    exact ⟨by rw [Intact, hk.1]; exact intact, by rw [hk.1, hk.2]; exact retained⟩
  · -- A live file derives to its address, so it would have been valid.
    have gone : store.files.lookup (kind, derive kind data) = none := by
      cases hf : store.files.lookup (kind, derive kind data) with
      | none => rfl
      | some file =>
        have derives := intact _ _ hf
        simp [hf, reads, derives] at valid
    have set := @size_insert store (kind, derive kind data) ⟨data, modified⟩
    rw [gone] at set
    rw [published]
    dsimp only [atomicWrite]
    constructor
    · intro name file hf
      rw [(remembered _ _).1] at hf
      by_cases hs : name = (kind, derive kind data)
      · subst hs
        rw [lookup_insert] at hf
        cases hf
        rfl
      · rw [lookup_insert_ne hs] at hf
        exact intact name file hf
    · rw [(remembered _ _).1, (remembered _ _).2, mod_eq_of_lt fits]
      dsimp only at set ⊢
      rw [retained]
      exact set.symm

/-- Without a failure or corruption an event changes files and counter alike. -/
lemma Exact.step (counts : store.Exact derive) (fits : store.retained + event.charge < 2 ^ 64)
    (clean : event.clean) : (store.step derive event).Exact derive := by
  cases event with
  | insert =>
    obtain ⟨-, reads, -, modified, rest, published⟩ := clean
    exact counts.insert fits reads published
  | insertVerified =>
    obtain ⟨-, reads, -, modified, rest, published⟩ := clean
    simp only [FsObjectStore.step, insertVerified]
    split_ifs
    · exact counts
    · exact counts.insert fits reads published
  | quarantine id reads removes =>
    simp only [FsObjectStore.step, quarantine, discardRejected]
    cases hf : store.find id with
    | none => exact counts
    | some pair =>
      have derives : derive pair.1 pair.2.bytes = id := counts.1 _ _ (find_lookup hf)
      simp only [derives, if_true]
      split_ifs <;> exact counts
  | restamp => exact counts
  | corrupt => exact absurd clean id

/-- From an opening on, the counter is at least the bytes of the live files as long as every
    step is sparing; if the files were intact and nothing fails or is corrupted, it is them.
    What was there and what is inserted is below 2^64 bytes. -/
theorem retained_never_understates (files : AList fun _ : ObjectKind × ContentId => LiveFile)
    (events : List Event) (fits : size files + (events.map Event.charge).sum < 2 ^ 64) :
    ((∀ done event rest, events = done ++ event :: rest →
        ((openWith files).run derive done).Sparing event) →
      ∀ done, done <+: events → size ((openWith files).run derive done).files ≤
        ((openWith files).run derive done).retained) ∧
    ((openWith files).Intact derive → (∀ event ∈ events, event.clean) →
      ((openWith files).run derive events).retained =
        size ((openWith files).run derive events).files) := by
  have next {done rest : List Event} {event : Event} (split : done ++ event :: rest = events) :
      ((openWith files).run derive done).retained + event.charge < 2 ^ 64 := by
    have charged := @run_retained derive files done
    rw [← split, map_append, map_cons, sum_append_nat, sum_cons] at fits
    omega
  have seeded : (openWith files).retained = size files := mod_eq_of_lt (by omega)
  constructor
  · intro sparing done reached
    induction done using List.reverseRecOn with
    | nil => exact seeded.ge
    | append_singleton done event ih =>
      obtain ⟨rest, split⟩ := reached
      rw [append_assoc] at split
      rw [run, foldl_append]
      exact Covers.step (ih ⟨_, split⟩) (next split) (sparing done event rest split.symm)
  · intro intact clean
    have exact_run (done : List Event) (reached : done <+: events) :
        ((openWith files).run derive done).Exact derive := by
      induction done using List.reverseRecOn with
      | nil => exact ⟨intact, seeded⟩
      | append_singleton done event ih =>
        obtain ⟨rest, split⟩ := reached
        rw [append_assoc] at split
        rw [run, foldl_append]
        exact (ih ⟨_, split⟩).step (next split) (clean event (by simp [← split]))
    exact (exact_run events prefix_rfl).2

def lengthDerive (_ : ObjectKind) (data : Bytes) : ContentId := ⟨Fin.ofNat _ data.length⟩

/-- One chunk is published and a rejection of it is drained: nothing is discarded. A second one
    is cut short and discarded: its charge goes but for the bytes that were lost. -/
theorem retained_never_understates_published :
    (let events := [.insert .chunk [1, 2, 3] ⟨true, true, [.published (some 0)], true⟩,
      .quarantine (lengthDerive .chunk [1, 2, 3]) true true]
    ((openWith ∅).run lengthDerive events).retained =
      size ((openWith ∅).run lengthDerive events).files) ∧
    let events := [.insert .chunk [1, 2] ⟨true, true, [.published (some 0)], true⟩,
      .corrupt (.chunk, lengthDerive .chunk [1, 2]) ⟨[7], some 1⟩,
      .quarantine (lengthDerive .chunk [1, 2]) true true]
    size ((openWith ∅).run lengthDerive events).files ≤
        ((openWith ∅).run lengthDerive events).retained ∧
      ((openWith ∅).run lengthDerive events).retained = 1 := by
  refine ⟨(retained_never_understates _ _ (by decide)).2 (fun name file found => ?_)
    fun event member => ?_, (retained_never_understates _ _ (by decide)).1
      (fun done event rest split => ?_) _ prefix_rfl, by decide +kernel⟩
  · rw [openWith, lookup_empty] at found
    cases found
  · fin_cases member
    · exact ⟨rfl, rfl, rfl, some 0, [], rfl⟩
    · exact ⟨rfl, rfl⟩
  · rcases done with _ | ⟨_, _ | ⟨_, _ | ⟨_, done⟩⟩⟩
    · cases split
      simp [Sparing]
    · cases split
      intro old found
      cases (by decide +kernel : _ = some (⟨[1, 2], some 0⟩ : LiveFile)).symm.trans found
      decide
    · cases split
      trivial
    · simp at split

/-- A sync that fails after the rename leaves three live bytes uncharged; a file that grew
    takes the charge of its neighbour with it when it is discarded. -/
theorem retained_understates_after_failed_sync :
    (let store := (openWith ∅).run lengthDerive
      [.insert .chunk [1, 2, 3] ⟨true, true, [.syncFailed (some 0)], true⟩]
    (store.retained, size store.files) = (0, 3)) ∧
    let store := (openWith ∅).run lengthDerive
      [.insert .chunk [1] ⟨true, true, [.published (some 0)], true⟩,
      .insert .chunk [1, 2] ⟨true, true, [.published (some 0)], true⟩,
      .corrupt (.chunk, lengthDerive .chunk [1]) ⟨[1, 2, 3], some 1⟩,
      .quarantine (lengthDerive .chunk [1]) true true]
    (store.retained, size store.files) = (0, 2) := by
  decide +kernel

end FsObjectStore

end Wyrd
