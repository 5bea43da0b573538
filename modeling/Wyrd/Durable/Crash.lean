import Wyrd.Durable.ReadBack

/-! # Crash atomicity

A run of the store: commits that stop at any stage or fail at any file operation,
restarts of the process, and losses of power that keep some of the directory updates since the last sync and tear
every file that was not synced. Beside the disk, a run counts which batches had their
pointer update made durable, and which only had `CURRENT` renamed. The load returns
exactly these, at every point of every run.
-/

namespace Wyrd.Durable

open List Nat

open Reader Keys DurableStore

variable {P : Primitives}

/-- `CURRENT` was renamed before the commit ended. -/
def Ending.named : Ending → Bool
  | .stops .afterRenameCurrent | .stops .complete | .fails .fsyncDir => true
  | _ => false

/-- How much of a chain is durable after a commit that ended so. -/
def Ending.base (ending : Ending) (before length : Nat) : Nat :=
  if ending = .stops .complete then length else before

/-- One event in the life of a store directory. -/
inductive Event (P : Primitives) where
  | commit (drawn : Nat → Option Nonce) (facts : List (CommitFact P)) (ending : Ending)
  | restart
  | powerLoss (rootKept : Nat) (rootTorn : Nat → Bytes) (commitsKept : Nat)
      (commitsTorn : Nat → Bytes)

/-- The store, the batches whose pointer update is durable, and those whose pointer
    update running programs see but a loss of power can undo. -/
structure Life (P : Primitives) where
  store : DurableStore
  settled : List (List (CommitFact P))
  unsettled : List (List (CommitFact P))

namespace Life

def batches (life : Life P) : List (List (CommitFact P)) := life.settled ++ life.unsettled

def reopened (store : DurableStore) (disk : Disk) : DurableStore :=
  match reopen store.drive store.key disk with
  | .ok opened => opened
  | .error _ => { store with disk := disk }

/-- What a commit adds: nothing if it ended before `CURRENT` was renamed. -/
def record (life : Life P) (facts : List (CommitFact P)) (ending : Ending)
    (next : DurableStore) : Life P :=
  if ending = .stops .complete then ⟨next, life.batches ++ [facts], []⟩
  else if ending.named then ⟨next, life.settled, life.unsettled ++ [facts]⟩
  else { life with store := next }

def step (K : StoreKit) (life : Life P) : Event P → Life P
  | .commit drawn facts ending =>
    let next := (commitUntil K drawn facts ending life.store).1
    if (prepare K drawn facts life.store).2.isOk = true ∧ facts ≠ [] then
      life.record facts ending next
    else { life with store := next }
  | .restart => { life with store := reopened life.store life.store.disk }
  | .powerLoss rootKept rootTorn commitsKept commitsTorn =>
    let disk := life.store.disk
    ⟨reopened life.store ⟨disk.root.powerLoss rootKept rootTorn,
        disk.commits.powerLoss commitsKept commitsTorn⟩,
      life.settled ++ life.unsettled.take (disk.root.renames rootKept), []⟩

def start (drive : DriveId) (key : Bytes) : Life P := ⟨⟨drive, key, ⟨.empty, .empty⟩, 0, 0⟩, [], []⟩

def run (K : StoreKit) (life : Life P) (events : List (Event P)) : Life P :=
  events.foldl (step K) life

end Life

def replayed (drive : DriveId) (batches : List (List (CommitFact P))) :
    Except StoreError (List DecodedFact) :=
  if batches.all (·.all (CommitFact.readable drive)) then
    .ok (batches.flatten.map CommitFact.decoded)
  else .error (.corruptCommit
    (batches.findIdx (fun batch => !batch.all (CommitFact.readable drive)) + 1))

structure FiledBatch (P : Primitives) where
  facts : List (CommitFact P)
  records : List (Tag × Bytes)

def tipHash (K : StoreKit) (drive : DriveId) (written : List (FiledBatch P)) : Digest :=
  (written.foldl (fun link batch =>
    (link.1 + 1, (encodeCommit K drive (link.1 + 1) link.2 batch.records).2)) (0, 0)).2

def commitOf (K : StoreKit) (drive : DriveId) (before : List (FiledBatch P)) (batch : FiledBatch P) :
    Bytes × Digest :=
  encodeCommit K drive (before.length + 1) (tipHash K drive before) batch.records

section Chain

variable {K : StoreKit} {drive : DriveId} {key : Bytes}

lemma tipHash_append (before : List (FiledBatch P)) (batch : FiledBatch P) :
    tipHash K drive (before ++ [batch]) = (commitOf K drive before batch).2 := by
  have counts : ∀ written : List (FiledBatch P), (written.foldl (fun link batch =>
      (link.1 + 1, (encodeCommit K drive (link.1 + 1) link.2 batch.records).2)) (0, 0)).1 =
        written.length := by
    intro written
    induction written using List.reverseRecOn with
    | nil => rfl
    | append_singleton before batch ih => simp [foldl_append, ih]
  simp only [tipHash, commitOf, foldl_append, foldl_cons, foldl_nil, counts]

structure Accepted (K : StoreKit) (key : Bytes) (drive : DriveId) (before : List (FiledBatch P))
    (batch : FiledBatch P) : Prop where
  encoded : ∃ drawn, encodeFacts K key drive drawn batch.facts = .ok batch.records
  sized : ∀ fact ∈ batch.facts, fact.Sized
  few : batch.records.length ≤ maxRecordsPerCommit
  small : (commitOf K drive before batch).1.length ≤ maxCommitBytes
  fits : Fits64 (before.length + 1)

lemma replayed_append (batches : List (List (CommitFact P))) (batch : List (CommitFact P)) :
    replayed drive (batches ++ [batch]) =
      match replayed drive batches with
      | .error error => .error error
      | .ok facts =>
        if batch.all (CommitFact.readable drive) then .ok (facts ++ batch.map CommitFact.decoded)
        else .error (.corruptCommit (batches.length + 1)) := by
  simp only [replayed, all_append, all_cons, all_nil, Bool.and_true]
  by_cases old : batches.all (·.all (CommitFact.readable drive)) = true
  · have none : batches.findIdx (fun batch => !batch.all (CommitFact.readable drive)) =
        batches.length := by
      rw [findIdx_eq_length]
      simpa [all_eq_true] using old
    cases hh : batch.all (CommitFact.readable drive) with
    | true => simp [old, flatten_append]
    | false => simp [old, findIdx_append, none, hh]
  · have some : batches.findIdx (fun batch => !batch.all (CommitFact.readable drive)) <
        batches.length := by
      rw [findIdx_lt_length]
      simpa [all_eq_true] using old
    simp [old, findIdx_append, some]

lemma readCommits_chain (lawful : K.Lawful) {store : DurableStore} {written : List (FiledBatch P)}
    (hok : ∀ before batch, before ++ [batch] <+: written →
      Accepted K store.key store.drive before batch)
    (files : ∀ before batch, before ++ [batch] <+: written →
      store.disk.commits.read (.commit (before.length + 1)) =
        some (commitOf K store.drive before batch).1) :
    readCommits K (decodeRecord P K store.key store.drive) store written.length =
      (replayed store.drive (written.map FiledBatch.facts)).map
        (fun facts => (facts, tipHash K store.drive written)) := by
  induction written using List.reverseRecOn with
  | nil => rfl
  | append_singleton written batch ih =>
    have old := ih (fun before other less => hok before other (less.trans (prefix_append _ _)))
      (fun before other less => files before other (less.trans (prefix_append _ _)))
    obtain ⟨⟨drawn, hc⟩, hsz, few, hs, hf⟩ := hok written batch prefix_rfl
    rw [map_append, map_singleton, replayed_append, tipHash_append, length_append, length_singleton]
    cases before : replayed store.drive (written.map FiledBatch.facts) with
    | error =>
      rw [before] at old
      simp only [readCommits, old, Except.map, bind, Except.bind]
    | ok =>
      rw [before] at old
      rw [readCommits_batch lawful hsz hc hf old few hs (files written batch prefix_rfl)]
      simp only [length_map]
      split_ifs <;> rfl

lemma readCommits_records {store : DurableStore} {written : List (FiledBatch P)}
    (accepted : ∀ before batch, before ++ [batch] <+: written →
      Accepted K store.key store.drive before batch)
    (files : ∀ before batch, before ++ [batch] <+: written →
      store.disk.commits.read (.commit (before.length + 1)) =
        some (commitOf K store.drive before batch).1) :
    readCommits K (fun tag body => some (tag, body)) store written.length =
      .ok (written.flatMap FiledBatch.records, tipHash K store.drive written) := by
  induction written using List.reverseRecOn with
  | nil => rfl
  | append_singleton written batch ih =>
    have earlier := ih
      (fun before other short => accepted before other (short.trans (prefix_append _ _)))
      (fun before other short => files before other (short.trans (prefix_append _ _)))
    obtain ⟨-, -, few, small, fits⟩ := accepted written batch prefix_rfl
    have here : readCommit K (fun tag body => some (tag, body)) store (written.length + 1)
        (tipHash K store.drive written) = .ok (batch.records, (commitOf K store.drive written batch).2) := by
      simp only [readCommit, files written batch prefix_rfl, if_neg (not_lt.mpr small)]
      have whole : batch.records.mapM (fun record => some (record.1, record.2)) =
          some batch.records := by
        simpa using List.mapM_pure (m := Option) (l := batch.records) (f := id)
      rw [commitOf, decodeCommitFile_encodeCommit fits _ few small, whole]
    rw [length_append, length_singleton, tipHash_append, flatMap_append, flatMap_singleton]
    simp only [readCommits, earlier, here, bind, Except.bind, pure, Except.pure]

end Chain

/-- With `kept` updates surviving, `CURRENT` names the last of these commits. -/
def Names (K : StoreKit) (drive : DriveId) (root : Volume RootName) (kept : Nat)
    (named : List (FiledBatch P)) : Prop :=
  if named = [] then root.entries kept .current = none
  else root.Bound kept .current (pointerBytes named.length (tipHash K drive named))

/-- The disk holds a chain of commits: every file is there whatever survives, and
    `CURRENT` names the durable part of the chain or one of the later commits, as
    many as renames of it survive. -/
structure Journal (K : StoreKit) (key : Bytes) (drive : DriveId) (written : List (FiledBatch P))
    (base : Nat) (disk : Disk) : Prop where
  intact : disk.Intact
  accepted : ∀ before batch, before ++ [batch] <+: written → Accepted K key drive before batch
  files : ∀ before batch, before ++ [batch] <+: written →
    disk.commits.Settled (.commit (before.length + 1)) (commitOf K drive before batch).1
  names : ∀ kept, Names K drive disk.root kept (written.take (base + disk.root.renames kept))
  tip : base + disk.root.renames disk.root.pending.length = written.length

section Journal

variable {K : StoreKit} {key : Bytes} {drive : DriveId} {written : List (FiledBatch P)} {base : Nat}
  {disk : Disk}

lemma journal_empty : Journal (P := P) K key drive [] 0 ⟨.empty, .empty⟩ where
  intact := ⟨Volume.intact_empty, Volume.intact_empty⟩
  accepted before batch less := by simp at less
  files before batch less := by simp at less
  names kept := by simp [Names, Volume.entries, Volume.empty]
  tip := rfl

lemma Journal.onCommits (journal : Journal K key drive written base disk)
    (intact : commits.Intact CommitName.Scratch)
    (keeps : ∀ seq ≤ written.length, ∀ bytes, disk.commits.Settled (.commit seq) bytes →
      commits.Settled (.commit seq) bytes) :
    Journal K key drive written base ⟨disk.root, commits⟩ where
  intact := ⟨journal.intact.root, intact⟩
  accepted := journal.accepted
  files before batch shorter := by
    have below := shorter.length_le
    rw [length_append, length_singleton] at below
    exact keeps _ below _ (journal.files before batch shorter)
  names := journal.names
  tip := journal.tip

lemma Journal.onRoot (journal : Journal K key drive written base disk)
    (intact : root.Intact RootName.Scratch) (renames : root.renames = disk.root.renames)
    (entries : ∀ kept, root.entries kept .current = disk.root.entries kept .current)
    (bound : ∀ kept bytes, disk.root.Bound kept .current bytes → root.Bound kept .current bytes)
    (longer : disk.root.pending.length ≤ root.pending.length) :
    Journal K key drive written base ⟨root, disk.commits⟩ where
  intact := ⟨intact, journal.intact.commits⟩
  accepted := journal.accepted
  files := journal.files
  names kept := by
    have before := journal.names kept
    simp only [Names, renames, entries] at before ⊢
    split_ifs at before ⊢
    · exact before
    · exact bound kept _ before
  tip := by
    simp only [renames]
    rw [Volume.renames_all longer]
    exact journal.tip

section Writing

variable (journal : Journal K key drive written base disk) (seq : Nat) (bytes : Bytes)

include journal

lemma Journal.writeTemp :
    Journal K key drive written base ⟨disk.root, disk.commits.create (.temp seq) bytes⟩ :=
  journal.onCommits (journal.intact.commits.create ⟨seq, rfl⟩ bytes) fun _ _ _ hf kept =>
    (hf kept).create journal.intact.commits ⟨seq, rfl⟩ (by simp) bytes

lemma Journal.syncTemp :
    Journal K key drive written base ⟨disk.root, disk.commits.syncFile (.temp seq)⟩ :=
  journal.onCommits (journal.intact.commits.syncFile _) fun _ _ _ hf kept =>
    (hf kept).syncFile _

lemma Journal.renameCommit (next : written.length < seq) :
    Journal K key drive written base ⟨disk.root, disk.commits.rename (.temp seq) (.commit seq)⟩ := by
  refine journal.onCommits (journal.intact.commits.rename ⟨seq, rfl⟩ (by simp [CommitName.Scratch]))
    fun number hb _ hf kept => (hf kept).rename (by simp) ?_
  rintro hs
  cases hs
  omega

lemma Journal.syncCommits : Journal K key drive written base ⟨disk.root, disk.commits.syncDir⟩ :=
  journal.onCommits journal.intact.commits.syncDir fun _ _ _ hf => (hf _).syncDir

lemma Journal.writeCurrentTemp :
    Journal K key drive written base ⟨disk.root.create .currentTmp bytes, disk.commits⟩ :=
  journal.onRoot (journal.intact.root.create rfl bytes) (funext fun _ => Volume.renames_create ..)
    (fun _ => Volume.entries_create_other (by decide) _)
    (fun _ _ hb => hb.create journal.intact.root rfl (by decide) bytes)
    (Volume.pending_le_create ..)

lemma Journal.syncCurrentTemp :
    Journal K key drive written base ⟨disk.root.syncFile .currentTmp, disk.commits⟩ := by
  refine journal.onRoot (journal.intact.root.syncFile _) (Volume.renames_syncFile ..)
    (fun _ => by rw [Volume.entries_syncFile]) (fun _ _ hb => hb.syncFile _) ?_
  unfold Volume.syncFile
  split <;> rfl

/-- The pointer update: one commit more, once its rename survives. -/
lemma Journal.renameCurrent (accepted : Accepted K key drive written batch)
    (file : disk.commits.Settled (.commit (written.length + 1)) (commitOf K drive written batch).1)
    (pointer : disk.root.Bound disk.root.pending.length .currentTmp
      (pointerBytes (written.length + 1) (commitOf K drive written batch).2)) :
    Journal K key drive (written ++ [batch]) base
      ⟨disk.root.rename .currentTmp .current, disk.commits⟩ where
  intact := ⟨journal.intact.root.rename rfl (by simp [RootName.Scratch]), journal.intact.commits⟩
  accepted before other shorter := by
    rcases prefix_concat_iff.mp shorter with same | shorter
    · obtain ⟨rfl, last⟩ := append_inj' same rfl
      cases last
      exact accepted
    · exact journal.accepted before other shorter
  files before other shorter := by
    rcases prefix_concat_iff.mp shorter with same | shorter
    · obtain ⟨rfl, last⟩ := append_inj' same rfl
      cases last
      exact file
    · exact journal.files before other shorter
  names kept := by
    have before := journal.names kept
    have tip := journal.tip
    simp only [Volume.renames_rename]
    split_ifs with early
    · have short : base + disk.root.renames kept ≤ written.length := by
        have := disk.root.renames_le kept
        omega
      rw [take_append_of_le_length short]
      unfold Names at before ⊢
      split_ifs at before ⊢ with empty
      · rw [Volume.entries_rename_target (by decide), if_pos early]
        exact before
      · obtain ⟨file, here, synced, held⟩ := before
        refine ⟨file, ?_, synced, held⟩
        rw [Volume.entries_rename_target (by decide), if_pos early]
        exact here
    · rw [take_of_length_le (by simp; omega), Names, if_neg (by simp), tipHash_append,
        length_append, length_singleton]
      exact pointer.publish (by decide) (by omega)
  tip := by
    have tip := journal.tip
    rw [Volume.renames_rename, if_neg (by simp [Volume.rename, Volume.push]), length_append,
      length_singleton]
    omega

lemma Journal.syncRoot :
    Journal K key drive written written.length ⟨disk.root.syncDir, disk.commits⟩ where
  intact := ⟨journal.intact.root.syncDir, journal.intact.commits⟩
  accepted := journal.accepted
  files := journal.files
  names kept := by
    have prior := journal.names disk.root.pending.length
    rw [journal.tip] at prior
    rw [Volume.renames_syncDir, add_zero]
    unfold Names at prior ⊢
    split_ifs at prior ⊢
    · rw [Volume.entries_syncDir]
      exact prior
    · exact prior.syncDir kept
  tip := by simp

/-- A loss of power cuts the chain where the surviving `CURRENT` points. -/
lemma Journal.powerLoss (rootKept : Nat) (rootTorn : Nat → Bytes) (commitsKept : Nat)
    (commitsTorn : Nat → Bytes) :
    Journal K key drive (written.take (base + disk.root.renames rootKept))
      (base + disk.root.renames rootKept)
      ⟨disk.root.powerLoss rootKept rootTorn, disk.commits.powerLoss commitsKept commitsTorn⟩ where
  intact := ⟨journal.intact.root.powerLoss _ _, journal.intact.commits.powerLoss _ _⟩
  accepted before batch less := journal.accepted before batch (less.trans ( take_prefix ..))
  files before batch less :=
    (journal.files before batch (less.trans ( take_prefix ..)) commitsKept).powerLoss _
  names kept := by
    have before := journal.names rootKept
    rw [Volume.renames_powerLoss, add_zero, take_take, min_self]
    unfold Names at before ⊢
    split_ifs at before ⊢
    · rw [Volume.entries_powerLoss]
      exact before
    · exact before.powerLoss rootTorn kept
  tip := by
    have tip := journal.tip
    have := disk.root.renames_le rootKept
    rw [Volume.renames_powerLoss, length_take]
    omega

end Writing

end Journal

section Publish

variable {K : StoreKit} {key : Bytes} {drive : DriveId} {written : List (FiledBatch P)} {base : Nat}
  {store : DurableStore} {batch : FiledBatch P}

/-- However it ends, a commit leaves a journal: without the batch before `CURRENT`
    is renamed, with it after. -/
lemma Journal.leaves (journal : Journal K key drive written base store.disk)
    (accepted : Accepted K key drive written batch) (ending : Ending) :
    Journal K key drive (if ending.named then written ++ [batch] else written)
      (ending.base base (written.length + 1))
      (ending.leaves (written.length + 1) (commitOf K drive written batch).1
        (commitOf K drive written batch).2 store).disk := by
  have file := Volume.settled_of_published store.disk.commits
    (show CommitName.temp (written.length + 1) ≠ .commit (written.length + 1) by simp)
    (commitOf K drive written batch).1
  have pointer := Volume.bound_of_synced store.disk.root .currentTmp
    (pointerBytes (written.length + 1) (commitOf K drive written batch).2) le_rfl
  -- the journal after each step; from the rename of `CURRENT` on it has the batch
  have wrote := journal.writeTemp (written.length + 1) (commitOf K drive written batch).1
  have synced := wrote.syncTemp (written.length + 1)
  have renamed := synced.renameCommit (written.length + 1) (lt_succ_self _)
  have filed := renamed.syncCommits
  have wroteCurrent := filed.writeCurrentTemp
    (pointerBytes (written.length + 1) (commitOf K drive written batch).2)
  have syncedCurrent := wroteCurrent.syncCurrentTemp
  have named := syncedCurrent.renameCurrent accepted file pointer
  have settled := named.syncRoot
  rw [length_append, length_singleton] at settled
  rcases ending with stage | fault
  · cases stage
    case afterWriteTemp => exact wrote
    case afterFsyncTemp => exact synced
    case afterRenameCommit => exact renamed
    case afterFsyncCommitDir => exact filed
    case afterWriteCurrentTemp => exact wroteCurrent
    case afterFsyncCurrentTemp => exact syncedCurrent
    case afterRenameCurrent => exact named
    case complete => exact settled
  · cases fault
    case writeTemp left =>
      cases left with
      | none => exact journal
      | some bytes => exact journal.writeTemp (written.length + 1) bytes
    case fsyncTemp => exact wrote
    case renameCommit => exact synced
    case fsyncCommitDir => exact renamed
    case writeCurrentTemp left =>
      cases left with
      | none => exact filed
      | some bytes => exact filed.writeCurrentTemp bytes
    case fsyncCurrentTemp => exact wroteCurrent
    case renameCurrent => exact syncedCurrent
    case fsyncDir => exact named

lemma Ending.leaves_handle (store : DurableStore) (seq : Nat) (bytes : Bytes) (hash : Digest)
    (ending : Ending) : (ending.leaves seq bytes hash store).current =
        (if ending.named then seq else store.current) ∧
      (ending.leaves seq bytes hash store).lastHash =
        if ending.named then hash else store.lastHash := by
  rcases ending with stage | fault
  · cases stage <;> simp [Ending.leaves, publish, Ending.named, onCommits, onRoot, advance]
  · cases fault <;> simp [Ending.leaves, publish, Ending.named, onCommits, onRoot, advance]

end Publish

section Reading

variable {K : StoreKit} {key : Bytes} {drive : DriveId} {written : List (FiledBatch P)} {base : Nat}
  {disk : Disk} {store : DurableStore}

lemma Journal.readCurrent (journal : Journal K key drive written base disk) :
    readCurrent disk = .ok (written.length, tipHash K drive written) := by
  have hn := journal.names disk.root.pending.length
  rw [journal.tip, take_length, Names] at hn
  split_ifs at hn with empty
  · subst empty
    simp [Durable.readCurrent, Volume.read, Volume.visible, hn, tipHash]
  · obtain ⟨before, batch, rfl⟩ := (eq_nil_or_concat' written).resolve_left empty
    have fits := (journal.accepted before batch prefix_rfl).fits
    exact readCurrent_pointer (by rw [length_append]; exact fits) hn.read

lemma Journal.read (journal : Journal K key drive written base store.disk)
    (before : List (FiledBatch P)) (batch : FiledBatch P) (short : before ++ [batch] <+: written) :
    store.disk.commits.read (.commit (before.length + 1)) = some (commitOf K drive before batch).1 :=
  (journal.files before batch short _).read

lemma Journal.committed (lawful : K.Lawful)
    (journal : Journal K store.key store.drive written base store.disk) :
    committed P K store = replayed store.drive (written.map FiledBatch.facts) := by
  have reads := readCommits_chain lawful journal.accepted journal.read
  cases outcome : replayed store.drive (written.map FiledBatch.facts) with
  | ok =>
    rw [outcome] at reads
    exact readLog_ok.mpr ⟨_, journal.readCurrent, reads⟩
  | error =>
    rw [outcome] at reads
    exact readLog_error journal.readCurrent reads

lemma Journal.recorded (journal : Journal K store.key store.drive written base store.disk) :
    recorded K store = .ok (written.flatMap FiledBatch.records) :=
  readLog_ok.mpr ⟨_, journal.readCurrent, readCommits_records journal.accepted journal.read⟩

lemma Life.reopened_journal (journal : Journal K key drive written base disk) :
    Life.reopened store disk =
      ⟨store.drive, store.key, disk, written.length, tipHash K drive written⟩ := by
  simp only [Life.reopened, reopen, journal.readCurrent, bind, Except.bind, pure, Except.pure]

end Reading

/-- The run's own count of the batches is the chain on disk, and the handle is at its
    end. -/
structure Life.Sound (K : StoreKit) (drive : DriveId) (life : Life P)
    (written : List (FiledBatch P)) : Prop where
  drive : life.store.drive = drive
  batches : written.map FiledBatch.facts = life.batches
  journal : Journal K life.store.key life.store.drive written life.settled.length life.store.disk
  current : life.store.current = written.length
  lastHash : life.store.lastHash = tipHash K life.store.drive written

/-- Every 64-bit field a run commits holds a 64-bit value. -/
def Event.Sized : Event P → Prop
  | .commit _ facts _ => ∀ fact ∈ facts, fact.Sized
  | _ => True

section Runs

variable {K : StoreKit} {drive : DriveId} {written : List (FiledBatch P)} {life : Life P}

lemma Life.sound_start {key} : (Life.start drive key : Life P).Sound K drive [] :=
  ⟨rfl, rfl, journal_empty, rfl, rfl⟩

lemma Life.Sound.refresh (sound : life.Sound K drive written) :
    Durable.refresh life.store = .ok life.store := by
  rw [Durable.refresh, sound.journal.readCurrent, sound.current]
  exact congrArg Except.ok (if_neg (lt_irrefl _))

lemma Life.Sound.record (sound : life.Sound K drive written)
    (accepted : Accepted K life.store.key life.store.drive written batch) (ending : Ending) :
    (life.record batch.facts ending (ending.leaves (written.length + 1)
      (commitOf K life.store.drive written batch).1 (commitOf K life.store.drive written batch).2
      life.store)).Sound K drive (if ending.named then written ++ [batch] else written) := by
  have journal := sound.journal.leaves accepted ending
  have handle := Ending.leaves_handle life.store (written.length + 1)
    (commitOf K life.store.drive written batch).1 (commitOf K life.store.drive written batch).2
    ending
  have count : life.batches.length = written.length := by rw [← sound.batches, length_map]
  rw [sound.current, sound.lastHash] at handle
  generalize after : ending.leaves _ _ _ life.store = next at handle journal ⊢
  have same : next.drive = life.store.drive := by rw [← after, Ending.leaves_drive]
  have key : next.key = life.store.key := by rw [← after, Ending.leaves_key]
  rw [← same, ← key] at journal
  have drive := same.trans sound.drive
  by_cases complete : ending = .stops .complete
  · subst complete
    refine ⟨drive, ?_, ?_, handle.1.trans ?_, ?_⟩
    · simp [Life.record, Ending.named, Life.batches, sound.batches]
    · simpa [Life.record, Ending.base, count] using journal
    · simp [Ending.named]
    · simpa [Life.record, Ending.named, tipHash_append, same] using handle.2
  rw [Life.record, if_neg complete]
  rw [Ending.base, if_neg complete] at journal
  cases named : ending.named with
  | true =>
    simp only [named, if_true] at journal handle ⊢
    refine ⟨drive, by simp [Life.batches, sound.batches], journal, by simp [handle.1], ?_⟩
    rw [handle.2, tipHash_append, same]
  | false =>
    -- a commit that ended earlier leaves the count as it was
    simp only [named, Bool.false_eq_true, if_false] at journal handle ⊢
    exact ⟨drive, sound.batches, journal, handle.1, by rw [same]; exact handle.2⟩

lemma Life.step_store (life : Life P) (drawn : Nat → Option Nonce) (facts : List (CommitFact P))
    (ending : Ending) : (life.step K (.commit drawn facts ending)).store =
      (commitUntil K drawn facts ending life.store).1 := by
  simp only [Life.step, Life.record]
  split_ifs <;> rfl

/-- A commit is refused and changes nothing, or its writes end as they do. -/
lemma Life.Sound.commit (sound : life.Sound K drive written) (some : facts ≠ [])
    (sized : ∀ fact ∈ facts, fact.Sized) (drawn : Nat → Option Nonce) (ending : Ending) :
    (∃ error, (commitUntil K drawn facts ending life.store).2 = .error error ∧
        (prepare K drawn facts life.store).2 = .error error ∧
        life.step K (.commit drawn facts ending) = life) ∨
      ∃ records, (commitUntil K drawn facts ending life.store).2 =
          ending.result (life.step K (.commit drawn facts ending)).store ∧
        (life.step K (.commit drawn facts ending)).store.key = life.store.key ∧
        (life.step K (.commit drawn facts ending)).Sound K drive
          (if ending.named then written ++ [⟨facts, records⟩] else written) := by
  have ends : (commitUntil K drawn facts ending).Ends life.store _ := commitUntil_ends some
  rw [Effect.Ends] at ends
  rw [Life.step_store]
  simp only [Life.step]
  generalize commitUntil K drawn facts ending life.store = outcome at ends ⊢
  obtain ⟨⟨error, failed, refused⟩, kept⟩ | ⟨fresh, records, seq, ⟨refreshed, encoded, stepped, few,
    small⟩, passed, ended, left⟩ := ends
  · refine .inl ⟨error, failed, refused, ?_⟩
    rw [refused, if_neg (by simp [Except.isOk, Except.toBool])]
    have same : outcome.1 = life.store := by
      rcases kept with same | refreshed
      · exact same
      · rw [sound.refresh] at refreshed
        exact (Except.ok.inj refreshed).symm
    rw [same]
  · rw [sound.refresh, Except.ok.injEq] at refreshed
    subst refreshed
    obtain ⟨rfl, fits⟩ := checkedAdd_eq_some.mp stepped
    have accepted : Accepted K life.store.key life.store.drive written ⟨facts, records⟩ := by
      refine ⟨⟨drawn, encoded⟩, sized, few, ?_, ?_⟩
      · rwa [sound.current, sound.lastHash] at small
      · rwa [sound.current] at fits
    rw [if_pos ⟨passed, some⟩]
    refine .inr ⟨records, ended, by rw [left, Ending.leaves_key], ?_⟩
    rw [left, sound.current, sound.lastHash]
    exact sound.record accepted ending

lemma Life.Sound.reopen {store disk settled unsettled}
    (journal : Journal K store.key store.drive written settled.length disk)
    (batches : written.map FiledBatch.facts = settled ++ unsettled) :
    Life.Sound K store.drive ⟨Life.reopened store disk, settled, unsettled⟩ written := by
  rw [Life.reopened_journal journal]
  exact ⟨rfl, batches, journal, rfl, rfl⟩

lemma Life.Sound.step (sound : life.Sound K drive written) {event} (sized : event.Sized) :
    ∃ written, (life.step K event).Sound K drive written := by
  cases event with
  | commit drawn facts ending =>
    by_cases some : facts = []
    · subst some
      refine ⟨written, ?_⟩
      rw [Life.step, if_neg (by simp)]
      exact sound
    · obtain ⟨_, -, -, same⟩ | ⟨_, -, -, kept⟩ := sound.commit some sized drawn ending
      · exact ⟨written, by rw [same]; exact sound⟩
      · exact ⟨_, kept⟩
  | restart => exact ⟨written, sound.drive ▸ Life.Sound.reopen sound.journal sound.batches⟩
  | powerLoss rootKept rootTorn commitsKept commitsTorn =>
    have journal := sound.journal.powerLoss rootKept rootTorn commitsKept commitsTorn
    have cut : (written.take (life.settled.length +
        life.store.disk.root.renames rootKept)).map FiledBatch.facts =
          life.settled ++ life.unsettled.take (life.store.disk.root.renames rootKept) := by
      rw [map_take, sound.batches, Life.batches, take_length_add_append]
    have few : life.store.disk.root.renames rootKept ≤ life.unsettled.length := by
      have tip := sound.journal.tip
      have fewer := life.store.disk.root.renames_le rootKept
      have count : written.length = life.settled.length + life.unsettled.length := by
        rw [← length_append, ← Life.batches, ← sound.batches, length_map]
      omega
    refine ⟨_, sound.drive ▸ Life.Sound.reopen ?_ (by rw [append_nil]; exact cut)⟩
    rwa [length_append, length_take, min_eq_left few]

lemma Life.Sound.run (sound : life.Sound K drive written) (hsz : ∀ event ∈ events, event.Sized) :
    ∃ written, (life.run K events).Sound K drive written := by
  induction events generalizing life written with
  | nil => exact ⟨written, sound⟩
  | cons event events ih =>
    obtain ⟨after, hs⟩ := sound.step (hsz event mem_cons_self)
    exact ih hs fun later hm => hsz later (mem_cons_of_mem _ hm)

/-- At every point of every run the directory opens, and the load returns the facts of
    exactly the batches whose pointer update is durable or at least done, in order and
    without the views that claim more. It fails exactly if one of these batches has a
    capability that is not read back. -/
theorem load_run (lawful : K.Lawful) (drive : DriveId) (key : Bytes) (events : List (Event P))
    (sized : ∀ event ∈ events, event.Sized) {life : Life P}
    (reached : Life.run K (Life.start drive key) events = life) :
    (reopen life.store.drive life.store.key life.store.disk).isOk = true ∧
      load P K life.store = (replayed drive life.batches).map (dropOverclaims P) := by
  obtain ⟨written, sound⟩ : ∃ written, life.Sound K drive written := by
    rw [← reached]
    exact Life.sound_start.run sized
  constructor
  · rw [reopen, sound.journal.readCurrent]
    rfl
  · rw [load, sound.journal.committed lawful, sound.batches, sound.drive]
    rfl

end Runs

section Sample

open Wyrd.Membership

def objectBatch (n : Nat) : List (CommitFact samplePrimitives) := [.localObject (sampleId n)]

/-- Both batches are durable, and neither is loaded. -/
theorem durable_batches_not_loaded :
    let life := Life.run sampleKit (Life.start (sampleId 0) [])
      [.commit (fun _ => some zeroNonce) [.capability foreignGrant] (.stops .complete),
        .commit (fun _ => none) (objectBatch 5) (.stops .complete)]
    life.settled.map (·.map CommitFact.decoded) =
        [[.capability foreignGrant.cap], [.localObject (sampleId 5)]] ∧
      load samplePrimitives sampleKit life.store = .error (.corruptCommit 1) := by
  decide +kernel

/-- A batch that lost its pointer update, one that left an orphaned commit file, one
    reported as failed when its pointer update was done, and the batches around them. -/
def stormyEvents : List (Event samplePrimitives) :=
  [.commit (fun _ => none) (objectBatch 1) (.stops .complete),
    .commit (fun _ => none) (objectBatch 2) (.stops .afterRenameCurrent),
    .powerLoss 1 (fun _ => [0xFF]) 0 (fun _ => [0xFF]),
    .commit (fun _ => none) (objectBatch 3) (.fails .fsyncCommitDir),
    .powerLoss 0 (fun _ => []) 2 (fun _ => []),
    .commit (fun _ => none) (objectBatch 4) (.fails .fsyncDir),
    .restart,
    .commit (fun _ => none) (objectBatch 5) (.stops .complete)]

theorem load_run_stormy :
    load samplePrimitives sampleKit
      (Life.run sampleKit (Life.start (sampleId 0) []) stormyEvents).store =
        .ok [.localObject (sampleId 1), .localObject (sampleId 4), .localObject (sampleId 5)] := by
  have hsz : ∀ event ∈ stormyEvents, event.Sized := by
    simp [stormyEvents, Event.Sized, objectBatch, Record.Sized]
  have loaded := (load_run sampleKit_lawful (sampleId 0) [] stormyEvents hsz rfl).2
  rw [loaded]
  decide +kernel

end Sample

end Wyrd.Durable
