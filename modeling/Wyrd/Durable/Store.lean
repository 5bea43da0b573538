import Wyrd.Durable.Codec.Framing
import Wyrd.Lib.Effect
import Wyrd.Lib.Volume

/-! # The commit store

A drive's facts live in numbered commit files, each naming the hash of the one
before; `CURRENT` names the last one. A commit writes its file under a scratch name,
syncs and renames it, syncs the directory, and only then replaces `CURRENT` the same
way. A load replays the files up to `CURRENT`, checks every link, and drops the
stated views that claim more than the facts hold.
-/

namespace Wyrd.Durable

open List

open Reader Keys

inductive RootName where
  | current
  | currentTmp
  deriving DecidableEq

inductive CommitName where
  | commit (seq : Nat)
  | temp (seq : Nat)
  deriving DecidableEq

def RootName.Scratch (name : RootName) : Prop := name = .currentTmp

def CommitName.Scratch (name : CommitName) : Prop := ∃ seq, name = .temp seq

/-- The store directory and its `commits` directory. -/
structure Disk where
  root : Volume RootName
  commits : Volume CommitName

structure Disk.Intact (disk : Disk) : Prop where
  root : disk.root.Intact RootName.Scratch
  commits : disk.commits.Intact CommitName.Scratch

/-- An open store: the handle's own idea of the tip, and the disk. -/
structure DurableStore where
  drive : DriveId
  key : Bytes
  disk : Disk
  current : Nat
  lastHash : Digest

/-- Where a commit stops in a test; production always runs to `complete`. -/
inductive CrashStage where
  | afterWriteTemp
  | afterFsyncTemp
  | afterRenameCommit
  | afterFsyncCommitDir
  | afterWriteCurrentTemp
  | afterFsyncCurrentTemp
  | afterRenameCurrent
  | complete
  deriving DecidableEq

/-- The file operation of a commit that fails. A failed write leaves no file, or one with
    any bytes in it. -/
inductive Fault where
  | writeTemp (left : Option Bytes)
  | fsyncTemp
  | renameCommit
  | fsyncCommitDir
  | writeCurrentTemp (left : Option Bytes)
  | fsyncCurrentTemp
  | renameCurrent
  | fsyncDir
  deriving DecidableEq

/-- How the writes of a commit end. -/
inductive Ending where
  | stops (stage : CrashStage)
  | fails (fault : Fault)
  deriving DecidableEq

def pointerBytes (seq : Nat) (hash : Digest) : Bytes := leBytes 8 seq ++ digestBytes hash

def readPointer : Reader (Nat × Digest) := do
  let seq ← word 8
  let hash ← readDigest
  return (seq, hash)

/-- The `CURRENT` marker; a missing one means a fresh store. -/
def readCurrent (disk : Disk) : Except StoreError (Nat × Digest) :=
  match disk.root.read .current with
  | none => .ok (0, 0)
  | some bytes =>
    match parse readPointer bytes with
    | none => .error .corruptCurrent
    | some pointer => .ok pointer

def Record.base? : DecodedFact → Option Fact
  | .transition t => some (.transition t)
  | .capability cap => some (.capability cap)
  | .announcement a => some (.announcement a)
  | .snapshotBody s => some (.snapshotBody s)
  | .manifest record => some (.manifest record)
  | .localObject content => some (.localObject content)
  | .objectRemoved content => some (.objectRemoved content)
  | .materialization content state => some (.materialization content state)
  | .controlMessage id => some (.controlMessage id)
  | .announcementQueued snapshot recipient => some (.announcementQueued snapshot recipient)
  | .transitionQueued id recipient => some (.transitionQueued id recipient)
  | .transitionDelivered id recipient => some (.transitionDelivered id recipient)
  | .transitionReconciled id recipient statement =>
    some (.transitionReconciled id recipient statement)
  | .reconciliationRequestReceived requester evidence =>
    some (.reconciliationRequestReceived requester evidence)
  | _ => none

def isSubsetOf (evidence other : ReconciliationEvidence) : Bool :=
  evidence.transitions.docs.all (· ∈ other.transitions.docs) &&
    evidence.snapshots.docs.all (· ∈ other.snapshots.docs) &&
    evidence.capabilities.docs.all (· ∈ other.capabilities.docs)

/-- Stated views that are not covered by the facts themselves are dropped. -/
def dropOverclaims (P : Primitives) (facts : List DecodedFact) : List DecodedFact :=
  let derived := deriveEvidence P (facts.filterMap Record.base?)
  facts.filter (fun fact => match fact with
    | .reconciliationView evidence => isSubsetOf evidence derived
    | _ => true)

section Load

variable {α : Type} (P : Primitives) (K : StoreKit) (decode : Tag → Bytes → Option α)

/-- One commit file: it must exist, at a size a commit can have. -/
def readCommit (store : DurableStore) (seq : Nat) (prev : Digest) :
    Except StoreError (List α × Digest) :=
  match store.disk.commits.read (.commit seq) with
  | none => .error (.missingCommit seq)
  | some bytes =>
    if maxCommitBytes < bytes.length then .error (.corruptCommit seq)
    else decodeCommitFile K store.drive decode bytes seq prev

/-- What the commits `1..=n` hold and the hash of the last. -/
def readCommits (store : DurableStore) : Nat → Except StoreError (List α × Digest)
  | 0 => .ok ([], 0)
  | n + 1 => do
      let before ← readCommits store n
      let here ← readCommit K decode store (n + 1) before.2
      return (before.1 ++ here.1, here.2)

/-- Everything committed up to `CURRENT`, with every link of the chain checked. -/
def readLog (store : DurableStore) : Except StoreError (List α) := do
  let pointer ← readCurrent store.disk
  let replayed ← readCommits K decode store pointer.1
  if replayed.2 ≠ pointer.2 then throw .corruptCurrent
  return replayed.1

/-- The records on disk, none of them decoded. -/
def recorded (store : DurableStore) : Except StoreError (List (Tag × Bytes)) :=
  readLog K (fun tag body => some (tag, body)) store

def committed (store : DurableStore) : Except StoreError (List DecodedFact) :=
  readLog K (decodeRecord P K store.key store.drive) store

def load (store : DurableStore) : Except StoreError (List DecodedFact) := do
  let facts ← committed P K store
  return dropOverclaims P facts

end Load

def checkCommitFits (records bytes : Nat) : Except StoreError Unit :=
  if maxRecordsPerCommit < records then .error (.tooManyRecords records maxRecordsPerCommit)
  else if maxCommitBytes < bytes then .error (.commitTooLarge bytes maxCommitBytes)
  else .ok ()

def nextSequence (current : Nat) : Except StoreError Nat :=
  match checkedAdd current 1 with
  | some seq => .ok seq
  | none => .error .sequenceExhausted

namespace DurableStore

/-- Open the directory: the tip is the one `CURRENT` names. -/
def reopen (drive : DriveId) (key : Bytes) (disk : Disk) : Except StoreError DurableStore := do
  let pointer ← readCurrent disk
  return ⟨drive, key, disk, pointer.1, pointer.2⟩

def onCommits (store : DurableStore) (change : Volume CommitName → Volume CommitName) :
    DurableStore :=
  { store with disk := { store.disk with commits := change store.disk.commits } }

def onRoot (store : DurableStore) (change : Volume RootName → Volume RootName) : DurableStore :=
  { store with disk := { store.disk with root := change store.disk.root } }

def advance (store : DurableStore) (seq : Nat) (hash : Digest) : DurableStore :=
  { store with current := seq, lastHash := hash }

end DurableStore

open DurableStore

/-- What a commit does to the disk, up to the stage it stops after. -/
def publish (seq : Nat) (bytes : Bytes) (hash : Digest) (stop : CrashStage)
    (store : DurableStore) : DurableStore :=
  let store := store.onCommits (·.create (.temp seq) bytes)
  if stop = .afterWriteTemp then store else
  let store := store.onCommits (·.syncFile (.temp seq))
  if stop = .afterFsyncTemp then store else
  let store := store.onCommits (·.rename (.temp seq) (.commit seq))
  if stop = .afterRenameCommit then store else
  let store := store.onCommits (·.syncDir)
  if stop = .afterFsyncCommitDir then store else
  let store := store.onRoot (·.create .currentTmp (pointerBytes seq hash))
  if stop = .afterWriteCurrentTemp then store else
  let store := store.onRoot (·.syncFile .currentTmp)
  if stop = .afterFsyncCurrentTemp then store else
  let store := (store.onRoot (·.rename .currentTmp .current)).advance seq hash
  if stop = .afterRenameCurrent then store else
  store.onRoot (·.syncDir)

/-- What the ending leaves on disk and in the handle. -/
def Ending.leaves (seq : Nat) (bytes : Bytes) (hash : Digest) (store : DurableStore) :
    Ending → DurableStore
  | .stops stage => publish seq bytes hash stage store
  | .fails (.writeTemp left) =>
    store.onCommits fun volume => left.elim volume (volume.create (.temp seq))
  | .fails .fsyncTemp => publish seq bytes hash .afterWriteTemp store
  | .fails .renameCommit => publish seq bytes hash .afterFsyncTemp store
  | .fails .fsyncCommitDir => publish seq bytes hash .afterRenameCommit store
  | .fails (.writeCurrentTemp left) => (publish seq bytes hash .afterFsyncCommitDir store).onRoot
      fun volume => left.elim volume (volume.create .currentTmp)
  | .fails .fsyncCurrentTemp => publish seq bytes hash .afterWriteCurrentTemp store
  | .fails .renameCurrent => publish seq bytes hash .afterFsyncCurrentTemp store
  -- `CURRENT` is renamed and the handle is at the new tip, yet the commit fails
  | .fails .fsyncDir => publish seq bytes hash .afterRenameCurrent store

def Ending.result (final : DurableStore) : Ending → Except StoreError Nat
  | .stops _ => .ok final.current
  | .fails _ => .error .io

section Commit

variable {P : Primitives} (K : StoreKit)

/-- A crashed predecessor may have advanced `CURRENT` further than the handle saw. -/
def refresh (store : DurableStore) : Except StoreError DurableStore := do
  let pointer ← readCurrent store.disk
  return if store.current < pointer.1 then store.advance pointer.1 pointer.2 else store

/-- The records of a batch, every capability under a nonce of its own. -/
def encodeFacts (key : Bytes) (drive : DriveId) (drawn : Nat → Option Nonce)
    (facts : List (CommitFact P)) : Except StoreError (List (Tag × Bytes)) :=
  facts.zipIdx.mapM (fun numbered => encodeFact K key drive (drawn numbered.2) numbered.1)

/-- The checks and the encoding of a commit: the sequence and the file to write. Nothing
    is written for a batch that a load would refuse for its size. -/
def prepare (drawn : Nat → Option Nonce) (facts : List (CommitFact P)) :
    Effect DurableStore StoreError (Nat × Bytes × Digest) := do
  Effect.lift (checkCommitFits facts.length 0)
  let store ← Effect.get
  let store ← Effect.lift (refresh store)
  Effect.set store
  let records ← Effect.lift (encodeFacts K store.key store.drive drawn facts)
  let seq ← Effect.lift (nextSequence store.current)
  let encoded := encodeCommit K store.drive seq store.lastHash records
  Effect.lift (checkCommitFits records.length encoded.1.length)
  return (seq, encoded)

/-- Commit a batch as the next sequence, with writes that end as named. -/
def commitUntil (drawn : Nat → Option Nonce) (facts : List (CommitFact P)) (ending : Ending) :
    Effect DurableStore StoreError Nat :=
  if facts = [] then do
    let store ← Effect.get
    return store.current
  else do
    let file ← prepare K drawn facts
    let store ← Effect.get
    let store := ending.leaves file.1 file.2.1 file.2.2 store
    Effect.set store
    Effect.lift (ending.result store)

def commit (drawn : Nat → Option Nonce) (facts : List (CommitFact P)) :
    Effect DurableStore StoreError Nat := commitUntil K drawn facts (.stops .complete)

end Commit

lemma mapM_of_mapM_ok {α β γ ε : Type} {first : α → Except ε β} {second : β → Option γ}
    {direct : α → Option γ} {items : List α} {results : List β}
    (maps : items.mapM first = .ok results)
    (hs : ∀ item ∈ items, ∀ result ∈ results, first item = .ok result →
      second result = direct item) : results.mapM second = items.mapM direct := by
  induction items generalizing results with
  | nil =>
    cases maps
    rfl
  | cons item items ih =>
    rw [mapM_cons, bind_ok] at maps
    obtain ⟨result, hh, maps⟩ := maps
    obtain ⟨results, hl, maps⟩ := bind_ok.mp maps
    cases maps
    rw [mapM_cons, mapM_cons,
      hs item mem_cons_self result mem_cons_self hh,
      ih hl fun other hm result hr =>
        hs other (mem_cons_of_mem _ hm) result (mem_cons_of_mem _ hr)]

lemma mapM_ite {α β : Type} (test : α → Bool) (f : α → β) (items : List α) :
    (items.mapM fun item => if test item = true then some (f item) else none) =
      if items.all test then some (items.map f) else none := by
  induction items with
  | nil => rfl
  | cons item items ih =>
    rw [mapM_cons, ih, all_cons]
    cases test item <;> cases items.all test <;> rfl

section Accepted

variable {P : Primitives} {K : StoreKit} {key : Bytes} {drive : DriveId} {drawn : Nat → Option Nonce}
  {facts : List (CommitFact P)} {records : List (Tag × Bytes)}

lemma mapM_decodeRecord (lawful : K.Lawful) (hsz : ∀ fact ∈ facts, fact.Sized)
    (coded : encodeFacts K key drive drawn facts = .ok records)
    (short : ∀ record ∈ records, record.2.length < 2 ^ 32) :
    (records.mapM fun record => decodeRecord P K key drive record.1 record.2) =
      if facts.all (CommitFact.readable drive) then some (facts.map CommitFact.decoded)
      else none := by
  let readBack : CommitFact P → Option DecodedFact := fun fact =>
    if fact.readable drive = true then some fact.decoded else none
  have each : (records.mapM fun record => decodeRecord P K key drive record.1 record.2) =
      facts.zipIdx.mapM (readBack ∘ Prod.fst) := by
    apply mapM_of_mapM_ok coded
    rintro ⟨fact, index⟩ hm ⟨tag, body⟩ hr hh
    obtain ⟨body, coded, hs⟩ := bind_ok.mp hh
    cases hs
    have hl : fact ∈ facts := (mem_zipIdx' hm).2 ▸ getElem_mem _
    exact decodeRecord_encodeBody lawful (hsz fact hl) coded (short _ hr)
  rw [each, ← mapM_map, zipIdx_map_fst]
  exact mapM_ite _ _ facts

/-- A commit within the ceilings reads back, unless one of its facts does not. -/
lemma decodeCommitFile_encodeFacts (lawful : K.Lawful) (hsz : ∀ fact ∈ facts, fact.Sized)
    (coded : encodeFacts K key drive drawn facts = .ok records) (fits : Fits64 seq)
    (prev : Digest) (few : records.length ≤ maxRecordsPerCommit)
    (small : (encodeCommit K drive seq prev records).1.length ≤ maxCommitBytes) :
    decodeCommitFile K drive (decodeRecord P K key drive) (encodeCommit K drive seq prev records).1
        seq prev =
      if facts.all (CommitFact.readable drive) then
        .ok (facts.map CommitFact.decoded, (encodeCommit K drive seq prev records).2)
      else .error (.corruptCommit seq) := by
  have short : ∀ record ∈ records, record.2.length < 2 ^ 32 := by
    intro record hm
    have := length_record_le hm
    rw [length_encodeCommit] at small
    unfold maxCommitBytes at small
    omega
  rw [decodeCommitFile_encodeCommit fits prev few small, mapM_decodeRecord lawful hsz coded short]
  split_ifs <;> rfl

end Accepted

section Outcome

variable {P : Primitives} {K : StoreKit} {store : DurableStore} {drawn : Nat → Option Nonce}
  {facts : List (CommitFact P)} {ending : Ending}

/-- Every gate of the commit passed, from the handle as it is after the refresh. -/
structure Prepared (K : StoreKit) (drawn : Nat → Option Nonce) (facts : List (CommitFact P))
    (store fresh : DurableStore) (records : List (Tag × Bytes)) (seq : Nat) : Prop where
  refreshed : refresh store = .ok fresh
  encoded : encodeFacts K fresh.key fresh.drive drawn facts = .ok records
  stepped : checkedAdd fresh.current 1 = some seq
  few : records.length ≤ maxRecordsPerCommit
  small : (encodeCommit K fresh.drive seq fresh.lastHash records).1.length ≤ maxCommitBytes

lemma checkCommitFits_ok :
    checkCommitFits records bytes = .ok () ↔
      records ≤ maxRecordsPerCommit ∧ bytes ≤ maxCommitBytes := by
  unfold checkCommitFits
  split_ifs <;> simp <;> omega

/-- The gates refuse and leave at most a refreshed handle, or they all pass. -/
lemma prepare_ends :
    (prepare K drawn facts).Ends store (fun outcome final =>
      (∃ error, outcome = .error error) ∧ (final = store ∨ refresh store = .ok final) ∨
        ∃ records seq, outcome = .ok (seq, encodeCommit K final.drive seq final.lastHash records) ∧
          Prepared K drawn facts store final records seq) := by
  rw [prepare, Effect.ends_bind, Effect.ends_lift]
  cases checkCommitFits facts.length 0 with
  | error => exact .inl ⟨⟨_, rfl⟩, .inl rfl⟩
  | ok =>
    simp only [Effect.ends_bind, Effect.ends_get, Effect.ends_lift]
    cases refreshed : refresh store with
    | error => exact .inl ⟨⟨_, rfl⟩, .inl trivial⟩
    | ok fresh =>
      simp only [Effect.ends_set]
      cases encoded : encodeFacts K fresh.key fresh.drive drawn facts with
      | error => exact .inl ⟨⟨_, rfl⟩, .inr trivial⟩
      | ok records =>
        simp only [nextSequence]
        cases stepped : checkedAdd fresh.current 1 with
        | none => exact .inl ⟨⟨_, rfl⟩, .inr trivial⟩
        | some seq =>
          simp only
          cases fits : checkCommitFits records.length
              (encodeCommit K fresh.drive seq fresh.lastHash records).1.length with
          | error => exact .inl ⟨⟨_, rfl⟩, .inr trivial⟩
          | ok =>
            obtain ⟨few, small⟩ := checkCommitFits_ok.mp fits
            exact .inr ⟨records, seq, rfl, refreshed, encoded, stepped, few, small⟩

/-- A commit is refused by a gate, or its writes end as they do. -/
lemma commitUntil_ends (some : facts ≠ []) :
    (commitUntil K drawn facts ending).Ends store (fun outcome final =>
      (∃ error, outcome = .error error ∧ (prepare K drawn facts store).2 = .error error) ∧
          (final = store ∨ refresh store = .ok final) ∨
        ∃ fresh records seq, Prepared K drawn facts store fresh records seq ∧
          (prepare K drawn facts store).2.isOk = true ∧ outcome = ending.result final ∧
          final = ending.leaves seq (encodeCommit K fresh.drive seq fresh.lastHash records).1
            (encodeCommit K fresh.drive seq fresh.lastHash records).2 fresh) := by
  have gates : (prepare K drawn facts).Ends store _ := prepare_ends
  rw [commitUntil, if_neg some, Effect.ends_bind]
  rw [Effect.Ends] at gates ⊢
  rcases gates with ⟨⟨error, refused⟩, same⟩ | ⟨records, seq, passed, prepared⟩
  · rw [refused]
    exact .inl ⟨⟨error, rfl, rfl⟩, same⟩
  · rw [passed]
    exact .inr ⟨_, records, seq, prepared, rfl, rfl, rfl⟩

end Outcome

section Complete

variable {store : DurableStore} {seq : Nat} {bytes : Bytes} {hash : Digest}

@[simp] lemma publish_drive (stop : CrashStage) :
    (publish seq bytes hash stop store).drive = store.drive := by
  simp [publish, apply_ite DurableStore.drive, onCommits, onRoot, advance]

@[simp] lemma publish_key (stop : CrashStage) :
    (publish seq bytes hash stop store).key = store.key := by
  simp [publish, apply_ite DurableStore.key, onCommits, onRoot, advance]

lemma Ending.leaves_stops (stage : CrashStage) :
    (Ending.stops stage).leaves seq bytes hash store = publish seq bytes hash stage store := rfl

lemma Ending.leaves_drive (ending : Ending) :
    (ending.leaves seq bytes hash store).drive = store.drive := by
  rcases ending with stage | fault
  · exact publish_drive stage
  · cases fault <;> simp [Ending.leaves, onCommits, onRoot]

lemma Ending.leaves_key (ending : Ending) :
    (ending.leaves seq bytes hash store).key = store.key := by
  rcases ending with stage | fault
  · exact publish_key stage
  · cases fault <;> simp [Ending.leaves, onCommits, onRoot]

@[simp] lemma publish_current : (publish seq bytes hash .complete store).current = seq := rfl

lemma publish_complete : (publish seq bytes hash .complete store).disk =
    ⟨(((store.disk.root.create .currentTmp (pointerBytes seq hash)).syncFile .currentTmp).rename
        .currentTmp .current).syncDir,
      (((store.disk.commits.create (.temp seq) bytes).syncFile (.temp seq)).rename
        (.temp seq) (.commit seq)).syncDir⟩ := rfl

lemma publish_read_current : (publish seq bytes hash .complete store).disk.root.read .current =
    some (pointerBytes seq hash) := by
  rw [publish_complete, Volume.read_syncDir, Volume.read_rename_target (by decide),
    Volume.read_syncFile, Volume.read_create_self]

lemma publish_read_commit : (publish seq bytes hash .complete store).disk.commits.read
    (.commit seq) = some bytes := by
  rw [publish_complete, Volume.read_syncDir, Volume.read_rename_target (by simp),
    Volume.read_syncFile, Volume.read_create_self]

lemma publish_read_other (intact : store.disk.Intact) (hne : other ≠ seq) :
    (publish seq bytes hash .complete store).disk.commits.read (.commit other) =
      store.disk.commits.read (.commit other) := by
  rw [publish_complete, Volume.read_syncDir, Volume.read_rename_other (by simp) (by simpa using hne),
    Volume.read_syncFile, Volume.read_create_other intact.commits ⟨seq, rfl⟩ (by simp)]

end Complete

end Wyrd.Durable
