import Wyrd.Author.Locality
import Wyrd.Authorization.Superseding
import Wyrd.Runtime.Continuity

/-! # Recovery

The owner grafts root entries of one recorded snapshot, and contents named by their ids, into
a snapshot over all eligible heads. Its tree is the selection alone: it supersedes the heads,
and what they held beside the selection is not live afterwards.
-/

namespace Wyrd.Author

open Wyrd.Runtime Authorization Closure Wyrd.Membership

inductive RecoveryStatus where
  | ready
  | alreadyLive
  | undecryptable
  | missing
  deriving DecidableEq

def worse : RecoveryStatus → RecoveryStatus → RecoveryStatus
  | .missing, _ | _, .missing => .missing
  | .undecryptable, _ | _, .undecryptable => .undecryptable
  | .alreadyLive, _ | _, .alreadyLive => .alreadyLive
  | .ready, .ready => .ready

structure RecoveryPath where
  path : String
  entry : Entry
  status : RecoveryStatus

inductive RecoverError (ε : Type) where
  | unknownRecoverySource (source : SnapshotId)
  | unknownRecoveryPath (path : String)
  | unknownRecoveryContent (content : ContentId)
  | recoveryEmptySelection
  | recoveryTreeInvalid (error : ComponentError ⊕ TreeError)
  | notEligibleHead (head : SnapshotId)
  | author (error : AuthorError ε)
  | engine (error : EngineError)
  | unfinished

structure Probing where
  stack : List ContentId
  seen : Finset ContentId
  status : RecoveryStatus

def settled {ε α : Type} : Option (Except (AuthorError ε) α) → Except (RecoverError ε) α
  | none => .error .unfinished
  | some outcome => outcome.mapError .author

def hexName (id : ContentId) : String :=
  String.ofList (List.leftpad 64 '0' (Nat.toDigits 16 id.raw.val))

namespace Env

variable {ε : Type} (env : Env ε) (session : Session)

/-- A chunk is here, or has a mapping that is held and served. A held mapping without its
    bytes is missing, and so is a chunk without any mapping. -/
def probeChunk (chunk : ContentId) : Except (AuthorError ε) RecoveryStatus := do
  if ← (env.has chunk).mapError .objectStore then return .ready
  if (env.recordedEntry session chunk).isSome then return .ready
  let mapped := env.recordedMappings chunk
  if mapped = [] ∨ mapped.any fun entry => (env.keyring entry.encryptionEpoch).isSome then
    return .missing
  return .undecryptable

def probeShallow (entry : Entry) : Except (AuthorError ε) RecoveryStatus :=
  (fileChunks entry).foldlM
    (fun status chunk => return worse status (← env.probeChunk session chunk)) .ready

def probeChild (state : Probing) (child : Entry) : Except (AuthorError ε) Probing := do
  let status ← env.probeShallow session child
  return ⟨(directoryOf child).toList ++ state.stack, state.seen, worse state.status status⟩

def probePass (state : Probing) : Pass Probing (Except (AuthorError ε) RecoveryStatus) :=
  match state.stack with
  | [] => .done (.ok state.status)
  | id :: rest =>
    if id ∈ state.seen then .more { state with stack := rest }
    else match env.get id with
      | .error error => .done (.error (.objectStore error))
      | .ok none => .done (.ok .missing)
      | .ok (some bytes) =>
        if env.K.contentId .tree bytes ≠ id then .done (.error (.treeMismatch id))
        else match Tree.decode bytes with
          | .error _ => .done (.error (.invalidTree id))
          | .ok tree =>
            match tree.entries.foldlM (env.probeChild session)
                ⟨rest, insert id state.seen, state.status⟩ with
            | .error error => .done (.error error)
            | .ok next => .more next

def probeEntry (fuel : Nat) (entry : Entry) : Option (Except (AuthorError ε) RecoveryStatus) :=
  match env.probeShallow session entry with
  | .error error => some (.error error)
  | .ok status => Machine.run (env.probePass session) fuel ⟨(directoryOf entry).toList, ∅, status⟩

/-- An entry for content without a path, named by its id. -/
def synthesizeEntry (id : ContentId) : Except (RecoverError ε) Entry := do
  let found ← (env.get id).mapError fun error => .author (.objectStore error)
  let bytes ← expect (.unknownRecoveryContent id) found
  let name ← (Component.new (hexName id)).mapError fun error => .recoveryTreeInvalid (.inl error)
  return ⟨name, if (Tree.decode bytes).isOk then .dir id else .file (.ofNat bytes.length) false [id]⟩

end Env

/-- What a recovery reads: the rebuilt engine, the object store and the vault. -/
structure Recovery (P : Primitives) (ε : Type) where
  engine : Engine P
  env : Env ε
  session : Session
  fuel : Nat

namespace Recovery

variable {P : Primitives} {ε : Type} (recovery : Recovery P ε)

def loadRoot (tree : ContentId) : Except (RecoverError ε) Tree :=
  ((recovery.env.loadTree tree).map Prod.snd).mapError .author

def liveRootNames : Except (RecoverError ε) (List String) := do
  let roots ← recovery.engine.heads.mapM fun head => do
    let body ← expect (.notEligibleHead head) (recovery.engine.dag.snapshot head)
    recovery.loadRoot body.tree
  return roots.flatMap fun root => root.entries.map (·.name.name)

def planRow (live : List String) (entry : Entry) : Except (RecoverError ε) RecoveryPath := do
  if entry.name.name ∈ live then return ⟨entry.name.name, entry, .alreadyLive⟩
  let status ← settled (recovery.env.probeEntry recovery.session recovery.fuel entry)
  return ⟨entry.name.name, entry, status⟩

def plan (source : SnapshotId) : Except (RecoverError ε) (List RecoveryPath) := do
  let body ← expect (.unknownRecoverySource source) (recovery.engine.dag.snapshot source)
  let root ← recovery.loadRoot body.tree
  let live ← recovery.liveRootNames
  root.entries.mapM (recovery.planRow live)

def select (rows : List RecoveryPath) (takes : List String) (all : Bool)
    (contents : List ContentId) : Except (RecoverError ε) (List Entry) := do
  let named ← takes.mapM fun take =>
    expect (.unknownRecoveryPath take) (rows.find? fun row => decide (row.path = take))
  let grafts ← contents.mapM recovery.env.synthesizeEntry
  let taken := (if all then rows else named).map RecoveryPath.entry ++ grafts
  demand .recoveryEmptySelection (taken ≠ [])
  return taken

/-- Graft the selection and author it. `inserted` is the store's answer to the graft tree; the
    result is the store with it, and the snapshot. -/
def recover (host : Host) (inserted : Except ε Unit) (now : Nat) (source : SnapshotId)
    (takes : List String) (all : Bool) (contents : List ContentId) :
    Except (RecoverError ε) (Env ε × Snapshot) := do
  let rows ← recovery.plan source
  let taken ← recovery.select rows takes all contents
  recovery.engine.checkRecoveryOwner.mapError .engine
  taken.forM fun entry =>
    settled (recovery.env.checkLocal recovery.session recovery.fuel entry)
  let grafted ← (Tree.fromEntries taken).mapError fun error => .recoveryTreeInvalid (.inr error)
  inserted.mapError fun error => .author (.objectStore error)
  let s ← (recovery.engine.authorRecovery host (recovery.env.treeIdOf grafted) now).mapError .engine
  return (recovery.env.withTree grafted, s)

variable {recovery} {source : SnapshotId} {takes : List String} {all : Bool}
  {contents : List ContentId} {rows : List RecoveryPath} {taken : List Entry}

lemma loadRoot_ok {tree : ContentId} {root : Tree} :
    recovery.loadRoot tree = .ok root ↔ ∃ bytes, recovery.env.loadTree tree = .ok (bytes, root) := by
  rw [loadRoot, mapError_ok]
  cases recovery.env.loadTree tree with
  | error => simp [Except.map]
  | ok => simp [Except.map, Prod.ext_iff]

lemma planRow_ok (plans : recovery.planRow live entry = .ok row) :
    row.entry = entry ∧ row.path = entry.name.name := by
  unfold planRow at plans
  split_ifs at plans
  · cases plans
    exact ⟨rfl, rfl⟩
  · obtain ⟨status, -, hd⟩ := bind_ok.mp plans
    cases hd
    exact ⟨rfl, rfl⟩

lemma plan_ok (plans : recovery.plan source = .ok rows) :
    ∃ body bytes root, recovery.engine.dag.snapshot source = some body ∧
      recovery.env.loadTree body.tree = .ok (bytes, root) ∧
      (∀ row ∈ rows, row.entry ∈ root.entries ∧ row.path = row.entry.name.name) ∧
      ∀ entry ∈ root.entries, ∃ row ∈ rows, row.entry = entry := by
  obtain ⟨body, hf, plans⟩ := bind_ok.mp plans
  obtain ⟨root, hl, plans⟩ := bind_ok.mp plans
  obtain ⟨live, -, plans⟩ := bind_ok.mp plans
  have paired := mapM_ok.mp plans
  obtain ⟨bytes, hr⟩ := loadRoot_ok.mp hl
  refine ⟨body, bytes, root, expect_ok.mp hf, hr, fun row hm => ?_, fun entry hm => ?_⟩
  · obtain ⟨entry, mem, made⟩ := paired_right paired hm
    rw [(planRow_ok made).1]
    exact ⟨mem, (planRow_ok made).2⟩
  · obtain ⟨row, mem, made⟩ := paired_left paired hm
    exact ⟨row, mem, (planRow_ok made).1⟩

lemma select_ok {root : Tree} (chosen : recovery.select rows takes all contents = .ok taken)
    (rooted : ∀ row ∈ rows, row.entry ∈ root.entries ∧ row.path = row.entry.name.name)
    (full : ∀ entry ∈ root.entries, ∃ row ∈ rows, row.entry = entry) (entry : Entry) :
    entry ∈ taken ↔ entry ∈ root.entries ∧ (all = true ∨ entry.name.name ∈ takes) ∨
      ∃ id ∈ contents, recovery.env.synthesizeEntry id = .ok entry := by
  obtain ⟨named, hf, chosen⟩ := bind_ok.mp chosen
  obtain ⟨grafts, made, chosen⟩ := bind_ok.mp chosen
  obtain ⟨_, -, hd⟩ := bind_ok.mp chosen
  cases hd
  have grafted : entry ∈ grafts ↔ ∃ id ∈ contents, recovery.env.synthesizeEntry id = .ok entry := by
    refine ⟨paired_right (mapM_ok.mp made), fun ⟨id, hl, hs⟩ => ?_⟩
    obtain ⟨other, hm, made⟩ := paired_left (mapM_ok.mp made) hl
    cases hs.symm.trans made
    exact hm
  rw [List.mem_append, grafted]
  refine or_congr_left ?_
  cases all with
  | true =>
    simp only [if_true, List.mem_map, true_or, and_true]
    exact ⟨fun ⟨row, hm, hs⟩ => hs ▸ (rooted row hm).1, full entry⟩
  | false =>
    simp only [Bool.false_eq_true, if_false, List.mem_map, false_or]
    constructor
    · rintro ⟨row, hm, rfl⟩
      obtain ⟨take, hl, looked⟩ := paired_right (mapM_ok.mp hf) hm
      have looked := expect_ok.mp looked
      obtain ⟨mem, path⟩ := rooted row (List.mem_of_find?_eq_some looked)
      refine ⟨mem, ?_⟩
      have hs : row.path = take := by simpa using List.find?_some looked
      rw [← path, hs]
      exact hl
    · rintro ⟨mem, hl⟩
      obtain ⟨row, hm, looked⟩ := paired_left (mapM_ok.mp hf) hl
      have looked := expect_ok.mp looked
      obtain ⟨hw, path⟩ := rooted row (List.mem_of_find?_eq_some looked)
      have hs : row.path = entry.name.name := by simpa using List.find?_some looked
      -- Names are unique in the source.
      exact ⟨row, hm, List.inj_on_of_nodup_map root.names_nodup hw mem
        (Component.name_injective (path.symm.trans hs))⟩

lemma recover_ok
    (healed : recovery.recover host inserted now source takes all contents = .ok (after, s)) :
    ∃ rows taken grafted, recovery.plan source = .ok rows ∧
      recovery.select rows takes all contents = .ok taken ∧ Tree.fromEntries taken = .ok grafted ∧
      after = recovery.env.withTree grafted ∧
      recovery.engine.authorRecovery host (recovery.env.treeIdOf grafted) now = .ok s := by
  obtain ⟨rows, hp, healed⟩ := bind_ok.mp healed
  obtain ⟨taken, hc, healed⟩ := bind_ok.mp healed
  obtain ⟨_, -, healed⟩ := bind_ok.mp healed
  obtain ⟨_, -, healed⟩ := bind_ok.mp healed
  obtain ⟨grafted, hm, healed⟩ := bind_ok.mp healed
  obtain ⟨_, -, healed⟩ := bind_ok.mp healed
  obtain ⟨_, hw, hd⟩ := bind_ok.mp healed
  cases hd
  exact ⟨rows, taken, grafted, hp, hc, mapError_ok.mp hm, rfl, mapError_ok.mp hw⟩

lemma authorOver_drafts {engine : Engine P} {s : Snapshot}
    (wrote : engine.authorOver host tree parents flags now = .ok s) :
    s.tree = tree ∧ s.author = engine.device := by
  simp only [Engine.authorOver, bind_ok, mapError_ok] at wrote
  obtain ⟨_, _, _, _, _, _, _, _, _, _, draft, drafted, _, _, _, _, _, _, hd⟩ := wrote
  cases hd
  rw [Snapshot.new] at drafted
  split_ifs at drafted
  cases drafted
  exact ⟨rfl, rfl⟩

/-- A recovery supersedes the eligible heads, over the tree it was given. -/
lemma authorRecovery_ok {engine : Engine P} {s : Snapshot}
    (wrote : engine.authorRecovery host tree now = .ok s)
    (new : engine.dag.snapshot (P.snapshotId s) = none)
    (unnamed : ∀ other, ¬ ParentEdge engine.dag (P.snapshotId s) other) :
    s.tree = tree ∧ Supersedes engine.log engine.dag s := by
  obtain ⟨_, owns, wrote⟩ := bind_ok.mp wrote
  have fields := Engine.authorOver_ok wrote
  obtain ⟨known, ht, owns⟩ := bind_ok.mp owns
  have made := authorOver_drafts wrote
  refine ⟨made.1, new, unnamed, fields.passes, fun _ => ?_, fields.tipEpoch, fields.parents⟩
  rw [tipOwners, Runtime.demand_ok.mp ht, Option.bind_some, made.2]
  by_contra hs
  rw [if_neg hs] at owns
  cases owns

/-- After a recovery the root of the drive is the selection alone. The recovery is on all heads
    that were eligible and is the only one afterwards; its tree, which the store then holds, has
    the taken entries of the source and the synthesized ones, and no other. -/
theorem recovery_leaves_selection {host : Host} {inserted : Except ε Unit} {now : Nat}
    {after : Env ε} {s : Snapshot}
    (recovered : recovery.recover host inserted now source takes all contents = .ok (after, s))
    (fresh : recovery.engine.dag.snapshot (P.snapshotId s) = none)
    (unnamed : ∀ other, ¬ ParentEdge recovery.engine.dag (P.snapshotId s) other) :
    s.parents = recovery.engine.heads ∧ (recovery.engine.commit s).heads = [P.snapshotId s] ∧
      ∃ body bytes root, ∃ tree : Tree, recovery.engine.dag.snapshot source = some body ∧
        recovery.env.loadTree body.tree = .ok (bytes, root) ∧
        after.get s.tree = .ok (some tree.encode) ∧ after.K.contentId .tree tree.encode = s.tree ∧
        ∀ entry, entry ∈ tree.entries ↔
          entry ∈ root.entries ∧ (all = true ∨ entry.name.name ∈ takes) ∨
            ∃ id ∈ contents, recovery.env.synthesizeEntry id = .ok entry := by
  obtain ⟨rows, taken, tree, hp, hc, hm, rfl, hw⟩ := recover_ok recovered
  obtain ⟨body, bytes, root, hf, hl, hr, full⟩ := plan_ok hp
  obtain ⟨atTree, atop⟩ := authorRecovery_ok hw fresh unnamed
  refine ⟨atop.parents, atop.eligibleHeads_observe, body, bytes, root, tree, hf, hl,
    atTree ▸ Env.get_merged, atTree ▸ rfl, fun entry => ?_⟩
  rw [(Tree.fromEntries_perm hm).mem_iff]
  exact select_ok hc hr full entry

end Recovery

section Sample

/-- The owner's drive with one head, which holds a file and a directory. -/
def liveEngine : Engine samplePrimitives :=
  freshEngine.commit { firstSnapshot with tree := upperId sampleChunk }

def sampleRecovery : Recovery samplePrimitives Unit :=
  ⟨liveEngine, sampleEnv sampleChunk [], .begin (fun _ => none) 0, 3⟩

def takenFile : Except (RecoverError Unit) (Env Unit × Snapshot) :=
  sampleRecovery.recover sampleHost (.ok ()) 0 (sampleId 1) ["a"] false []

theorem recovery_leaves_selection_sample : ∃ after s, takenFile = .ok (after, s) ∧
    s.parents = [sampleId 1] ∧ (liveEngine.commit s).heads = [samplePrimitives.snapshotId s] := by
  have heads : liveEngine.heads = [sampleId 1] := by decide +kernel
  obtain ⟨⟨after, s⟩, healed, hn⟩ : ∃ result, takenFile = .ok result ∧
      samplePrimitives.snapshotId result.2 = sampleId 2 := by decide +kernel
  obtain ⟨hp, left, -⟩ := Recovery.recovery_leaves_selection healed
    (by rw [hn]; decide +kernel)
    (fun other he => absurd (mem_referenced.mpr ⟨other, he⟩) (by rw [hn]; decide +kernel))
  exact ⟨after, s, healed, hp.trans heads, left⟩

def fileTree : Tree where
  entries := [⟨fileName, .file 1 false [sampleChunk]⟩]
  sorted := List.pairwise_singleton ..
  fits := ⟨one_le_countLimit, fun entry member => by
    rw [List.mem_singleton.mp member]
    rfl⟩

/-- The directory beside the file is live before, and not afterwards. -/
theorem recovery_drops_directory :
    liveEngine.heads = [sampleId 1] ∧
    (liveEngine.dag.snapshot (sampleId 1)).map Snapshot.tree = some (upperId sampleChunk) ∧
    (takenFile.toOption.map fun result =>
      ((liveEngine.commit result.2).heads, samplePrimitives.snapshotId result.2,
        result.1.get result.2.tree)) = some ([sampleId 2], sampleId 2, .ok (some fileTree.encode)) := by
  refine ⟨?_, ?_, ?_⟩
  all_goals decide +kernel

end Sample

end Wyrd.Author
