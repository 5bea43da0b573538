import Wyrd.Author.Walk
import Wyrd.Intake.Runs

/-! # The hierarchy that an author builds

Over a closure that is all there, the walk returns the record of the root over one record
for every other tree, each after the records it links. The manifests correspond to the
trees, so that the author's own check accepts them, as every receiver's will.
-/

namespace Wyrd.Author

open List Finset

open Closure Seal

variable {ε : Type} {env : Env ε} {start session : Session} {treeId id subtree chunk : ContentId}

namespace Env

/-- A closure that is finite, with every node in the store. -/
structure Complete (env : Env ε) (treeId : ContentId) : Prop where
  finite : Acc env.Child treeId
  present : ∀ id, (env.closure treeId).Reaches id → ∃ bytes tree, env.Loads id bytes tree

def ResolvesToChunk (env : Env ε) (session : Session) (chunk : ContentId) : Prop :=
  match env.recordedEntry session chunk with
  | some entry => entry.kind = .chunk
  | none => ∃ bytes, env.get chunk = .ok (some bytes) ∧ env.K.contentId .chunk bytes = chunk

/-- The chunks of a closure resolve to chunks in every session between two. -/
def Resolves (env : Env ε) (treeId : ContentId) (start final : Session) : Prop :=
  ∀ chunk, (env.closure treeId).ReachesChunk chunk → ∀ session, Serves start session →
    Serves session final → env.ResolvesToChunk session chunk

/-- The manifests just built, checked against the tree that is signed over. -/
def selfCheck (env : Env ε) (treeId : ContentId) (root : ManifestRecord)
    (children : List ManifestRecord) : Claimed ε :=
  { env.closure treeId with
    rootId := root.manifestId
    root := root.manifest
    children := fun id => (lastWhere (·.manifestId = id) children).map (·.manifest) }

variable {root : ManifestRecord} {children : List ManifestRecord}

lemma reaches_selfCheck :
    (env.selfCheck treeId root children).Reaches id ↔ (env.closure treeId).Reaches id := by
  constructor
  · intro hr
    induction hr with
    | root => exact .root
    | step _ reads hn ih => exact .step ih reads hn
  · intro hr
    induction hr with
    | root => exact .root
    | step _ reads hn ih => exact .step ih reads hn

lemma reachesChunk_selfCheck :
    (env.selfCheck treeId root children).ReachesChunk chunk ↔
      (env.closure treeId).ReachesChunk chunk := by
  constructor
  · rintro ⟨id, tree, size, hr, rest⟩
    exact ⟨id, tree, size, reaches_selfCheck.mp hr, rest⟩
  · rintro ⟨id, tree, size, hr, rest⟩
    exact ⟨id, tree, size, reaches_selfCheck.mpr hr, rest⟩

section Kinds

variable {entry : ManifestEntry}
  (resolves : env.Resolves treeId start session)
  (apart : ∀ chunk, (env.closure treeId).ReachesChunk chunk → ¬ (env.closure treeId).Reaches chunk)

include apart

lemma Backed.kind_tree (backed : env.Backed start treeId session id entry)
    (hr : (env.closure treeId).Reaches id) :
    entry.kind = .tree ∧ ∀ bytes, env.get id = .ok (some bytes) → entry.size = bytes.length := by
  cases backed with
  | recorded _ _ _ chunk => exact absurd hr (apart id chunk)
  | stored bytes _ kind held _ size =>
    rcases kind with ⟨-, chunk⟩ | ⟨kind, -⟩
    · exact absurd hr (apart id chunk)
    · refine ⟨kind, fun other hh => ?_⟩
      cases held.symm.trans hh
      exact size

include resolves

lemma Backed.kind_chunk (backed : env.Backed start treeId session chunk entry)
    (hr : (env.closure treeId).ReachesChunk chunk) : entry.kind = .chunk := by
  cases backed with
  | recorded earlier since still _ hf =>
    have solved := resolves chunk hr earlier since still
    unfold ResolvesToChunk at solved
    rw [hf] at solved
    exact solved
  | stored bytes _ kind =>
    rcases kind with ⟨kind, -⟩ | ⟨-, tree⟩
    · exact kind
    · exact absurd tree (apart chunk hr)

end Kinds

section Records

variable {final : Session} {records : List (ContentId × ManifestRecord)}

lemma Described.split (told : env.Described final (later ++ (id, record) :: earlier)) :
    env.Describes final earlier id record := by
  induction later with
  | nil => exact told.1
  | cons _ _ ih => exact ih told.2

lemma Describes.weaken (tells : env.Describes final earlier id record)
    (mem : earlier ⊆ larger) : env.Describes final larger id record := by
  refine ⟨tells.loads, tells.snapshot, tells.identity, tells.small, tells.cached, fun link hm => ?_⟩
  obtain ⟨child, recorded, hn⟩ := tells.linked link hm
  exact ⟨child, mem recorded, hn⟩

lemma Described.member (told : env.Described final records)
    (hm : (id, record) ∈ records) : env.Describes final records id record := by
  obtain ⟨later, earlier, rfl⟩ := append_of_mem hm
  refine told.split.weaken fun pair mem => ?_
  exact mem_append_right _ (mem_cons_of_mem _ mem)

def recordOf (treeId : ContentId) (root : ManifestRecord) (records : List (ContentId × ManifestRecord))
    (id : ContentId) : ManifestRecord :=
  if id = treeId then root else ((lastWhere (·.1 = id) records).map Prod.snd).getD root

variable (gives : env.Returned treeId final root records)

include gives

lemma Returned.recorded (hr : (env.closure treeId).Reaches id) :
    id = treeId ∨ id ∈ records.map Prod.fst := by
  induction hr with
  | root => exact .inl rfl
  | @step id subtree tree size hr reads hn ih =>
    have told : ∃ record, env.Describes final records id record := by
      rcases ih with rfl | hm
      · exact ⟨root, gives.root⟩
      · obtain ⟨⟨_, record⟩, mem, rfl⟩ := mem_map.mp hm
        exact ⟨record, gives.described.member mem⟩
    obtain ⟨record, tells⟩ := told
    obtain ⟨bytes, other, hl, -, links⟩ := tells.loads
    obtain ⟨bytes', hl', -⟩ := loads_of_readable reads
    rw [(hl.unique hl').2] at hn
    obtain ⟨link, hm, rfl⟩ := (links subtree).mp hn
    obtain ⟨child, mem, -⟩ := tells.linked link hm
    exact .inr (mem_map.mpr ⟨_, mem, rfl⟩)

lemma Returned.members (finite : Acc env.Child treeId) :
    id ∈ records.map Prod.fst ↔ (env.closure treeId).Reaches id ∧ id ≠ treeId := by
  constructor
  · intro hm
    obtain ⟨above, hr, child⟩ := gives.below id hm
    refine ⟨child.reaches hr, ?_⟩
    rintro rfl
    exact acyclic finite (Relation.TransGen.head' child (reaches_below hr))
  · rintro ⟨hr, other⟩
    exact (gives.recorded hr).resolve_left other

lemma Returned.recordOf_member (hr : (env.closure treeId).Reaches id) (other : id ≠ treeId) :
    (id, recordOf treeId root records id) ∈ records := by
  obtain ⟨pair, mem, hn⟩ := mem_map.mp ((gives.recorded hr).resolve_left other)
  unfold recordOf
  rw [if_neg other]
  obtain ⟨found, hh⟩ : ∃ found, lastWhere (·.1 = id) records = some found :=
    lastWhere_isSome mem (decide_eq_true hn)
  obtain ⟨hm, hs⟩ := lastWhere_some hh
  have hs : found.1 = id := of_decide_eq_true hs
  rw [hh, ← hs]
  exact hm

lemma Returned.recordOf_eq (finite : Acc env.Child treeId) (hm : (id, record) ∈ records) :
    recordOf treeId root records id = record := by
  obtain ⟨hr, other⟩ := (gives.members finite).mp (mem_map.mpr ⟨_, hm, rfl⟩)
  have hs := inj_on_of_nodup_map gives.distinct (gives.recordOf_member hr other) hm rfl
  exact congrArg Prod.snd hs

lemma Returned.describes (hr : (env.closure treeId).Reaches id) :
    env.Describes final records id (recordOf treeId root records id) := by
  by_cases hh : id = treeId
  · subst hh
    have hs : recordOf id root records id = root := if_pos rfl
    rw [hs]
    exact gives.root
  · exact gives.described.member (gives.recordOf_member hr hh)

lemma Returned.corresponds (sound : env.Sound start treeId final) (full : env.Complete treeId)
    (resolves : env.Resolves treeId start final)
    (apart : ∀ chunk, (env.closure treeId).ReachesChunk chunk → ¬ (env.closure treeId).Reaches chunk)
    (once : ∀ first ∈ final.children, ∀ second ∈ final.children,
      first.manifestId = second.manifestId → first.manifest = second.manifest) :
    (env.selfCheck treeId root final.children).Corresponds fun id =>
      (recordOf treeId root records id).manifest := by
  have told {id : ContentId} (reached : (env.selfCheck treeId root final.children).Reaches id) :
      (env.closure treeId).Reaches id ∧
        env.Describes final records id (recordOf treeId root records id) := by
    have reached := reaches_selfCheck.mp reached
    exact ⟨reached, gives.describes reached⟩
  have read {id : ContentId} {tree : Tree} {size : Nat} {record : ManifestRecord}
      (tells : env.Describes final records id record)
      (reads : (env.selfCheck treeId root final.children).Readable id tree size) :
      (∀ content, content ∈ insert id (chunksOf tree) ↔
        ∃ entry ∈ record.manifest.entries, entry.contentId = content) ∧
      ∀ subtree, subtree ∈ directories tree ↔
        ∃ link ∈ record.manifest.children, link.tree = subtree := by
    obtain ⟨bytes, other, loads, rest⟩ := tells.loads
    have hh : (env.closure treeId).Readable id other bytes.length := loads.readable
    rw [(hh.unique reads).1]
    exact rest
  have rooted : recordOf treeId root records treeId = root := if_pos rfl
  constructor
  case root => exact congrArg ManifestRecord.manifest rooted
  case rootId => exact gives.root.identity.symm
  case stored =>
    intro id reached
    obtain ⟨bytes, tree, loads⟩ := full.present id (told reached).1
    have reads : (env.closure treeId).Readable id tree bytes.length := loads.readable
    exact ⟨tree, bytes.length, reads⟩
  case recorded =>
    intro id reached other
    obtain ⟨reached, tells⟩ := told reached
    have member := gives.recordOf_member reached other
    have child : recordOf treeId root records id ∈ final.children := by
      rw [gives.children, mem_reverse]
      exact mem_map.mpr ⟨_, member, rfl⟩
    obtain ⟨last, hf⟩ : ∃ last, lastWhere
        (·.manifestId = (recordOf treeId root records id).manifestId) final.children = some last :=
      lastWhere_isSome child (decide_eq_true rfl)
    obtain ⟨inside, hs⟩ := lastWhere_some hf
    have named : (env.selfCheck treeId root final.children).manifestId
        (recordOf treeId root records id).manifest = (recordOf treeId root records id).manifestId :=
      tells.identity.symm
    change (lastWhere (·.manifestId = (env.selfCheck treeId root final.children).manifestId
      (recordOf treeId root records id).manifest) final.children).map _ = _
    rw [named, hf, Option.map_some, once last inside _ child (of_decide_eq_true hs)]
  case snapshot => exact fun id reached => (told reached).2.snapshot
  case small => exact fun id reached => (told reached).2.small
  case links => exact fun id tree size reached reads => (read (told reached).2 reads).2
  case named =>
    intro id reached link member
    obtain ⟨-, tells⟩ := told reached
    obtain ⟨child, inside, named⟩ := tells.linked link member
    have recorded := gives.recordOf_eq full.finite inside
    have identity := (gives.described.member inside).identity
    rw [named, identity]
    exact congrArg (fun record : ManifestRecord =>
      env.K.contentId .manifest record.manifest.canonicalBytes) recorded.symm
  case chunks =>
    intro id tree size reached reads chunk inside
    obtain ⟨reached, tells⟩ := told reached
    obtain ⟨entry, member, rfl⟩ := ((read tells reads).1 chunk).mp (Finset.mem_insert_of_mem inside)
    refine ⟨entry, member, rfl, ?_⟩
    exact (sound.backed _ _ (tells.cached entry member)).kind_chunk resolves apart
      ⟨id, tree, size, reached, reads, inside⟩
  case entries =>
    intro id reached entry member
    obtain ⟨reached, tells⟩ := told reached
    have backed := sound.backed _ _ (tells.cached entry member)
    obtain ⟨bytes, tree, loads⟩ := full.present id reached
    have reads : (env.closure treeId).Readable id tree bytes.length := loads.readable
    refine ⟨?_, fun chunk => ?_, fun tree size hh reads => ?_⟩
    · have known := ((read tells reads).1 entry.contentId).mpr ⟨entry, member, rfl⟩
      rw [reachesChunk_selfCheck, reaches_selfCheck]
      rcases mem_insert.mp known with hs | inside
      · rw [hs]
        exact .inr reached
      · exact .inl ⟨id, tree, bytes.length, reached, reads, inside⟩
    · exact backed.kind_chunk resolves apart (reachesChunk_selfCheck.mp chunk)
    · obtain ⟨kind, sizes⟩ := backed.kind_tree apart (reaches_selfCheck.mp hh)
      obtain ⟨bytes, stored, -, -, -, rfl⟩ := reads
      exact ⟨kind, sizes bytes stored⟩

end Records

/-- The manifests of a closure fit the ceilings. -/
def WithinCeilings (env : Env ε) (treeId : ContentId) : Prop :=
  ∀ id bytes tree, (env.closure treeId).Reaches id → env.Loads id bytes tree →
    (insert id (chunksOf tree)).card ≤ limitsV0.maxManifestEntries ∧
      (directories tree).card ≤ limitsV0.maxManifestChildren

def Seals (env : Env ε) : Prop :=
  ∀ plaintext, env.Plaintext plaintext →
    ∀ key nonce aad, (env.K.aeadSeal key nonce plaintext aad).isSome

def MapsOwnTree (id : ContentId) (record : ManifestRecord) : Prop :=
  ∀ content, (∃ entry ∈ record.manifest.entries, entry.kind = .tree ∧ entry.contentId = content) ↔
    content = id

lemma Complete.faultless (full : env.Complete treeId)
    (resolves : ∀ chunk, (env.closure treeId).ReachesChunk chunk → env.ResolvesToChunk start chunk)
    (ceilings : env.WithinCeilings treeId) (seals : env.Seals) : env.Faultless start treeId := by
  have stored (chunk : ContentId) (hr : (env.closure treeId).ReachesChunk chunk)
      (unmet : env.recordedEntry start chunk = none) :
      ∃ bytes, env.get chunk = .ok (some bytes) ∧ env.K.contentId .chunk bytes = chunk := by
    have solved := resolves chunk hr
    unfold ResolvesToChunk at solved
    rwa [unmet] at solved
  constructor
  case reads =>
    intro id hr
    obtain ⟨bytes, tree, loads⟩ := full.present id hr
    exact ⟨_, loads.stored⟩
  case fetches =>
    intro chunk hr unmet
    obtain ⟨bytes, held, -⟩ := stored chunk hr unmet
    exact ⟨_, held⟩
  case trees =>
    intro id bytes hr held
    obtain ⟨bytes', tree, loads⟩ := full.present id hr
    cases loads.stored.symm.trans held
    exact ⟨tree, loads⟩
  case chunks =>
    intro chunk bytes hr held unmet
    obtain ⟨bytes', hh', hs⟩ := stored chunk hr unmet
    cases hh'.symm.trans held
    exact hs
  case ceilings => exact ceilings
  case seals => exact seals

/-- Over a finite closure with all its nodes the walk ends. If the chunks of the closure
    resolve to chunks while it goes on and are not trees of it, it returns: it makes one
    record for every other tree, each after the records it links, seals content once, and its
    own check accepts the manifests unless two of them share an identity. -/
theorem walk_builds_hierarchy (env : Env ε) (treeId : ContentId) (vault : BaoRoot → Option Bytes)
    (draws : Nat) (complete : env.Complete treeId)
    (apart : ∀ chunk, (env.closure treeId).ReachesChunk chunk → ¬ (env.closure treeId).Reaches chunk)
    (ceilings : env.WithinCeilings treeId) (seals : env.Seals) :
    ∃ fuel final outcome,
      (∀ more, fuel ≤ more → env.walk more treeId (.begin vault draws) = some (final, outcome)) ∧
      (env.Resolves treeId (.begin vault draws) final → ∃ root, outcome = .ok root ∧
        final.seals.Nodup ∧
        (∃ records : List (ContentId × ManifestRecord), final.children = records.map Prod.snd ∧
          (records.map Prod.fst).Nodup ∧
          (∀ id, id ∈ records.map Prod.fst ↔ (env.closure treeId).Reaches id ∧ id ≠ treeId) ∧
          (∀ pair ∈ records, MapsOwnTree pair.1 pair.2) ∧
          (∀ earlier id record later, records = earlier ++ (id, record) :: later →
            ∀ link ∈ record.manifest.children, ∃ child, (link.tree, child) ∈ earlier ∧
              link.manifest = child.manifestId) ∧
          ∀ link ∈ root.manifest.children, ∃ child, (link.tree, child) ∈ records ∧
            link.manifest = child.manifestId) ∧
        ((∀ first ∈ final.children, ∀ second ∈ final.children,
            first.manifestId = second.manifestId → first.manifest = second.manifest) →
          ∃ enough, Concludes (env.selfCheck treeId root final.children).verifySnapshotManifest
            enough (.ok ()))) := by
  obtain ⟨fuel, ⟨final, outcome⟩, hw, sound, ended⟩ := walk_ends complete.finite vault draws
  refine ⟨fuel, final, outcome, hw, fun resolves => ?_⟩
  have clean : env.Faultless (.begin vault draws) treeId :=
    complete.faultless (fun chunk hr => resolves chunk hr _ (fun _ held => held) sound.grown) ceilings
      seals
  cases outcome with
  | error error =>
    exfalso
    cases error with
    | chunkUnavailable chunk =>
      obtain ⟨hr, -, hu, hg⟩ := ended
      have solved := resolves chunk hr final sound.grown fun _ held => held
      unfold ResolvesToChunk at solved
      rw [hu] at solved
      obtain ⟨bytes, held, -⟩ := solved
      cases hg.symm.trans held
    | treeUnavailable id =>
      obtain ⟨bytes, tree, loads⟩ := complete.present id ended.1
      cases ended.2.symm.trans loads.stored
    | _ => exact ended clean
  | ok root =>
    obtain ⟨records, gives⟩ := ended
    have hmem (id : ContentId) : id ∈ records.map Prod.fst ↔
        (env.closure treeId).Reaches id ∧ id ≠ treeId := gives.members complete.finite
    have owns (pair : ContentId × ManifestRecord) (hm : pair ∈ records) :
        MapsOwnTree pair.1 pair.2 := by
      obtain ⟨hr, -⟩ := (hmem pair.1).mp (mem_map.mpr ⟨pair, hm, rfl⟩)
      have tells := gives.described.member hm
      obtain ⟨bytes, tree, loads, contents, -⟩ := tells.loads
      intro content
      constructor
      · rintro ⟨entry, mem, kind, rfl⟩
        rcases mem_insert.mp ((contents _).mpr ⟨entry, mem, rfl⟩) with hs | chunk
        · exact hs
        · have other := (sound.backed _ _ (tells.cached entry mem)).kind_chunk resolves apart
            ⟨pair.1, tree, bytes.length, hr, loads.readable, chunk⟩
          cases kind.symm.trans other
      · rintro rfl
        obtain ⟨entry, mem, hn⟩ := (contents pair.1).mp (Finset.mem_insert_self ..)
        have backed := sound.backed _ _ (tells.cached entry mem)
        rw [hn] at backed
        exact ⟨entry, mem, (backed.kind_tree apart hr).1, hn⟩
    refine ⟨root, rfl, sound.once, ⟨records.reverse, ?_, ?_, ?_, ?_, ?_, ?_⟩, ?_⟩
    · rw [gives.children, map_reverse]
    · rw [map_reverse]
      exact nodup_reverse.mpr gives.distinct
    · intro id
      rw [map_reverse, mem_reverse]
      exact hmem id
    · exact fun pair hm => owns pair (mem_reverse.mp hm)
    · intro earlier id record later split link hm
      have order : records = later.reverse ++ (id, record) :: earlier.reverse := by
        rw [← reverse_inj, split]
        simp
      have told := gives.described
      rw [order] at told
      obtain ⟨child, mem, hn⟩ := told.split.linked link hm
      exact ⟨child, mem_reverse.mp mem, hn⟩
    · intro link hm
      obtain ⟨child, mem, hn⟩ := gives.root.linked link hm
      exact ⟨child, mem_reverse.mpr mem, hn⟩
    · intro ho
      have matched := gives.corresponds sound complete resolves apart ho
      have finite (id : ContentId) (tree : Tree) (size : Nat)
          (hr : (env.selfCheck treeId root final.children).Reaches id)
          (_ : (env.selfCheck treeId root final.children).Readable id tree size) :
          id ∈ insert treeId (records.map Prod.fst).toFinset := by
        rw [mem_insert, mem_toFinset]
        exact gives.recorded (reaches_selfCheck.mp hr)
      obtain ⟨verdict, ends⟩ := Claimed.verify_isSome finite
      have hok := matched.verified (ends _ le_rfl)
      rw [hok] at ends
      exact ⟨_, ends⟩

end Env

section Sample

def lengthSealing : Sealing where
  toWire := Intake.sampleWire (fun _ => none) (fun _ => none) (fun _ => none) none
  contentId := Claimed.byLength
  storageId := fun bytes => ⟨Fin.ofNat (2 ^ 256) bytes.length⟩
  blobRoot := fun bytes => Fin.ofNat (2 ^ 256) bytes.length
  manifestKey := fun _ _ _ _ => 0
  objectKey := fun _ _ _ _ _ _ => 0
  aeadSeal := fun _ _ plaintext _ => some plaintext
  aeadOpen := fun _ _ ciphertext _ => some ciphertext
  encodeManifest := fun _ => []
  decodeManifest := fun _ => none
  encodeSnapshot := fun _ => []
  decodeSnapshot := fun _ => none

def leafId : ContentId := lengthSealing.contentId .tree Tree.empty.encode

def upperId (chunk : ContentId) : ContentId := lengthSealing.contentId .tree (upperTree chunk leafId).encode

def sampleChunk : ContentId := lengthSealing.contentId .chunk [7]

def sampleEnv (chunk : ContentId) (recorded : List Manifest) : Env Unit where
  K := lengthSealing
  drive := ⟨0⟩
  epoch := 1
  secret := 0
  snapshot := ⟨0⟩
  get := fun id => .ok (
    if id = upperId chunk then some (upperTree chunk leafId).encode
    else if id = leafId then some Tree.empty.encode
    else if id = sampleChunk then some [7]
    else none)
  has := fun id => .ok (decide (id = upperId chunk ∨ id = leafId ∨ id = sampleChunk))
  recorded := recorded
  keyring := fun _ => some 0
  nonce := fun _ => ⟨List.replicate sealNonceLen 0, rfl⟩

variable {chunk : ContentId} {recorded : List Manifest} {id : ContentId}

lemma upper_loads :
    (sampleEnv chunk recorded).Loads (upperId chunk) (upperTree chunk leafId).encode (upperTree chunk leafId) :=
  ⟨congrArg Except.ok (if_pos rfl), rfl, Tree.decode_encode _, rfl⟩

section Apart

variable (other : leafId ≠ upperId chunk)

include other

lemma leaf_loads : (sampleEnv chunk recorded).Loads leafId Tree.empty.encode Tree.empty :=
  ⟨congrArg Except.ok ((if_neg other).trans (if_pos rfl)), rfl, Tree.decode_encode _, rfl⟩

lemma sample_child (child : (sampleEnv chunk recorded).Child below above)
    (known : above = upperId chunk ∨ above = leafId) : above = upperId chunk ∧ below = leafId := by
  obtain ⟨bytes, tree, loads, hn⟩ := child
  rcases known with rfl | rfl
  · rw [(upper_loads.unique loads).2] at hn
    exact ⟨rfl, List.mem_singleton.mp (List.mem_toFinset.mp hn)⟩
  · rw [((leaf_loads other).unique loads).2] at hn
    exact absurd (mem_toFinset.mp hn) not_mem_nil

lemma sample_reaches (hr : ((sampleEnv chunk recorded).closure (upperId chunk)).Reaches id) :
    id = upperId chunk ∨ id = leafId := by
  induction hr with
  | root => exact .inl rfl
  | step _ reads hn ih =>
    obtain ⟨bytes, hl, -⟩ := Env.loads_of_readable reads
    exact .inr (sample_child other ⟨bytes, _, hl, hn⟩ ih).2

lemma sample_loads (hr : ((sampleEnv chunk recorded).closure (upperId chunk)).Reaches id) :
    (id = upperId chunk ∧ (sampleEnv chunk recorded).Loads id (upperTree chunk leafId).encode (upperTree chunk leafId)) ∨
      id = leafId ∧ (sampleEnv chunk recorded).Loads id Tree.empty.encode Tree.empty := by
  rcases sample_reaches other hr with rfl | rfl
  · exact .inl ⟨rfl, upper_loads⟩
  · exact .inr ⟨rfl, leaf_loads other⟩

lemma sample_reachesChunk
    (hr : ((sampleEnv chunk recorded).closure (upperId chunk)).ReachesChunk named) :
    named = chunk := by
  obtain ⟨id, tree, size, hr, reads, mem⟩ := hr
  obtain ⟨bytes, loads, -⟩ := Env.loads_of_readable reads
  rcases sample_loads other hr with ⟨-, hh⟩ | ⟨-, hh⟩
  · rw [(hh.unique loads).2] at mem
    exact List.mem_singleton.mp (List.mem_toFinset.mp mem)
  · rw [(hh.unique loads).2] at mem
    exact absurd (mem_toFinset.mp mem) not_mem_nil

lemma sample_complete : (sampleEnv chunk recorded).Complete (upperId chunk) := by
  have leaf : Acc (sampleEnv chunk recorded).Child leafId :=
    .intro _ fun below child => absurd (sample_child other child (.inr rfl)).1 other
  refine ⟨.intro _ fun below child => ?_, fun id hr => ?_⟩
  · rw [(sample_child other child (.inl rfl)).2]
    exact leaf
  · rcases sample_loads other hr with ⟨-, loads⟩ | ⟨-, loads⟩
    · exact ⟨_, _, loads⟩
    · exact ⟨_, _, loads⟩

lemma sample_ceilings : (sampleEnv chunk recorded).WithinCeilings (upperId chunk) := by
  intro id bytes tree reached loads
  rcases sample_loads other reached with ⟨rfl, here⟩ | ⟨rfl, here⟩
  · rw [(here.unique loads).2]
    exact ⟨(card_insert_le ..).trans (show 2 ≤ _ by decide), show 1 ≤ _ by decide⟩
  · rw [(here.unique loads).2]
    decide +kernel

end Apart

lemma sample_apart : leafId ≠ upperId sampleChunk := by decide +kernel

lemma sample_resolves
    (hr : ((sampleEnv sampleChunk []).closure (upperId sampleChunk)).ReachesChunk named)
    (session : Session) : (sampleEnv sampleChunk []).ResolvesToChunk session named := by
  rw [sample_reachesChunk sample_apart hr]
  exact ⟨[7], by decide +kernel, rfl⟩

theorem walk_builds_hierarchy_sample : ∃ fuel final root,
    (∀ more, fuel ≤ more → (sampleEnv sampleChunk []).walk more (upperId sampleChunk)
      (.begin (fun _ => none) 0) = some (final, .ok root)) ∧ final.seals.Nodup := by
  have other := sample_apart
  obtain ⟨fuel, final, _, hw, builds⟩ := Env.walk_builds_hierarchy (sampleEnv sampleChunk [])
    (upperId sampleChunk) (fun _ => none) 0 (sample_complete other)
    (fun chunk hr tree => by
      rw [sample_reachesChunk other hr] at tree
      rcases sample_reaches other tree with hs | hs
      · exact absurd hs (by decide +kernel)
      · exact absurd hs (by decide +kernel))
    (sample_ceilings other) (fun _ _ _ _ _ => rfl)
  obtain ⟨root, rfl, once, -⟩ := builds fun chunk hr session _ _ => sample_resolves hr session
  exact ⟨fuel, final, root, hw, once⟩

/-- A recorded manifest that maps the subdirectory as a chunk. -/
def leafAsChunk : Manifest where
  snapshot := ⟨0⟩
  entries := [⟨leafId, .chunk, 0, ⟨0⟩, 1, 0, 9⟩]
  children := []
  entriesSorted := pairwise_singleton ..
  childrenSorted := noChildren

/-- A file names the subdirectory beside it as its chunk, and a mapping of it as a chunk
    is recorded and served. Whatever the author builds, its own check refuses. -/
theorem chunk_that_is_a_tree :
    (sampleEnv leafId [leafAsChunk]).Complete (upperId leafId) ∧
      (∀ chunk, ((sampleEnv leafId [leafAsChunk]).closure (upperId leafId)).ReachesChunk chunk →
        ∀ session, Env.Serves (.begin (fun root => if root = 9 then some [] else none) 0) session →
          (sampleEnv leafId [leafAsChunk]).ResolvesToChunk session chunk) ∧
      ∀ root children fuel, ((sampleEnv leafId [leafAsChunk]).selfCheck (upperId leafId) root
        children).verifySnapshotManifest fuel ≠ some (.ok ()) := by
  have other : leafId ≠ upperId leafId := by decide +kernel
  have full : (sampleEnv leafId [leafAsChunk]).Complete (upperId leafId) := sample_complete other
  refine ⟨full, fun chunk hr session hs => ?_, fun root children fuel hp => ?_⟩
  · rw [sample_reachesChunk other hr]
    have served := hs 9 rfl
    have maps : (sampleEnv leafId [leafAsChunk]).recordedMappings leafId = leafAsChunk.entries := by
      decide +kernel
    have hf : (sampleEnv leafId [leafAsChunk]).recordedEntry session leafId =
        some ⟨leafId, .chunk, 0, ⟨0⟩, 1, 0, 9⟩ := by
      unfold Env.recordedEntry
      rw [maps]
      simp only [leafAsChunk, List.find?_cons, served]
      rfl
    unfold Env.ResolvesToChunk
    rw [hf]
  · obtain ⟨assign, matched⟩ := Claimed.verified_corresponds hp
    -- The file's chunk is mapped as a chunk, and what maps a tree maps it as one.
    have upper : ((sampleEnv leafId [leafAsChunk]).selfCheck (upperId leafId) root children).Reaches
        (upperId leafId) := .root
    have reads : ((sampleEnv leafId [leafAsChunk]).closure (upperId leafId)).Readable
        (upperId leafId) (upperTree leafId leafId) _ := upper_loads.readable
    have leaf : ((sampleEnv leafId [leafAsChunk]).closure (upperId leafId)).Readable leafId Tree.empty _ :=
      (leaf_loads other).readable
    obtain ⟨entry, hm, hn, kind⟩ := matched.chunks _ _ _ upper reads leafId (by decide +kernel)
    have hb : ((sampleEnv leafId [leafAsChunk]).selfCheck (upperId leafId) root children).Reaches
        leafId := .step upper reads (by decide +kernel)
    have maps := (matched.entries _ upper entry hm).tree
    rw [hn] at maps
    cases kind.symm.trans (maps _ _ hb leaf).1

end Sample

end Wyrd.Author
