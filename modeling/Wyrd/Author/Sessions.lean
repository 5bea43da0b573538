import Wyrd.Author.Manifests

/-! # What an authoring session keeps

The cache and the vault only grow. A mapping in the cache is a recorded one that can be
served or was sealed from the object store, and content is sealed once. A session that
stops says what was unavailable; it stops for no other reason while nothing is at fault.
-/

namespace Wyrd.Author

open List Function

open Closure Seal Effect

variable {ε : Type} {env : Env ε}

section Follows

variable {κ α : Type} [LinearOrder κ]

/-- An ordered map holds the values of a partial function at some keys. -/
structure Follows (source : κ → Option α) (map : Observed (Prod.fst : κ × α → κ))
    (keys : Finset κ) : Prop where
  mapped : ∀ key ∈ keys, ∃ value, source key = some value ∧ map.lookup key = some (key, value)
  only : ∀ pair ∈ map.docs, pair.1 ∈ keys

variable {source later : κ → Option α} {map : Observed (Prod.fst : κ × α → κ)} {keys : Finset κ}

lemma Follows.empty (source : κ → Option α) : Follows source .empty ∅ :=
  ⟨fun _ hm => absurd hm (Finset.notMem_empty _), fun _ hm => absurd hm not_mem_nil⟩

section

variable (follows : Follows source map keys)
include follows

lemma Follows.mono (grow : Retains source later) : Follows later map keys := by
  refine ⟨fun key hm => ?_, follows.only⟩
  obtain ⟨value, hf, hh⟩ := follows.mapped key hm
  exact ⟨value, grow key value hf, hh⟩

lemma Follows.observe (hf : source key = some value) :
    Follows source (map.observe (key, value)) (insert key keys) := by
  constructor
  · intro other hm
    rw [Observed.lookup_observe]
    by_cases hs : other = key
    · subst hs
      exact ⟨value, hf, if_pos rfl⟩
    · rw [if_neg hs]
      exact follows.mapped other ((Finset.mem_insert.mp hm).resolve_left hs)
  · intro pair hm
    rcases (Observed.mem_place map.ascending).mp hm with rfl | ⟨ho, -⟩
    · exact Finset.mem_insert_self ..
    · exact Finset.mem_insert_of_mem (follows.only pair ho)

lemma Follows.value (hm : pair ∈ map.docs) : source pair.1 = some pair.2 := by
  obtain ⟨value, hf, hh⟩ := follows.mapped pair.1 (follows.only pair hm)
  have hs : pair = (pair.1, value) := Option.some.inj ((Observed.mem_docs.mp hm).symm.trans hh)
  rw [hs]
  exact hf

lemma Follows.mem : key ∈ keys ↔ ∃ value, (key, value) ∈ map.docs := by
  constructor
  · intro hm
    obtain ⟨value, -, hh⟩ := follows.mapped key hm
    exact ⟨value, (Observed.lookup_eq_some.mp hh).1⟩
  · rintro ⟨value, hm⟩
    exact follows.only _ hm

lemma Follows.size : map.size = keys.card := by
  have hs : map.ids.toFinset = keys := by
    ext key
    rw [mem_toFinset, follows.mem]
    simp [Observed.ids]
  rw [← hs, toFinset_card_of_nodup map.ids_nodup, Observed.length_ids]

end

end Follows

namespace Env

/-- A tree node is in the store as the author reads it. -/
structure Loads (env : Env ε) (id : ContentId) (bytes : Bytes) (tree : Tree) : Prop where
  stored : env.get id = .ok (some bytes)
  identity : env.K.contentId .tree bytes = id
  decoded : Tree.decode bytes = .ok tree
  small : checkTree limitsV0 tree = .ok ()

lemma loadTree_ok {id loaded} : env.loadTree id = .ok loaded ↔ env.Loads id loaded.1 loaded.2 := by
  constructor
  · intro read
    obtain ⟨found, got, read⟩ := bind_ok.mp read
    obtain ⟨bytes, hh, read⟩ := bind_ok.mp read
    obtain ⟨_, self, read⟩ := bind_ok.mp read
    obtain ⟨decoded, hv, read⟩ := bind_ok.mp read
    obtain ⟨_, hc, read⟩ := bind_ok.mp read
    cases read
    rw [expect_ok.mp hh] at got
    exact ⟨mapError_ok.mp got, demand_ok.mp self, mapError_ok.mp hv, mapError_ok.mp hc⟩
  · rintro ⟨stored, self, decoded, hs⟩
    exact bind_ok.mpr ⟨some loaded.1, mapError_ok.mpr stored, bind_ok.mpr ⟨loaded.1, rfl,
      bind_ok.mpr ⟨(), demand_ok.mpr self, bind_ok.mpr ⟨loaded.2, mapError_ok.mpr decoded,
        bind_ok.mpr ⟨(), mapError_ok.mpr hs, rfl⟩⟩⟩⟩⟩

/-- The closure of a tree, before there are manifests for it. -/
def closure (env : Env ε) (tree : ContentId) : Claimed ε where
  derive := env.K.contentId
  limits := limitsV0
  snapshotId := env.snapshot
  tree := tree
  rootId := tree
  root := ⟨env.snapshot, [], [], noEntries, noChildren⟩
  get := env.get
  children := fun _ => none

variable {start session : Session} {treeId id subtree chunk : ContentId} {bytes : Bytes} {tree : Tree}

lemma Loads.readable (loads : env.Loads id bytes tree) :
    (env.closure treeId).Readable id tree bytes.length :=
  ⟨bytes, loads.stored, loads.identity, loads.decoded, loads.small, rfl⟩

lemma loads_of_readable (reads : (env.closure treeId).Readable id tree size) :
    ∃ bytes, env.Loads id bytes tree ∧ bytes.length = size := by
  obtain ⟨bytes, stored, hs, hd, small, hsz⟩ := reads
  exact ⟨bytes, ⟨stored, hs, hd, small⟩, hsz⟩

lemma Loads.unique (loads : env.Loads id bytes tree) (loads' : env.Loads id bytes' other) :
    bytes' = bytes ∧ other = tree := by
  cases loads.stored.symm.trans loads'.stored
  cases loads.decoded.symm.trans loads'.decoded
  exact ⟨rfl, rfl⟩

/-- What the author seals: a stored object, or a manifest within the ceilings. -/
inductive Plaintext (env : Env ε) (plaintext : Bytes) : Prop
  | object (content : ContentId) (stored : env.get content = .ok (some plaintext))
  | manifest (manifest : Manifest) (small : checkManifest limitsV0 manifest = .ok ())
      (encoded : plaintext = manifest.canonicalBytes)

/-- Nothing is wrong with what is stored: reads succeed, stored content is what its address
    names, the manifests are within the ceilings, and sealing succeeds. -/
structure Faultless (env : Env ε) (start : Session) (treeId : ContentId) : Prop where
  reads : ∀ id, (env.closure treeId).Reaches id → ∃ held, env.get id = .ok held
  fetches : ∀ chunk, (env.closure treeId).ReachesChunk chunk → env.recordedEntry start chunk = none →
    ∃ held, env.get chunk = .ok held
  trees : ∀ id bytes, (env.closure treeId).Reaches id → env.get id = .ok (some bytes) →
    ∃ tree, env.Loads id bytes tree
  chunks : ∀ chunk bytes, (env.closure treeId).ReachesChunk chunk →
    env.get chunk = .ok (some bytes) → env.recordedEntry start chunk = none →
    env.K.contentId .chunk bytes = chunk
  ceilings : ∀ id bytes tree, (env.closure treeId).Reaches id → env.Loads id bytes tree →
    (insert id (chunksOf tree)).card ≤ limitsV0.maxManifestEntries ∧
      (directories tree).card ≤ limitsV0.maxManifestChildren
  seals : ∀ plaintext, env.Plaintext plaintext →
    ∀ key nonce aad, (env.K.aeadSeal key nonce plaintext aad).isSome

/-- What an error says about the session that it ended. -/
def Explained (env : Env ε) (start : Session) (treeId : ContentId) (final : Session) :
    AuthorError ε → Prop
  | .chunkUnavailable chunk => (env.closure treeId).ReachesChunk chunk ∧
      final.sealed chunk = none ∧ env.recordedEntry final chunk = none ∧ env.get chunk = .ok none
  | .treeUnavailable id => (env.closure treeId).Reaches id ∧ env.get id = .ok none
  | _ => ¬ env.Faultless start treeId

lemma loadTree_error {error} (hr : (env.closure treeId).Reaches id)
    (fails : env.loadTree id = .error error) : env.Explained start treeId session error := by
  have broken {other : AuthorError ε} (bytes : Bytes) (hs : env.get id = .ok (some bytes))
      (fails : env.loadTree id = .error other) : ¬ env.Faultless start treeId := by
    intro clean
    obtain ⟨tree, hl⟩ := clean.trees id bytes hr hs
    have loaded : env.loadTree id = .ok (bytes, tree) := loadTree_ok.mpr hl
    cases loaded.symm.trans fails
  have copy := fails
  unfold loadTree at copy
  cases got : env.get id with
  | error =>
    rw [got] at copy
    cases copy
    rintro clean
    obtain ⟨held, hh⟩ := clean.reads id hr
    cases got.symm.trans hh
  | ok held =>
    cases held with
    | none =>
      rw [got] at copy
      cases copy
      exact ⟨hr, got⟩
    | some bytes =>
      have wrong := broken bytes got fails
      -- Past the read, an error names a node that is stored.
      simp only [got, Except.mapError, expect, demand, bind, Except.bind] at copy
      split_ifs at copy
      · generalize Tree.decode bytes = decoded at copy
        rcases decoded with fault | tree
        · cases copy
          exact wrong
        · dsimp only at copy
          generalize checkTree limitsV0 tree = checked at copy
          rcases checked with fault | done <;> cases copy
          exact wrong
      · cases copy
        exact wrong

/-- Everything one vault serves is served by another. -/
def Serves (before after : Session) : Prop :=
  ∀ root, (before.vault root).isSome → (after.vault root).isSome

/-- Where a mapping in the cache comes from. -/
inductive Backed (env : Env ε) (start : Session) (treeId : ContentId) (session : Session)
    (content : ContentId) (entry : ManifestEntry) : Prop
  | recorded (earlier : Session) (since : Serves start earlier) (still : Serves earlier session)
      (reached : (env.closure treeId).ReachesChunk content)
      (found : env.recordedEntry earlier content = some entry)
  | stored (bytes : Bytes) (named : entry.contentId = content)
      (reached : entry.kind = .chunk ∧ (env.closure treeId).ReachesChunk content ∨
        entry.kind = .tree ∧ (env.closure treeId).Reaches content)
      (held : env.get content = .ok (some bytes))
      (identity : env.K.contentId entry.kind bytes = content) (size : entry.size = bytes.length)

variable {entry : ManifestEntry}

lemma recordedEntry_some (hf : env.recordedEntry session chunk = some entry) :
    entry ∈ env.recordedMappings chunk ∧
      (env.keyring entry.encryptionEpoch).isSome ∧ (session.vault entry.transport).isSome := by
  have hok := List.find?_some hf
  rw [Bool.and_eq_true] at hok
  exact ⟨mem_of_find?_eq_some hf, hok.1, hok.2⟩

variable {content : ContentId}

lemma Backed.named (backed : env.Backed start treeId session content entry) :
    entry.contentId = content := by
  cases backed with
  | recorded _ _ _ _ hf =>
    exact of_decide_eq_true (mem_filter.mp (recordedEntry_some hf).1).2
  | stored _ hn => exact hn

/-- What every act of a session keeps. -/
structure Stays (before after : Session) : Prop where
  vault : Serves before after
  sealed : Retains before.sealed after.sealed
  children : after.children = before.children

lemma Stays.refl (session : Session) : Stays session session :=
  ⟨fun _ hh => hh, .refl _, rfl⟩

lemma Stays.trans (one : Stays first second) (two : Stays second third) : Stays first third :=
  ⟨fun root hh => two.vault root (one.vault root hh), one.sealed.trans two.sealed,
    two.children.trans one.children⟩

/-- A session in which the cache is backed and content was sealed once. -/
structure Sound (env : Env ε) (start : Session) (treeId : ContentId) (session : Session) : Prop where
  grown : Serves start session
  backed : ∀ content entry, session.sealed content = some entry →
    env.Backed start treeId session content entry
  once : session.seals.Nodup
  counted : ∀ content ∈ session.seals, (session.sealed content).isSome

lemma Backed.mono (backed : env.Backed start treeId session content entry)
    (vault : Serves session later) : env.Backed start treeId later content entry := by
  cases backed with
  | recorded earlier since still hr hf =>
    exact .recorded earlier since (fun root held => vault root (still root held)) hr hf
  | stored bytes hn hr held hs size =>
    exact .stored bytes hn hr held hs size

lemma Sound.same (sound : env.Sound start treeId session) (larger : Serves session later)
    (kept : later.sealed = session.sealed) (seals : later.seals = session.seals) :
    env.Sound start treeId later := by
  refine ⟨fun root hh => larger root (sound.grown root hh), fun content entry hf => ?_,
    seals ▸ sound.once, ?_⟩
  · rw [kept] at hf
    exact (sound.backed content entry hf).mono larger
  · rw [seals, kept]
    exact sound.counted

/-- What a larger vault does not serve, a smaller one does not. -/
lemma recordedEntry_none (grown : Serves start session)
    (unmet : env.recordedEntry session chunk = none) : env.recordedEntry start chunk = none := by
  unfold recordedEntry at unmet ⊢
  rw [List.find?_eq_none] at unmet ⊢
  intro entry hl
  have denied := unmet entry hl
  simp only [Bool.and_eq_true, not_and] at denied ⊢
  exact fun ho hs => denied ho (grown _ hs)

lemma Sound.cache (sound : env.Sound start treeId session) (new : session.sealed content = none)
    (larger : Serves session later)
    (kept : later.sealed = update session.sealed content (some entry))
    (backed : env.Backed start treeId later content entry)
    (seals : later.seals = session.seals ∨ later.seals = session.seals ++ [content])
    (children : later.children = session.children) :
    env.Sound start treeId later ∧ Stays session later ∧ later.sealed content = some entry := by
  have hh : later.sealed content = some entry := by rw [kept, update_self]
  have hk : Retains session.sealed later.sealed := kept ▸ (Retains.refl _).update new _
  have counts (other : ContentId) (hm : other ∈ session.seals) :
      (later.sealed other).isSome := by
    obtain ⟨known, hf⟩ := Option.isSome_iff_exists.mp (sound.counted other hm)
    rw [hk other known hf]
    rfl
  refine ⟨⟨fun root held => larger root (sound.grown root held), fun other known hf => ?_, ?_, ?_⟩,
    ⟨larger, hk, children⟩, hh⟩
  · by_cases hs : other = content
    · subst hs
      cases hh.symm.trans hf
      exact backed
    · rw [kept, update_of_ne hs] at hf
      exact (sound.backed other known hf).mono larger
  · rcases seals with hs | more
    · rw [hs]
      exact sound.once
    · rw [more]
      refine nodup_append.mpr ⟨sound.once, nodup_singleton _, ?_⟩
      rintro other hp _ hm rfl
      have known := sound.counted other hp
      rw [mem_singleton.mp hm, new] at known
      cases known
  · intro other hm
    rcases seals with hs | more
    · rw [hs] at hm
      exact counts other hm
    · rw [more] at hm
      rcases mem_append.mp hm with ho | hl
      · exact counts other ho
      · rw [mem_singleton.mp hl, hh]
        rfl

/-- An act of a sound session keeps what is there, and explains why it stops. -/
def Acts {α : Type} (env : Env ε) (start : Session) (treeId : ContentId)
    (act : Effect Session (AuthorError ε) α) (session : Session) (post : α → Session → Prop) : Prop :=
  act.Ends session fun outcome after => env.Sound start treeId after ∧ Stays session after ∧
    match outcome with
    | .ok value => post value after
    | .error error => env.Explained start treeId after error

lemma Acts.bind {α β : Type} {act} {next : α → Effect Session (AuthorError ε) β}
    {post : α → Session → Prop} {final : β → Session → Prop}
    (acts : env.Acts start treeId act session post)
    (onward : ∀ value middle, env.Sound start treeId middle → Stays session middle →
      post value middle → env.Acts start treeId (next value) middle final) :
    env.Acts start treeId (act >>= next) session final := by
  refine Ends.bind acts ?_ fun _ _ holds => holds
  rintro value middle ⟨sound, stays, holds⟩
  refine (onward value middle sound stays holds).mono ?_
  rintro outcome after ⟨sound', stays', ends⟩
  exact ⟨sound', stays.trans stays', ends⟩

section Acts

lemma importVault_ends (sealed : Bytes)
    (holds : ∀ vault, (∀ root, (session.vault root).isSome → (vault root).isSome) →
      post (.ok ()) { session with vault := vault }) :
    (env.importVault sealed).Ends session post := by
  unfold Ends importVault
  dsimp only
  split_ifs with held
  · exact holds session.vault fun _ hh => hh
  · refine holds _ fun root hh => ?_
    by_cases hs : root = env.K.blobRoot sealed
    · subst hs
      exact absurd hh held
    · rwa [update_of_ne hs]

variable {kind : ObjectKind}

lemma sealContent_ok {key nonce obj}
    (made : sealContent env.K key kind chunk bytes nonce = .ok obj) :
    env.K.contentId kind bytes = chunk ∧ obj.version = sealVersion ∧ obj.kind = kind := by
  unfold sealContent at made
  split_ifs at made with hs
  split at made
  · cases made
  · cases made
    exact ⟨not_not.mp hs, rfl, rfl⟩

lemma sealContent_total {key nonce} (self : env.K.contentId kind bytes = chunk)
    (seals : ∀ key nonce aad, (env.K.aeadSeal key nonce bytes aad).isSome) {error}
    (fails : sealContent env.K key kind chunk bytes nonce = .error error) : False := by
  unfold sealContent at fails
  rw [if_neg (not_not.mpr self)] at fails
  split at fails
  · next none =>
    have some := seals key nonce.1 (sealAad sealVersion kind chunk)
    rw [none] at some
    cases some
  · cases fails

section

variable (sound : env.Sound start treeId session)
include sound

lemma sealUnder_acts {key} (hn : env.Faultless start treeId →
      env.K.contentId kind bytes = chunk ∧ env.Plaintext bytes) :
    env.Acts start treeId (env.sealUnder key kind chunk bytes) session fun obj after =>
      (∃ nonce, sealContent env.K key kind chunk bytes nonce = .ok obj) ∧
        after = { session with draws := session.draws + 1 } := by
  have drawn : env.Sound start treeId { session with draws := session.draws + 1 } :=
    sound.same (fun _ hh => hh) rfl rfl
  have stays : Stays session { session with draws := session.draws + 1 } :=
    ⟨fun _ hh => hh, fun _ _ hf => hf, rfl⟩
  unfold Acts Ends sealUnder
  dsimp only
  cases sealed : sealContent env.K key kind chunk bytes (env.nonce session.draws) with
  | error =>
    refine ⟨drawn, stays, fun clean => ?_⟩
    obtain ⟨hs, hp⟩ := hn clean
    exact sealContent_total hs (clean.seals _ hp) sealed
  | ok => exact ⟨drawn, stays, ⟨_, sealed⟩, rfl⟩

lemma sealFresh_acts
    (hr : kind = .chunk ∧ (env.closure treeId).ReachesChunk chunk ∨
      kind = .tree ∧ (env.closure treeId).Reaches chunk) (new : session.sealed chunk = none)
    (held : env.get chunk = .ok (some bytes))
    (hn : env.Faultless start treeId → env.K.contentId kind bytes = chunk) :
    env.Acts start treeId (env.sealFresh kind chunk bytes) session fun entry after =>
      after.sealed chunk = some entry := by
  unfold sealFresh
  refine Acts.bind (sealUnder_acts sound fun hc => ⟨hn hc, .object chunk held⟩) ?_
  rintro obj _ drawn - ⟨⟨nonce, made⟩, rfl⟩
  obtain ⟨self, version, kinds⟩ := sealContent_ok made
  have entered : entryFor env.K kind env.epoch obj chunk bytes = .ok {
      contentId := chunk
      kind := kind
      version := obj.version
      storageId := obj.storageId env.K
      encryptionEpoch := env.epoch
      size := bytes.length
      transport := transportRoot env.K obj } := by
    unfold entryFor
    rw [if_neg (by simp [version, kinds]), if_neg (not_not.mpr self)]
  unfold Acts
  rw [entered, ends_bind, ends_lift]
  dsimp only [Except.mapError]
  rw [ends_bind]
  refine importVault_ends _ fun vault larger => ?_
  dsimp only
  rw [ends_bind]
  exact drawn.cache new larger rfl (.stored bytes rfl hr held self rfl) (.inr rfl) rfl

lemma sealTree_acts (hr : (env.closure treeId).Reaches id) (loads : env.Loads id bytes tree) :
    env.Acts start treeId (env.sealTree id bytes) session fun entry after =>
      after.sealed id = some entry := by
  unfold Acts sealTree
  rw [ends_bind, ends_get]
  dsimp only
  cases kept : session.sealed id with
  | some => exact ⟨sound, .refl session, kept⟩
  | none =>
    exact sealFresh_acts sound (.inr ⟨rfl, hr⟩) kept loads.stored fun _ => loads.identity

lemma resolve_acts (hr : (env.closure treeId).ReachesChunk chunk) :
    env.Acts start treeId (env.resolve chunk) session fun entry after =>
      after.sealed chunk = some entry := by
  unfold Acts resolve
  rw [ends_bind, ends_get]
  dsimp only
  cases kept : session.sealed chunk with
  | some => exact ⟨sound, .refl session, kept⟩
  | none =>
    cases noted : env.recordedEntry session chunk with
    | some =>
      dsimp only
      rw [ends_bind, ends_set]
      exact sound.cache kept (fun _ hh => hh) rfl
        (.recorded session sound.grown (fun _ hh => hh) hr noted) (.inl rfl) rfl
    | none =>
      have unmet := recordedEntry_none sound.grown noted
      dsimp only
      rw [ends_bind, ends_lift]
      cases got : env.get chunk with
      | error =>
        refine ⟨sound, .refl session, fun clean => ?_⟩
        obtain ⟨held, hh⟩ := clean.fetches chunk hr unmet
        cases got.symm.trans hh
      | ok held =>
        cases held with
        | none => exact ⟨sound, .refl session, hr, kept, noted, got⟩
        | some plaintext =>
          exact sealFresh_acts sound (.inl ⟨rfl, hr⟩) kept got fun clean =>
            clean.chunks chunk plaintext hr got unmet

lemma resolveAll_acts {chunks : List ContentId} {entries keys}
    (follows : Follows session.sealed entries keys)
    (hr : ∀ chunk ∈ chunks, (env.closure treeId).ReachesChunk chunk) :
    env.Acts start treeId (env.resolveAll chunks entries) session fun entries' after =>
      Follows after.sealed entries' (keys ∪ chunks.toFinset) := by
  induction chunks generalizing session entries keys with
  | nil =>
    refine ⟨sound, .refl session, ?_⟩
    rw [toFinset_nil, Finset.union_empty]
    exact follows
  | cons chunk rest ih =>
    unfold resolveAll
    refine Acts.bind (resolve_acts sound (hr chunk mem_cons_self)) ?_
    intro entry middle sound' stays hf
    rw [toFinset_cons, Finset.union_insert, ← Finset.insert_union]
    exact ih sound' ((follows.mono stays.sealed).observe hf)
      fun other hm => hr other (mem_cons_of_mem _ hm)

end

end Acts

end Env

end Wyrd.Author
