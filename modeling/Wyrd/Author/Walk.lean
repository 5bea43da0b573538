import Wyrd.Author.Sessions

/-! # The authoring walk over a closure

A frame is worked off entry by entry, and the subtrees it names are completed first, each
once. The induction is on the closure, which is finite, and inside a frame on its entries.
A walk that ends returns the record of the root over the records of its subtrees; one that
stops explains why.
-/

namespace Wyrd.Author

open Function Finset

open Closure Seal Effect Machine

variable {ε : Type} {env : Env ε} {start session : Session} {treeId id subtree : ContentId}
  {bytes : Bytes} {tree : Tree}

def directoryOf (entry : Entry) : Option ContentId :=
  match entry.content with
  | .dir subtree => some subtree
  | _ => none

def chunksIn (entries : List Entry) : Finset ContentId := (entries.flatMap fileChunks).toFinset

def directoriesIn (entries : List Entry) : Finset ContentId := (entries.filterMap directoryOf).toFinset

lemma chunksOf_eq (tree : Tree) : chunksOf tree = chunksIn tree.entries := rfl

lemma directories_eq (tree : Tree) : directories tree = directoriesIn tree.entries := rfl

lemma chunksIn_append (done : List Entry) (entry : Entry) :
    chunksIn (done ++ [entry]) = chunksIn done ∪ (fileChunks entry).toFinset := by
  simp [chunksIn]

lemma directoriesIn_append (done : List Entry) (entry : Entry) :
    directoriesIn (done ++ [entry]) = directoriesIn done ∪ (directoryOf entry).toFinset := by
  ext content
  simp [directoriesIn, List.filterMap_append]

namespace Env

lemma checkManifest_ok :
    checkManifest limitsV0 manifest = .ok () ↔
      manifest.entries.length ≤ limitsV0.maxManifestEntries ∧
        manifest.children.length ≤ limitsV0.maxManifestChildren := by
  unfold checkManifest checkCount
  rw [bind_ok]
  constructor
  · rintro ⟨_, rows, children⟩
    split_ifs at rows children
    omega
  · rintro ⟨rows, children⟩
    exact ⟨(), by rw [if_neg (by omega)], by rw [if_neg (by omega)]⟩

/-- Maps whose keys name their values make a manifest, unless there is too much in them. -/
lemma fromSorted_yields {snapshot entries links}
    (keyed : ∀ pair ∈ entries.docs, pair.1 = pair.2.contentId)
    (tied : ∀ pair ∈ links.docs, pair.1 = pair.2.tree) :
    Yields (fun manifest => manifest.snapshot = snapshot ∧
        manifest.entries = entries.docs.map Prod.snd ∧ manifest.children = links.docs.map Prod.snd)
      (fun _ => countLimit < entries.size ∨ countLimit < links.size)
      (fromSorted snapshot entries links) := by
  unfold fromSorted
  by_cases many : countLimit < entries.size
  · rw [if_pos many]
    exact .inl many
  · rw [if_neg many]
    by_cases wide : countLimit < links.size
    · rw [if_pos wide]
      exact .inr wide
    · rw [if_neg wide, dif_pos keyed, dif_pos tied]
      exact ⟨rfl, rfl, rfl⟩

lemma childLink_ok (shown : record.representations.docs = [pair]) :
    (childLink subtree record : Except (AuthorError ε) ChildManifest) =
      .ok ⟨subtree, record.manifestId, pair.1, record.transport⟩ := by
  unfold childLink
  rw [shown]
  rfl

/-- The record of a subtree over the records made before it. -/
structure Describes (env : Env ε) (session : Session) (earlier : List (ContentId × ManifestRecord))
    (id : ContentId) (record : ManifestRecord) : Prop where
  loads : ∃ bytes tree, env.Loads id bytes tree ∧
    (∀ content, content ∈ insert id (chunksOf tree) ↔
      ∃ entry ∈ record.manifest.entries, entry.contentId = content) ∧
    ∀ subtree, subtree ∈ directories tree ↔ ∃ link ∈ record.manifest.children, link.tree = subtree
  snapshot : record.manifest.snapshot = env.snapshot
  identity : record.manifestId = env.K.contentId .manifest record.manifest.canonicalBytes
  small : checkManifest limitsV0 record.manifest = .ok ()
  cached : ∀ entry ∈ record.manifest.entries, session.sealed entry.contentId = some entry
  linked : ∀ link ∈ record.manifest.children, ∃ child, (link.tree, child) ∈ earlier ∧
    link.manifest = child.manifestId

lemma Describes.mono (tells : env.Describes session earlier id record)
    (sealed : Retains session.sealed later.sealed) : env.Describes later earlier id record :=
  ⟨tells.loads, tells.snapshot, tells.identity, tells.small,
    fun entry hm => sealed _ _ (tells.cached entry hm), tells.linked⟩

/-- Records, the newest first, each over those made before it. -/
def Described (env : Env ε) (session : Session) : List (ContentId × ManifestRecord) → Prop
  | [] => True
  | (id, record) :: earlier => env.Describes session earlier id record ∧ Described env session earlier

lemma Described.mono (told : env.Described session records)
    (sealed : Retains session.sealed later.sealed) : env.Described later records := by
  induction records with
  | nil => trivial
  | cons pair earlier ih => exact ⟨told.1.mono sealed, ih told.2⟩

def Child (env : Env ε) (below above : ContentId) : Prop :=
  ∃ bytes tree, env.Loads above bytes tree ∧ below ∈ directories tree

lemma Child.reaches (child : env.Child below above)
    (hr : (env.closure treeId).Reaches above) : (env.closure treeId).Reaches below := by
  obtain ⟨bytes, tree, hl, hn⟩ := child
  exact .step hr hl.readable hn

lemma reaches_below (hr : (env.closure treeId).Reaches id) :
    Relation.ReflTransGen env.Child id treeId := by
  induction hr with
  | root => exact .refl
  | step _ reads hn ih =>
    obtain ⟨bytes, hl, -⟩ := loads_of_readable reads
    exact ih.head ⟨bytes, _, hl, hn⟩

/-- What the completed subtrees amount to. -/
structure Kept (env : Env ε) (treeId : ContentId) (session : Session)
    (completed : ContentId → Option ChildManifest) (records : List (ContentId × ManifestRecord)) :
    Prop where
  children : session.children = (records.map Prod.snd).reverse
  described : env.Described session records
  distinct : (records.map Prod.fst).Nodup
  linked : ∀ id link, completed id = some link → link.tree = id ∧
    ∃ record, (id, record) ∈ records ∧ link.manifest = record.manifestId
  known : ∀ id ∈ records.map Prod.fst, (completed id).isSome
  below : ∀ id ∈ records.map Prod.fst, ∃ above, (env.closure treeId).Reaches above ∧ env.Child id above

variable {completed later : ContentId → Option ChildManifest} {frame : Frame} {done : List Entry}
  {records : List (ContentId × ManifestRecord)}

lemma Kept.stays (hk : env.Kept treeId session completed records)
    (stays : Stays session after) : env.Kept treeId after completed records :=
  ⟨stays.children.trans hk.children, hk.described.mono stays.sealed, hk.distinct, hk.linked,
    hk.known, hk.below⟩

/-- A frame of which some entries are done. -/
structure Framed (env : Env ε) (session : Session) (completed : ContentId → Option ChildManifest)
    (frame : Frame) (bytes : Bytes) (tree : Tree) (done : List Entry) : Prop where
  loads : env.Loads frame.treeId bytes tree
  split : tree.entries = done ++ frame.rest
  entries : Follows session.sealed frame.entries (insert frame.treeId (chunksIn done))
  links : Follows completed frame.links (directoriesIn done)

lemma Framed.all (framed : env.Framed session completed frame bytes tree done)
    (ended : frame.rest = []) : done = tree.entries := by
  rw [framed.split, ended, List.append_nil]

lemma openFrame_acts (sound : env.Sound start treeId session) (hr : (env.closure treeId).Reaches id)
    (completed : ContentId → Option ChildManifest) :
    env.Acts start treeId (env.openFrame id) session fun frame after =>
      frame.treeId = id ∧ ∃ bytes tree, env.Framed after completed frame bytes tree [] := by
  unfold Acts openFrame
  rw [ends_bind, ends_lift]
  cases loaded : env.loadTree id with
  | error => exact ⟨sound, .refl session, loadTree_error hr loaded⟩
  | ok found =>
    have loads := loadTree_ok.mp loaded
    refine Acts.bind (sealTree_acts sound hr loads) fun entry after sound' _ hk => ?_
    have maps := (Follows.empty after.sealed).observe hk
    exact ⟨sound', .refl after, rfl, found.1, found.2, loads, rfl, maps, .empty _⟩

/-- A frame without entries left is assembled, or too large. -/
lemma assemble_acts (sound : env.Sound start treeId session)
    (hr : (env.closure treeId).Reaches frame.treeId)
    (hk : env.Kept treeId session completed records)
    (framed : env.Framed session completed frame bytes tree done) (ended : frame.rest = []) :
    env.Acts start treeId (env.assemble frame) session fun record after =>
      env.Describes after records frame.treeId record ∧
        ∃ pair, record.representations.docs = [pair] := by
  have keyed (pair : ContentId × ManifestEntry) (hm : pair ∈ frame.entries.docs) :
      pair.1 = pair.2.contentId :=
    (sound.backed _ _ (framed.entries.value hm)).named.symm
  have tied (pair : ContentId × ChildManifest) (hm : pair ∈ frame.links.docs) :
      pair.1 = pair.2.tree := (hk.linked _ _ (framed.links.value hm)).1.symm
  have whole := framed.all ended
  have entriesSize : frame.entries.size = (insert frame.treeId (chunksOf tree)).card := by
    rw [framed.entries.size, whole, chunksOf_eq]
  have linksSize : frame.links.size = (directories tree).card := by
    rw [framed.links.size, whole, directories_eq]
  have hw (clean : env.Faultless start treeId) :
      frame.entries.size ≤ limitsV0.maxManifestEntries ∧
        frame.links.size ≤ limitsV0.maxManifestChildren := by
    rw [entriesSize, linksSize]
    exact clean.ceilings _ _ _ hr framed.loads
  have made : Yields _ _ (fromSorted env.snapshot frame.entries frame.links) :=
    fromSorted_yields keyed tied
  unfold Acts assemble
  rw [ends_bind, ends_lift]
  cases sorted : fromSorted env.snapshot frame.entries frame.links with
  | error =>
    refine ⟨sound, .refl session, fun clean => ?_⟩
    have small := hw clean
    have large := made.error sorted
    simp only [limitsV0, countLimit] at small large
    omega
  | ok manifest =>
    obtain ⟨snap, rows, children⟩ := made.ok sorted
    dsimp only [Except.mapError]
    rw [ends_bind, ends_lift]
    cases check : checkManifest limitsV0 manifest with
    | error =>
      refine ⟨sound, .refl session, fun clean => ?_⟩
      have small := hw clean
      have good : checkManifest limitsV0 manifest = .ok () := by
        rw [checkManifest_ok, rows, children, List.length_map, List.length_map]
        exact small
      cases check.symm.trans good
    | ok =>
      refine Acts.bind (sealUnder_acts sound fun _ => ⟨rfl, .manifest manifest check rfl⟩) ?_
      rintro obj _ drawn - ⟨-, rfl⟩
      unfold Acts
      rw [ends_bind]
      refine importVault_ends _ fun vault larger => ?_
      refine ⟨drawn.same larger rfl rfl, ⟨larger, fun _ _ hf => hf, rfl⟩,
        ⟨⟨bytes, tree, framed.loads, fun content => ?_, fun subtree => ?_⟩, snap, rfl,
          check, fun entry hm => ?_, fun link hm => ?_⟩, _, rfl⟩
      · rw [chunksOf_eq, ← whole, framed.entries.mem, rows]
        constructor
        · rintro ⟨entry, hm⟩
          exact ⟨entry, List.mem_map.mpr ⟨_, hm, rfl⟩, (keyed _ hm).symm⟩
        · rintro ⟨entry, hm, rfl⟩
          obtain ⟨pair, mem, rfl⟩ := List.mem_map.mp hm
          exact ⟨pair.2, by rw [← keyed pair mem]; exact mem⟩
      · rw [directories_eq, ← whole, framed.links.mem, children]
        constructor
        · rintro ⟨link, hm⟩
          exact ⟨link, List.mem_map.mpr ⟨_, hm, rfl⟩, (tied _ hm).symm⟩
        · rintro ⟨link, hm, rfl⟩
          obtain ⟨pair, mem, rfl⟩ := List.mem_map.mp hm
          exact ⟨pair.2, by rw [← tied pair mem]; exact mem⟩
      · rw [rows] at hm
        obtain ⟨pair, mem, rfl⟩ := List.mem_map.mp hm
        rw [← keyed pair mem]
        exact framed.entries.value mem
      · rw [children] at hm
        obtain ⟨pair, mem, rfl⟩ := List.mem_map.mp hm
        obtain ⟨hs, record, noted, hn⟩ := hk.linked _ _ (framed.links.value mem)
        exact ⟨record, by rw [hs]; exact noted, hn⟩

/-- A walk at work: its top frame and its records are in order, and the frames in progress
    lie above the top one. -/
structure Working (env : Env ε) (start : Session) (treeId : ContentId) (walking : Walking)
    (session : Session) : Prop where
  sound : env.Sound start treeId session
  kept : ∃ records, env.Kept treeId session walking.completed records
  framed : ∃ bytes tree done, env.Framed session walking.completed walking.top bytes tree done
  reached : (env.closure treeId).Reaches walking.top.treeId
  progress : ∀ above ∈ walking.inProgress, Relation.ReflTransGen env.Child walking.top.treeId above
  current : walking.top.treeId ∈ walking.inProgress
  apart : ∀ above ∈ walking.inProgress, walking.completed above = none

structure Closed (env : Env ε) (start : Session) (treeId : ContentId) (walking : Walking)
    (session : Session) (state : Walking × Session) : Prop where
  working : env.Working start treeId state.1 state.2
  same : state.1.top.treeId = walking.top.treeId
  ended : state.1.top.rest = []
  below : state.1.below = walking.below
  progress : state.1.inProgress = walking.inProgress
  sealed : Retains session.sealed state.2.sealed
  completed : Retains walking.completed state.1.completed

def Stopped (env : Env ε) (start : Session) (treeId : ContentId)
    (result : Session × Except (AuthorError ε) ManifestRecord) : Prop :=
  env.Sound start treeId result.1 ∧ ∃ error, result.2 = .error error ∧
    env.Explained start treeId result.1 error

/-- One pass, by what its step ends with. -/
lemma leads_pass (steps : (env.step walking).Ends session fun outcome after =>
      match outcome with
      | .error error => ends (after, .error error)
      | .ok (.inr record) => ends (after, .ok record)
      | .ok (.inl next) => Leads env.pass goal ends (next, after)) :
    Leads env.pass goal ends (walking, session) := by
  unfold Ends at steps
  rcases stepped : env.step walking session with ⟨after, _ | next | record⟩
  · rw [stepped] at steps
    exact .done (by unfold pass; rw [stepped]) steps
  · rw [stepped] at steps
    exact .more (by unfold pass; rw [stepped]) steps
  · rw [stepped] at steps
    exact .done (by unfold pass; rw [stepped]) steps

lemma acyclic (based : Acc env.Child id) (hb : Relation.TransGen env.Child id id) : False := by
  have acc : Acc (Relation.TransGen env.Child) id := based.transGen
  induction acc with
  | intro id _ ih => exact ih id hb (based.inv_of_transGen hb) hb

section

variable (framed : env.Framed session completed frame bytes tree done)
include framed

lemma Framed.reachesChunk (hr : (env.closure treeId).Reaches frame.treeId)
    (mem : chunk ∈ chunksIn tree.entries) : (env.closure treeId).ReachesChunk chunk :=
  ⟨frame.treeId, tree, bytes.length, hr, framed.loads.readable, mem⟩

lemma Framed.child (mem : subtree ∈ directoriesIn tree.entries) : env.Child subtree frame.treeId :=
  ⟨bytes, tree, framed.loads, mem⟩

lemma Framed.advance {after entry rest entries links} (next : frame.rest = entry :: rest)
    (maps : Follows after.sealed entries
      (insert frame.treeId (chunksIn done) ∪ (fileChunks entry).toFinset))
    (tied : Follows later links (directoriesIn done ∪ (directoryOf entry).toFinset)) :
    env.Framed after later { frame with rest, entries, links } bytes tree (done ++ [entry]) := by
  refine ⟨framed.loads, ?_, ?_, ?_⟩
  · rw [framed.split, next, List.append_assoc]
    rfl
  · rw [chunksIn_append, ← insert_union]
    exact maps
  · rw [directoriesIn_append]
    exact tied

end

lemma Kept.record {record link} (hk : env.Kept treeId session completed records)
    (new : completed id = none) (tells : env.Describes session records id record)
    (below : ∃ above, (env.closure treeId).Reaches above ∧ env.Child id above)
    (linked : link.tree = id) (hn : link.manifest = record.manifestId) :
    env.Kept treeId { session with children := session.children ++ [{ record with isRoot := false }] }
      (update completed id (some link)) ((id, { record with isRoot := false }) :: records) := by
  have fresh : id ∉ records.map Prod.fst := by
    intro earlier
    have known := hk.known id earlier
    rw [new] at known
    cases known
  constructor
  case children => rw [List.map_cons, List.reverse_cons, hk.children]
  case described =>
    refine ⟨⟨tells.loads, tells.snapshot, tells.identity, tells.small, tells.cached, tells.linked⟩, ?_⟩
    exact hk.described.mono (.refl _)
  case distinct => exact List.nodup_cons.mpr ⟨fresh, hk.distinct⟩
  case linked =>
    intro other found hh
    by_cases hs : other = id
    · subst hs
      rw [update_self] at hh
      cases hh
      exact ⟨linked, _, List.mem_cons_self, hn⟩
    · rw [update_of_ne hs] at hh
      obtain ⟨tree, earlier, hm, manifest⟩ := hk.linked other found hh
      exact ⟨tree, earlier, List.mem_cons_of_mem _ hm, manifest⟩
  case known =>
    intro other hm
    by_cases hs : other = id
    · subst hs
      rw [update_self]
      rfl
    · rw [update_of_ne hs]
      exact hk.known other ((List.mem_cons.mp hm).resolve_left hs)
  case below =>
    intro other hm
    rcases List.mem_cons.mp hm with rfl | earlier
    · exact below
    · exact hk.below other earlier

/-- The end of a frame that has one below: it is assembled, recorded and linked. -/
lemma close_ends {walking parent below} (working : env.Working start treeId walking session)
    (ended : walking.top.rest = []) (stack : walking.below = parent :: below)
    (child : ∃ above, (env.closure treeId).Reaches above ∧ env.Child walking.top.treeId above) :
    (env.step walking).Ends session fun outcome after =>
      match outcome with
      | .error error => env.Stopped start treeId (after, .error error)
      | .ok (.inr _) => False
      | .ok (.inl next) => env.Sound start treeId after ∧
          Retains session.sealed after.sealed ∧
          (∃ records, env.Kept treeId after next.completed records) ∧
          ∃ link, next = {
            top := { parent with links := parent.links.observe (walking.top.treeId, link) }
            below := below
            completed := update walking.completed walking.top.treeId (some link)
            inProgress := walking.inProgress.erase walking.top.treeId } := by
  obtain ⟨records, kept⟩ := working.kept
  obtain ⟨bytes, tree, done, framed⟩ := working.framed
  unfold step
  rw [ended]
  refine Ends.bind (assemble_acts working.sound working.reached kept framed ended) ?_ ?_
  · rintro record after ⟨sound, stays, describes, pair, represented⟩
    rw [stack]
    dsimp only
    unfold Env.link
    rw [childLink_ok represented, ends_bind, ends_bind, ends_lift]
    dsimp only
    have new := working.apart _ working.current
    exact ⟨sound.same (fun _ here => here) rfl rfl, stays.sealed,
      ⟨_, (kept.stays stays).record new describes child rfl rfl⟩, _, rfl⟩
  · rintro error after ⟨sound, -, explained⟩
    exact ⟨sound, error, rfl, explained⟩

/-- Every frame is worked off to its end, or the walk stops. The outer induction is on the
    closure below the frame, the inner one on the entries it has left. -/
lemma leads_closed (founded : Acc env.Child id) (walking : Walking) (session : Session)
    (working : env.Working start treeId walking session) (here : walking.top.treeId = id) :
    Leads env.pass (env.Closed start treeId walking session) (env.Stopped start treeId)
      (walking, session) := by
  induction founded generalizing walking session with
  | intro id deeper ih =>
  have founded : Acc env.Child id := .intro id deeper
  subst here
  obtain ⟨rest, left⟩ : ∃ rest, walking.top.rest = rest := ⟨_, rfl⟩
  induction rest generalizing walking session with
  | nil => exact .here ⟨working, rfl, left, rfl, rfl, .refl _, .refl _⟩
  | cons entry rest inner =>
    obtain ⟨records, kept⟩ := working.kept
    obtain ⟨bytes, tree, done, framed⟩ := working.framed
    have listed : entry ∈ tree.entries := by
      rw [framed.split, left]
      exact List.mem_append_right _ List.mem_cons_self
    -- With the entry done, the rest of the frame follows.
    have onward {after : Session} {entries : Mappings} {links : Links}
        {completed : ContentId → Option ChildManifest} (sound : env.Sound start treeId after)
        (sealed : Retains session.sealed after.sealed)
        (kept : ∃ records, env.Kept treeId after completed records)
        (known : Retains walking.completed completed)
        (apart : ∀ above ∈ walking.inProgress, completed above = none)
        (mapped : Follows after.sealed entries
          (insert walking.top.treeId (chunksIn done) ∪ (fileChunks entry).toFinset))
        (linked : Follows completed links (directoriesIn done ∪ (directoryOf entry).toFinset)) :
        Leads env.pass (env.Closed start treeId walking session) (env.Stopped start treeId)
          (⟨{ walking.top with rest, entries, links }, walking.below, completed,
            walking.inProgress⟩, after) := by
      have next : env.Working start treeId ⟨{ walking.top with rest, entries, links },
          walking.below, completed, walking.inProgress⟩ after :=
        ⟨sound, kept, ⟨bytes, tree, _, framed.advance left mapped linked⟩, working.reached,
          working.progress, working.current, apart⟩
      refine (inner _ after next deeper ih founded rfl).mono ?_ fun _ stopped => stopped
      rintro final closed
      exact ⟨closed.working, closed.same, closed.ended, closed.below, closed.progress,
        sealed.trans closed.sealed, known.trans closed.completed⟩
    refine leads_pass ?_
    unfold step
    rw [left]
    dsimp only
    cases content : entry.content with
    | symlink =>
      refine onward working.sound (.refl _) ⟨records, kept⟩ (.refl _) working.apart ?_ ?_
      · simp only [fileChunks, content, List.toFinset_nil, union_empty]
        exact framed.entries
      · simpa [directoryOf, content] using framed.links
    | file size executable chunks =>
      have named : fileChunks entry = chunks := by unfold fileChunks; rw [content]
      have reached (chunk : ContentId) (member : chunk ∈ chunks) :
          (env.closure treeId).ReachesChunk chunk := by
        refine framed.reachesChunk working.reached (List.mem_toFinset.mpr ?_)
        exact List.mem_flatMap.mpr ⟨entry, listed, by rw [named]; exact member⟩
      refine Ends.bind (resolveAll_acts working.sound framed.entries reached) ?_ ?_
      · rintro entries after ⟨sound, stays, mapped⟩
        refine onward sound stays.sealed ⟨records, kept.stays stays⟩ (.refl _) working.apart ?_ ?_
        · rw [named]
          exact mapped
        · simpa [directoryOf, content] using framed.links
      · rintro error after ⟨sound, -, explained⟩
        exact ⟨sound, error, rfl, explained⟩
    | dir subtree =>
      have directory : directoryOf entry = some subtree := by unfold directoryOf; rw [content]
      have child : env.Child subtree walking.top.treeId :=
        framed.child (List.mem_toFinset.mpr (List.mem_filterMap.mpr ⟨entry, listed, directory⟩))
      have mapped {after : Session} (sealed : Retains session.sealed after.sealed) :
          Follows after.sealed walking.top.entries
            (insert walking.top.treeId (chunksIn done) ∪ (fileChunks entry).toFinset) := by
        simpa [fileChunks, content] using framed.entries.mono sealed
      have linked {completed : ContentId → Option ChildManifest} {link : ChildManifest}
          (known : Retains walking.completed completed) (found : completed subtree = some link) :
          Follows completed (walking.top.links.observe (subtree, link))
            (directoriesIn done ∪ (directoryOf entry).toFinset) := by
        rw [directory, Option.toFinset_some, union_comm, ← insert_eq]
        exact (framed.links.mono known).observe found
      dsimp only
      cases known : walking.completed subtree with
      | some =>
        exact onward working.sound (.refl _) ⟨records, kept⟩ (.refl _) working.apart
          (mapped (.refl _)) (linked (.refl _) known)
      | none =>
        -- A subtree in progress would lie above the tree that names it.
        have apart : subtree ∉ walking.inProgress := fun above =>
          acyclic founded (Relation.TransGen.tail' (working.progress subtree above) child)
        dsimp only
        rw [if_neg apart]
        refine Ends.bind (openFrame_acts working.sound (child.reaches working.reached)
          walking.completed) ?_ ?_
        · rintro frame after ⟨sound, stays, rfl, opened⟩
          have next : env.Working start treeId { walking with
              top := frame
              below := { walking.top with rest := rest } :: walking.below
              inProgress := insert frame.treeId walking.inProgress } after := by
            obtain ⟨bytes', tree', framed'⟩ := opened
            refine ⟨sound, ⟨records, kept.stays stays⟩, ⟨bytes', tree', [], framed'⟩,
              child.reaches working.reached, fun above member => ?_,
              mem_insert_self .., fun above member => ?_⟩
            · rcases mem_insert.mp member with rfl | earlier
              · exact .refl
              · exact (working.progress above earlier).head child
            · rcases mem_insert.mp member with rfl | earlier
              · exact known
              · exact working.apart above earlier
          refine (ih frame.treeId child _ after next rfl).trans ?_
          rintro ⟨closing, later⟩ closed
          refine leads_pass ((close_ends closed.working closed.ended closed.below
            ⟨_, working.reached, closed.same ▸ child⟩).mono ?_)
          rintro (error | resumed | record) final holds
          · exact holds
          · obtain ⟨sound', sealed, kept', link, rfl⟩ := holds
            have same : closing.top.treeId = frame.treeId := closed.same
            have progress : closing.inProgress.erase closing.top.treeId = walking.inProgress := by
              rw [closed.progress, same]
              exact erase_insert apart
            have cached : Retains session.sealed final.sealed :=
              (stays.sealed.trans closed.sealed).trans sealed
            rw [same] at progress kept' ⊢
            have completed := closed.completed.update known (some link)
            dsimp only
            rw [progress]
            refine onward sound' cached kept' completed (fun above member => ?_) (mapped cached)
              (linked completed (update_self ..))
            have other : above ≠ frame.treeId := by
              rintro rfl
              exact apart member
            rw [update_of_ne other]
            have still := closed.working.apart above (by
              rw [closed.progress]
              exact mem_insert_of_mem member)
            exact still
          · exact holds.elim
        · rintro error after ⟨sound, -, explained⟩
          exact ⟨sound, error, rfl, explained⟩

/-- The record of the root, over the records of its subtrees. -/
structure Returned (env : Env ε) (treeId : ContentId) (final : Session) (root : ManifestRecord)
    (records : List (ContentId × ManifestRecord)) : Prop where
  children : final.children = (records.map Prod.snd).reverse
  described : env.Described final records
  distinct : (records.map Prod.fst).Nodup
  below : ∀ id ∈ records.map Prod.fst, ∃ above, (env.closure treeId).Reaches above ∧ env.Child id above
  root : env.Describes final records treeId root

def Ended (env : Env ε) (start : Session) (treeId : ContentId)
    (result : Session × Except (AuthorError ε) ManifestRecord) : Prop :=
  env.Sound start treeId result.1 ∧
    match result.2 with
    | .error error => env.Explained start treeId result.1 error
    | .ok root => ∃ records, env.Returned treeId result.1 root records

lemma Stopped.ended (stops : env.Stopped start treeId result) : env.Ended start treeId result := by
  obtain ⟨sound, error, hf, hs⟩ := stops
  refine ⟨sound, ?_⟩
  rw [hf]
  exact hs

lemma return_ends (working : env.Working start treeId walking session)
    (here : walking.top.treeId = treeId) (ended : walking.top.rest = [])
    (stack : walking.below = []) :
    Leads env.pass (fun _ => False) (env.Ended start treeId) (walking, session) := by
  obtain ⟨records, kept⟩ := working.kept
  obtain ⟨bytes, tree, done, framed⟩ := working.framed
  refine leads_pass ?_
  unfold step
  rw [ended]
  refine Ends.bind (assemble_acts working.sound working.reached kept framed ended) ?_ ?_
  · rintro record after ⟨sound, stays, describes, -⟩
    rw [stack]
    have kept' := kept.stays stays
    rw [here] at describes
    exact ⟨sound, records, kept'.children, kept'.described, kept'.distinct, kept'.below, describes⟩
  · rintro error after ⟨sound, -, explained⟩
    exact ⟨sound, explained⟩

lemma begin_sound (vault : BaoRoot → Option Bytes) (draws : Nat) :
    env.Sound (.begin vault draws) treeId (.begin vault draws) :=
  ⟨fun _ hh => hh, fun _ _ hf => (nomatch hf), .nil, fun _ hm => absurd hm List.not_mem_nil⟩

lemma walk_ends (based : Acc env.Child treeId) (vault : BaoRoot → Option Bytes) (draws : Nat) :
    ∃ fuel result, (∀ more, fuel ≤ more → env.walk more treeId (.begin vault draws) = some result) ∧
      env.Ended (.begin vault draws) treeId result := by
  have hr : (env.closure treeId).Reaches treeId := .root
  have ho := openFrame_acts (begin_sound vault draws) hr fun _ => none
  unfold Acts Ends at ho
  unfold walk
  rcases first : env.openFrame treeId (.begin vault draws) with ⟨after, error | frame⟩
  · rw [first] at ho
    obtain ⟨sound, -, hs⟩ := ho
    exact ⟨0, _, fun _ _ => rfl, sound, hs⟩
  · rw [first] at ho
    obtain ⟨sound, stays, hh, bytes, tree, framed⟩ := ho
    subst hh
    have none : env.Kept frame.treeId after (fun _ => none) [] :=
      ⟨stays.children, trivial, .nil, fun _ _ hf => (nomatch hf),
        fun _ hm => absurd hm List.not_mem_nil, fun _ hm => absurd hm List.not_mem_nil⟩
    have working : env.Working (.begin vault draws) frame.treeId
        ⟨frame, [], fun _ => Option.none, {frame.treeId}⟩ after := by
      refine ⟨sound, ⟨[], none⟩, ⟨bytes, tree, [], framed⟩, .root, fun above hm => ?_,
        mem_singleton_self _, fun _ _ => rfl⟩
      rw [mem_singleton.mp hm]
    have leads := (leads_closed based _ after working rfl).mono (fun _ closed => closed)
      fun _ stops => Stopped.ended stops
    have returns := leads.trans fun ⟨last, later⟩ closed =>
      return_ends closed.working closed.same closed.ended closed.below
    obtain ⟨fuel, result, hg, he⟩ := returns.returns
    exact ⟨fuel, result, fun more ha => run_mono hg ha, he⟩

end Env

end Wyrd.Author
