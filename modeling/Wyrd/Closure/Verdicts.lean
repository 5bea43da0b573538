import Wyrd.Closure.Growth

/-! # The verdicts of closure verification

Over a finite store the verifier comes to a verdict, and more fuel does not change it. The
verdict is good exactly if there is an assignment of manifests to trees; while the store
and the records grow, a good verdict stays and damage never heals.
-/

namespace Wyrd.Closure

variable {ε : Type} {claimed : Claimed ε} {walk : Walk} {fuel : Nat}

/-- The verdict with enough fuel. -/
def Concludes (verify : Nat → Option (Except (ClosureError ε) Unit)) (enough : Nat)
    (verdict : Except (ClosureError ε) Unit) : Prop :=
  ∀ fuel, enough ≤ fuel → verify fuel = some verdict

namespace Claimed

lemma walkAll_succ (walked : claimed.walkAll fuel walk = some outcome) :
    claimed.walkAll (fuel + 1) walk = some outcome := by
  induction fuel generalizing walk with
  | zero => cases walked
  | succ fuel ih =>
    unfold walkAll at walked ⊢
    split at walked
    · exact walked
    · split at walked
      · exact walked
      · exact ih walked

variable {verdict : Except (ClosureError ε) Unit}

lemma verify_succ (proven : claimed.verifySnapshotManifest fuel = some verdict) :
    claimed.verifySnapshotManifest (fuel + 1) = some verdict := by
  unfold verifySnapshotManifest at proven ⊢
  split at proven
  · exact proven
  · obtain ⟨walked, he, rfl⟩ := Option.map_eq_some_iff.mp proven
    rw [walkAll_succ he]
    rfl

lemma verify_concludes (proven : claimed.verifySnapshotManifest fuel = some verdict) :
    Concludes claimed.verifySnapshotManifest fuel verdict := by
  intro more ha
  induction more, ha using Nat.le_induction with
  | base => exact proven
  | succ more _ ih => exact verify_succ ih

lemma verify_isSome {bound : Finset ContentId}
    (finite : ∀ id tree size, claimed.Reaches id → claimed.Readable id tree size → id ∈ bound) :
    ∃ verdict, Concludes claimed.verifySnapshotManifest (bound.card + 2) verdict := by
  suffices he : ∃ verdict, claimed.verifySnapshotManifest (bound.card + 2) = some verdict by
    obtain ⟨verdict, hp⟩ := he
    exact ⟨verdict, verify_concludes hp⟩
  unfold verifySnapshotManifest
  split
  · exact ⟨_, rfl⟩
  · have ample : (unread bound claimed.start).card + 2 ≤ bound.card + 2 :=
      Nat.add_le_add_right (Finset.card_filter_le _ _) 2
    obtain ⟨outcome, walked⟩ := mapped_start.walkAll_isSome finite covered_start ample
    rw [walked]
    exact ⟨_, rfl⟩

lemma verified_corresponds (proven : claimed.verifySnapshotManifest fuel = some (.ok ())) :
    ∃ assign, claimed.Corresponds assign := by
  unfold verifySnapshotManifest at proven
  split at proven
  · cases proven
  · next checked =>
    obtain ⟨walked, ended, passed⟩ := Option.map_eq_some_iff.mp proven
    obtain ⟨final, rfl, passed⟩ := bind_ok.mp passed
    obtain ⟨maps, hc, he⟩ := mapped_start.walkAll covered_start ended
    have done : claimed.Finished final := ⟨maps, hc, he⟩
    refine ⟨claimed.assigned final, done.corresponds checked fun manifest met entry hm => ?_⟩
    exact done.checkReached.mp (forM_ok.mp (forM_ok.mp passed manifest met) entry hm)

lemma Corresponds.verified (matched : claimed.Corresponds assign)
    (proven : claimed.verifySnapshotManifest fuel = some verdict) : verdict = .ok () := by
  have total (id : ContentId) (hr : claimed.Reaches id) : ∃ held, claimed.get id = .ok held := by
    obtain ⟨tree, size, bytes, hs, -⟩ := matched.stored id hr
    exact ⟨some bytes, hs⟩
  have yields : Yields (fun _ => True) (claimed.Lacks assign) verdict :=
    verify_guided (.refl claimed) matched total proven
  cases verdict with
  | ok => rfl
  | error => exact absurd yields matched.complete

lemma verified_iff (ends : Concludes claimed.verifySnapshotManifest enough verdict) :
    verdict = .ok () ↔ ∃ assign, claimed.Corresponds assign := by
  constructor
  · rintro rfl
    exact verified_corresponds (ends enough le_rfl)
  · rintro ⟨assign, hm⟩
    exact hm.verified (ends enough le_rfl)

/-- Closure verification is exact: over a store that is a finite map it comes to a verdict,
    and the verdict is good if and only if manifests can be assigned to the trees. -/
theorem closure_verified_iff (claimed : Claimed ε) (objects : ContentId → Option Bytes)
    (held : ∀ id, claimed.get id = .ok (objects id)) (bound : Finset ContentId)
    (finite : ∀ id bytes, objects id = some bytes → id ∈ bound) :
    ∃ verdict, Concludes claimed.verifySnapshotManifest (bound.card + 2) verdict ∧
      (verdict = .ok () ↔ ∃ assign, claimed.Corresponds assign) := by
  have stored (id : ContentId) (tree : Tree) (size : Nat) (_ : claimed.Reaches id)
      (hr : claimed.Readable id tree size) : id ∈ bound := by
    obtain ⟨bytes, got, -⟩ := hr
    exact finite id bytes (Except.ok.inj ((held id).symm.trans got))
  obtain ⟨verdict, ends⟩ := verify_isSome stored
  exact ⟨verdict, ends, verified_iff ends⟩

def byLength (kind : ObjectKind) (bytes : Bytes) : ContentId :=
  ⟨Fin.ofNat (2 ^ 256) (4 * bytes.length + kind.byte.toNat)⟩

def leafTree : ContentId := byLength .tree Tree.empty.encode

def rootTree : ContentId := byLength .tree (upperTree ⟨1⟩ leafTree).encode

def leafManifest : Manifest := ⟨⟨0⟩, [], [], noEntries, noChildren⟩

/-- Declares the chunk of the file and the manifest of the subdirectory. -/
def rootManifest : Manifest where
  snapshot := ⟨0⟩
  entries := [⟨⟨1⟩, .chunk, 0, ⟨0⟩, 1, 0, 9⟩]
  children := [⟨leafTree, byLength .manifest leafManifest.canonicalBytes, ⟨0⟩, 0⟩]
  entriesSorted := List.pairwise_singleton ..
  childrenSorted := List.pairwise_singleton ..

/-- The root tree is stored, and the subdirectory where `whole`. -/
def sampleObjects (whole : Bool) (id : ContentId) : Option Bytes :=
  if id = rootTree then some (upperTree ⟨1⟩ leafTree).encode
  else if whole = true ∧ id = leafTree then some Tree.empty.encode
  else none

def sampleGate (whole : Bool) : Gate Unit where
  derive := byLength
  limits := ⟨3, 1, 1, 1, 1, 1⟩
  get id := .ok (sampleObjects whole id)
  manifests id :=
    if id = byLength .manifest leafManifest.canonicalBytes then some leafManifest else none
  roots _ := some (byLength .manifest rootManifest.canonicalBytes, rootManifest)

def sample (whole : Bool) : Claimed Unit :=
  (sampleGate whole).claimed ⟨0⟩ rootTree
    (byLength .manifest rootManifest.canonicalBytes, rootManifest)

lemma sampleGate_holds (whole : Bool) :
    (∀ id, (sampleGate whole).get id = .ok (sampleObjects whole id)) ∧
      ∀ id bytes, sampleObjects whole id = some bytes →
        id ∈ ({rootTree, leafTree} : Finset ContentId) := by
  refine ⟨fun _ => rfl, fun id bytes held => ?_⟩
  unfold sampleObjects at held
  split_ifs at held with root leaf
  · simp [root]
  · simp [leaf.2]

theorem closure_verified_iff_sample :
    (sample true).verifySnapshotManifest 4 = some (.ok ()) ∧
      ∃ verdict, Concludes (sample true).verifySnapshotManifest
          (({rootTree, leafTree} : Finset ContentId).card + 2) verdict ∧
        (verdict = .ok () ↔ ∃ assign, (sample true).Corresponds assign) :=
  ⟨by decide +kernel, closure_verified_iff (sample true) (sampleObjects true) (fun _ => rfl) _
    (sampleGate_holds true).2⟩

/-- A closure is verified although no manifest has an entry for a tree. -/
theorem verified_without_tree_entry :
    (sample true).verifySnapshotManifest 4 = some (.ok ()) ∧
      ∀ manifest ∈ [rootManifest, leafManifest], ∀ entry ∈ manifest.entries,
        entry.kind ≠ .tree := by
  decide +kernel

end Claimed

def Persists (before after : Except (ClosureError ε) Unit) : Prop :=
  (before = .ok () → after = .ok ()) ∧
    ∀ error, before = .error error → error.isPending = false → after ≠ .ok ()

structure Gate.Grown (gate later : Gate ε) : Prop where
  derive : later.derive = gate.derive
  limits : later.limits = gate.limits
  get : ∀ id bytes, gate.get id = .ok (some bytes) → later.get id = .ok (some bytes)
  manifests : ∀ id manifest, gate.manifests id = some manifest →
    later.manifests id = some manifest
  roots : ∀ id root, gate.roots id = some root → later.roots id = some root

structure Gate.Holds (gate : Gate ε) (objects : ContentId → Option Bytes)
    (bound : Finset ContentId) : Prop where
  held : ∀ id, gate.get id = .ok (objects id)
  finite : ∀ id bytes, objects id = some bytes → id ∈ bound

section Growth

variable {gate later : Gate ε} {snapshotId : SnapshotId} {tree : ContentId}
  {root : ContentId × Manifest} {objects objects' : ContentId → Option Bytes}
  {bound bound' : Finset ContentId}

lemma Gate.Holds.concludes (holds : gate.Holds objects bound) (snapshotId : SnapshotId)
    (tree : ContentId) (root : ContentId × Manifest) :
    ∃ verdict, Concludes (gate.claimed snapshotId tree root).verifySnapshotManifest
      (bound.card + 2) verdict := by
  refine Claimed.verify_isSome fun id tree size _ hr => ?_
  obtain ⟨bytes, got, -⟩ := hr
  exact holds.finite id bytes (Except.ok.inj ((holds.held id).symm.trans got))

lemma Gate.Grown.against (grown : gate.Grown later) (snapshotId : SnapshotId) (tree : ContentId)
    (root : ContentId × Manifest) :
    (gate.claimed snapshotId tree root).Grown later.get later.manifests ∧
      later.claimed snapshotId tree root =
        (gate.claimed snapshotId tree root).against later.get later.manifests := by
  refine ⟨⟨grown.get, grown.manifests⟩, ?_⟩
  unfold Gate.claimed Claimed.against
  rw [grown.derive, grown.limits]

lemma Gate.Grown.persists (grown : gate.Grown later) (holds : gate.Holds objects bound)
    (first : Concludes (gate.claimed snapshotId tree root).verifySnapshotManifest
      (bound.card + 2) before)
    (second : Concludes (later.claimed snapshotId tree root).verifySnapshotManifest
      (bound'.card + 2) after) : Persists before after := by
  obtain ⟨larger, hs⟩ := grown.against snapshotId tree root
  have exactly := Claimed.verified_iff first
  have exact' := Claimed.verified_iff second
  rw [hs] at exact'
  constructor
  · intro good
    obtain ⟨assign, matched⟩ := exactly.mp good
    exact exact'.mpr ⟨assign, matched.grown larger⟩
  · rintro error rfl hl healed
    obtain ⟨assign, matched⟩ := exact'.mp healed
    have lacks := Claimed.verify_guided larger matched (fun id _ => ⟨_, holds.held id⟩) (first _ le_rfl)
    have waits : error.isPending = true := Claimed.Lacks.isPending lacks
    exact absurd (hl.symm.trans waits) (by simp)

/-- Only pending errors heal: of two verdicts about one claim, or about one head at the
    gate, the later one keeps what was good and never clears damage. -/
theorem only_pending_errors_heal (gate later : Gate ε) (grown : gate.Grown later)
    (objects objects' : ContentId → Option Bytes) (bound bound' : Finset ContentId)
    (holds : gate.Holds objects bound) (holds' : later.Holds objects' bound')
    (snapshotId : SnapshotId) (tree : ContentId) :
    (∀ root, ∃ before after,
      Concludes (gate.claimed snapshotId tree root).verifySnapshotManifest (bound.card + 2) before ∧
      Concludes (later.claimed snapshotId tree root).verifySnapshotManifest (bound'.card + 2) after ∧
      Persists before after) ∧
    ∃ before after,
      Concludes (gate.verifyHeadClosure snapshotId tree) (bound.card + 2) before ∧
      Concludes (later.verifyHeadClosure snapshotId tree) (bound'.card + 2) after ∧
      Persists before after := by
  have rules (root : ContentId × Manifest) : ∃ before after,
      Concludes (gate.claimed snapshotId tree root).verifySnapshotManifest (bound.card + 2) before ∧
      Concludes (later.claimed snapshotId tree root).verifySnapshotManifest (bound'.card + 2) after ∧
      Persists before after := by
    obtain ⟨before, first⟩ := holds.concludes snapshotId tree root
    obtain ⟨after, second⟩ := holds'.concludes snapshotId tree root
    exact ⟨before, after, first, second, grown.persists holds first second⟩
  refine ⟨rules, ?_⟩
  cases noted : gate.roots snapshotId with
  | some root =>
    obtain ⟨before, after, first, second, lasts⟩ := rules root
    refine ⟨before, after, fun fuel ample => ?_, fun fuel ample => ?_, lasts⟩
    · unfold Gate.verifyHeadClosure
      rw [noted]
      exact first fuel ample
    · unfold Gate.verifyHeadClosure
      rw [grown.roots _ _ noted]
      exact second fuel ample
  | none =>
    -- A head whose root manifest is not recorded is pending.
    have lost : Concludes (gate.verifyHeadClosure snapshotId tree) (bound.card + 2)
        (.error (.rootManifestMissing snapshotId)) := by
      intro fuel _
      unfold Gate.verifyHeadClosure
      rw [noted]
    have lasts (after : Except (ClosureError ε) Unit) :
        Persists (.error (.rootManifestMissing snapshotId)) after := by
      refine ⟨fun good => (nomatch good), fun error hh hl => ?_⟩
      cases hh
      cases hl
    cases noted' : later.roots snapshotId with
    | none =>
      refine ⟨_, .error (.rootManifestMissing snapshotId), lost, fun fuel _ => ?_, lasts _⟩
      unfold Gate.verifyHeadClosure
      rw [noted']
    | some root =>
      obtain ⟨after, second⟩ := holds'.concludes snapshotId tree root
      refine ⟨_, after, lost, fun fuel ample => ?_, lasts after⟩
      unfold Gate.verifyHeadClosure
      rw [noted']
      exact second fuel ample

open Claimed in
/-- A missing subdirectory is fetched. -/
theorem only_pending_errors_heal_sample :
    (sampleGate false).verifyHeadClosure ⟨0⟩ rootTree 4 =
        some (.error (.treeUnavailable leafTree)) ∧
      (sampleGate true).verifyHeadClosure ⟨0⟩ rootTree 4 = some (.ok ()) ∧
      ∃ before after,
        Concludes ((sampleGate false).verifyHeadClosure ⟨0⟩ rootTree)
          (({rootTree, leafTree} : Finset ContentId).card + 2) before ∧
        Concludes ((sampleGate true).verifyHeadClosure ⟨0⟩ rootTree)
          (({rootTree, leafTree} : Finset ContentId).card + 2) after ∧
        Persists before after := by
  have grown : (sampleGate false).Grown (sampleGate true) := by
    refine ⟨rfl, rfl, fun id bytes held => ?_, fun _ _ known => known, fun _ _ known => known⟩
    simp only [sampleGate, sampleObjects, Except.ok.injEq] at held ⊢
    split_ifs at held with root leaf
    · rw [if_pos root, held]
    · cases leaf.1
  have holds (whole : Bool) : (sampleGate whole).Holds (sampleObjects whole) {rootTree, leafTree} :=
    ⟨(sampleGate_holds whole).1, (sampleGate_holds whole).2⟩
  exact ⟨by decide +kernel, by decide +kernel, (only_pending_errors_heal _ _ grown _ _ _ _
    (holds false) (holds true) ⟨0⟩ rootTree).2⟩

end Growth

end Wyrd.Closure
