import Wyrd.Durable.Replay

/-! # What a replayed fact changes

A manifest is recorded new or merged into a record of the same manifest, and of
all facts only announcements change what is announced.
-/

namespace Wyrd.Durable

open Wyrd.Control

variable {P : Primitives} {D : Digests}

namespace RuntimeState

variable {state next : RuntimeState P} {record : ManifestRecord}

/-- A recorded manifest was new, or merged into a record of the same manifest in
    the same role. -/
lemma recordManifest_ok (noted : state.recordManifest D record = .ok next) :
    D.manifestId record.manifest = record.manifestId ∧
      ((state.manifestRecord record.manifestId = none ∧ state.foreignChild record.manifest = none ∧
          next = state.insertManifest record) ∨
        ∃ known merged, state.manifestRecord record.manifestId = some known ∧
          known.manifest = record.manifest ∧ known.isRoot = record.isRoot ∧
          merged.manifestId = record.manifestId ∧ merged.manifest = record.manifest ∧
          merged.isRoot = record.isRoot ∧
          next = { state with manifests := state.manifests.observe merged }) := by
  unfold recordManifest at noted
  cases hf : state.manifests.lookup record.manifestId with
  | none =>
    simp only [hf] at noted
    cases alien : state.foreignChild record.manifest with
    | some =>
      simp only [alien] at noted
      split_ifs at noted
    | none =>
      simp only [alien] at noted
      split_ifs at noted with self
      cases noted
      exact ⟨(not_not.mp self).symm, .inl ⟨hf, rfl, rfl⟩⟩
  | some known =>
    simp only [hf, mergeManifest] at noted
    split_ifs at noted with self differs
    all_goals
      have id : known.manifestId = record.manifestId := Observed.key_of_lookup hf
      cases noted
      simp only [not_or, not_not] at differs
      refine ⟨(not_not.mp self).symm, .inr ⟨known, _, hf, differs.1, differs.2, ?_, ?_, ?_, rfl⟩⟩
      · exact id
      · exact differs.1
      · exact differs.2

lemma recordSnapshotBody_ok (recorded : state.recordSnapshotBody body = .ok next) :
    (∀ a, state.announcement (P.snapshotId body) = some a → bodyAgrees a body = true) ∧
      next = { state with snapshotBodies := state.snapshotBodies.observe body } := by
  unfold recordSnapshotBody at recorded
  cases hf : state.announcements.lookup (P.snapshotId body) with
  | none =>
    simp only [hf] at recorded
    cases recorded
    exact ⟨by simp [announcement, hf], rfl⟩
  | some =>
    simp only [hf] at recorded
    split_ifs at recorded with ha
    cases recorded
    refine ⟨?_, rfl⟩
    intro other hs
    cases hf.symm.trans hs
    exact ha

end RuntimeState

open RuntimeState

lemma replayFact_announcement {state next : RuntimeState P}
    (rerun : replayFact D state fact = .ok next) :
    next.announcement = state.announcement ∨
      ∃ a, fact = .announcement a ∧
        next.announcement = Function.update state.announcement a.snapshot (some a) := by
  cases fact with
  | announcement a => exact .inr ⟨a, rfl, (recordAnnouncement_ok rerun).2.2.1⟩
  | snapshotBody =>
    obtain ⟨_, rfl⟩ := recordSnapshotBody_ok rerun
    exact .inl rfl
  | manifest =>
    obtain ⟨_, ⟨_, _, rfl⟩ | ⟨_, _, _, _, _, _, _, _, rfl⟩⟩ := recordManifest_ok rerun
    · exact .inl rfl
    · exact .inl rfl
  | transitionReconciled =>
    cases rerun
    unfold recordTransitionReconciled
    split_ifs <;> exact .inl rfl
  | _ =>
    cases rerun
    exact .inl rfl

lemma replay_announcement_origin {state : RuntimeState P} (rerun : replay D facts = .ok state)
    (hf : state.announcement snapshot = some a) : .announcement a ∈ facts := by
  refine foldlM_ok (fun done (state : RuntimeState P) =>
    ∀ snapshot a, state.announcement snapshot = some a → .announcement a ∈ done) ?_ ?_ rerun
    snapshot a hf
  · intro done fact state next _ origin steps snapshot a hf
    rcases replayFact_announcement steps with hs | ⟨latest, rfl, hu⟩
    · exact List.mem_append_left _ (origin snapshot a (hs ▸ hf))
    · rw [hu, Function.update_apply] at hf
      split_ifs at hf
      · cases hf
        simp
      · exact List.mem_append_left _ (origin snapshot a hf)
  · intro snapshot a hf
    cases hf

end Wyrd.Durable
