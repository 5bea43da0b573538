import Wyrd.Mount.Handles

/-! # How a fold settles what it took

A plan settles every taken image once. The image of the forcing handle is settled by the
forcer's own outcome, so it is never put back.
-/

namespace Wyrd.Mount

open List

lemma SubmitMember.add_taken (runs : List SubmitMember) (member : TakenMember) (forcer : Bool) :
    ((SubmitMember.add runs member forcer).flatMap (·.taken)).Perm
      (runs.flatMap (·.taken) ++ [member]) := by
  unfold SubmitMember.add
  split
  · next position _ found =>
    obtain ⟨bound, -⟩ := List.findIdx?_eq_some_iff_getElem.mp found
    have split : runs.flatMap (·.taken) = (runs.take position).flatMap (·.taken) ++
        (runs[position].taken ++ (runs.drop (position + 1)).flatMap (·.taken)) := by
      rw [← flatMap_cons, ← drop_eq_getElem_cons bound, ← flatMap_append, take_append_drop]
    rw [modify_eq_take_cons_drop bound, split]
    simp only [flatMap_append, flatMap_cons, append_assoc]
    refine List.Perm.append_left _ (List.Perm.append_left _ ?_)
    exact perm_append_comm
  · simp

lemma submitRuns_taken (forcer : Forcer) (taken : List TakenMember) :
    ((submitRuns forcer taken).flatMap (·.taken)).Perm taken := by
  suffices he : ∀ runs : List SubmitMember,
      ((taken.foldl (fun runs member => SubmitMember.add runs member (forcer.owns member))
        runs).flatMap (·.taken)).Perm (runs.flatMap (·.taken) ++ taken) from he []
  induction taken with
  | nil => intro runs; simp
  | cons member taken ih =>
    intro runs
    rw [foldl_cons]
    refine (ih _).trans (((SubmitMember.add_taken ..).append_right taken).trans ?_)
    simp

/-- A run with the forcing handle's image is the forcer's. -/
def Owned (forcer : Forcer) (runs : List SubmitMember) : Prop :=
  ∀ run ∈ runs, ∀ member ∈ run.taken, forcer.owns member = true → run.forcer = true

lemma Owned.add (owned : Owned forcer runs) (member : TakenMember) :
    Owned forcer (SubmitMember.add runs member (forcer.owns member)) := by
  unfold SubmitMember.add
  split
  · intro run joined own mem owns
    rw [mem_iff_getElem?] at joined
    obtain ⟨index, atIndex⟩ := joined
    rw [List.getElem?_modify] at atIndex
    obtain ⟨before, hf, rfl⟩ := Option.map_eq_some_iff.mp atIndex
    have known := mem_of_getElem? hf
    split_ifs at mem ⊢
    · rcases mem_append.mp mem with old | added
      · simp [owned before known own old owns]
      · rw [mem_singleton.mp added] at owns
        simp [owns]
    · exact owned before known own mem owns
  · intro run joined own mem owns
    rcases mem_append.mp joined with old | added
    · exact owned run old own mem owns
    · cases mem_singleton.mp added
      cases mem_singleton.mp mem
      exact owns

lemma submitRuns_owned (forcer : Forcer) (taken : List TakenMember) :
    Owned forcer (submitRuns forcer taken) := by
  suffices he : ∀ runs, Owned forcer runs →
      Owned forcer (taken.foldl
        (fun runs member => SubmitMember.add runs member (forcer.owns member)) runs) from
    he [] fun _ none => absurd none not_mem_nil
  induction taken with
  | nil => exact fun _ owned => owned
  | cons member taken ih => exact fun runs owned => ih _ (owned.add member)

@[simp] lemma SubmitMember.settle_member (run : SubmitMember) (settlement : Settlement) :
    (run.settle settlement).map PlanEntry.member = run.taken := by
  simp [SubmitMember.settle, Function.comp_def]

lemma zipWith_settle_member {members : List SubmitMember} {dispositions : List Disposition}
    (fits : dispositions.length = members.length) :
    (List.zipWith (fun run disposition => SubmitMember.settle run disposition.settlement)
      members dispositions).flatten.map PlanEntry.member = members.flatMap (·.taken) := by
  induction members generalizing dispositions with
  | nil => simp
  | cons run members ih =>
    cases dispositions with
    | nil => simp at fits
    | cons =>
      simp only [zipWith_cons_cons, flatten_cons, map_append, flatMap_cons,
        SubmitMember.settle_member]
      rw [ih (by simpa using fits)]

lemma mem_zipWith_settle {members : List SubmitMember} {dispositions : List Disposition}
    {entry : PlanEntry}
    (plans : entry ∈ (List.zipWith
      (fun run disposition => SubmitMember.settle run disposition.settlement)
      members dispositions).flatten) :
    ∃ run ∈ members, ∃ disposition ∈ dispositions, entry ∈ run.settle disposition.settlement := by
  induction members generalizing dispositions with
  | nil => simp at plans
  | cons run members ih =>
    cases dispositions with
    | nil => simp at plans
    | cons disposition =>
      rw [zipWith_cons_cons, flatten_cons] at plans
      rcases mem_append.mp plans with hf | hl
      · exact ⟨run, by simp, disposition, by simp, hf⟩
      · obtain ⟨run, hm, disposition, given, fixed⟩ := ih hl
        exact ⟨run, by simp [hm], disposition, by simp [given], fixed⟩

/-- Every taken image is settled once. -/
lemma settlePlan_member (forcer : Forcer) (taken : List TakenMember) (verdict : Verdict) :
    ((settlePlan forcer taken verdict).1.map PlanEntry.member).Perm taken := by
  have failing : (taken.map fun member => (⟨member, .failed, false⟩ : PlanEntry)).map
      PlanEntry.member = taken := by simp [Function.comp_def]
  unfold settlePlan
  dsimp only
  split
  · rw [failing]
  · rw [failing]
  · split_ifs with hf
    · rw [failing]
    · rw [map_append, zipWith_settle_member (not_not.mp hf), map_flatMap]
      simp only [SubmitMember.settle_member]
      rw [← flatMap_append]
      refine List.Perm.trans (List.Perm.flatMap_right _ ?_) (submitRuns_taken forcer taken)
      have split := filter_append_perm (fun run : SubmitMember => !run.forcer)
        (submitRuns forcer taken)
      simpa using split

/-- How a fold that closes handles ends: a forcing handle's image is never put back, and
    when there is no forcer the loop puts none back. -/
lemma settlePlan_closes {forcer : Forcer} {taken : List TakenMember} {verdict : Verdict}
    {member : TakenMember} (mem : member ∈ taken)
    (close : forcer.owns member = true ∨
      ∀ outcome members, verdict = .fold outcome members → Disposition.restored ∉ members) :
    ∃ entry ∈ (settlePlan forcer taken verdict).1, entry.member = member ∧
      entry.settlement ≠ .restored := by
  obtain ⟨entry, plans, hs⟩ := mem_map.mp ((settlePlan_member forcer taken verdict).mem_iff.mpr mem)
  refine ⟨entry, plans, hs, fun restored => ?_⟩
  unfold settlePlan at plans
  dsimp only at plans
  have failing : entry ∉ taken.map fun member => (⟨member, .failed, false⟩ : PlanEntry) := by
    intro hf
    obtain ⟨_, -, rfl⟩ := mem_map.mp hf
    cases restored
  split at plans
  · exact failing plans
  · exact failing plans
  · next outcome dispositions =>
    split_ifs at plans with fits
    · exact failing plans
    · rcases mem_append.mp plans with fellow | forcing
      · obtain ⟨run, fellows, disposition, given, fixed⟩ := mem_zipWith_settle fellow
        obtain ⟨hr, free⟩ := mem_filter.mp fellows
        obtain ⟨own, hb, rfl⟩ := mem_map.mp fixed
        rcases close with owns | hp
        · rw [← hs] at owns
          simp [submitRuns_owned forcer taken run hr own hb owns] at free
        · refine hp outcome dispositions rfl ?_
          cases disposition <;> cases restored
          exact given
      · obtain ⟨run, -, hl⟩ := mem_flatMap.mp forcing
        obtain ⟨_, -, rfl⟩ := mem_map.mp hl
        cases outcome <;> cases restored

end Wyrd.Mount
