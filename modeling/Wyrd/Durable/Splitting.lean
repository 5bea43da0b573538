import Wyrd.Durable.Crash

/-! # Splitting a batch over several commits

A batch over one of the commit ceilings is halved until its parts fit, and the parts
are committed one after another. The log grows by the records of the batch in its order,
or of a first part of it when a commit is torn, fails or is refused.
-/

namespace Wyrd.Durable

open Reader Keys DurableStore

variable {P : Primitives}

/-- What one commit meets: the nonces drawn for it, and how its writes end. -/
structure Attempt where
  drawn : Nat → Option Nonce
  ending : Ending

def StoreError.overCeiling : StoreError → Bool
  | .tooManyRecords .. | .commitTooLarge .. => true
  | _ => false

/-- Commit one batch and report whether the tip moved. -/
def commitFactsLanding (K : StoreKit) (attempt : Attempt) (facts : List (CommitFact P))
    (life : Life P) : Life P × Except StoreError Bool :=
  let before := life.store.current
  let outcome := commitUntil K attempt.drawn facts attempt.ending life.store
  (life.step K (.commit attempt.drawn facts attempt.ending),
    outcome.2.map fun seq => decide (before < seq))

/-- Commit a batch, in halves while it is over a ceiling; a half that does not land
    stops the split. Beside the store, the commits made are counted. -/
def commitAdmissible (K : StoreKit) (attempts : Nat → Attempt) (facts : List (CommitFact P))
    (made : Nat) (life : Life P) : (Nat × Life P) × Except StoreError Bool :=
  if facts = [] then ((made, life), .ok true)
  else match commitFactsLanding K (attempts made) facts life with
    | (life, .ok landed) => ((made + 1, life), .ok landed)
    | (life, .error error) =>
      if error.overCeiling = true ∧ 1 < facts.length then
        match commitAdmissible K attempts (facts.take (facts.length / 2)) (made + 1) life with
        | ((made, life), .ok true) =>
          commitAdmissible K attempts (facts.drop (facts.length / 2)) made life
        | stopped => stopped
      else ((made + 1, life), .error error)
termination_by facts.length
decreasing_by all_goals simp only [List.length_take, List.length_drop]; omega

section Growth

variable {K : StoreKit} {drive : DriveId} {attempts : Nat → Attempt} {facts : List (CommitFact P)}
  {made : Nat} {life : Life P}

def Encodes (K : StoreKit) (key : Bytes) (drive : DriveId) (fact : CommitFact P)
    (record : Tag × Bytes) : Prop :=
  ∃ drawn, encodeFact K key drive drawn fact = .ok record

lemma encodes_encodeFacts {key drive drawn records}
    (encoded : encodeFacts K key drive drawn facts = .ok records) :
    List.Forall₂ (Encodes K key drive) facts records := by
  have each := mapM_ok.mp encoded
  rw [← List.zipIdx_map_fst 0 facts, List.forall₂_map_left_iff]
  exact each.imp fun numbered record made => ⟨_, made⟩

lemma Journal.encodes {key base disk} {written filed : List (FiledBatch P)}
    (journal : Journal K key drive (written ++ filed) base disk) :
    List.Forall₂ (Encodes K key drive) (filed.flatMap FiledBatch.facts)
      (filed.flatMap FiledBatch.records) := by
  have accepted := journal.accepted
  clear journal
  induction filed using List.reverseRecOn with
  | nil => exact .nil
  | append_singleton filed batch ih =>
    rw [← List.append_assoc] at accepted
    obtain ⟨drawn, encoded⟩ := (accepted _ batch List.prefix_rfl).encoded
    rw [List.flatMap_append, List.flatMap_append, List.flatMap_singleton, List.flatMap_singleton]
    exact List.rel_append
      (ih fun before other short => accepted before other (short.trans (List.prefix_append _ _)))
      (encodes_encodeFacts encoded)

/-- The chain on disk got these batches behind what was there. -/
structure Extends (K : StoreKit) (drive : DriveId) (life final : Life P)
    (written filed : List (FiledBatch P)) : Prop where
  sound : final.Sound K drive (written ++ filed)
  key : final.store.key = life.store.key
  full : ∀ batch ∈ filed, batch.facts ≠ []

lemma Extends.refl (sound : life.Sound K drive written) : Extends K drive life life written [] :=
  ⟨by rwa [List.append_nil], rfl, by simp⟩

lemma Extends.trans (start : Extends K drive life middle written first)
    (rest : Extends K drive middle final (written ++ first) second) :
    Extends K drive life final written (first ++ second) where
  sound := by
    rw [← List.append_assoc]
    exact rest.sound
  key := rest.key.trans start.key
  full batch present := (List.mem_append.mp present).elim (start.full batch) (rest.full batch)

lemma Extends.length_le (grown : Extends K drive life final written filed) :
    filed.length ≤ (filed.flatMap FiledBatch.facts).length := by
  rw [List.length_flatMap, ← List.length_map fun batch : FiledBatch P => batch.facts.length]
  refine List.length_le_sum_of_one_le _ fun length present => ?_
  obtain ⟨batch, filed, rfl⟩ := List.mem_map.mp present
  exact List.length_pos_of_ne_nil (grown.full batch filed)

/-- A commit is refused and changes nothing, or its writes end as they do: the batch is
    in the chain from the rename of `CURRENT` on, though the commit may then still fail. -/
lemma commitFactsLanding_cases (sound : life.Sound K drive written) (attempt : Attempt)
    (some : facts ≠ []) (sized : ∀ fact ∈ facts, fact.Sized)
    (ran : commitFactsLanding K attempt facts life = (next, result)) :
    (∃ error, result = .error error ∧ next = life ∧
        (prepare K attempt.drawn facts life.store).2 = .error error) ∨
      ∃ records, Extends K drive life next written
          (if attempt.ending.named then [⟨facts, records⟩] else []) ∧
        result = match attempt.ending with
          | .stops _ => .ok attempt.ending.named
          | .fails _ => .error .io := by
  simp only [commitFactsLanding, Prod.mk.injEq] at ran
  obtain ⟨rfl, rfl⟩ := ran
  obtain ⟨error, failed, refused, same⟩ | ⟨records, ended, key, after⟩ :=
    sound.commit some sized attempt.drawn attempt.ending
  · exact .inl ⟨error, by rw [failed]; rfl, same, refused⟩
  · have current := after.current
    refine .inr ⟨records, ⟨?_, key, ?_⟩, ?_⟩
    · convert after using 2
      split_ifs <;> simp
    · split_ifs <;> simp [some]
    · rw [ended]
      cases ending : attempt.ending with
      | fails => rfl
      | stops stage =>
        rw [ending] at current
        simp only [Ending.result, Except.map, current, sound.current]
        cases named : (Ending.stops stage).named <;> simp

lemma commitFactsLanding_over (sound : life.Sound K drive written)
    (some : facts ≠ []) (sized : ∀ fact ∈ facts, fact.Sized)
    (ran : commitFactsLanding K attempt facts life = (next, .error error))
    (ceiling : error.overCeiling = true) : next = life := by
  obtain ⟨_, -, same, -⟩ | ⟨_, -, ended⟩ := commitFactsLanding_cases sound attempt some sized ran
  · exact same
  · cases ending : attempt.ending <;> rw [ending] at ended <;> cases ended
    cases ceiling

/-- Each fact is admissible on its own: it encodes, it fits into a commit alone, and a
    sequence number is left for it. -/
structure Admissible (K : StoreKit) (attempts : Nat → Attempt) (store : DurableStore)
    (facts : List (CommitFact P)) : Prop where
  encodes : ∀ fact ∈ facts, ∀ made index, ∃ record,
    encodeFact K store.key store.drive ((attempts made).drawn index) fact = .ok record ∧
      ∀ seq prev, (encodeCommit K store.drive seq prev [record]).1.length ≤ maxCommitBytes
  numbered : Fits64 (store.current + facts.length)

lemma checkCommitFits_error (denied : checkCommitFits records bytes = .error error) :
    error.overCeiling = true := by
  unfold checkCommitFits at denied
  split_ifs at denied <;> cases denied <;> rfl

lemma Admissible.encodeFacts_ok (allowed : Admissible K attempts life.store facts) (made : Nat) :
    ∃ records, encodeFacts K life.store.key life.store.drive (attempts made).drawn facts =
      .ok records ∧ (facts.length = 1 → ∀ seq prev,
        (encodeCommit K life.store.drive seq prev records).1.length ≤ maxCommitBytes) := by
  cases coded : encodeFacts K life.store.key life.store.drive (attempts made).drawn facts with
  | error =>
    obtain ⟨numbered, hm, fails⟩ := mapM_error coded
    have hl : numbered.1 ∈ facts := (List.mem_zipIdx' hm).2 ▸ List.getElem_mem _
    obtain ⟨record, hd, -⟩ := allowed.encodes _ hl made numbered.2
    rw [hd] at fails
    cases fails
  | ok records =>
    refine ⟨records, rfl, fun hs seq prev => ?_⟩
    obtain ⟨fact, rfl⟩ := List.length_eq_one_iff.mp hs
    obtain ⟨record, hd, small⟩ := allowed.encodes fact List.mem_cons_self made 0
    have alone : records = [record] := by
      simp only [encodeFacts, List.zipIdx_cons, List.zipIdx_nil, List.mapM_cons, List.mapM_nil, hd,
        bind, Except.bind, pure, Except.pure, Except.ok.injEq] at coded
      exact coded.symm
    rw [alone]
    exact small seq prev

lemma Admissible.refused (allowed : Admissible K attempts life.store facts)
    (sound : life.Sound K drive written) (some : facts ≠ [])
    (fails : (prepare K (attempts made).drawn facts life.store).2 = .error error) :
    error.overCeiling = true ∧ 1 < facts.length := by
  obtain ⟨records, encoded, alone⟩ := allowed.encodeFacts_ok made
  have many := List.length_pos_of_ne_nil some
  have number : checkedAdd life.store.current 1 = .some (life.store.current + 1) := by
    have numbered := allowed.numbered
    unfold Fits64 at numbered
    exact checkedAdd_eq_some.mpr ⟨rfl, by omega⟩
  have ends : (prepare K (attempts made).drawn facts).Ends life.store
      (fun outcome _ => ∀ error, outcome = .error error →
        error.overCeiling = true ∧ 1 < facts.length) := by
    rw [prepare, Effect.ends_bind, Effect.ends_lift]
    cases counts : checkCommitFits facts.length 0 with
    | error =>
      rintro _ ⟨⟩
      refine ⟨checkCommitFits_error counts, ?_⟩
      by_contra hs
      have one : facts.length = 1 := by omega
      rw [one] at counts
      cases counts
    | ok =>
      simp only [Effect.ends_bind, Effect.ends_get, Effect.ends_lift, Effect.ends_set, sound.refresh,
        encoded, nextSequence, number]
      cases fits : checkCommitFits records.length
          (encodeCommit K life.store.drive (life.store.current + 1) life.store.lastHash
            records).1.length with
      | error =>
        rintro _ ⟨⟩
        refine ⟨checkCommitFits_error fits, ?_⟩
        by_contra hs
        have one : facts.length = 1 := by omega
        have few : records.length = 1 := by
          rw [← one, ← List.length_zipIdx (l := facts), (mapM_ok.mp encoded).length_eq]
        have hok := checkCommitFits_ok.mpr ⟨show 1 ≤ maxRecordsPerCommit by decide,
          alone one (life.store.current + 1) life.store.lastHash⟩
        rw [few, hok] at fits
        cases fits
      | ok => rintro _ ⟨⟩
  exact ends error fails

lemma Admissible.half {half : List (CommitFact P)}
    (admissible : Admissible K attempts life.store facts) (sound : life.Sound K drive written)
    (grown : Extends K drive life final written filed) (part : half ⊆ facts)
    (room : (filed.flatMap FiledBatch.facts).length + half.length ≤ facts.length) :
    Admissible K attempts final.store half := by
  refine ⟨fun fact present => ?_, ?_⟩
  · rw [grown.sound.drive, ← sound.drive, grown.key]
    exact admissible.encodes fact (part present)
  · have numbered := admissible.numbered
    have few := grown.length_le
    rw [sound.current] at numbered
    rw [grown.sound.current, List.length_append]
    unfold Fits64 at numbered ⊢
    omega

/-- The chain grows by a first part of the batch, and by all of it on success. If every
    commit runs to its end, admissible facts succeed. -/
lemma commitAdmissible_extends (sound : life.Sound K drive written)
    (sized : ∀ fact ∈ facts, fact.Sized) :
    let outcome := commitAdmissible K attempts facts made life
    ∃ filed, Extends K drive life outcome.1.2 written filed ∧
      filed.flatMap FiledBatch.facts <+: facts ∧
      (outcome.2 = .ok true → filed.flatMap FiledBatch.facts = facts) ∧
      ((∀ made, (attempts made).ending = .stops .complete) →
        Admissible K attempts life.store facts → outcome.2 = .ok true) := by
  -- along the recursion of the split
  induction facts, made, life using commitAdmissible.induct K attempts generalizing written with
  | case1 =>
    rw [commitAdmissible, if_pos rfl]
    exact ⟨[], .refl sound, by simp⟩
  | case2 facts made life some next landed ran =>
    rw [commitAdmissible, if_neg some, ran]
    obtain ⟨_, failed, -⟩ | ⟨records, grown, ended⟩ := commitFactsLanding_cases sound _ some sized ran
    · cases failed
    · refine ⟨_, grown, ?_, fun success => ?_, fun calm _ => ?_⟩
      · split_ifs <;> simp
      · cases ending : (attempts made).ending <;> rw [ending] at ended <;> cases ended
        rw [if_pos (Except.ok.inj success)]
        simp
      · rw [calm made] at ended
        exact ended
  | case3 facts made life some next error ran halved made' middle first ih later =>
    obtain rfl := commitFactsLanding_over sound some sized ran halved.1
    obtain ⟨left, grown, -, all, -⟩ :=
      ih sound fun fact present => sized fact (List.mem_of_mem_take present)
    rw [first] at grown all
    obtain ⟨right, grown', short, rest, succeeds⟩ := later grown.sound
      fun fact present => sized fact (List.mem_of_mem_drop present)
    have whole : (left ++ right).flatMap FiledBatch.facts =
        facts.take (facts.length / 2) ++ right.flatMap FiledBatch.facts := by
      rw [List.flatMap_append, all rfl]
    rw [commitAdmissible, if_neg some, ran]
    simp only [if_pos halved, first]
    refine ⟨left ++ right, grown.trans grown', ?_, fun success => ?_, ?_⟩
    · conv_rhs => rw [← List.take_append_drop (facts.length / 2) facts]
      rw [whole]
      exact (List.prefix_append_right_inj _).mpr short
    · rw [whole, rest success, List.take_append_drop]
    · intro calm admissible
      refine succeeds calm (admissible.half sound grown (List.drop_subset _ _) ?_)
      rw [all rfl, ← List.length_append, List.take_append_drop]
  | case4 facts made life some next error ran halved stopped ih =>
    obtain rfl := commitFactsLanding_over sound some sized ran halved.1
    obtain ⟨left, grown, short, all, succeeds⟩ :=
      ih sound fun fact present => sized fact (List.mem_of_mem_take present)
    have same : commitAdmissible K attempts facts made next =
        commitAdmissible K attempts (facts.take (facts.length / 2)) (made + 1) next := by
      rw [commitAdmissible, if_neg some, ran]
      simp only [if_pos halved]
    have never : (commitAdmissible K attempts (facts.take (facts.length / 2)) (made + 1) next).2 ≠
        .ok true := fun success => stopped _ _ (Prod.ext rfl success)
    rw [same]
    refine ⟨left, grown, short.trans (List.take_prefix _ _), fun success => absurd success never,
      fun calm admissible => absurd (succeeds calm ?_) never⟩
    exact admissible.half sound (.refl sound) (List.take_subset _ _) (by simp)
  | case5 facts made life some next error ran whole =>
    rw [commitAdmissible, if_neg some, ran]
    simp only [if_neg whole]
    obtain ⟨_, failed, rfl, refused⟩ | ⟨records, grown, ended⟩ :=
      commitFactsLanding_cases sound _ some sized ran
    · cases failed
      refine ⟨[], .refl sound, by simp, nofun, fun _ admissible => ?_⟩
      exact absurd (admissible.refused sound some refused) whole
    · -- a commit that failed may have landed all the same
      refine ⟨_, grown, by split_ifs <;> simp, nofun, fun calm _ => ?_⟩
      rw [calm made] at ended
      cases ended

/-- However a batch is split and wherever its commits are torn or fail, the log on disk
    grows by the records of a first part of it, in order, and of all of it if success is
    reported. Facts that are admissible on their own do succeed when every commit runs
    to its end. -/
theorem commitAdmissible_keeps_order (K : StoreKit) (drive : DriveId) (key : Bytes)
    (events : List (Event P)) (earlier : ∀ event ∈ events, event.Sized) {life : Life P}
    (reached : Life.run K (Life.start drive key) events = life) (attempts : Nat → Attempt)
    (made : Nat) (facts : List (CommitFact P)) (sized : ∀ fact ∈ facts, fact.Sized) :
    let outcome := commitAdmissible K attempts facts made life
    (∃ before grown records, recorded K life.store = .ok before ∧
      recorded K outcome.1.2.store = .ok (before ++ records) ∧
      List.Forall₂ (Encodes K life.store.key drive) grown records ∧
      grown <+: facts ∧ (outcome.2 = .ok true → grown = facts)) ∧
    ((∀ made, (attempts made).ending = .stops .complete) → Admissible K attempts life.store facts →
      outcome.2 = .ok true) := by
  obtain ⟨written, sound⟩ : ∃ written, life.Sound K drive written := by
    rw [← reached]
    exact Life.sound_start.run earlier
  obtain ⟨filed, grown, short, all, succeeds⟩ :=
    @commitAdmissible_extends P K drive attempts facts made life written sound sized
  have after := grown.sound.journal
  refine ⟨⟨_, _, filed.flatMap FiledBatch.records, sound.journal.recorded, ?_, ?_, short, all⟩, succeeds⟩
  · rw [after.recorded, List.flatMap_append]
  · rw [grown.key, grown.sound.drive] at after
    exact after.encodes

end Growth

section Sample

open Wyrd.Membership

/-- One record more than a commit can have. -/
def manyObjects : List (CommitFact samplePrimitives) :=
  List.replicate (maxRecordsPerCommit + 1) (.localObject (sampleId 1))

theorem commitAdmissible_keeps_order_split :
    (commit sampleKit (fun _ => none) manyObjects freshStore).2 =
        .error (.tooManyRecords (maxRecordsPerCommit + 1) maxRecordsPerCommit) ∧
      ∃ records, recorded sampleKit
          (commitAdmissible sampleKit (fun _ => ⟨fun _ => none, .stops .complete⟩) manyObjects 0
            (Life.start (sampleId 0) [])).1.2.store = .ok records ∧
        records.length = maxRecordsPerCommit + 1 := by
  have sized : ∀ fact ∈ manyObjects, fact.Sized := by
    intro fact present
    rw [List.eq_of_mem_replicate present]
    trivial
  obtain ⟨⟨before, grown, records, empty, after, encoded, -, all⟩, succeeds⟩ :=
    commitAdmissible_keeps_order sampleKit (sampleId 0) [] [] (by simp) rfl
      (fun _ => ⟨fun _ => none, .stops .complete⟩) 0 manyObjects sized
  have admissible : Admissible sampleKit (fun _ => ⟨fun _ => none, .stops .complete⟩) freshStore
      manyObjects := by
    refine ⟨fun fact present made index => ?_, by rw [manyObjects, List.length_replicate]; decide⟩
    rw [List.eq_of_mem_replicate present]
    exact ⟨_, rfl, fun seq prev => by rw [length_encodeCommit]; decide⟩
  refine ⟨?_, _, after, ?_⟩
  · have some : manyObjects ≠ [] := by simp [manyObjects]
    rw [commit, commitUntil, if_neg some, prepare, manyObjects, List.length_replicate]
    rfl
  · have none : before = [] := (Except.ok.inj empty).symm
    rw [none, List.nil_append, ← encoded.length_eq, all (succeeds (fun _ => rfl) admissible),
      manyObjects, List.length_replicate]

end Sample

end Wyrd.Durable
