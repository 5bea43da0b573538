import Wyrd.Durable.Store
import Wyrd.Membership.Resolution

/-! # Every accepted commit is read back

The writer's ceilings are the reader's, and every record kind decodes from its own
encoding, so a load after an accepted commit replays the batch behind what was there,
without the stated views that the committed facts do not cover. Capabilities are the
exception: the writer takes one for any drive and any key, the reader only one for the
drive of the store that `Capability::new` builds. A batch with another one leaves a
store that no longer loads.
-/

namespace Wyrd.Durable

open Reader Keys DurableStore

section ReadBack

variable {P : Primitives} {K : StoreKit} {store : DurableStore}

/-- The handle is at the tip that `CURRENT` names, or behind it. -/
def DurableStore.Follows (store : DurableStore) : Prop :=
  ∀ pointer, readCurrent store.disk = .ok pointer →
    store.current < pointer.1 ∨ (store.current, store.lastHash) = pointer

lemma refresh_eq (follows : store.Follows) (hn : readCurrent store.disk = .ok pointer) :
    refresh store = .ok (store.advance pointer.1 pointer.2) := by
  rw [refresh, hn]
  rcases follows pointer hn with hb | rfl
  · exact congrArg Except.ok (if_pos hb)
  · exact congrArg Except.ok (if_neg (lt_irrefl _))

lemma parse_pointer (fits : Fits64 seq) (hash : Digest) :
    parse readPointer (pointerBytes seq hash) = some (seq, hash) :=
  parse_of_reads ((reads_word64 fits).bind ((reads_digest hash).map _))

lemma readCurrent_pointer {disk seq} (fits : Fits64 seq) {hash}
    (hn : disk.root.read .current = some (pointerBytes seq hash)) :
    readCurrent disk = .ok (seq, hash) := by
  rw [readCurrent, hn]
  simp only [parse_pointer fits hash]

section Log

variable {α : Type} {decode : Tag → Bytes → Option α}

lemma readLog_ok {found : List α} :
    readLog K decode store = .ok found ↔ ∃ pointer, readCurrent store.disk = .ok pointer ∧
      readCommits K decode store pointer.1 = .ok (found, pointer.2) := by
  simp only [readLog, bind_ok]
  constructor
  · rintro ⟨pointer, points, ⟨replayed, hash⟩, reads, checks⟩
    split_ifs at checks with differs
    · obtain ⟨_, thrown, -⟩ := checks
    · have same : hash = pointer.2 := not_not.mp differs
      subst same
      cases checks
      exact ⟨pointer, points, reads⟩
  · rintro ⟨pointer, points, reads⟩
    exact ⟨pointer, points, _, reads, by simp [pure, Except.pure]⟩

lemma readLog_error (points : readCurrent store.disk = .ok pointer)
    (fails : readCommits K decode store pointer.1 = .error error) :
    readLog K decode store = .error error := by
  simp only [readLog, points, fails, bind, Except.bind]

lemma readCommits_congr (drive : other.drive = store.drive)
    (same : ∀ seq ≤ n,
      other.disk.commits.read (.commit seq) = store.disk.commits.read (.commit seq)) :
    readCommits K decode other n = readCommits K decode store n := by
  induction n with
  | zero => rfl
  | succ n ih =>
    simp only [readCommits, ih fun seq below => same seq (by omega), readCommit, drive,
      same (n + 1) le_rfl]

end Log

variable {drawn : Nat → Option Nonce} {facts : List (CommitFact P)} {previous : List DecodedFact}

lemma readCommits_batch (lawful : K.Lawful) (hsz : ∀ fact ∈ facts, fact.Sized)
    (coded : encodeFacts K store.key store.drive drawn facts = .ok records)
    (fits : Fits64 (n + 1)) (read : readCommits K (decodeRecord P K store.key store.drive) store n = .ok (previous, tip))
    (few : records.length ≤ maxRecordsPerCommit)
    (small : (encodeCommit K store.drive (n + 1) tip records).1.length ≤ maxCommitBytes)
    (file : store.disk.commits.read (.commit (n + 1)) =
      some (encodeCommit K store.drive (n + 1) tip records).1) :
    readCommits K (decodeRecord P K store.key store.drive) store (n + 1) =
      if facts.all (CommitFact.readable store.drive) then
        .ok (previous ++ facts.map CommitFact.decoded,
          (encodeCommit K store.drive (n + 1) tip records).2)
      else .error (.corruptCommit (n + 1)) := by
  have here : readCommit K (decodeRecord P K store.key store.drive) store (n + 1) tip =
      if facts.all (CommitFact.readable store.drive) then
        .ok (facts.map CommitFact.decoded, (encodeCommit K store.drive (n + 1) tip records).2)
      else .error (.corruptCommit (n + 1)) := by
    simp only [readCommit, file, if_neg (not_lt.mpr small)]
    exact decodeCommitFile_encodeFacts lawful hsz coded fits tip few small
  simp only [readCommits, read, Except.bind, bind, here]
  split_ifs <;> rfl

/-- One more file and the pointer to it: the files below are the old ones, so the
    replay up to it is too. -/
lemma committed_publish (lawful : K.Lawful) (intact : store.disk.Intact) {current tip}
    (read : readCommits K (decodeRecord P K store.key store.drive) store current = .ok (previous, tip))
    (hsz : ∀ fact ∈ facts, fact.Sized) {records}
    (coded : encodeFacts K store.key store.drive drawn facts = .ok records)
    (fits : Fits64 (current + 1)) (few : records.length ≤ maxRecordsPerCommit) {written}
    (isCommit : encodeCommit K store.drive (current + 1) tip records = written)
    (small : written.1.length ≤ maxCommitBytes) :
    committed P K (publish (current + 1) written.1 written.2 .complete store) =
      if facts.all (CommitFact.readable store.drive) then
        .ok (previous ++ facts.map CommitFact.decoded)
      else .error (.corruptCommit (current + 1)) := by
  subst isCommit
  generalize after : publish _ _ _ .complete store = next
  have drive : next.drive = store.drive := by rw [← after, publish_drive]
  have key : next.key = store.key := by rw [← after, publish_key]
  have prior : readCommits K (decodeRecord P K next.key next.drive) next current =
      .ok (previous, tip) := by
    rw [← read, key, drive]
    apply readCommits_congr drive
    intro seq hb
    rw [← after]
    exact publish_read_other intact (by omega)
  have hn : readCurrent next.disk =
      .ok (current + 1, (encodeCommit K store.drive (current + 1) tip records).2) := by
    rw [← after]
    exact readCurrent_pointer fits publish_read_current
  have rerun := readCommits_batch lawful hsz (by rw [key, drive]; exact coded) fits prior few
    (by rw [drive]; exact small) (by rw [drive, ← after]; exact publish_read_commit)
  rw [drive] at rerun
  split_ifs at rerun ⊢
  · exact readLog_ok.mpr ⟨_, hn, by rw [drive]; exact rerun⟩
  · exact readLog_error hn (by rw [drive]; exact rerun)

lemma committed_commit (lawful : K.Lawful) (intact : store.disk.Intact) (follows : store.Follows)
    (loadable : committed P K store = .ok previous) (some : facts ≠ [])
    (hsz : ∀ fact ∈ facts, fact.Sized) {seq} (hok : (commit K drawn facts store).2 = .ok seq) :
    committed P K (commit K drawn facts store).1 =
      if facts.all (CommitFact.readable store.drive) then
        .ok (previous ++ facts.map CommitFact.decoded)
      else .error (.corruptCommit seq) := by
  obtain ⟨pointer, hn, read⟩ := readLog_ok.mp loadable
  have ends : (commit K drawn facts).Ends store _ := commitUntil_ends some
  obtain ⟨⟨error, fails, -⟩, -⟩ | ⟨fresh, records, after, ⟨anew, hc, steps, few, small⟩, -, number,
    published⟩ := ends
  · rw [hok] at fails
    cases fails
  rw [hok] at number
  rw [Ending.leaves_stops] at published
  rw [refresh_eq follows hn, Except.ok.injEq] at anew
  obtain ⟨rfl, hf⟩ := checkedAdd_eq_some.mp steps
  have hs : readCommits K (decodeRecord P K fresh.key fresh.drive) fresh fresh.current =
      .ok (previous, fresh.lastHash) := by
    subst anew
    refine Eq.trans ?_ read
    apply readCommits_congr
    · rfl
    · exact fun _ _ => rfl
  have held : fresh.disk.Intact := by
    subst anew
    exact intact
  have drive : fresh.drive = store.drive := by rw [← anew]; rfl
  have read := committed_publish lawful held hs hsz hc hf few rfl small
  have counts : seq = fresh.current + 1 := by
    rw [Except.ok.inj number, published, publish_current]
  rw [← published, drive] at read
  rw [counts]
  exact read

/-- After an accepted commit the load succeeds exactly if every capability of the
    batch is readable. It then returns the facts committed before and those of the
    batch in order, without the stated views that claim more than all of these hold. -/
theorem load_commit (lawful : K.Lawful) (intact : store.disk.Intact) (follows : store.Follows)
    {previous : List DecodedFact} (loadable : committed P K store = .ok previous)
    {drawn : Nat → Option Nonce} {facts : List (CommitFact P)}
    (sized : ∀ fact ∈ facts, fact.Sized) {seq : Nat}
    (accepted : (commit K drawn facts store).2 = .ok seq) :
    load P K (commit K drawn facts store).1 =
      if facts.all (CommitFact.readable store.drive) then
        .ok (dropOverclaims P (previous ++ facts.map CommitFact.decoded))
      else .error (.corruptCommit seq) := by
  by_cases some : facts = []
  · subst some
    cases accepted
    rw [load, show (commit K drawn [] store).1 = store from rfl, loadable]
    simp [pure, Except.pure, bind, Except.bind]
  · rw [load, committed_commit lawful intact follows loadable some sized accepted]
    split_ifs <;> rfl

end ReadBack

section Sample

open Wyrd.Membership

def sampleKit : StoreKit where
  contentId _ _ := sampleId 0
  commitHash bytes := Fin.ofNat (2 ^ 256) (bytes.foldl (fun sum byte => sum + byte.toNat) 1)
  aeadSeal _ _ plaintext _ := some (plaintext ++ List.replicate 16 0)
  aeadOpen _ _ ciphertext _ := some (ciphertext.take (ciphertext.length - 16))
  xOnlyPoint _ := true

lemma sampleKit_lawful : sampleKit.Lawful := by
  constructor
  · intro key nonce plaintext aad ciphertext hd
    cases hd
    simp [sampleKit]
  · intro key nonce plaintext aad ciphertext hd
    cases hd
    simp

def freshStore : DurableStore := ⟨sampleId 0, [], ⟨.empty, .empty⟩, 0, 0⟩

def zeroNonce : Nonce := ⟨List.replicate 24 0, rfl⟩

/-- The log of another drive, and its owner's capability there. -/
def foreignLog : MembershipLog samplePrimitives :=
  (MembershipLog.new samplePrimitives (sampleId 9)).observe sampleGenesis

def foreignGrant : AuthorizedCapability samplePrimitives where
  cap := ⟨sampleId 9, sampleId 1, sampleId 1, sampleId 10, [101]⟩
  authorized := ⟨sampleId 9, foreignLog, sampleId 10, by decide +kernel⟩

/-- An accepted batch with a foreign capability makes the store unreadable. -/
theorem accepted_not_read_back :
    (commit sampleKit (fun _ => some zeroNonce) [.capability foreignGrant] freshStore).2 = .ok 1 ∧
    load samplePrimitives sampleKit
      (commit sampleKit (fun _ => some zeroNonce) [.capability foreignGrant] freshStore).1 =
        .error (.corruptCommit 1) := by
  decide +kernel

def ownGrant : AuthorizedCapability samplePrimitives where
  cap := ⟨sampleId 0, sampleId 1, sampleId 1, sampleId 10, [101]⟩
  authorized := ⟨sampleId 0, sampleLog [sampleGenesis], sampleId 10, by decide +kernel⟩

/-- A view that states a transition of the same batch. -/
def stated : ReconciliationEvidence := ⟨.ofList _ [sampleId 10], .empty, .empty⟩

def coveredBatch : List (CommitFact samplePrimitives) :=
  [.reconciliationView stated, .transition sampleGenesis, .capability ownGrant]

theorem load_commit_covered :
    load samplePrimitives sampleKit
      (commit sampleKit (fun _ => some zeroNonce) coveredBatch freshStore).1 =
        .ok [.reconciliationView stated, .transition sampleGenesis,
          .capability ownGrant.cap] := by
  have new : committed samplePrimitives sampleKit freshStore = .ok [] := by decide +kernel
  have follows : freshStore.Follows := by
    intro pointer hn
    cases hn
    exact .inr rfl
  have hsz : ∀ fact ∈ coveredBatch, fact.Sized := by
    intro fact hm
    simp only [coveredBatch, List.mem_cons, List.not_mem_nil, or_false] at hm
    rcases hm with rfl | rfl | rfl
    · exact fun install hh => nomatch hh
    · show Fits64 1
      decide
    · trivial
  have outcome : (commit sampleKit (fun _ => some zeroNonce) coveredBatch freshStore).2 = .ok 1 := by
    decide +kernel
  have intact : freshStore.disk.Intact := ⟨Volume.intact_empty, Volume.intact_empty⟩
  rw [load_commit sampleKit_lawful intact follows new hsz outcome]
  decide +kernel

end Sample

end Wyrd.Durable
