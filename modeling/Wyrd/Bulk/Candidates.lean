import Wyrd.Control.Message

/-! # Walking the providers of a blob

A walk asks at most three of the recorded providers, those without a failure mark first. A
dial that fails marks its provider, so the next walk begins behind it; a provider that was
reached and does not serve the blob is not marked and keeps its place.
-/

namespace Wyrd.Bulk

open List Function Nat

inductive BulkError where
  | transport (text : String)
  | deadline (slice : Nat)
  | oversize (bytes max : Nat)
  deriving DecidableEq

inductive AttemptPhase where
  | dial
  | transfer
  deriving DecidableEq

structure IrohBlobRef where
  provider : Digest
  hash : Digest
  deriving DecidableEq

/-- When the dial of a provider last failed. -/
abbrev Memory := Digest → Option Nat

def providerBadMarkTtl : Nat := 300000000000

def fetchDialTimeout : Nat := 30000000000

def fetchWalkCap : Nat := 3

structure Attempt where
  result : Except BulkError Bytes
  phase : AttemptPhase
  ended : Nat

inductive ProviderLesson where
  | clear
  | mark
  | ignore
  deriving DecidableEq

def providerLesson (attempt : Attempt) : ProviderLesson :=
  match attempt.result, attempt.phase with
  | .ok _, _ => .clear
  | .error (.transport _), .dial => .mark
  | .error _, _ => .ignore

def learn (memory : Memory) (provider : Digest) (attempt : Attempt) : Memory :=
  match providerLesson attempt with
  | .clear => update memory provider none
  | .mark => update memory provider (some attempt.ended)
  | .ignore => memory

def retain (memory : Memory) (now : Nat) : Memory := fun provider =>
  (memory provider).filter fun failedAt => decide (now - failedAt < providerBadMarkTtl)

def unmarked (candidates : List IrohBlobRef) (memory : Memory) : List IrohBlobRef :=
  candidates.filter fun blob => memory blob.provider = none

/-- Marked providers behind unmarked ones, in the order of publication otherwise. -/
def orderCandidates (candidates : List IrohBlobRef) (memory : Memory) : List IrohBlobRef :=
  unmarked candidates memory ++ candidates.filter fun blob => memory blob.provider ≠ none

def candidateShare (remaining index total : Nat) : Nat :=
  max (remaining / (total - index)) (min fetchDialTimeout (remaining / 2))

/-- When a walk begins, what is left of its budget at each candidate, if it has one, and what
    each attempt comes to. -/
structure Walk where
  now : Nat
  remaining : Nat → Option Nat
  fetch : Nat → IrohBlobRef → Attempt

def unserved (total : Nat) : Option BulkError → Except BulkError (Option Bytes)
  | some error => .error error
  | none => if total = 0 then .ok none else .error (.deadline 0)

/-- Who was asked, the memory after, and the answer. -/
def attempts (walk : Walk) (total : Nat) :
    Nat → List IrohBlobRef → Memory → Option BulkError →
      List IrohBlobRef × Memory × Except BulkError (Option Bytes)
  | _, [], memory, last => ([], memory, unserved total last)
  | index, blob :: rest, memory, last =>
    if (walk.remaining index).any fun remaining =>
        candidateShare remaining index (min total fetchWalkCap) = 0 then
      ([], memory, unserved total last)
    else
      let attempt := walk.fetch index blob
      let learned := learn memory blob.provider attempt
      match attempt.result with
      | .ok bytes => ([blob], learned, .ok (some bytes))
      | .error (.oversize bytes max) => ([blob], learned, .error (.oversize bytes max))
      | .error error =>
        let later := attempts walk total (index + 1) rest learned (some error)
        (blob :: later.1, later.2)

def fetchCandidates (walk : Walk) (candidates : List IrohBlobRef) (memory : Memory) :
    List IrohBlobRef × Memory × Except BulkError (Option Bytes) :=
  let kept := retain memory walk.now
  let ordered := orderCandidates candidates kept
  attempts walk ordered.length 0 (ordered.take fetchWalkCap) kept none

def walkAll (candidates : List IrohBlobRef) :
    Memory → List Walk → List (Except BulkError (Option Bytes))
  | _, [] => []
  | memory, walk :: rest =>
    let done := fetchCandidates walk candidates memory
    done.2.2 :: walkAll candidates done.2.1 rest

/-- No mark is older than its time to live when a walk begins. -/
def Unexpired (candidates : List IrohBlobRef) : Memory → List Walk → Prop
  | _, [] => True
  | memory, walk :: rest =>
    (∀ provider failedAt, memory provider = some failedAt →
      walk.now - failedAt < providerBadMarkTtl) ∧
    Unexpired candidates (fetchCandidates walk candidates memory).2.1 rest

/-- A provider serves the blob, every candidate serves it or fails its dial, and the budget is
    not spent. -/
structure Serves (candidates : List IrohBlobRef) (provider : Digest) (blob : Bytes)
    (walk : Walk) : Prop where
  served : ∀ index, ∀ other ∈ candidates, other.provider = provider →
    (walk.fetch index other).result = .ok blob
  others : ∀ index, ∀ other ∈ candidates, (walk.fetch index other).result = .ok blob ∨
    ∃ text, (walk.fetch index other).result = .error (.transport text) ∧
      (walk.fetch index other).phase = .dial
  unspent : ∀ index remaining, walk.remaining index = some remaining →
    candidateShare remaining index (min candidates.length fetchWalkCap) ≠ 0

variable {candidates : List IrohBlobRef} {walk : Walk} {memory : Memory} {provider : Digest}
  {blob : Bytes}

lemma attempts_asked (total index : Nat) (ordered : List IrohBlobRef) (last) :
    (attempts walk total index ordered memory last).1.length ≤ ordered.length ∧
      (total ≠ 0 → (attempts walk total index ordered memory last).2.2 ≠ .ok none) := by
  have ended (last) (hsome : total ≠ 0) : unserved total last ≠ .ok none := by
    cases last <;> simp [unserved, hsome]
  induction ordered generalizing index memory last with
  | nil => exact ⟨le_rfl, ended last⟩
  | cons blob rest ih =>
    unfold attempts
    split_ifs
    · exact ⟨zero_le _, ended last⟩
    · dsimp only
      split
      · simp
      · simp
      · exact ⟨succ_le_succ (ih ..).1, (ih ..).2⟩

/-- Where everyone serves the blob or fails the dial, the blob is served, or exactly those who
    were asked are marked besides. -/
lemma attempts_served (h : Serves candidates provider blob walk) (index : Nat)
    {ordered : List IrohBlobRef} (subtrees : ordered ⊆ candidates) (last) :
    (attempts walk candidates.length index ordered memory last).2.2 = .ok (some blob) ∨
      provider ∉ ordered.map IrohBlobRef.provider ∧
        ∀ other, (attempts walk candidates.length index ordered memory last).2.1 other = none ↔
          memory other = none ∧ other ∉ ordered.map IrohBlobRef.provider := by
  induction ordered generalizing index memory last with
  | nil => exact .inr ⟨by simp, by simp [attempts]⟩
  | cons head rest ih =>
    have hroom : ¬ (walk.remaining index).any (fun remaining =>
        candidateShare remaining index (min candidates.length fetchWalkCap) = 0) = true := by
      cases hr : walk.remaining index with
      | none => simp
      | some remaining => simpa using h.unspent index remaining hr
    obtain ⟨hhead, hrest⟩ := cons_subset.mp subtrees
    unfold attempts
    rw [if_neg hroom]
    rcases h.others index head hhead with hok | ⟨text, errors, hdial⟩
    · simp [hok]
    · have hmark : learn memory head.provider (walk.fetch index head) =
          update memory head.provider (some (walk.fetch index head).ended) := by
        simp [learn, providerLesson, errors, hdial]
      have hne : head.provider ≠ provider := fun hs => by
        simp [h.served index head hhead hs] at errors
      simp only [errors, hmark]
      rcases @ih (update memory head.provider (some (walk.fetch index head).ended))
        (index + 1) hrest (some (.transport text)) with served | ⟨aside, ha⟩
      · exact .inl served
      · refine .inr ⟨by simpa [hne.symm] using aside, fun other => ?_⟩
        rw [ha, map_cons, mem_cons, not_or]
        by_cases hs : other = head.provider
        · simp [hs]
        · simp [hs]

lemma length_orderCandidates : (orderCandidates candidates memory).length = candidates.length := by
  simp only [orderCandidates, unmarked, length_append, ← countP_eq_length_filter]
  rw [length_eq_countP_add_countP fun blob : IrohBlobRef => decide (memory blob.provider = none)]
  simp

lemma mem_orderCandidates {other} (hm : other ∈ orderCandidates candidates memory) :
    other ∈ candidates := by
  rcases mem_append.mp hm with hm | hm <;> exact mem_of_mem_filter hm

lemma length_behind {live : List IrohBlobRef} {n} (hlong : n ≤ live.length) :
    (live.filter fun blob => blob.provider ∉ (live.take n).map IrohBlobRef.provider).length + n ≤
      live.length := by
  generalize hasked : (live.take n).map IrohBlobRef.provider = asked
  have hnone : (live.take n).filter (fun blob => blob.provider ∉ asked) = [] := by
    rw [filter_eq_nil_iff]
    intro blob hm
    have mem : blob.provider ∈ asked := hasked ▸ mem_map_of_mem hm
    simpa using mem
  rw [← take_append_drop n live, filter_append, hnone, nil_append, take_append_drop]
  have := length_filter_le (fun blob => decide (blob.provider ∉ asked)) (live.drop n)
  rw [length_drop] at this
  omega

/-- A walk serves the blob, or leaves at least three candidates less without a mark. -/
lemma Serves.pages (h : Serves candidates provider blob walk)
    (mem : provider ∈ candidates.map IrohBlobRef.provider) (hfresh : memory provider = none)
    (alive : ∀ other failedAt, memory other = some failedAt →
      walk.now - failedAt < providerBadMarkTtl) :
    (fetchCandidates walk candidates memory).2.2 = .ok (some blob) ∨
      (fetchCandidates walk candidates memory).2.1 provider = none ∧
        (unmarked candidates (fetchCandidates walk candidates memory).2.1).length + fetchWalkCap ≤
          (unmarked candidates memory).length := by
  have hkept : retain memory walk.now = memory := by
    funext other
    cases hp : memory other with
    | none => simp [retain, hp]
    | some failedAt => simpa [retain, hp] using alive other failedAt hp
  unfold fetchCandidates
  simp only [hkept, length_orderCandidates]
  rcases @attempts_served _ _ memory _ _ h 0 ((orderCandidates candidates memory).take fetchWalkCap)
    (fun _ hm => mem_orderCandidates (mem_of_mem_take hm)) none with hs | ⟨aside, allowed⟩
  · exact .inl hs
  · refine .inr ⟨(allowed provider).mpr ⟨hfresh, aside⟩, ?_⟩
    obtain ⟨target, hh, rfl⟩ := mem_map.mp mem
    have hmem : target ∈ unmarked candidates memory := by simpa [unmarked, hfresh] using hh
    have hlong : fetchWalkCap ≤ (unmarked candidates memory).length := by
      by_contra hshort
      refine aside (mem_map_of_mem ?_)
      rw [orderCandidates, take_append, take_of_length_le (by omega)]
      exact mem_append_left _ hmem
    rw [orderCandidates, take_append_of_le_length hlong] at allowed ⊢
    -- Whoever is left without a mark stood behind the first three.
    refine le_trans (Nat.add_le_add_right ?_ _) (length_behind hlong)
    unfold unmarked at allowed ⊢
    simp only [allowed, Bool.decide_and, ← filter_filter]
    rw [filter_comm]

lemma walkAll_serves (mem : provider ∈ candidates.map IrohBlobRef.provider)
    (hfresh : memory provider = none) {walks : List Walk}
    (h : ∀ walk ∈ walks, Serves candidates provider blob walk)
    (alive : Unexpired candidates memory walks) {n : Nat}
    (hleft : (unmarked candidates memory).length ≤ 3 * n) (hn : n ≤ walks.length) :
    .ok (some blob) ∈ (walkAll candidates memory walks).take n := by
  have hpos {memory : Memory} (hfresh : memory provider = none) :
      0 < (unmarked candidates memory).length := by
    obtain ⟨target, hh, rfl⟩ := mem_map.mp mem
    exact length_pos_of_mem (mem_filter.mpr ⟨hh, by simpa using hfresh⟩)
  induction walks generalizing memory n with
  | nil => exact absurd (hpos hfresh) (by simp only [length_nil] at hn; omega)
  | cons walk rest ih =>
    cases n with
    | zero => exact absurd (hpos hfresh) (by omega)
    | succ n =>
      rw [walkAll, take_succ_cons]
      rcases (h walk mem_cons_self).pages mem hfresh alive.1 with hs | ⟨hfresh, hless⟩
      · rw [hs]
        exact mem_cons_self
      · refine mem_cons_of_mem _ (ih hfresh (fun walk hm => h walk (mem_cons_of_mem _ hm)) alive.2
          ?_ (le_of_succ_le_succ hn))
        unfold fetchWalkCap at hless
        omega

/-- No walk asks more than three candidates or reports absence where there are candidates; and
    where one provider without a mark serves the blob and everyone else serves it or fails the
    dial, one of the first `⌈n / 3⌉` walks over `n` candidates returns the blob. -/
theorem provider_walk_reaches (candidates : List IrohBlobRef) (memory : Memory) :
    (∀ walk, (fetchCandidates walk candidates memory).1.length ≤ 3 ∧
      (candidates ≠ [] → (fetchCandidates walk candidates memory).2.2 ≠ .ok none)) ∧
    ∀ provider blob walks, provider ∈ candidates.map IrohBlobRef.provider →
      memory provider = none → (∀ walk ∈ walks, Serves candidates provider blob walk) →
      Unexpired candidates memory walks → (candidates.length + 2) / 3 ≤ walks.length →
      .ok (some blob) ∈ (walkAll candidates memory walks).take ((candidates.length + 2) / 3) := by
  refine ⟨fun walk => ⟨?_, fun hne => ?_⟩, fun provider blob walks hm hfresh h ha hn => ?_⟩
  · exact (attempts_asked ..).1.trans (length_take_le ..)
  · apply (attempts_asked ..).2
    rwa [length_orderCandidates, Ne, length_eq_zero_iff]
  · have : (unmarked candidates memory).length ≤ candidates.length := length_filter_le ..
    exact walkAll_serves hm hfresh h ha (by omega) hn

def fourProviders : List IrohBlobRef := [⟨0, 9⟩, ⟨1, 9⟩, ⟨2, 9⟩, ⟨3, 9⟩]

/-- Provider 3 serves the blob; the others fail in this phase. -/
def thirdServes (phase : AttemptPhase) (now : Nat) : Walk :=
  ⟨now, fun _ => some 60000000000, fun _ blob =>
    ⟨if blob.provider = 3 then .ok [1] else .error (.transport "not found"), phase, now⟩⟩

/-- The first walk marks the three providers it fails to dial, the second gets past them. -/
theorem provider_walk_reaches_second :
    walkAll fourProviders (fun _ => none) [thirdServes .dial 0, thirdServes .dial 1] =
        [.error (.transport "not found"), .ok (some [1])] ∧
      .ok (some [1]) ∈ (walkAll fourProviders (fun _ => none)
        [thirdServes .dial 0, thirdServes .dial 1]).take 2 := by
  refine ⟨by decide +kernel, (provider_walk_reaches fourProviders fun _ => none).2 3 [1] _
    (by decide) rfl (fun walk present => ?_) ⟨nofun, fun _ failedAt _ => ?_, trivial⟩ (by decide)⟩
  · obtain ⟨now, rfl⟩ : ∃ now, walk = thirdServes .dial now := by
      simp only [mem_cons, not_mem_nil, or_false] at present
      rcases present with rfl | rfl <;> exact ⟨_, rfl⟩
    refine ⟨fun _ _ _ third => if_pos third, fun index other _ => ?_, fun index remaining left => ?_⟩
    · by_cases third : other.provider = 3
      · exact .inl (if_pos third)
      · exact .inr ⟨"not found", if_neg third, rfl⟩
    · cases left
      unfold candidateShare fetchDialTimeout
      omega
  · show 1 - failedAt < providerBadMarkTtl
    unfold providerBadMarkTtl
    omega

/-- Three providers that are reached and do not hold the blob are not marked, and the walks do
    not get past them. -/
theorem reached_providers_pin_walk :
    walkAll fourProviders (fun _ => none) [thirdServes .transfer 0, thirdServes .transfer 1] =
      [.error (.transport "not found"), .error (.transport "not found")] := by
  decide +kernel

end Wyrd.Bulk
