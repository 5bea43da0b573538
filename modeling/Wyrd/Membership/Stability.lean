import Wyrd.Membership.Growth

/-! # Which selections survive

A slot is quiet under growth when it gains neither a contender nor an exact
resolution. Selections up to a slot survive exactly when every earlier slot is
quiet, so a late sibling anywhere below an accepted resolution takes it back.
-/

namespace Wyrd.Membership

open List

variable {P : Primitives} {small large : MembershipLog P}

/-- Growth adds no contender and no exact resolution at a slot. -/
structure Quiet (small large : MembershipLog P) (slot : Option TransitionId) : Prop where
  contenders : contenders large slot = contenders small slot
  resolutions : resolutions large (Membership.contenders large slot) =
    resolutions small (Membership.contenders small slot)

/-- Every slot the walk visits before this one stays quiet. -/
def QuietBefore (small large : MembershipLog P) (slot : Option TransitionId) : Prop :=
  ∀ earlier, Tip small earlier → slotEpoch small earlier < slotEpoch small slot →
    Quiet small large earlier

variable {slot : Option TransitionId}

/-- A quiet slot selects, judges and freezes as before. -/
lemma Quiet.alike (grow : Grows small large) (hq : Quiet small large slot) :
    advance large slot = advance small slot ∧
      (∀ x, verdictAt large slot x = verdictAt small slot x) ∧
      frozenBy large slot = frozenBy small slot := by
  have hs := hq.contenders
  have exact := hq.resolutions
  rw [hs] at exact
  simp only [advance, verdictAt, frozenBy, hs]
  cases vies : Membership.contenders small slot with
  | nil => exact ⟨rfl, fun _ => rfl, rfl⟩
  | cons first rest =>
    have hv := (mem_contenders.mp (vies ▸ mem_cons_self)).1
    rw [vies] at exact
    cases rest with
    | nil => simp only [grow.resolvesOf hv, implies_true, and_self]
    | cons second rest =>
      simp only [exact, grow.epochOf hv, and_true]
      rcases hf : Membership.resolutions small (first :: second :: rest) with _ | ⟨r, _ | _⟩
      · exact ⟨rfl, fun _ => rfl⟩
      · obtain ⟨_, _, _, hv, _⟩ := mem_resolutions.mp (hf ▸ mem_singleton_self r)
        simp only [grow.prevOf hv, implies_true, and_self]
      · exact ⟨rfl, fun _ => rfl⟩

/-- The exact resolutions that choose one contender, ascending. -/
def resolutionsFor (log : MembershipLog P) (among : List TransitionId) (contender : TransitionId) :
    List TransitionId :=
  (buildChildrenIndex log contender).filter (isResolution log (linkOf log) among contender)

lemma resolutionsFor_ascending (log : MembershipLog P) (among : List TransitionId)
    (contender : TransitionId) : (resolutionsFor log among contender).Pairwise (· < ·) := by
  rw [resolutionsFor, buildChildrenIndex_eq]
  exact ((Observed.ids_ascending _).filter _).filter _

lemma mem_resolutionsFor {log : MembershipLog P} {among : List TransitionId}
    {contender r : TransitionId} (hm : contender ∈ among) :
    r ∈ resolutionsFor log among contender ↔
      r ∈ resolutions log among ∧ prevOf log r = some contender := by
  constructor
  · intro chosen
    exact ⟨mem_flatMap.mpr ⟨contender, hm, chosen⟩,
      mem_buildChildrenIndex.mp (mem_filter.mp chosen).1⟩
  · rintro ⟨exact, hp⟩
    obtain ⟨other, _, chosen⟩ := mem_flatMap.mp exact
    have hn := mem_buildChildrenIndex.mp (mem_filter.mp chosen).1
    cases hp.symm.trans hn
    exact chosen

/-- Exact resolutions of fixed contenders come in one order, so membership
    decides the list. -/
lemma resolutions_eq_of_mem (grow : Grows small large) {among : List TransitionId}
    (hs : ∀ r ∈ resolutions large among, r ∈ resolutions small among) :
    resolutions large among = resolutions small among := by
  apply flatMap_congr
  intro contender hm
  apply (resolutionsFor_ascending large among contender).eq_of_mem_iff
    (resolutionsFor_ascending small among contender)
  intro r
  rw [mem_resolutionsFor hm, mem_resolutionsFor hm]
  constructor
  · rintro ⟨exact, prev⟩
    have prior := hs r exact
    obtain ⟨_, _, _, hv, _⟩ := mem_resolutions.mp prior
    exact ⟨prior, (grow.prevOf hv).symm.trans prev⟩
  · rintro ⟨exact, prev⟩
    obtain ⟨_, _, _, hv, _⟩ := mem_resolutions.mp exact
    exact ⟨grow.mem_resolutions exact, (grow.prevOf hv).trans prev⟩

variable {chain : List TransitionId}

/-- With every earlier slot quiet the walk reaches the same slot again. -/
lemma QuietBefore.reaches (grow : Grows small large) (path : Reaches small slot chain)
    (hq : QuietBefore small large slot) : Reaches large slot chain := by
  induction path with
  | root => exact .root
  | @next slot chain picked tip prior moves ih =>
    have step := (prior.next moves).length_eq
    have hh := prior.length_eq
    have longer := picked_length moves
    rw [length_append] at step
    refine (ih fun earlier hm lower => hq earlier hm (by omega)).next ?_
    rw [((hq slot ⟨chain, prior⟩ (by omega)).alike grow).1]
    exact moves

lemma contenders_eq_of_mem (hs : ∀ id, id ∈ contenders large slot ↔ id ∈ contenders small slot) :
    contenders large slot = contenders small slot :=
  (contenders_ascending large slot).eq_of_mem_iff (contenders_ascending small slot) hs

/-- A slot is quiet where the smaller log knew all that competes there. -/
lemma quiet_of_known (grow : Grows small large)
    (known : ∀ c ∈ contenders large slot, isValid (linkOf small) c = true)
    (fixed : ∀ r ∈ resolutions large (contenders large slot), isValid (linkOf small) r = true) :
    Quiet small large slot := by
  have hs : contenders large slot = contenders small slot := by
    apply contenders_eq_of_mem
    intro id
    refine ⟨fun hm => mem_contenders.mpr ⟨known id hm, ?_⟩, grow.mem_contenders⟩
    exact (grow.prevOf (known id hm)).symm.trans (mem_contenders.mp hm).2
  refine ⟨hs, ?_⟩
  rw [← hs]
  apply resolutions_eq_of_mem grow
  intro r hm
  have prior := fixed r hm
  obtain ⟨winner, hr, prev, _, some, names⟩ := mem_resolutions.mp hm
  rw [grow.prevOf prior] at prev
  rw [grow.resolvesOf prior] at some names
  exact mem_resolutions.mpr ⟨winner, hr, prev, prior, some, names⟩

/-- A selection of the larger log that the smaller one knew was made there too: what is
    selected stands on all that it competes with. -/
lemma quiet_of_selection (grow : Grows small large)
    (moves : advance large slot = some (picked, tip))
    (known : isValid (linkOf small) tip = true) : Quiet small large slot := by
  rcases advance_cases moves with ⟨only, _, _⟩ | ⟨winner, _, exact, prev, _, _⟩
  · refine quiet_of_known grow (fun c hm => ?_) fun r hm => ?_
    · rw [only, mem_singleton] at hm
      exact hm ▸ known
    · rw [only, resolutions_singleton] at hm
      cases hm
  · obtain ⟨contender, _, prev', _, _, names⟩ :=
      mem_resolutions.mp (exact ▸ mem_singleton_self tip)
    cases prev.symm.trans prev'
    refine quiet_of_known grow (fun c hm => ?_) fun r hm => ?_
    · by_cases chosen : c = winner
      · rw [chosen]
        exact valid_prev known ((grow.prevOf known).symm.trans prev)
      · have hn : c ∈ resolvesOf small tip := by
          rw [← grow.resolvesOf known, ← mem_toFinset, names]
          simp [hm, chosen]
        exact (valid_resolves known hn).1
    · rw [exact, mem_singleton] at hm
      exact hm ▸ known

/-- The larger log's walk up to a slot known before went the same way before, past quiet
    slots only. -/
lemma Reaches.back (grow : Grows small large) (path : Reaches large slot chain)
    (known : ∀ id, slot = some id → isValid (linkOf small) id = true) :
    Reaches small slot chain ∧ QuietBefore small large slot := by
  induction path with
  | root => exact ⟨.root, fun earlier _ lower => absurd lower (Nat.not_lt_zero _)⟩
  | @next slot chain picked tip hp moves ih =>
    have knownTip := known tip rfl
    have hq := quiet_of_selection grow moves knownTip
    obtain ⟨hs, -⟩ := hq.alike grow
    rw [hs] at moves
    have longer := picked_length moves
    have earlier : ∀ id, slot = some id → isValid (linkOf small) id = true := by
      rintro id rfl
      rcases advance_cases moves with ⟨only, _, _⟩ | ⟨winner, _, _, _, hm, _⟩
      · have hn := (mem_contenders.mp (only ▸ mem_singleton_self tip)).2
        exact valid_prev knownTip hn
      · obtain ⟨hv, hn⟩ := mem_contenders.mp hm
        exact valid_prev hv hn
    obtain ⟨back, quietBefore⟩ := ih earlier
    refine ⟨back.next moves, fun other met lower => ?_⟩
    obtain ⟨front, hr⟩ := met
    rcases hr.compare back with rfl | ⟨_, _, selects, later⟩ | ⟨_, _, selects, later⟩
    · exact hq
    · apply quietBefore other ⟨front, hr⟩
      have hw := later.length_le
      have more := picked_length selects
      rw [length_append] at hw
      rw [← hr.length_eq, ← back.length_eq]
      omega
    · rw [moves] at selects
      cases selects
      have hw := later.length_le
      rw [← hr.length_eq, ← (back.next moves).length_eq] at lower
      omega

lemma tip_valid {log : MembershipLog P} (tip : Tip log slot) :
    ∀ id, slot = some id → isValid (linkOf log) id = true := by
  obtain ⟨chain, hp⟩ := tip
  obtain ⟨hs, hl⟩ := hp.spine
  rintro id rfl
  exact hs.valid id (mem_of_getLast? hl)

end Wyrd.Membership
