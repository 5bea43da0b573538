import Wyrd.Membership.Spine

/-! # What one analysis says

Every field of the result is read off the slots the walk visits: a transition
some slot touches has the status that slot gives it, any other observed one has
the status of its link alone, and the canonical chain is what the last slot was
reached with.
-/

namespace Wyrd.Membership

open Option

variable {P : Primitives} {log : MembershipLog P}

def linkState (link : LinkMap) (id : TransitionId) : Option MembershipState :=
  match link id with
  | some (.valid state _) => some state
  | _ => none

variable {id : TransitionId}

lemma linkState_isSome : (linkState link id).isSome = isValid link id := by
  cases hf : link id with
  | none => simp [linkState, isValid, hf]
  | some verdict => cases verdict <;> simp [linkState, isValid, hf]

/-- The statuses that come with a derived state. -/
def settled : TransitionStatus → Bool
  | .canonical | .contested | .voided => true
  | _ => false

variable (result : Analysis)

lemma Analysis.setState_eq (link : LinkMap) (id : TransitionId) :
    result.setState link id = { result with
      states := fun other =>
        if other = id then (linkState link id).or (result.states id) else result.states other } := by
  have hk : result = { result with
      states := fun other => if other = id then result.states id else result.states other } := by
    cases result with
    | mk =>
      congr 1
      funext other
      split_ifs with hs
      · rw [hs]
      · rfl
  simp only [Analysis.setState, linkState]
  cases link id with
  | none => simpa using hk
  | some verdict =>
    cases verdict with
    | valid =>
      dsimp only
      congr 1
      funext other
      by_cases hs : other = id <;> simp [hs]
    | invalid => simpa using hk
    | pending => simpa using hk
    | orphaned => simpa using hk

/-- Giving each listed transition a status and its derived state. -/
lemma foldl_settle (link : LinkMap) (skip : TransitionId → Prop) [DecidablePred skip]
    (verdict : TransitionId → TransitionStatus) (result : Analysis) (ids : List TransitionId) :
    ids.foldl (fun result c => if skip c then result
        else (result.setStatus c (verdict c)).setState link c) result =
      { result with
        status := fun x => if x ∈ ids ∧ ¬ skip x then some (verdict x) else result.status x
        states := fun x =>
          if x ∈ ids ∧ ¬ skip x then (linkState link x).or (result.states x)
          else result.states x } := by
  induction ids generalizing result with
  | nil => simp
  | cons c rest ih =>
    rw [List.foldl_cons, ih]
    by_cases skipped : skip c
    · simp only [if_pos skipped]
      congr 1 <;>
      · funext x
        by_cases hs : x = c <;> simp [hs, skipped]
    · simp only [if_neg skipped, Analysis.setStatus, Analysis.setState_eq]
      congr 1
      · funext x
        by_cases hs : x = c <;> simp [hs, skipped]
      · funext x
        by_cases hs : x = c
        · subst hs
          by_cases again : x ∈ rest <;> simp [again, skipped]
          cases linkState link x <;> rfl
        · simp [hs]

lemma markLosers_eq (link : LinkMap) (winner : TransitionId) (named : List TransitionId)
    (result : Analysis) (ids : List TransitionId) :
    markLosers link winner named result ids =
      { result with
        status := fun x => if x ∈ ids ∧ ¬ x = winner then
          some (if x ∈ named then .voided else .contested) else result.status x
        states := fun x => if x ∈ ids ∧ ¬ x = winner then
          (linkState link x).or (result.states x) else result.states x } :=
  foldl_settle link (· = winner) (fun x => if x ∈ named then .voided else .contested) result ids

lemma markContested_eq (link : LinkMap) (result : Analysis) (ids : List TransitionId) :
    markContested link result ids =
      { result with
        status := fun x => if x ∈ ids then some .contested else result.status x
        states := fun x =>
          if x ∈ ids then (linkState link x).or (result.states x) else result.states x } := by
  simpa [markContested] using foldl_settle link (fun _ => False) (fun _ => .contested) result ids

lemma Analysis.select_eq (link : LinkMap) (id : TransitionId) :
    result.select link id = { result with
      status := Function.update result.status id (some .canonical)
      states := fun x =>
        if x = id then (linkState link id).or (result.states id) else result.states x
      canonical := result.canonical ++ [id] } := by
  simp [Analysis.select, Analysis.setStatus, Analysis.setState_eq, Analysis.push]

variable {slot : Option TransitionId}

/-- A conflict with one exact resolution is settled by it. -/
lemma resolved_slot (many : 2 ≤ (contenders log slot).length)
    (exact : resolutions log (contenders log slot) = [r]) (prev : prevOf log r = some winner) :
    (∀ result, mark log result slot = markLosers (linkOf log) winner (resolvesOf log r)
      ((result.select (linkOf log) winner).select (linkOf log) r) (contenders log slot)) ∧
    (∀ x, verdictAt log slot x = if x = r ∨ x = winner then some .canonical
      else if x ∈ contenders log slot then some .voided else none) ∧
    advance log slot = some ([winner, r], r) ∧ frozenBy log slot = none := by
  match vies : contenders log slot, many with
  | first :: second :: rest, _ =>
    rw [vies] at exact
    refine ⟨fun result => ?_, fun x => ?_, ?_, ?_⟩
    · simp [mark, vies, handleConflict_eq, exact, prev]
    · simp [verdictAt, vies, exact, prev]
    · simp [advance, vies, exact, prev]
    · simp [frozenBy, vies, exact]

/-- A conflict with no exact resolution, or with several, freezes. -/
lemma frozen_slot (many : 2 ≤ (contenders log slot).length)
    (exact : (resolutions log (contenders log slot)).length ≠ 1) :
    ∃ epoch, (∀ result, mark log result slot = markContested (linkOf log)
      (markContested (linkOf log) { result with frozenAt := some epoch } (contenders log slot))
      (resolutions log (contenders log slot))) ∧
    (∀ x, verdictAt log slot x =
      if x ∈ contenders log slot ∨ x ∈ resolutions log (contenders log slot) then
        some .contested else none) ∧ advance log slot = none ∧ frozenBy log slot = some epoch := by
  match vies : contenders log slot, many with
  | first :: second :: rest, _ =>
    rw [vies] at exact
    match hf : resolutions log (first :: second :: rest), exact with
    | [], _ =>
      refine ⟨epochOf log first, fun result => ?_, fun x => ?_, ?_, ?_⟩
      · simp [mark, vies, handleConflict_eq, hf, markContested]
      · simp [verdictAt, vies, hf]
      · simp [advance, vies, hf]
      · simp [frozenBy, vies, hf]
    | a :: b :: others, _ =>
      refine ⟨saturatingAdd (epochOf log first) 1, fun result => ?_, fun x => ?_, ?_, ?_⟩
      · simp [mark, vies, handleConflict_eq, hf]
      · simp [verdictAt, vies, hf]
      · simp [advance, vies, hf]
      · simp [frozenBy, vies, hf]

/-- What a slot makes of its contenders: nothing to take, one taken, a stray,
    one exact resolution, or a freeze. -/
lemma slot_cases (log : MembershipLog P) (slot : Option TransitionId) : contenders log slot = [] ∨
    (∃ child, contenders log slot = [child] ∧ resolvesOf log child = []) ∨
    (∃ child, contenders log slot = [child] ∧ resolvesOf log child ≠ []) ∨
    (∃ winner r, 2 ≤ (contenders log slot).length ∧
      resolutions log (contenders log slot) = [r] ∧ prevOf log r = some winner ∧
      winner ∈ contenders log slot ∧ isValid (linkOf log) r = true ∧
      (resolvesOf log r).toFinset = (contenders log slot).toFinset.filter (· ≠ winner)) ∨
    (2 ≤ (contenders log slot).length ∧
      (resolutions log (contenders log slot)).length ≠ 1) := by
  cases vies : contenders log slot with
  | nil => exact .inl rfl
  | cons first rest =>
    cases rest with
    | nil =>
      by_cases plain : resolvesOf log first = []
      · exact .inr (.inl ⟨first, rfl, plain⟩)
      · exact .inr (.inr (.inl ⟨first, rfl, plain⟩))
    | cons second rest =>
      by_cases single : (resolutions log (first :: second :: rest)).length = 1
      · obtain ⟨r, exact⟩ := List.length_eq_one_iff.mp single
        obtain ⟨winner, hm, hp, hv, _, hn⟩ :=
          mem_resolutions.mp (exact ▸ List.mem_singleton_self r)
        exact .inr (.inr (.inr (.inl ⟨winner, r, by simp, exact, hp, hm, hv, hn⟩)))
      · exact .inr (.inr (.inr (.inr ⟨by simp, single⟩)))

lemma contender_epoch (hm : id ∈ contenders log slot) :
    epochOf log id = slotEpoch log slot + 1 := by
  obtain ⟨hv, hn⟩ := mem_contenders.mp hm
  rw [valid_epoch hv, hn]

lemma resolution_epoch (hm : r ∈ resolutions log (contenders log slot)) :
    epochOf log r = slotEpoch log slot + 2 := by
  obtain ⟨winner, hr, hp, hv, _⟩ := mem_resolutions.mp hm
  rw [valid_epoch hv, hp]
  exact congrArg (· + 1) (contender_epoch hr)

lemma resolution_not_contender (hm : r ∈ resolutions log (contenders log slot)) :
    r ∉ contenders log slot := by
  intro hr
  have above := resolution_epoch hm
  have hb := contender_epoch hr
  omega

/-- What one slot adds: the status of all it touches, with the derived state except for a
    stray, what it selects, and its freeze. -/
lemma mark_fields (log : MembershipLog P) (result : Analysis) (slot : Option TransitionId) :
    (∀ x, (mark log result slot).status x = (verdictAt log slot x).or (result.status x)) ∧
    (∀ x, (mark log result slot).states x =
      if (verdictAt log slot x).any settled then (linkState (linkOf log) x).or (result.states x)
      else result.states x) ∧
    (mark log result slot).canonical = result.canonical ++ (advance log slot).elim [] Prod.fst ∧
    (mark log result slot).frozenAt = (frozenBy log slot).or result.frozenAt := by
  rcases slot_cases log slot with he | ⟨child, only, plain⟩ | ⟨child, only, stray⟩ |
    ⟨winner, r, many, exact, hp, hm, _, names⟩ | ⟨many, exact⟩
  · simp [mark, verdictAt, advance, frozenBy, he]
  · refine ⟨fun x => ?_, fun x => ?_, ?_, ?_⟩
    · by_cases hs : x = child <;> simp [mark, verdictAt, only, plain, Analysis.select_eq, hs]
    · by_cases hs : x = child <;> simp [mark, verdictAt, only, plain, Analysis.select_eq, hs, settled]
    · simp [mark, advance, only, plain, Analysis.select_eq]
    · simp [mark, frozenBy, only, plain, Analysis.select_eq]
  · refine ⟨fun x => ?_, fun x => ?_, ?_, ?_⟩
    · by_cases hs : x = child <;> simp [mark, verdictAt, only, stray, Analysis.setStatus, hs]
    · by_cases hs : x = child <;>
        simp [mark, verdictAt, only, stray, Analysis.setStatus, hs, settled]
    · simp [mark, advance, only, stray, Analysis.setStatus]
    · simp [mark, frozenBy, only, stray, Analysis.setStatus]
  · have out : r ∉ contenders log slot :=
      resolution_not_contender (exact ▸ List.mem_singleton_self r)
    have apart : r ≠ winner := fun hs => out (hs ▸ hm)
    have hn (x : TransitionId) (rival : x ∈ contenders log slot) (ho : x ≠ winner) :
        x ∈ resolvesOf log r := by
      rw [← List.mem_toFinset, names]
      simp [rival, ho]
    obtain ⟨marks, rules, moves, moving⟩ := resolved_slot many exact hp
    rw [marks, moves, moving]
    simp only [rules, markLosers_eq, Analysis.select_eq]
    refine ⟨fun x => ?_, fun x => ?_, by simp, by simp⟩
    all_goals
      by_cases isR : x = r
      · simp [isR, out, apart, settled]
      · by_cases isWinner : x = winner
        · simp [isWinner, apart.symm, settled]
        · by_cases rival : x ∈ contenders log slot
          · simp [isR, isWinner, rival, hn x rival isWinner, settled]
          · simp [isR, isWinner, rival]
  · obtain ⟨epoch, marks, rules, stops, hf⟩ := frozen_slot many exact
    rw [marks, stops, hf]
    simp only [rules, markContested_eq]
    refine ⟨fun x => ?_, fun x => ?_, by simp, by simp⟩
    all_goals
      by_cases rival : x ∈ contenders log slot
      · have apart : x ∉ resolutions log (contenders log slot) :=
          fun solving => resolution_not_contender solving rival
        simp [rival, apart, settled]
      · by_cases solving : x ∈ resolutions log (contenders log slot) <;>
          simp [rival, solving, settled]

variable {x : TransitionId} {v : TransitionStatus}

/-- A slot touches only its contenders and their exact resolutions. -/
lemma verdictAt_mem (touch : verdictAt log slot x = some v) :
    x ∈ contenders log slot ∨ x ∈ resolutions log (contenders log slot) := by
  rcases slot_cases log slot with empty | ⟨child, only, _⟩ | ⟨child, only, _⟩ |
    ⟨winner, r, many, exact, hp, hm, _⟩ | ⟨many, exact⟩
  · simp [verdictAt, empty] at touch
  · by_contra ho
    simp_all [verdictAt]
  · by_contra ho
    simp_all [verdictAt]
  · rw [(resolved_slot many exact hp).2.1] at touch
    split_ifs at touch with hc hr
    · rcases hc with rfl | rfl
      · exact .inr (exact ▸ List.mem_singleton_self x)
      · exact .inl hm
    · exact .inl hr
  · obtain ⟨_, _, rules, _⟩ := frozen_slot many exact
    rw [rules] at touch
    split_ifs at touch with he
    exact he

/-- A slot touches only valid transitions above it, and none above what it
    selects. -/
lemma verdictAt_epoch (touch : verdictAt log slot x = some v) :
    isValid (linkOf log) x = true ∧ slotEpoch log slot < epochOf log x ∧
      ∀ picked tip, advance log slot = some (picked, tip) →
        epochOf log x ≤ slotEpoch log slot + picked.length := by
  rcases verdictAt_mem touch with rival | solving
  · have above := contender_epoch rival
    refine ⟨(mem_contenders.mp rival).1, by omega, fun picked tip moves => ?_⟩
    have longer := picked_length moves
    omega
  · have above := resolution_epoch solving
    obtain ⟨_, _, _, hv, _⟩ := mem_resolutions.mp solving
    refine ⟨hv, by omega, fun picked tip moves => ?_⟩
    rcases advance_cases moves with ⟨only, _⟩ | ⟨_, _, _, _, _, rfl⟩
    · rw [only, resolutions_singleton] at solving
      simp at solving
    · simp [above]

/-- No transition is touched by two slots. -/
lemma verdictAt_unique (tip : Tip log slot) (tip' : Tip log slot')
    (touch : verdictAt log slot x = some v) (touch' : verdictAt log slot' x = some v') :
    slot = slot' := by
  obtain ⟨chain, path⟩ := tip
  obtain ⟨chain', path'⟩ := tip'
  have length := path.length_eq
  have length' := path'.length_eq
  obtain ⟨_, ha, hw⟩ := verdictAt_epoch touch
  obtain ⟨_, ha', hw'⟩ := verdictAt_epoch touch'
  rcases path.compare path' with hs | ⟨picked, next, moves, later⟩ | ⟨picked, next, moves, later⟩
  · exact hs
  · have bound := hw picked next moves
    have longer := later.length_le
    rw [List.length_append] at longer
    omega
  · have bound := hw' picked next moves
    have longer := later.length_le
    rw [List.length_append] at longer
    omega

/-- The slots after the walk's last selection: no further move. -/
def Last (log : MembershipLog P) (slot : Option TransitionId) : Prop :=
  Tip log slot ∧ advance log slot = none

lemma Last.unique (last : Last log slot) (last' : Last log slot') : slot = slot' := by
  obtain ⟨⟨chain, hp⟩, stops⟩ := last
  obtain ⟨⟨chain', hp'⟩, stops'⟩ := last'
  rcases hp.compare hp' with hs | ⟨_, _, moves, _⟩ | ⟨_, _, moves, _⟩
  · exact hs
  · simp [stops] at moves
  · simp [stops'] at moves

lemma not_frozen_of_advance (moves : advance log slot = some next) : frozenBy log slot = none := by
  rcases slot_cases log slot with he | ⟨child, only, _⟩ | ⟨child, only, _⟩ |
    ⟨winner, r, many, exact, hp, _⟩ | ⟨many, exact⟩
  · simp [frozenBy, he]
  · simp [frozenBy, only]
  · simp [frozenBy, only]
  · exact (resolved_slot many exact hp).2.2.2
  · obtain ⟨_, _, _, stops, _⟩ := frozen_slot many exact
    simp [stops] at moves

lemma tip_of_mem_trail (fuel : Nat) (tip : Tip log slot) :
    ∀ slot' ∈ trail log fuel slot, Tip log slot' := by
  induction fuel generalizing slot with
  | zero => simp [trail]
  | succ fuel ih =>
    intro slot' hm
    rw [trail, List.mem_cons] at hm
    rcases hm with rfl | later
    · exact tip
    · cases moves : advance log slot with
      | none => simp [moves] at later
      | some =>
        obtain ⟨chain, hp⟩ := tip
        rw [moves] at later
        exact ih ⟨_, hp.next moves⟩ slot' later

variable {chain : List TransitionId}

/-- Folding over the trail ends at the last slot: the fuel suffices because
    the selected chain never outgrows the log. -/
lemma trail_last (fuel : Nat) (path : Reaches log slot chain)
    (ample : log.len + 1 ≤ fuel + chain.length) (result : Analysis)
    (started : result.canonical = chain) :
    ∃ last ∈ trail log fuel slot,
      Reaches log last ((trail log fuel slot).foldl (mark log) result).canonical ∧
      advance log last = none ∧
      ((trail log fuel slot).foldl (mark log) result).frozenAt =
        (frozenBy log last).or result.frozenAt := by
  induction fuel generalizing slot chain result with
  | zero =>
    have bound := path.spine.1.length_le
    omega
  | succ fuel ih =>
    obtain ⟨-, -, canon, frozen⟩ := mark_fields log result slot
    cases moves : advance log slot with
    | none =>
      rw [moves, started] at canon
      refine ⟨slot, by simp [trail], ?_, moves, ?_⟩
      · simpa [trail, moves, canon] using path
      · simpa [trail, moves] using frozen
    | some next =>
      obtain ⟨picked, tip⟩ := next
      have moving := not_frozen_of_advance moves
      have longer := picked_length moves
      rw [moves, started] at canon
      obtain ⟨last, hm, hr, stops, hf⟩ := ih (path.next moves)
        (by rw [List.length_append]; omega) (mark log result slot) canon
      refine ⟨last, by simp [trail, moves, hm], ?_, stops, ?_⟩
      · simpa [trail, moves] using hr
      · simpa [trail, moves, frozen, moving] using hf

/-- With enough fuel the trail holds the next slot of each slot on it. -/
lemma trail_closed (fuel : Nat) (path : Reaches log slot chain)
    (ample : log.len + 1 ≤ fuel + chain.length) :
    ∀ slot' ∈ trail log fuel slot, ∀ next, advance log slot' = some next →
      some next.2 ∈ trail log fuel slot := by
  induction fuel generalizing slot chain with
  | zero => simp [trail]
  | succ fuel ih =>
    intro slot' hm next selects
    cases moves : advance log slot with
    | none =>
      simp only [trail, moves, elim_none, List.mem_singleton] at hm
      simp [← hm, selects] at moves
    | some first =>
      obtain ⟨picked, tip⟩ := first
      have longer := picked_length moves
      have bound := (path.next moves).spine.1.length_le
      rw [List.length_append] at bound
      simp only [trail, moves, elim_some, List.mem_cons] at hm ⊢
      rcases hm with rfl | hl
      · rw [moves] at selects
        cases selects
        cases fuel with
        | zero => omega
        | succ => exact .inr (by simp [trail])
      · exact .inr (ih (path.next moves) (by rw [List.length_append]; omega) slot' hl next selects)

lemma mem_slots : slot ∈ slots log ↔ Tip log slot := by
  constructor
  · exact tip_of_mem_trail _ ⟨[], .root⟩ slot
  · rintro ⟨chain, hp⟩
    induction hp with
    | root => simp [slots, trail]
    | next _ hm ih => exact trail_closed _ .root (by simp) _ ih _ hm

def walked (log : MembershipLog P) : Analysis := (slots log).foldl (mark log) Analysis.initial

lemma status_foldl_mark (visited : List (Option TransitionId)) (result : Analysis)
    (x : TransitionId) : (visited.foldl (mark log) result).status x =
      (visited.reverse.findSome? (verdictAt log · x)).or (result.status x) := by
  induction visited generalizing result with
  | nil => rfl
  | cons slot rest ih =>
    rw [List.foldl_cons, ih, (mark_fields log result slot).1, List.reverse_cons,
      List.findSome?_append, Option.or_assoc]
    simp

lemma states_foldl_mark (visited : List (Option TransitionId)) (result : Analysis)
    (x : TransitionId) : (visited.foldl (mark log) result).states x =
      if visited.any fun slot => (verdictAt log slot x).any settled then linkState (linkOf log) x
      else result.states x := by
  induction visited generalizing result with
  | nil => rfl
  | cons slot rest ih =>
    rw [List.foldl_cons, ih, (mark_fields log result slot).2.1, List.any_cons]
    cases hr : verdictAt log slot x with
    | none => simp
    | some v =>
      have hv : (linkState (linkOf log) x).isSome = true :=
        linkState_isSome.trans (verdictAt_epoch hr).1
      by_cases hs : settled v = true <;> simp [hs, or_of_isSome hv]

/-- The slot that touches a transition decides. -/
lemma walked_status_iff :
    (walked log).status x = some v ↔ ∃ slot, Tip log slot ∧ verdictAt log slot x = some v := by
  have search : (walked log).status x = (slots log).reverse.findSome? (verdictAt log · x) :=
    (status_foldl_mark ..).trans or_none
  rw [search]
  constructor
  · intro hf
    obtain ⟨slot, hm, touch⟩ := List.exists_of_findSome?_eq_some hf
    exact ⟨slot, mem_slots.mp (List.mem_reverse.mp hm), touch⟩
  · rintro ⟨slot, tip, touch⟩
    cases hf : (slots log).reverse.findSome? (verdictAt log · x) with
    | none =>
      rw [List.findSome?_eq_none_iff] at hf
      simp [hf slot (List.mem_reverse.mpr (mem_slots.mpr tip))] at touch
    | some =>
      obtain ⟨slot', hm, touch'⟩ := List.exists_of_findSome?_eq_some hf
      cases verdictAt_unique (mem_slots.mp (List.mem_reverse.mp hm)) tip touch' touch
      exact touch'.symm.trans touch

lemma walked_status (tip : Tip log slot) (touch : verdictAt log slot x = some v) :
    (walked log).status x = some v := walked_status_iff.mpr ⟨slot, tip, touch⟩

lemma walked_states (log : MembershipLog P) (x : TransitionId) :
    (walked log).states x =
      if ((walked log).status x).any settled then linkState (linkOf log) x else none := by
  have settles : ((slots log).any fun slot => (verdictAt log slot x).any settled) =
      ((walked log).status x).any settled := by
    rw [Bool.eq_iff_iff, List.any_eq_true, any_eq_true]
    constructor
    · rintro ⟨slot, hm, touch⟩
      obtain ⟨v, touch, isSettled⟩ := (any_eq_true _ _).mp touch
      exact ⟨v, walked_status (mem_slots.mp hm) touch, isSettled⟩
    · rintro ⟨v, hs, isSettled⟩
      obtain ⟨slot, tip, touch⟩ := walked_status_iff.mp hs
      exact ⟨slot, mem_slots.mpr tip, by rw [touch]; exact isSettled⟩
  rw [← settles]
  exact states_foldl_mark ..

/-- The status of an observed transition that no slot touches. -/
def restStatus (log : MembershipLog P) (id : TransitionId) : Option TransitionStatus :=
  match linkOf log id with
  | none => none
  | some (.invalid reason) => some (.invalid reason)
  | some .pending => some .pending
  | some .orphaned => some .orphaned
  | some (.valid _ _) => some .voided

/-- A valid transition climbs to a classified ancestor or to its genesis before
    the fuel runs out, and is voided either way. -/
lemma inheritedStatus_valid (status : TransitionId → Option TransitionStatus) (fuel : Nat)
    (hv : isValid (linkOf log) id = true) (ample : epochOf log id ≤ fuel) :
    inheritedStatus log status fuel id = some .voided := by
  induction fuel generalizing id with
  | zero =>
    have hpos := valid_epoch hv
    omega
  | succ fuel ih =>
    obtain ⟨t, hf⟩ := isValid_observed hv
    have hn := prevOf_of_transition hf
    have era := valid_epoch hv
    simp only [inheritedStatus, hf]
    cases prev : t.prev with
    | none => rfl
    | some prevId =>
      rw [prev] at hn
      have climbs : inheritedStatus log status fuel prevId = some .voided := by
        apply ih (valid_prev hv hn)
        rw [hn] at era
        simp only [slotEpoch, elim_some] at era
        omega
      dsimp only
      split
      · rfl
      · rfl
      · rfl
      · exact climbs

lemma linkState_of_restStatus (gone : restStatus log id = none) :
    linkState (linkOf log) id = none := by
  cases tie : linkOf log id with
  | none => simp [linkState, tie]
  | some verdict => cases verdict <;> simp [restStatus, tie] at gone

/-- An already classified transition is left alone; any other gets the status
    of its link, and its derived state if the link is valid. -/
lemma classifyOne_eq (id : TransitionId) :
    classifyOne log (linkOf log) result id = { result with
      status := fun x => if x = id then (result.status x).or (restStatus log x) else result.status x
      states := fun x => if x = id ∧ result.status x = none then
        (linkState (linkOf log) x).or (result.states x) else result.states x } := by
  have judged : classifyOne log (linkOf log) result id =
      if (result.status id).isSome then result else (restStatus log id).elim result
        (fun status => (result.setStatus id status).setState (linkOf log) id) := by
    simp only [classifyOne]
    split_ifs with hc
    · rfl
    · cases link : linkOf log id with
      | none => simp [restStatus, link]
      | some verdict =>
        cases verdict with
        | valid state admitted =>
          have valid : isValid (linkOf log) id = true := isValid_iff.mpr ⟨state, admitted, link⟩
          simp [restStatus, link, inheritedStatus_valid result.status _ valid le_rfl]
        | _ => simp [restStatus, link, Analysis.setState, Analysis.setStatus]
  rw [judged]
  obtain ⟨statuses, states, canonical, frozenAt⟩ := result
  cases status : statuses id with
  | some =>
    simp only [status, isSome_some, if_true]
    congr 1 <;>
    · funext x
      by_cases hs : x = id <;> simp [hs, status]
  | none =>
    cases rest : restStatus log id with
    | none =>
      have absent := linkState_of_restStatus rest
      simp only [status, isSome_none, Bool.false_eq_true, if_false, elim_none]
      congr 1 <;>
      · funext x
        by_cases hs : x = id <;> simp [hs, status, rest, absent]
    | some =>
      simp only [status, isSome_none, Bool.false_eq_true, if_false, elim_some,
        Analysis.setStatus, Analysis.setState_eq]
      congr 1 <;>
      · funext x
        by_cases hs : x = id <;> simp [hs, status, rest]

lemma foldl_classifyOne (ids : List TransitionId) (once : ids.Nodup) (result : Analysis) :
    ids.foldl (classifyOne log (linkOf log)) result = { result with
      status := fun x => if x ∈ ids then (result.status x).or (restStatus log x) else result.status x
      states := fun x => if x ∈ ids ∧ result.status x = none then
        (linkState (linkOf log) x).or (result.states x) else result.states x } := by
  induction ids generalizing result with
  | nil => simp
  | cons id rest ih =>
    obtain ⟨hn, once⟩ := List.nodup_cons.mp once
    rw [List.foldl_cons, ih once, classifyOne_eq]
    congr 1 <;>
    · funext x
      by_cases hs : x = id <;> simp [hs, hn]

lemma restStatus_observed (there : restStatus log id = some v) : id ∈ log.observedIds := by
  cases tie : linkOf log id with
  | none => simp [restStatus, tie] at there
  | some =>
    obtain ⟨t, hf, _⟩ := transition_of_linkOf tie
    exact mem_observedIds.mpr ⟨t, hf⟩

lemma classifyRemaining_eq :
    classifyRemaining log (linkOf log) result = { result with
      status := fun x => (result.status x).or (restStatus log x)
      states := fun x => if result.status x = none then
        (linkState (linkOf log) x).or (result.states x) else result.states x } := by
  rw [classifyRemaining, foldl_classifyOne log.observedIds (Observed.ids_nodup _)]
  congr 1 <;>
  · funext x
    cases rest : restStatus log x with
    | some => simp [restStatus_observed rest]
    | none => simp [linkState_of_restStatus rest]

lemma analyse_walked (log : MembershipLog P) :
    analyse log = { walked log with
      status := fun x => ((walked log).status x).or (restStatus log x)
      states := fun x => if (walked log).status x = none then
        (linkState (linkOf log) x).or ((walked log).states x) else (walked log).states x } :=
  (analyse_eq log).trans (classifyRemaining_eq _)

lemma status_eq (log : MembershipLog P) (x : TransitionId) :
    (analyse log).status x = ((walked log).status x).or (restStatus log x) := by
  rw [analyse_walked]

lemma status_of_tip (tip : Tip log slot) (touch : verdictAt log slot x = some v) :
    (analyse log).status x = some v := by
  rw [status_eq, walked_status tip touch]
  rfl

lemma status_cases (status : (analyse log).status x = some v) :
    (∃ slot, Tip log slot ∧ verdictAt log slot x = some v) ∨
      (restStatus log x = some v ∧ ∀ slot, Tip log slot → verdictAt log slot x = none) := by
  rw [status_eq] at status
  cases walk : (walked log).status x with
  | some =>
    rw [walk, some_or] at status
    exact .inl (walked_status_iff.mp (walk.trans status))
  | none =>
    rw [walk, none_or] at status
    refine .inr ⟨status, fun slot tip => ?_⟩
    cases hr : verdictAt log slot x with
    | none => rfl
    | some => simp [walked_status tip hr] at walk

/-- Exactly the settled transitions have a state: the one their link derives. -/
lemma states_eq (log : MembershipLog P) (x : TransitionId) :
    (analyse log).states x =
      if ((analyse log).status x).any settled then linkState (linkOf log) x else none := by
  rw [status_eq, analyse_walked]
  dsimp only
  rw [walked_states]
  cases (walked log).status x with
  | some v => by_cases hs : settled v = true <;> simp [hs]
  | none =>
    cases tie : linkOf log x with
    | none => simp [restStatus, linkState, tie]
    | some verdict => cases verdict <;> simp [restStatus, linkState, tie, settled]

/-- The canonical chain is what the last slot was reached with, and evaluation
    freezes there or nowhere. -/
lemma analyse_last (log : MembershipLog P) :
    ∃ last, Reaches log last (analyse log).canonical ∧ advance log last = none ∧
      (analyse log).frozenAt = frozenBy log last := by
  obtain ⟨last, _, hp, stops, hf⟩ :=
    trail_last (log.len + 1) (.root : Reaches log none []) (by simp) Analysis.initial rfl
  rw [analyse_walked]
  exact ⟨last, hp, stops, hf.trans or_none⟩

lemma status_search (log : MembershipLog P) (x : TransitionId) :
    (analyse log).status x =
      ((slots log).findSome? (fun slot => verdictAt log slot x)).or (restStatus log x) := by
  rw [status_eq]
  congr 1
  cases hf : (slots log).findSome? (fun slot => verdictAt log slot x) with
  | some =>
    obtain ⟨slot, hm, touch⟩ := List.exists_of_findSome?_eq_some hf
    exact walked_status (mem_slots.mp hm) touch
  | none =>
    rw [List.findSome?_eq_none_iff] at hf
    rw [eq_none_iff_forall_ne_some]
    intro v hs
    obtain ⟨slot, tip, touch⟩ := walked_status_iff.mp hs
    simp [hf slot (mem_slots.mpr tip)] at touch

/-- A transition no visited slot touches has the status of its link. -/
lemma status_untouched (whole : ∀ slot, Tip log slot → verdictAt log slot x = none) :
    (analyse log).status x = restStatus log x := by
  rw [status_search, List.findSome?_eq_none_iff.mpr, none_or]
  exact fun slot hm => whole slot (mem_slots.mp hm)

lemma Last.frozenAt (last : Last log slot) : (analyse log).frozenAt = frozenBy log slot := by
  obtain ⟨other, hp, stops, hf⟩ := analyse_last log
  rw [hf, Last.unique last ⟨⟨_, hp⟩, stops⟩]

lemma frozenAt_search (log : MembershipLog P) :
    (analyse log).frozenAt = (slots log).findSome? (frozenBy log) := by
  cases hf : (slots log).findSome? (frozenBy log) with
  | some =>
    obtain ⟨slot, hm, freezes⟩ := List.exists_of_findSome?_eq_some hf
    have ends : advance log slot = none := by
      cases moves : advance log slot with
      | none => rfl
      | some => simp [not_frozen_of_advance moves] at freezes
    rw [Last.frozenAt ⟨mem_slots.mp hm, ends⟩, freezes]
  | none =>
    obtain ⟨last, hp, _, frozen⟩ := analyse_last log
    rw [List.findSome?_eq_none_iff] at hf
    rw [frozen, hf last (mem_slots.mpr ⟨_, hp⟩)]

lemma verdictAt_canonical :
    verdictAt log slot x = some .canonical ↔
      ∃ picked tip, advance log slot = some (picked, tip) ∧ x ∈ picked := by
  rcases slot_cases log slot with he | ⟨child, only, hp⟩ | ⟨child, only, stray⟩ |
    ⟨winner, r, many, exact, prev, _⟩ | ⟨many, exact⟩
  · simp [verdictAt, advance, he]
  · by_cases hs : x = child <;> simp [verdictAt, advance, only, hp, hs]
  · by_cases hs : x = child <;> simp [verdictAt, advance, only, stray, hs]
  · obtain ⟨_, rules, hm, _⟩ := resolved_slot many exact prev
    rw [rules, hm]
    by_cases chosen : x = r ∨ x = winner
    · simpa [chosen] using chosen.symm
    · have apart : ¬ (x = winner ∨ x = r) := fun either => chosen either.symm
      by_cases hr : x ∈ contenders log slot <;> simp [chosen, apart, hr]
  · obtain ⟨_, _, rules, stops, _⟩ := frozen_slot many exact
    rw [rules, stops]
    by_cases either : x ∈ contenders log slot ∨ x ∈ resolutions log (contenders log slot) <;>
      simp [either]

lemma Reaches.selected (path : Reaches log slot chain) (hm : x ∈ chain) :
    ∃ earlier, Tip log earlier ∧ verdictAt log earlier x = some .canonical := by
  induction path with
  | root => simp at hm
  | next hp moves ih =>
    rcases List.mem_append.mp hm with hi | inPicked
    · exact ih hi
    · exact ⟨_, ⟨_, hp⟩, verdictAt_canonical.mpr ⟨_, _, moves, inPicked⟩⟩

/-- Every reached slot's chain is an initial part of the canonical chain. -/
lemma Reaches.canonical (path : Reaches log slot chain) : chain <+: (analyse log).canonical := by
  obtain ⟨last, toLast, stops, _⟩ := analyse_last log
  rcases path.compare toLast with rfl | ⟨picked, tip, _, hl⟩ | ⟨picked, tip, hm, _⟩
  · exact path.unique toLast ▸ List.prefix_rfl
  · exact (List.prefix_append _ _).trans hl
  · simp [stops] at hm

/-- A transition is on the canonical chain exactly when its status says so. -/
lemma mem_canonical : x ∈ (analyse log).canonical ↔ (analyse log).status x = some .canonical := by
  constructor
  · intro hm
    obtain ⟨last, path, _⟩ := analyse_last log
    obtain ⟨slot, tip, touch⟩ := path.selected hm
    exact status_of_tip tip touch
  · intro hs
    rcases status_cases hs with ⟨slot, ⟨chain, path⟩, touch⟩ | ⟨rest, _⟩
    · obtain ⟨picked, tip, moves, hi⟩ := verdictAt_canonical.mp touch
      exact (path.next moves).canonical.subset (List.mem_append_right _ hi)
    · cases tie : linkOf log x with
      | none => simp [restStatus, tie] at rest
      | some verdict => cases verdict <;> simp [restStatus, tie] at rest

end Wyrd.Membership
