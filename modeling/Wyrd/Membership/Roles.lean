import Wyrd.Lib.Fallible
import Wyrd.Membership.Canonical

/-! # Roles and keys

What every derived state satisfies: at most one owner, who is a member; no
device in both roles; a registered encryption key for exactly the devices that
hold a role. The changes of one transition pass through states where the owner
is not a member, so that part is the closing check of `apply` alone. Identity is
single use along a chain, hence a device's key never changes on it.
-/

namespace Wyrd.Membership

open Finset

variable {P : Primitives} {log : MembershipLog P}

/-- What every single change keeps. -/
structure Roles (state : MembershipState) : Prop where
  single : state.owners.card ≤ 1
  disjoint : Disjoint state.members state.readers
  registered : ∀ device, device ∈ state.encryptionKeys ↔
    device ∈ state.members ∨ device ∈ state.readers

lemma Roles.initial : Roles .initial where
  single := by simp [MembershipState.initial]
  disjoint := disjoint_empty_left _
  registered := by simp [MembershipState.initial, Finmap.notMem_empty]

variable {state : MembershipState}

lemma Roles.applyChange (roles : Roles state) (ran : applyChange state change = .ok next) :
    Roles next := by
  cases change with
  | admitMember =>
    simp only [Membership.applyChange] at ran
    split_ifs at ran with isMember hi
    cases ran
    refine ⟨roles.single, ?_, fun device => ?_⟩
    · rw [disjoint_insert_left]
      exact ⟨hi, roles.disjoint⟩
    · rw [Finmap.mem_insert, roles.registered, mem_insert, or_assoc]
  | admitReader =>
    simp only [Membership.applyChange] at ran
    split_ifs at ran with existing
    cases ran
    rw [not_or] at existing
    refine ⟨roles.single, ?_, fun device => ?_⟩
    · rw [disjoint_insert_right]
      exact ⟨existing.1, roles.disjoint⟩
    · rw [Finmap.mem_insert, roles.registered, mem_insert]
      tauto
  | remove device =>
    have evicted : ∀ other, other ∈ state.encryptionKeys.erase device ↔
        other ∈ state.members.erase device ∨ other ∈ state.readers.erase device := by
      intro other
      rw [Finmap.mem_erase, roles.registered, mem_erase, mem_erase]
      tauto
    have apart : Disjoint (state.members.erase device) (state.readers.erase device) :=
      (roles.disjoint.mono_left (erase_subset _ _)).mono_right (erase_subset _ _)
    simp only [Membership.applyChange] at ran
    split_ifs at ran
    · cases ran
      exact ⟨(card_erase_le).trans roles.single, apart, evicted⟩
    · cases ran
      exact ⟨roles.single, apart, evicted⟩
  | rotate =>
    simp only [Membership.applyChange, Except.ok.injEq] at ran
    exact ran ▸ roles
  | setOwners owners =>
    simp only [Membership.applyChange] at ran
    split_ifs at ran with hm
    cases ran
    refine ⟨?_, roles.disjoint, roles.registered⟩
    exact (List.toFinset_card_le owners).trans (not_not.mp hm).le

lemma apply_ok :
    apply before changes = .ok after ↔
      (∀ device ∈ admits changes, device ∉ changes.filterMap removedDevice) ∧
        changes.foldlM applyChange before = .ok after ∧ after.owners ⊆ after.members := by
  rw [apply]
  split_ifs with both
  · simp only [false_iff, not_and]
    intro apart
    simp only [List.any_eq_true, decide_eq_true_eq] at both
    obtain ⟨device, ha, hc⟩ := both
    exact absurd hc (apart device ha)
  · simp only [List.any_eq_true, decide_eq_true_eq, not_exists, not_and] at both
    rw [bind_ok]
    constructor
    · rintro ⟨next, folded, closed⟩
      split_ifs at closed with owned
      cases closed
      exact ⟨both, folded, owned⟩
    · rintro ⟨_, folded, owned⟩
      exact ⟨after, folded, if_pos owned⟩

lemma Roles.apply (roles : Roles before) (ran : apply before changes = .ok after) : Roles after :=
  foldlM_ok (fun _ state => Roles state) (fun _ _ _ _ _ hk => hk.applyChange) roles
    (apply_ok.mp ran).2.1

lemma Spine.roles (spine : Spine log chain) (tip : slotState log chain.getLast? = some state) :
    Roles state ∧ state.owners ⊆ state.members := by
  induction spine generalizing state with
  | nil =>
    cases tip
    exact ⟨.initial, empty_subset _⟩
  | snoc spine hv ht ih =>
    obtain ⟨t, before, derived, hf, atPrev, hn, ran, _⟩ := valid_derives hv
    rw [← prevOf_of_transition hf, ht] at atPrev
    rw [List.getLast?_concat, slotState, hn] at tip
    cases tip
    exact ⟨(ih atPrev).1.apply ran, (apply_ok.mp ran).2.2⟩

/-- Listed transitions are valid links, each naming the one before it. -/
structure PredecessorChain (log : MembershipLog P) (chain : List TransitionId) : Prop where
  valid : ∀ id ∈ chain, isValid (linkPass log) id = true
  linked : chain.IsChain (fun earlier later => prevOf log later = some earlier)

variable {id : TransitionId}

lemma exists_spine (hv : isValid (linkOf log) id = true) : ∃ front, Spine log (front ++ [id]) := by
  induction he : epochOf log id using Nat.strong_induction_on generalizing id with
  | _ n ih =>
    cases hn : prevOf log id with
    | none => exact ⟨[], .snoc .nil hv hn⟩
    | some prev =>
      have hb : epochOf log prev < n := by
        rw [← he, valid_epoch hv, hn]
        exact Nat.lt_succ_self _
      obtain ⟨front, spine⟩ := ih _ hb (valid_prev hv hn) rfl
      exact ⟨front ++ [prev], .snoc spine hv (by rw [hn, List.getLast?_concat])⟩

lemma PredecessorChain.extend (chain : PredecessorChain log (id :: rest))
    (spine : Spine log (front ++ [id])) : Spine log (front ++ id :: rest) := by
  induction rest generalizing front id with
  | nil => exact spine
  | cons next rest ih =>
    obtain ⟨hn, ht⟩ := List.isChain_cons_cons.mp chain.linked
    have more : Spine log (front ++ [id] ++ [next]) :=
      .snoc spine (linkPass_eq log ▸ chain.valid next (by simp)) (by rw [hn, List.getLast?_concat])
    have whole := ih ⟨fun other hl => chain.valid other (.tail _ hl), ht⟩ more
    simpa using whole

lemma PredecessorChain.spine (tied : PredecessorChain log chain) :
    ∃ front, Spine log (front ++ chain) := by
  cases chain with
  | nil => exact ⟨[], .nil⟩
  | cons id =>
    obtain ⟨front, spine⟩ := exists_spine (linkPass_eq log ▸ tied.valid id List.mem_cons_self)
    exact ⟨front, tied.extend spine⟩

/-- The admission a change makes, in either role. -/
def admission : Change → Option Admission
  | .admitMember admission | .admitReader admission => some admission
  | _ => none

def admissions (changes : List Change) : List Admission := changes.filterMap admission

lemma admits_eq_map (changes : List Change) :
    admits changes = (admissions changes).map Admission.device := by
  rw [admits, admissions, List.map_filterMap]
  congr 1
  funext change
  cases change <;> rfl

/-- What one transition adds to the registered keys. -/
structure Registers (before : MembershipState) (changes : List Change) (state : MembershipState) :
    Prop where
  roles : Roles state
  nodup : (admits changes).Nodup
  held : ∀ device ∈ admits changes, device ∈ state.members ∨ device ∈ state.readers
  keys : ∀ device key, state.encryptionKeys.lookup device = some key →
    before.encryptionKeys.lookup device = some key ∨ ⟨device, key⟩ ∈ admissions changes

lemma admits_concat (changes : List Change) (change : Change) :
    admits (changes ++ [change]) = admits changes ++ (admittedDevice change).toList := by
  rw [admits, List.filterMap_append, ← admits]
  cases h : admittedDevice change <;> simp [h]

lemma admissions_concat (changes : List Change) (change : Change) :
    admissions (changes ++ [change]) = admissions changes ++ (admission change).toList := by
  rw [admissions, List.filterMap_append, ← admissions]
  cases h : admission change <;> simp [h]

namespace Registers

variable {before state next : MembershipState} {done : List Change} {change : Change}

section

variable (lists : Registers before done state)
include lists

lemma step_admits (roles : Roles next) (isAdmission : admission change = some admitted)
    (free : admitted.device ∉ state.members ∧ admitted.device ∉ state.readers)
    (held : ∀ device, device = admitted.device ∨ device ∈ state.members ∨ device ∈ state.readers →
      device ∈ next.members ∨ device ∈ next.readers) (keys : next.encryptionKeys =
      state.encryptionKeys.insert admitted.device admitted.encryptionKey) :
    Registers before (done ++ [change]) next := by
  have hn : admittedDevice change = some admitted.device := by
    cases change <;> simp_all [admission, admittedDevice]
  have hl : admits (done ++ [change]) = admits done ++ [admitted.device] := by
    rw [admits_concat, hn]
    rfl
  have new : admitted.device ∉ admits done := fun again =>
    (lists.held _ again).elim free.1 free.2
  refine ⟨roles, ?_, fun device hm => ?_, fun device key listed => ?_⟩
  · rw [hl, List.nodup_append_comm, List.singleton_append, List.nodup_cons]
    exact ⟨new, lists.nodup⟩
  · rw [hl, List.mem_append, List.mem_singleton] at hm
    exact held device (hm.elim (fun old => .inr (lists.held device old)) .inl)
  · rw [admissions_concat, isAdmission, Option.toList_some, List.mem_append, List.mem_singleton]
    rw [keys] at listed
    by_cases hs : device = admitted.device
    · subst hs
      rw [Finmap.lookup_insert, Option.some.injEq] at listed
      exact .inr (.inr (by rw [← listed]))
    · rw [Finmap.lookup_insert_of_ne _ hs] at listed
      exact (lists.keys device key listed).imp_right .inl

/-- A change that admits nobody and takes a role from nobody admitted before. -/
lemma pass (roles : Roles next) (noAdmission : admission change = none)
    (held : ∀ device ∈ admits done, device ∈ state.members ∨ device ∈ state.readers →
      device ∈ next.members ∨ device ∈ next.readers)
    (keys : ∀ device key, next.encryptionKeys.lookup device = some key →
      state.encryptionKeys.lookup device = some key) :
    Registers before (done ++ [change]) next := by
  have unnamed : admittedDevice change = none := by
    cases change <;> simp_all [admission, admittedDevice]
  have hl : admits (done ++ [change]) = admits done := by
    rw [admits_concat, unnamed, Option.toList_none, List.append_nil]
  have hs : admissions (done ++ [change]) = admissions done := by
    rw [admissions_concat, noAdmission, Option.toList_none, List.append_nil]
  refine ⟨roles, hl ▸ lists.nodup, fun device hm => ?_, fun device key listed => ?_⟩
  · rw [hl] at hm
    exact held device hm (lists.held device hm)
  · rw [hs]
    exact lists.keys device key (keys device key listed)

lemma applyChange (ran : applyChange state change = .ok next)
    (apart : ∀ device, removedDevice change = some device → device ∉ admits done) :
    Registers before (done ++ [change]) next := by
  have roles := lists.roles.applyChange ran
  cases change with
  | admitMember =>
    simp only [Membership.applyChange] at ran
    split_ifs at ran with hi isReader
    cases ran
    exact lists.step_admits roles rfl ⟨hi, isReader⟩ (by grind) rfl
  | admitReader =>
    simp only [Membership.applyChange] at ran
    split_ifs at ran with he
    cases ran
    exact lists.step_admits roles rfl (not_or.mp he) (by grind) rfl
  | remove removed =>
    have once : ∀ device ∈ admits done, device ≠ removed := fun device hm hs =>
      apart removed rfl (hs ▸ hm)
    have remaining : ∀ device key,
        (state.encryptionKeys.erase removed).lookup device = some key →
          state.encryptionKeys.lookup device = some key := by
      intro device key hf
      by_cases hs : device = removed
      · subst hs
        rw [Finmap.lookup_erase] at hf
        cases hf
      · rwa [Finmap.lookup_erase_ne hs] at hf
    simp only [Membership.applyChange] at ran
    split_ifs at ran
    all_goals
      cases ran
      exact lists.pass roles rfl (by grind) remaining
  | rotate =>
    simp only [Membership.applyChange, Except.ok.injEq] at ran
    subst ran
    exact lists.pass roles rfl (fun _ _ => id) (fun _ _ => id)
  | setOwners =>
    simp only [Membership.applyChange] at ran
    split_ifs at ran
    cases ran
    exact lists.pass roles rfl (fun _ _ => id) (fun _ _ => id)

end

lemma apply (roles : Roles before) (ran : apply before changes = .ok after) :
    Registers before changes after := by
  obtain ⟨apart, hf, _⟩ := apply_ok.mp ran
  apply foldlM_ok (Registers before) ?_ ?_ hf
  · intro done change state next hr lists hs
    apply lists.applyChange hs
    intro device removes ha
    have cut : device ∈ changes.filterMap removedDevice :=
      List.mem_filterMap.mpr ⟨change, hr.subset (by simp), removes⟩
    have hl : admits done ⊆ admits changes :=
      (((List.prefix_append done [change]).trans hr).sublist.filterMap _).subset
    exact apart device (hl ha) cut
  · exact ⟨roles, List.nodup_nil, by simp [admits], fun _ _ => .inl⟩

end Registers

lemma validateSuccessor_admitted
    (hv : validateSuccessor log t link prevState prevAdmitted = .valid state admitted) :
    admitted = prevAdmitted ∪ (admits t.changes).toFinset ∧
      ∀ device ∈ admits t.changes, device ∉ prevAdmitted := by
  obtain ⟨hr, hd, resolves⟩ := validateSuccessor_valid hv
  simp only [validateSuccessor, checkAuthority_ok.mpr hr, hd, resolves] at hv
  split_ifs at hv with retired
  simp only [List.any_eq_true, decide_eq_true_eq, not_exists, not_and] at retired
  exact ⟨(Link.valid.inj hv).2.symm, retired⟩

/-- A valid link's admitted set is its predecessor's with the devices it admits,
    none of them admitted before. -/
lemma linkOf_admitted (hv : linkOf log id = some (.valid state admitted)) :
    prevOf log id = none ∧ admitted = (admits (changesOf log id)).toFinset ∨
      ∃ prev prevState prevAdmitted, prevOf log id = some prev ∧
        linkOf log prev = some (.valid prevState prevAdmitted) ∧
        admitted = prevAdmitted ∪ (admits (changesOf log id)).toFinset ∧
        ∀ device ∈ admits (changesOf log id), device ∉ prevAdmitted := by
  obtain ⟨t, hf, ruled⟩ := transition_of_linkOf hv
  obtain ⟨t', hf', hi, hg⟩ := linkOf_valid hv
  rw [hf] at hf'
  cases hf'
  have changes : changesOf log id = t.changes := by simp [changesOf, hf]
  rw [prevOf_of_transition hf, changes]
  simp only [validateLink, hi] at ruled
  split_ifs at ruled
  rcases hg with ⟨first, hd⟩ | ⟨prev, prevT, prevState, prevAdmitted, tie, succeeds⟩
  · simp only [first, validateGenesis, hd] at ruled
    cases shape : checkGenesisShape state with
    | error => simp [shape] at ruled
    | ok =>
      simp only [shape, Link.valid.injEq] at ruled
      exact .inl ⟨first, ruled.2.symm⟩
  · simp only [succeeds.prev, succeeds.observed, tie] at ruled
    split_ifs at ruled
    exact .inr ⟨prev, prevState, prevAdmitted, succeeds.prev, tie, validateSuccessor_admitted ruled⟩

/-- The admissions of listed transitions, in order. -/
def admissionsAlong (log : MembershipLog P) (chain : List TransitionId) : List Admission :=
  chain.flatMap (fun id => admissions (changesOf log id))

lemma admissionsAlong_concat (chain : List TransitionId) (id : TransitionId) :
    admissionsAlong log (chain ++ [id]) =
      admissionsAlong log chain ++ admissions (changesOf log id) := by
  simp [admissionsAlong]

/-- The devices admitted along listed transitions, in either role. -/
def admittedAlong (log : MembershipLog P) (chain : List TransitionId) : List DeviceId :=
  chain.flatMap (fun id => admits (changesOf log id))

lemma admittedAlong_eq_map (chain : List TransitionId) :
    admittedAlong log chain = (admissionsAlong log chain).map Admission.device := by
  simp only [admittedAlong, admissionsAlong, List.map_flatMap, admits_eq_map]

lemma admittedAlong_concat (chain : List TransitionId) (id : TransitionId) :
    admittedAlong log (chain ++ [id]) = admittedAlong log chain ++ admits (changesOf log id) := by
  simp [admittedAlong]

namespace Spine

variable {state : MembershipState} {chain : List TransitionId}

section

variable (spine : Spine log chain)
include spine

/-- The admitted set threaded through the links is the devices admitted along the
    chain. -/
lemma admitted_eq (last : chain.getLast? = some id)
    (tie : linkOf log id = some (.valid state admitted)) :
    admitted = (admittedAlong log chain).toFinset := by
  induction spine generalizing id state admitted with
  | nil => cases last
  | @snoc chain tip spine hv tied ih =>
    rw [List.getLast?_concat, Option.some.injEq] at last
    subst last
    rw [admittedAlong_concat, List.toFinset_append]
    obtain ⟨hf, only⟩ | ⟨prev, prevState, prevAdmitted, hn, hp, hj, _⟩ :=
      linkOf_admitted tie
    · rw [hf, eq_comm, List.getLast?_eq_none_iff] at tied
      simp [tied, only, admittedAlong]
    · rw [hj, ih (tied.symm.trans hn) hp]

/-- Along a spine a device is admitted at most once. -/
lemma admitted_once : (admittedAlong log chain).Nodup := by
  induction spine with
  | nil => exact List.nodup_nil
  | @snoc chain id spine hv tied ih =>
    obtain ⟨t, before, derived, hf, atPrev, _, hr, _⟩ := valid_derives hv
    obtain ⟨state, admitted, ht⟩ := isValid_iff.mp hv
    have changes : changesOf log id = t.changes := by simp [changesOf, hf]
    rw [← prevOf_of_transition hf, tied] at atPrev
    have hw := (Registers.apply (spine.roles atPrev).1 hr).nodup
    rw [admittedAlong_concat, List.nodup_append']
    refine ⟨ih, changes ▸ hw, fun device old now => ?_⟩
    obtain ⟨first, _⟩ | ⟨prev, _, _, hn, hp, _, ha⟩ := linkOf_admitted ht
    · rw [first, eq_comm, List.getLast?_eq_none_iff] at tied
      simp [tied, admittedAlong] at old
    · apply ha device now
      rw [spine.admitted_eq (tied.symm.trans hn) hp]
      exact List.mem_toFinset.mpr old

/-- A key registered at the end of a spine is that of an admission on it. -/
lemma key_admitted (tip : slotState log chain.getLast? = some state)
    (listed : state.encryptionKeys.lookup device = some key) :
    ⟨device, key⟩ ∈ admissionsAlong log chain := by
  induction spine generalizing state with
  | nil =>
    cases tip
    simp [MembershipState.initial] at listed
  | @snoc chain id spine hv ht ih =>
    obtain ⟨t, before, derived, hf, atPrev, hn, hr, _⟩ := valid_derives hv
    have changes : changesOf log id = t.changes := by simp [changesOf, hf]
    rw [← prevOf_of_transition hf, ht] at atPrev
    rw [List.getLast?_concat, slotState, hn] at tip
    cases tip
    rw [admissionsAlong_concat, List.mem_append, changes]
    have lists := Registers.apply (spine.roles atPrev).1 hr
    exact (lists.keys device key listed).imp_left (ih atPrev)

lemma key_unique (hm : id ∈ chain) (hm' : id' ∈ chain)
    (drawn : linkState (linkOf log) id = some state)
    (drawn' : linkState (linkOf log) id' = some state')
    (listed : state.encryptionKeys.lookup device = some key)
    (listed' : state'.encryptionKeys.lookup device = some key') : key = key' := by
  have admittedAt : ∀ {id state key}, id ∈ chain → linkState (linkOf log) id = some state →
      state.encryptionKeys.lookup device = some key →
        ⟨device, key⟩ ∈ admissionsAlong log chain := by
    intro id state key hm drawn listed
    obtain ⟨front, back, rfl⟩ := List.append_of_mem hm
    have split : front ++ id :: back = front ++ [id] ++ back := by simp
    have upTo : Spine log (front ++ [id]) := of_append (split ▸ spine)
    have atId : slotState log (front ++ [id]).getLast? = some state := by
      rwa [List.getLast?_concat]
    have hl := upTo.key_admitted atId listed
    rw [split, admissionsAlong, List.flatMap_append]
    exact List.mem_append_left _ hl
  have once := spine.admitted_once
  rw [admittedAlong_eq_map] at once
  have hs := List.inj_on_of_nodup_map once (admittedAt hm drawn listed)
    (admittedAt hm' drawn' listed') rfl
  exact congrArg Admission.encryptionKey hs

end

end Spine

/-- The state recorded for a transition is the one its link derived. -/
lemma linkState_of_stateOf (drawn : log.stateOf id = some state) :
    linkState (linkOf log) id = some state := by
  rw [MembershipLog.stateOf, states_eq] at drawn
  split_ifs at drawn
  exact drawn

/-- Every derived state has at most one owner, who is a member, keeps the roles
    apart and registers a key for exactly the devices in a role; and along a
    chain of valid links an identity is used once, with one key. -/
theorem derived_states_keep_roles (log : MembershipLog P) :
    (∀ id state, log.stateOf id = some state →
      state.owners ⊆ state.members ∧ state.owners.card ≤ 1 ∧
        Disjoint state.members state.readers ∧
        state.encryptionKeys.keys = state.members ∪ state.readers) ∧
    ∀ chain, PredecessorChain log chain →
      (admittedAlong log chain).Nodup ∧
        ∀ id ∈ chain, ∀ id' ∈ chain, ∀ state state',
          linkState (linkPass log) id = some state → linkState (linkPass log) id' = some state' →
          ∀ device key key', state.encryptionKeys.lookup device = some key →
            state'.encryptionKeys.lookup device = some key' → key = key' := by
  rw [linkPass_eq]
  constructor
  · intro id state drawn
    have noted := linkState_of_stateOf drawn
    obtain ⟨admitted, tie⟩ := linkState_eq_some.mp noted
    obtain ⟨front, spine⟩ := exists_spine (isValid_iff.mpr ⟨state, admitted, tie⟩)
    have tip : slotState log (front ++ [id]).getLast? = some state := by
      rwa [List.getLast?_concat]
    obtain ⟨roles, owned⟩ := spine.roles tip
    refine ⟨owned, roles.single, roles.disjoint, ?_⟩
    ext device
    rw [Finmap.mem_keys, mem_union, roles.registered]
  · intro chain ht
    obtain ⟨front, spine⟩ := ht.spine
    have once := spine.admitted_once
    rw [admittedAlong, List.flatMap_append] at once
    refine ⟨once.of_append_right, ?_⟩
    intro id hm id' hm' state state' drawn drawn' device key key' hl hl'
    exact spine.key_unique (List.mem_append_right _ hm) (List.mem_append_right _ hm')
      drawn drawn' hl hl'

end Wyrd.Membership
