import Wyrd.Lib.Worklist
import Wyrd.Membership.Chain

/-! # Link verdicts without the memo table

The verdict of a transition depends only on verdicts one epoch below it, so it
has a plain recursive definition. The memoized pass of `analyse` computes
exactly that definition, for any order in which it meets the observed ids. The
rest of the development reads verdicts through the recursive form only.
-/

namespace Wyrd.Membership

open Option Function Finset

variable {P : Primitives}

section Spec

variable (log : MembershipLog P)

/-- Verdicts of the transitions below an epoch bound. -/
def linkAt : Nat → LinkMap
  | 0 => fun _ => none
  | bound + 1 => fun id => (log.transition id).map (fun t => validateLink log t (linkAt bound))

def linkOf : LinkMap := fun id =>
  (log.transition id).map (fun t => validateLink log t (linkAt log t.epoch))

end Spec

variable {log : MembershipLog P}

variable {link : LinkMap} {id : TransitionId}

lemma isValid_iff :
    isValid link id = true ↔ ∃ state admitted, link id = some (.valid state admitted) := by
  simp only [isValid]
  split
  · rename_i state admitted hf
    simp [hf]
  · rename_i other
    simp only [Bool.false_eq_true, false_iff, not_exists]
    exact fun state admitted hf => other state admitted hf

lemma resolvesVerdict_congr (entries : List TransitionId)
    (agree : ∀ id ∈ entries, ∀ t, log.transition id = some t → t.epoch + 1 = epoch →
      link id = link' id) :
    resolvesVerdict log epoch link entries = resolvesVerdict log epoch link' entries := by
  induction entries with
  | nil => rfl
  | cons entry rest ih =>
    simp only [resolvesVerdict]
    cases hf : log.transition entry with
    | none => rfl
    | some entryT =>
      by_cases hb : checkedAdd entryT.epoch 1 = some epoch
      · simp only [hb, ne_eq, not_true_eq_false, if_false,
          agree entry List.mem_cons_self entryT hf (checkedAdd_eq_some.mp hb).1,
          ih (fun id hm => agree id (List.mem_cons_of_mem _ hm))]
      · simp only [ne_eq, hb, not_false_eq_true, if_true]

variable {t : MembershipTransition}

/-- A verdict reads the map only at dependencies observed one epoch below. -/
lemma validateLink_congr (agree : ∀ id ∈ dependencies t, ∀ below, log.transition id = some below →
      below.epoch + 1 = t.epoch → link id = link' id) :
    validateLink log t link = validateLink log t link' := by
  simp only [validateLink]
  cases checkIntrinsic P t with
  | error => rfl
  | ok =>
    dsimp only
    split_ifs with bad
    · rfl
    · cases hp : t.prev with
      | none => rfl
      | some prevId =>
        dsimp only
        cases hf : log.transition prevId with
        | none => rfl
        | some prevT =>
          dsimp only
          split_ifs with ha
          · rfl
          · have below := (checkedAdd_eq_some.mp (not_not.mp ha)).1
            have onSolved : resolvesVerdict log t.epoch link t.resolves =
                resolvesVerdict log t.epoch link' t.resolves :=
              resolvesVerdict_congr t.resolves (fun id hm =>
                agree id (List.mem_append_right _ hm))
            rw [agree prevId (by simp [dependencies, hp]) prevT hf below]
            simp only [validateSuccessor, onSolved]

lemma linkAt_eq (hf : log.transition id = some t) (hb : t.epoch < n) :
    linkAt log n id = linkOf log id := by
  induction he : t.epoch using Nat.strong_induction_on generalizing n id t with
  | _ e ih =>
    obtain ⟨m, rfl⟩ : ∃ m, n = m + 1 := ⟨n - 1, by omega⟩
    simp only [linkAt, linkOf, hf, map_some, Option.some.injEq]
    apply validateLink_congr
    intro dep _ depT found hd
    rw [ih depT.epoch (by omega) found (n := m) (by omega) rfl,
      ih depT.epoch (by omega) found (n := t.epoch) (by omega) rfl]

lemma linkOf_eq (log : MembershipLog P) (id : TransitionId) :
    linkOf log id = (log.transition id).map (fun t => validateLink log t (linkOf log)) := by
  simp only [linkOf]
  cases hf : log.transition id with
  | none => rfl
  | some =>
    simp only [map_some, Option.some.injEq]
    apply validateLink_congr
    intro dep _ depT found hb
    exact linkAt_eq found (by omega)

lemma linkOf_of_transition (hf : log.transition id = some t) :
    linkOf log id = some (validateLink log t (linkOf log)) := by
  rw [linkOf_eq, hf, map_some]

lemma transition_of_linkOf (hf : linkOf log id = some verdict) :
    ∃ t, log.transition id = some t ∧ validateLink log t (linkOf log) = verdict := by
  rw [linkOf_eq] at hf
  exact map_eq_some_iff.mp hf

/-- Every recorded verdict is the recursive one. -/
def Sound (log : MembershipLog P) (link : LinkMap) : Prop :=
  ∀ id verdict, link id = some verdict → linkOf log id = some verdict

variable {g : Gather} {dep : TransitionId}

lemma Gather.foldl_push (deps : List TransitionId) (g : Gather) :
    ((deps.foldl Gather.push g).stack, (deps.foldl Gather.push g).seen) =
        Worklist.pushAll deps g.stack g.seen ∧
      ((∀ id, id ∈ g.closure ↔ id ∈ g.seen) →
        ∀ id, id ∈ (deps.foldl Gather.push g).closure ↔ id ∈ (deps.foldl Gather.push g).seen) := by
  induction deps generalizing g with
  | nil => exact ⟨rfl, id⟩
  | cons dep rest ih =>
    simp only [List.foldl_cons, Gather.push, Worklist.pushAll, Worklist.push]
    split_ifs with hk
    · exact ih g
    · obtain ⟨pushed, hl⟩ := ih ⟨g.closure ++ [dep], dep :: g.stack, insert dep g.seen⟩
      refine ⟨pushed, fun hp => hl fun id => ?_⟩
      simp only [List.mem_append, List.mem_singleton, mem_insert, hp id]
      tauto

/-- What the gathering loop maintains. An id that has left the stack
    unclassified has all its dependencies in the closure. -/
structure Gather.Invariant (log : MembershipLog P) (link : LinkMap) (root : TransitionId)
    (g : Gather) : Prop where
  root : root ∈ g.seen
  listed : ∀ id, id ∈ g.closure ↔ id ∈ g.seen
  done : ∀ id ∈ g.seen, id ∉ g.stack → link id = none → ∀ t, log.transition id = some t →
    ∀ dep ∈ dependencies t, dep ∈ g.seen

variable {root : TransitionId}

lemma mem_mentioned (hf : log.transition id = some t) (needs : dep ∈ dependencies t) :
    dep ∈ mentioned log :=
  List.mem_flatMap.mpr ⟨t, (Observed.lookup_eq_some.mp hf).1, needs⟩

lemma Gather.Invariant.step (inv : g.Invariant log link root)
    (steps : gatherStep log link g = some next) :
    next.Invariant log link root ∧
      next.stack.length + g.seen.card + 1 = g.stack.length + next.seen.card ∧
      ∀ id ∈ next.seen, id ∈ g.seen ∨ id ∈ mentioned log := by
  obtain ⟨closure, stack, seen⟩ := g
  cases stack with
  | nil => simp [gatherStep] at steps
  | cons cur rest =>
    have popped (fixed : link cur = none → log.transition cur = none) :
        (Gather.mk closure rest seen).Invariant log link root := by
      refine ⟨inv.root, inv.listed, fun id hm off unclassed t observed => ?_⟩
      have apart : id ≠ cur := by
        rintro rfl
        simp [fixed unclassed] at observed
      exact inv.done id hm (by simp [apart, off]) unclassed t observed
    simp only [gatherStep] at steps
    split_ifs at steps with hk
    · cases steps
      exact ⟨popped fun unclassed => by simp [unclassed] at hk, by grind, fun _ => .inl⟩
    · cases hf : log.transition cur with
      | none =>
        simp only [hf, Option.some.injEq] at steps
        subst steps
        exact ⟨popped fun _ => hf, by grind, fun _ => .inl⟩
      | some curT =>
        simp only [hf, Option.some.injEq] at steps
        subst steps
        obtain ⟨hs, hl⟩ := Gather.foldl_push (dependencies curT) ⟨closure, rest, seen⟩
        have pushed := Worklist.pushAll_pushed (dependencies curT) rest seen
        rw [← hs] at pushed
        refine ⟨⟨(pushed.sees _).mpr (.inl inv.root), hl inv.listed,
          fun id hm off unclassed t observed dep needs => (pushed.sees _).mpr ?_⟩, ?_,
          fun id hm => ((pushed.sees id).mp hm).imp_right (mem_mentioned hf)⟩
        · by_cases hs : id = cur
          · subst hs
            cases hf.symm.trans observed
            exact .inr needs
          · have prior : id ∈ seen := (pushed.visited id hm).resolve_right off
            have waits : id ∉ rest := fun hm => off (pushed.keeps id hm)
            exact .inl (inv.done id prior (by simp [hs, waits]) unclassed t observed dep needs)
        · have count := pushed.count
          grind

lemma gatherStep_eq_none (stops : gatherStep log link g = none) : g.stack = [] := by
  obtain ⟨closure, stack, seen⟩ := g
  cases stack with
  | nil => rfl
  | cons cur =>
    simp only [gatherStep] at stops
    split_ifs at stops
    cases hf : log.transition cur <;> simp [hf] at stops

/-- Each iteration pops one id and sees every id it pushes for the first time. -/
lemma gatherLoop_spec (inv : g.Invariant log link root)
    (hw : g.seen ⊆ insert root (mentioned log).toFinset)
    (ample : g.stack.length + (insert root (mentioned log).toFinset).card ≤ fuel + g.seen.card) :
    (gatherLoop log link fuel g).Invariant log link root ∧
      (gatherLoop log link fuel g).stack = [] := by
  induction fuel generalizing g with
  | zero =>
    have bounded := card_le_card hw
    have empty : g.stack.length = 0 := by omega
    exact ⟨inv, List.length_eq_zero_iff.mp empty⟩
  | succ fuel ih =>
    simp only [gatherLoop]
    cases steps : gatherStep log link g with
    | none => exact ⟨inv, gatherStep_eq_none steps⟩
    | some =>
      obtain ⟨inv, count, sees⟩ := inv.step steps
      refine ih inv (fun id hm => ?_) (by omega)
      rcases sees id hm with ho | hn
      · exact hw ho
      · exact mem_insert_of_mem (List.mem_toFinset.mpr hn)

/-- The gathered closure contains its root and, with every observed id not yet
    classified, the dependencies of that id. -/
lemma gather_closed (log : MembershipLog P) (link : LinkMap) (root : TransitionId) :
    root ∈ gather log link root ∧
      ∀ id ∈ gather log link root, link id = none → ∀ t, log.transition id = some t →
        ∀ dep ∈ dependencies t, dep ∈ gather log link root := by
  have start : (Gather.mk [root] [root] {root}).Invariant log link root :=
    { root := mem_singleton_self root
      listed := fun id => by simp
      done := fun id hm off => by simp_all }
  have bounded := (card_insert_le root (mentioned log).toFinset).trans
    (Nat.succ_le_succ (List.toFinset_card_le _))
  obtain ⟨inv, he⟩ := @gatherLoop_spec P log link _ root (2 * (mentioned log).length + 1) start
    (by simp) (by rw [List.length_singleton, card_singleton]; omega)
  refine ⟨(inv.listed root).mpr inv.root, ?_⟩
  intro id hm hu t hf dep hn
  exact (inv.listed dep).mpr (inv.done id ((inv.listed id).mp hm)
    (by rw [he]; exact List.not_mem_nil) hu t hf dep hn)

lemma classifyDependency_mono (log : MembershipLog P) (dep : TransitionId)
    (known : (link id).isSome) : (classifyDependency log link dep id).isSome := by
  simp only [classifyDependency]
  split_ifs with ht
  · exact known
  · cases log.transition dep with
    | none => exact known
    | some =>
      by_cases hs : id = dep
      · simp [hs]
      · simpa [update_of_ne hs] using known

lemma classifyDependency_self (link : LinkMap) (seen : (log.transition dep).isSome) :
    (classifyDependency log link dep dep).isSome := by
  simp only [classifyDependency]
  split_ifs with ht
  · exact ht
  · obtain ⟨t, hf⟩ := isSome_iff_exists.mp seen
    simp [hf]

/-- A later memo: sound, with the verdicts it had and one for each observed id met. -/
structure Records (log : MembershipLog P) (link next : LinkMap) (ids : List TransitionId) : Prop where
  sound : Sound log next
  kept : ∀ id, (link id).isSome → (next id).isSome
  known : ∀ id ∈ ids, (log.transition id).isSome → (next id).isSome

lemma Records.nothing (sound : Sound log link) : Records log link link [] :=
  ⟨sound, fun _ => id, fun _ => nofun⟩

lemma Records.trans (first : Records log link mid ids) (later : Records log mid next more) :
    Records log link next (ids ++ more) := by
  refine ⟨later.sound, fun id ht => later.kept id (first.kept id ht), ?_⟩
  intro id hm seen
  rcases List.mem_append.mp hm with early | late
  · exact later.kept id (first.known id early seen)
  · exact later.known id late seen

/-- Recording a verdict stays sound once the dependencies one epoch below are
    recorded. -/
lemma Sound.classifyDependency (sound : Sound log link)
    (ready : link dep = none → ∀ t, log.transition dep = some t → ∀ other ∈ dependencies t,
      ∀ below, log.transition other = some below → below.epoch + 1 = t.epoch →
        (link other).isSome) : Records log link (classifyDependency log link dep) [dep] := by
  refine ⟨?_, fun id => classifyDependency_mono log dep, fun id hm seen => ?_⟩
  · simp only [Membership.classifyDependency]
    split_ifs with ht
    · exact sound
    · cases hf : log.transition dep with
      | none => exact sound
      | some t =>
        intro id verdict noted
        by_cases hs : id = dep
        · subst hs
          simp only [update_self, Option.some.injEq] at noted
          rw [linkOf_of_transition hf, ← noted, Option.some.injEq]
          apply validateLink_congr
          intro other hn below hb hu
          obtain ⟨verdict, known⟩ := isSome_iff_exists.mp
            (ready (by simpa using ht) t hf other hn below hb hu)
          rw [known, sound other verdict known]
        · exact sound id verdict (by simpa [update_of_ne hs] using noted)
  · obtain rfl := List.mem_singleton.mp hm
    exact classifyDependency_self link seen

lemma epochOf_of_transition (hf : log.transition id = some t) : epochOf log id = t.epoch := by
  simp [epochOf, hf]

/-- Each dependency of a listed id is classified already, listed itself, or
    unobserved. -/
def Ready (log : MembershipLog P) (link : LinkMap) (rest : List TransitionId) : Prop :=
  ∀ id ∈ rest, link id = none → ∀ t, log.transition id = some t →
    ∀ dep ∈ dependencies t, (link dep).isSome ∨ dep ∈ rest ∨ log.transition dep = none

lemma Ready.head {head tail}
    (sorted : (head :: tail).Pairwise (fun a b => epochOf log a ≤ epochOf log b))
    (ready : Ready log link (head :: tail)) (unclassed : link head = none)
    (hf : log.transition head = some t) (needs : dep ∈ dependencies t) {below}
    (belowFound : log.transition dep = some below) (under : below.epoch + 1 = t.epoch) :
    (link dep).isSome := by
  rcases ready head List.mem_cons_self unclassed t hf dep needs with
    hk | inRest | hu
  · exact hk
  · rcases List.mem_cons.mp inRest with rfl | hi
    · rw [hf] at belowFound
      cases belowFound
      omega
    · have order := (List.pairwise_cons.mp sorted).1 dep hi
      rw [epochOf_of_transition hf, epochOf_of_transition belowFound] at order
      omega
  · simp [hu] at belowFound

lemma Ready.tail {head tail} (ready : Ready log link (head :: tail)) :
    Ready log (classifyDependency log link head) tail := by
  intro id hm hu t hf dep hn
  have prior : link id = none := by
    by_contra known
    have still := classifyDependency_mono log head (isSome_iff_ne_none.mpr known)
    simp [hu] at still
  rcases ready id (List.mem_cons_of_mem _ hm) prior t hf dep hn with
    known | inRest | unseen
  · exact .inl (classifyDependency_mono log head known)
  · rcases List.mem_cons.mp inRest with rfl | hi
    · cases hs : log.transition dep with
      | none => exact .inr (.inr rfl)
      | some => exact .inl (classifyDependency_self link (by simp [hs]))
    · exact .inr (.inl hi)
  · exact .inr (.inr unseen)

lemma foldl_classifyDependency (sorted : rest.Pairwise (fun a b => epochOf log a ≤ epochOf log b))
    (sound : Sound log link) (ready : Ready log link rest) :
    Records log link (rest.foldl (classifyDependency log) link) rest := by
  induction rest generalizing link with
  | nil => exact .nothing sound
  | cons head tail ih =>
    have first : Records log link (classifyDependency log link head) [head] :=
      sound.classifyDependency fun unclassed t hf dep hn below hb hu =>
        ready.head sorted unclassed hf hn hb hu
    exact first.trans (ih (List.pairwise_cons.mp sorted).2 first.sound ready.tail)

/-- The gathered closure, in the order of classification. -/
def ascendingClosure (log : MembershipLog P) (link : LinkMap) (id : TransitionId) :
    List TransitionId :=
  (gather log link id).insertionSort (fun a b => epochOf log a ≤ epochOf log b)

lemma ascendingClosure_sorted (log : MembershipLog P) (link : LinkMap) (id : TransitionId) :
    (ascendingClosure log link id).Pairwise (fun a b => epochOf log a ≤ epochOf log b) := by
  have : Std.Total (fun a b => epochOf log a ≤ epochOf log b) := ⟨fun a b => le_total _ _⟩
  have : IsTrans _ (fun a b => epochOf log a ≤ epochOf log b) := ⟨fun a b c => le_trans⟩
  exact List.pairwise_insertionSort _ _

lemma mem_ascendingClosure : id ∈ ascendingClosure log link root ↔ id ∈ gather log link root :=
  (List.perm_insertionSort _ _).mem_iff

lemma ascendingClosure_ready (log : MembershipLog P) (link : LinkMap) (root : TransitionId) :
    Ready log link (ascendingClosure log link root) := by
  intro id hm hu s hs dep hn
  exact .inr (.inl (mem_ascendingClosure.mpr ((gather_closed log link root).2 id
    (mem_ascendingClosure.mp hm) hu s hs dep hn)))

lemma linkFor_spec (hf : log.transition (P.transitionId t) = some t) (sound : Sound log link) :
    Records log link (linkFor log t link).1 [P.transitionId t] ∧
      (linkFor log t link).1 (P.transitionId t) = some (linkFor log t link).2 := by
  simp only [linkFor]
  cases hk : link (P.transitionId t) with
  | some =>
    exact ⟨⟨sound, fun _ => id, fun id hm _ => by simp_all⟩, hk⟩
  | none =>
    have records := foldl_classifyDependency (ascendingClosure_sorted log link _) sound
      (ascendingClosure_ready log link (P.transitionId t))
    have root := mem_ascendingClosure.mpr (gather_closed log link (P.transitionId t)).1
    refine ⟨⟨records.sound, records.kept, fun id hm => ?_⟩, ?_⟩
    · obtain rfl := List.mem_singleton.mp hm
      exact records.known _ root
    · obtain ⟨verdict, there⟩ := isSome_iff_exists.mp (records.known _ root (by simp [hf]))
      simp only [ascendingClosure] at there
      simp [there]

lemma transition_key (hf : log.transition id = some t) : P.transitionId t = id :=
  Observed.key_of_lookup hf

lemma mem_observedIds : id ∈ log.observedIds ↔ ∃ t, log.transition id = some t :=
  Observed.mem_ids

lemma mem_byEpoch :
    entry ∈ byEpoch log ↔ ∃ t, log.transition entry.2 = some t ∧ t.epoch = entry.1 := by
  obtain ⟨epoch, id⟩ := entry
  simp only [byEpoch, List.mem_insertionSort, List.mem_filterMap, map_eq_some_iff, Prod.mk.injEq]
  constructor
  · rintro ⟨other, _, t, hf, rfl, rfl⟩
    exact ⟨t, hf, rfl⟩
  · rintro ⟨t, hf, rfl⟩
    exact ⟨id, mem_observedIds.mpr ⟨t, hf⟩, t, hf, rfl, rfl⟩

/-- Classifying ids in any order, with `linkFor` as the memo, records only
    recursive verdicts, and one for every observed id it meets. -/
lemma foldl_classifyEntry (entries : List (Nat × TransitionId)) (sound : Sound log link) :
    Records log link (entries.foldl (classifyEntry log) link) (entries.map Prod.snd) := by
  induction entries generalizing link with
  | nil => exact .nothing sound
  | cons head tail ih =>
    have first : Records log link (classifyEntry log link head) [head.2] := by
      cases hf : log.transition head.2 with
      | none =>
        simp only [classifyEntry, hf]
        exact ⟨sound, fun _ => id, fun id hm hs => by simp_all⟩
      | some =>
        have keyed := transition_key hf
        simp only [classifyEntry, hf]
        exact keyed ▸ (linkFor_spec (by rw [keyed, hf]) sound).1
    exact first.trans (ih first.sound)

lemma linkPass_eq (log : MembershipLog P) : linkPass log = linkOf log := by
  have records : Records log (fun _ => none) (linkPass log) _ :=
    foldl_classifyEntry (byEpoch log) fun id verdict noted => by simp at noted
  funext id
  cases noted : linkPass log id with
  | some verdict => exact (records.sound id verdict noted).symm
  | none =>
    cases hf : log.transition id with
    | none => simp [linkOf, hf]
    | some t =>
      have there := records.known id (List.mem_map.mpr
        ⟨(t.epoch, id), mem_byEpoch.mpr ⟨t, hf, rfl⟩, rfl⟩) (by simp [hf])
      simp [noted] at there

/-- A resolution shape passes exactly when every entry is a valid transition
    one epoch below. -/
lemma resolvesVerdict_none :
    resolvesVerdict log epoch link entries = none ↔
      ∀ entry ∈ entries, isValid link entry = true ∧
        ∃ below, log.transition entry = some below ∧ checkedAdd below.epoch 1 = some epoch := by
  induction entries with
  | nil => simp [resolvesVerdict]
  | cons entry rest ih =>
    simp only [resolvesVerdict, List.forall_mem_cons]
    cases hf : log.transition entry with
    | none => simp
    | some entryT =>
      by_cases below : checkedAdd entryT.epoch 1 = some epoch
      · simp only [below, ne_eq, not_true_eq_false, if_false, isValid, Option.some.injEq,
          exists_eq_left', and_true]
        cases link entry with
        | none => simp
        | some verdict => cases verdict <;> simp [ih, isValid]
      · simp [below]

lemma resolvesVerdict_not_valid :
    resolvesVerdict log epoch link entries ≠ some (.valid state admitted) := by
  induction entries with
  | nil => simp [resolvesVerdict]
  | cons entry rest ih =>
    simp only [resolvesVerdict]
    cases log.transition entry with
    | none => simp
    | some =>
      dsimp only
      split_ifs
      · simp
      · cases link entry with
        | none => simp
        | some verdict => cases verdict <;> simp [ih]

/-- The checks a valid transition with a predecessor has passed. -/
structure Succession (log : MembershipLog P) (t : MembershipTransition) (prevId : TransitionId)
    (prevT : MembershipTransition) (prevState state : MembershipState) : Prop where
  prev : t.prev = some prevId
  observed : log.transition prevId = some prevT
  epoch : prevT.epoch + 1 = t.epoch
  authority : t.author ∈ prevState.owners
  derives : deriveNext P prevState t = .ok state
  resolves : ∀ entry ∈ t.resolves, isValid (linkOf log) entry = true ∧
    ∃ below, log.transition entry = some below ∧ checkedAdd below.epoch 1 = some t.epoch

lemma validateSuccessor_valid
    (hv : validateSuccessor log t link prevState prevAdmitted = .valid state admitted) :
    t.author ∈ prevState.owners ∧ deriveNext P prevState t = .ok state ∧
      resolvesVerdict log t.epoch link t.resolves = none := by
  simp only [validateSuccessor] at hv
  cases right : checkAuthority prevState t with
  | error => simp [right] at hv
  | ok =>
    cases drawn : deriveNext P prevState t with
    | error => simp [right, drawn] at hv
    | ok =>
      simp only [right, drawn] at hv
      split_ifs at hv
      cases shape : resolvesVerdict log t.epoch link t.resolves with
      | none =>
        simp only [shape, Link.valid.injEq] at hv
        exact ⟨checkAuthority_ok.mp right, hv.1 ▸ rfl, rfl⟩
      | some =>
        simp only [shape] at hv
        exact absurd (hv ▸ shape) resolvesVerdict_not_valid

/-- A valid link is a genesis deriving from the empty state, or succeeds a
    valid link. -/
lemma linkOf_valid (valid : linkOf log id = some (.valid state admitted)) :
    ∃ t, log.transition id = some t ∧ checkIntrinsic P t = .ok () ∧
      (t.prev = none ∧ deriveNext P .initial t = .ok state ∨
        ∃ prevId prevT prevState prevAdmitted,
          linkOf log prevId = some (.valid prevState prevAdmitted) ∧
          Succession log t prevId prevT prevState state) := by
  obtain ⟨t, found, verdict⟩ := transition_of_linkOf valid
  refine ⟨t, found, ?_⟩
  simp only [validateLink] at verdict
  cases intrinsic : checkIntrinsic P t with
  | error => simp [intrinsic] at verdict
  | ok =>
    refine ⟨rfl, ?_⟩
    simp only [intrinsic] at verdict
    split_ifs at verdict with bad
    cases prev : t.prev with
    | none =>
      simp only [prev, validateGenesis] at verdict
      cases derived : deriveNext P .initial t with
      | error => simp [derived] at verdict
      | ok next =>
        simp only [derived] at verdict
        cases shape : checkGenesisShape next with
        | error => simp [shape] at verdict
        | ok =>
          simp only [shape, Link.valid.injEq] at verdict
          exact .inl ⟨rfl, by rw [verdict.1]⟩
    | some prevId =>
      simp only [prev] at verdict
      cases observed : log.transition prevId with
      | none => simp [observed] at verdict
      | some prevT =>
        simp only [observed] at verdict
        split_ifs at verdict with apart
        cases link : linkOf log prevId with
        | none => simp [link] at verdict
        | some prevLink =>
          cases prevLink with
          | invalid | pending | orphaned => simp [link] at verdict
          | valid prevState prevAdmitted =>
            simp only [link] at verdict
            obtain ⟨authority, derives, resolves⟩ := validateSuccessor_valid verdict
            exact .inr ⟨prevId, prevT, prevState, prevAdmitted, link,
              { prev, observed, authority, derives
                epoch := (checkedAdd_eq_some.mp (not_not.mp apart)).1
                resolves := resolvesVerdict_none.mp resolves }⟩

end Wyrd.Membership
