import Wyrd.Format.Documents
import Wyrd.Lib.Observed

/-! # Admitting demand

Readers register the identities they wait for, and the loop registers what it retains.
A pass peeks at the pending identities, commits its share of them one by one and marks
what it committed. The registry iterates pending identities by id, so the oldest demand is
served first only where ids arrive in their own order, or where a pass takes everything.
-/

namespace Wyrd.Live

open List Nat

inductive WantError where
  | saturated
  deriving DecidableEq

/-- Demanded identities not admitted yet, admitted ones, how many waiters each has, and
    which pending ones the loop itself demands. -/
structure WantRegistry where
  pending : Finset ContentId
  admitted : Finset ContentId
  waiting : ContentId → Nat
  unowned : Finset ContentId
  limit : Nat

namespace WantRegistry

def withLimit (limit : Nat) : WantRegistry := ⟨∅, ∅, fun _ => 0, ∅, limit⟩

variable (registry : WantRegistry)

def saturated : Bool := decide (registry.limit ≤ registry.pending.card + registry.admitted.card)

def outstanding (content : ContentId) : Prop :=
  content ∈ registry.pending ∨ content ∈ registry.admitted

instance (content : ContentId) : Decidable (registry.outstanding content) :=
  inferInstanceAs (Decidable (_ ∨ _))

def register (content : ContentId) : Except WantError WantRegistry :=
  let waited := Function.update registry.waiting content (registry.waiting content + 1)
  if registry.outstanding content then .ok { registry with waiting := waited }
  else if registry.saturated then .error .saturated
  else .ok { registry with pending := insert content registry.pending, waiting := waited }

/-- Whether the identity is newly pending, and the registry after. -/
def registerUnowned (content : ContentId) : Except WantError (Bool × WantRegistry) :=
  if registry.outstanding content then .ok (false, registry)
  else if registry.saturated then .error .saturated
  else .ok (true, { registry with
    pending := insert content registry.pending
    unowned := insert content registry.unowned })

/-- The last waiter to leave takes a pending demand along, unless the loop owns it. -/
def release (content : ContentId) : WantRegistry :=
  match registry.waiting content with
  | 0 => registry
  | left + 1 =>
    let released := { registry with waiting := Function.update registry.waiting content left }
    if left = 0 ∧ content ∉ registry.unowned then
      { released with pending := registry.pending.erase content }
    else released

/-- The pending identities as the set iterates them. -/
def peekPending : List ContentId := ascending registry.pending

def markOne (content : ContentId) : WantRegistry :=
  { registry with
    pending := registry.pending.erase content
    admitted := if content ∈ registry.pending then insert content registry.admitted
      else registry.admitted
    unowned := registry.unowned.erase content }

def markAdmitted (committed : List ContentId) : WantRegistry := committed.foldl markOne registry

def retireWhere (settled : ContentId → Nat → Bool) : WantRegistry :=
  { registry with
    admitted := registry.admitted.filter fun id => !settled id (registry.waiting id) }

variable {registry} in
lemma pending_markAdmitted (committed : List ContentId) :
    (registry.markAdmitted committed).pending = registry.pending \ committed.toFinset := by
  induction committed generalizing registry with
  | nil => simp [markAdmitted]
  | cons content rest ih =>
    apply ih.trans
    ext other
    simp [markOne]
    tauto

end WantRegistry

variable {ε : Type}

/-- Commit one by one up to the first failure: what was committed, and how it ended. -/
def commitWants (commit : ContentId → Except ε Unit) :
    List ContentId → List ContentId × Except ε Unit
  | [] => ([], .ok ())
  | want :: rest =>
    match commit want with
    | .ok () => (want :: (commitWants commit rest).1, (commitWants commit rest).2)
    | .error error => ([], .error error)

/-- The registry after a pass, what it admitted, and how it ended. -/
def admitWants (registry : WantRegistry) (limit : Nat) (commit : ContentId → Except ε Unit) :
    WantRegistry × List ContentId × Except ε Unit :=
  let done := commitWants commit (registry.peekPending.take limit)
  (registry.markAdmitted done.1, done)

lemma commitWants_spec (commit : ContentId → Except ε Unit) (wants : List ContentId) :
    (commitWants commit wants).1 <+: wants ∧
      ((commitWants commit wants).2.isOk = true → (commitWants commit wants).1 = wants) ∧
      ((∀ want ∈ wants, commit want = .ok ()) → (commitWants commit wants).1 = wants) := by
  induction wants with
  | nil => simp [commitWants]
  | cons want =>
    unfold commitWants
    cases hd : commit want with
    | ok => simp_all
    | error => simp [Except.isOk, Except.toBool, hd]

inductive Event (ε : Type) where
  | register (content : ContentId)
  | registerUnowned (content : ContentId)
  | release (content : ContentId)
  | retire (settled : ContentId → Nat → Bool)
  | pass (limit : Nat) (commit : ContentId → Except ε Unit)

def WantRegistry.step (registry : WantRegistry) : Event ε → WantRegistry
  | .register content => (registry.register content).toOption.getD registry
  | .registerUnowned content =>
    ((registry.registerUnowned content).toOption.map Prod.snd).getD registry
  | .release content => registry.release content
  | .retire settled => registry.retireWhere settled
  | .pass limit commit => (admitWants registry limit commit).1

/-- The registry, and its pending identities in the order in which their demand arrived. -/
structure Demand where
  registry : WantRegistry
  line : List ContentId

namespace Demand

variable {demand : Demand} {event : Event ε} {content : ContentId} {limit cap : Nat}
  {commit : ContentId → Except ε Unit}

/-- Who is pending no more leaves the line, and a newcomer joins at its end. -/
def step (demand : Demand) (event : Event ε) : Demand :=
  let next := demand.registry.step event
  ⟨next, demand.line.filter (· ∈ next.pending) ++ ascending (next.pending \ demand.line.toFinset)⟩

def run (limit : Nat) (events : List (Event ε)) : Demand :=
  events.foldl step ⟨.withLimit limit, []⟩

/-- The event is a successful pass with this cap. -/
def passes (cap : Nat) (demand : Demand) : Event ε → Bool
  | .pass limit commit =>
    (admitWants demand.registry limit commit).2.2.isOk && decide (limit = cap)
  | _ => false

def passCount (cap : Nat) : Demand → List (Event ε) → Nat
  | _, [] => 0
  | demand, event :: rest =>
    (if passes cap demand event then 1 else 0) + passCount cap (demand.step event) rest

/-- A pass meets the pending identities by id as they arrived, or has room for all of them
    and no commit fails. -/
def Orderly (demand : Demand) : Event ε → Prop
  | .pass limit commit => demand.line = demand.registry.peekPending ∨
      demand.registry.pending.card ≤ limit ∧ ∀ want ∈ demand.registry.pending, commit want = .ok ()
  | _ => True

/-- The line holds exactly the pending identities. -/
structure Lined (demand : Demand) : Prop where
  nodup : demand.line.Nodup
  member : ∀ want, want ∈ demand.line ↔ want ∈ demand.registry.pending

lemma Lined.step (lined : demand.Lined) (event : Event ε) : (demand.step event).Lined := by
  constructor
  · apply (lined.nodup.filter _).append (nodup_ascending _)
    intro want old new
    simp at old new
    exact new.2 old.1
  · intro want
    simp [Demand.step]
    tauto

lemma run_lined (limit : Nat) (events : List (Event ε)) : (run limit events).Lined := by
  induction events using List.reverseRecOn with
  | nil => exact ⟨.nil, by simp [run, WantRegistry.withLimit]⟩
  | append_singleton done event ih =>
    rw [run, foldl_append]
    exact ih.step event

/-- What an orderly pass admits stands at the front of the line: its cap of it where the
    pass succeeds and leaves anyone. -/
lemma Lined.front (cap : Nat) (lined : demand.Lined)
    (orderly : demand.Orderly (.pass limit commit)) :
    ∃ taken rest, demand.line = taken ++ rest ∧
      (∀ want, want ∈ (admitWants demand.registry limit commit).2.1 ↔ want ∈ taken) ∧
      (passes cap demand (.pass limit commit) = true → rest = [] ∨ taken.length = cap) := by
  obtain ⟨front, whole, all⟩ := commitWants_spec commit (demand.registry.peekPending.take limit)
  rcases orderly with hs | ⟨room, fine⟩
  · obtain ⟨rest, line⟩ := front.trans ( take_prefix _ _)
    refine ⟨_, rest, hs.trans line.symm, fun _ => Iff.rfl, fun hp => ?_⟩
    obtain ⟨hd, rfl⟩ : (commitWants commit (demand.registry.peekPending.take limit)).2.isOk =
        true ∧ limit = cap := by
      simpa [passes, admitWants] using hp
    have length := congrArg List.length line
    rw [whole hd, length_append, length_take] at length
    rw [whole hd, length_take, ← length_eq_zero_iff]
    omega
  · have every : demand.registry.peekPending.take limit = demand.registry.peekPending := by
      apply take_of_length_le
      rw [WantRegistry.peekPending, ← Multiset.coe_card, ascending_perm]
      exact room
    refine ⟨demand.line, [], (append_nil _).symm, fun want => ?_, fun _ => .inl rfl⟩
    rw [every] at all
    rw [admitWants, every, all fun want hm => fine want (mem_ascending.mp hm), lined.member]
    exact mem_ascending

lemma Lined.leaves (lined : demand.Lined) (line : demand.line = taken ++ rest)
    (hs : ∀ want, want ∈ (admitWants demand.registry limit commit).2.1 ↔ want ∈ taken) :
    (demand.step (.pass limit commit)).line = rest := by
  have apart := (nodup_append.mp (line ▸ lined.nodup)).2.2
  have waits (want) : want ∈ (demand.registry.step (.pass limit commit)).pending ↔
      want ∈ rest := by
    have late := apart want
    have first := hs want
    have hm := lined.member want
    rw [line, mem_append] at hm
    simp only [WantRegistry.step, admitWants, WantRegistry.pending_markAdmitted,
      Finset.mem_sdiff, mem_toFinset] at first ⊢
    grind
  have newcomers : (demand.registry.step (.pass limit commit)).pending \
      (taken ++ rest).toFinset = ∅ := by
    ext want
    simp [waits]
    tauto
  have gone : taken.filter (· ∈ rest) = [] := by
    rw [filter_eq_nil_iff]
    exact fun want early late => apart want early want (of_decide_eq_true late) rfl
  unfold Demand.step
  simp only [line, newcomers, waits, filter_append, gone]
  rw [filter_eq_self.mpr fun want late => decide_eq_true late]
  exact append_nil _

lemma idxOf_filter_le {keep : ContentId → Bool} (hk : keep content = true) :
    ∀ line : List ContentId, (line.filter keep).idxOf content ≤ line.idxOf content
  | [] => le_rfl
  | head :: rest => by
    have ih := idxOf_filter_le hk rest
    by_cases same : head = content
    · simp [same, hk]
    · rw [idxOf_cons_ne _ same, filter_cons]
      split
      · rw [idxOf_cons_ne _ same]
        omega
      · omega

/-- While an identity waits, nobody gets ahead of it, and a successful pass takes its cap
    from those who are. -/
lemma Lined.idxOf_step (lined : demand.Lined) (orderly : demand.Orderly event)
    (waits : content ∈ demand.registry.pending)
    (still : content ∈ (demand.step event).registry.pending) :
    (if passes cap demand event then cap else 0) + (demand.step event).line.idxOf content ≤
      demand.line.idxOf content := by
  have hh := (lined.member content).mpr waits
  split_ifs with hp
  · match event with
    | .pass limit commit =>
      obtain ⟨taken, rest, line, hs, full⟩ := lined.front cap orderly
      have left := lined.leaves line hs
      have behind : content ∈ rest := by
        rw [← left]
        exact ((lined.step _).member content).mpr still
      have late : content ∉ taken := fun early =>
        (nodup_append.mp (line ▸ lined.nodup)).2.2 content early content behind rfl
      rw [left, line, idxOf_append_of_notMem late, (full hp).resolve_left (ne_nil_of_mem behind)]
  · replace still : content ∈ (demand.registry.step event).pending := still
    rw [zero_add, Demand.step, idxOf_append_of_mem (by simp [hh, still])]
    exact idxOf_filter_le (by simpa using still) _

/-- An identity that stays pending sees no more passes than those ahead of it fill. -/
lemma passCount_le (demand : Demand) (lined : demand.Lined) (later : List (Event ε))
    (orderly : ∀ part event rest, later = part ++ event :: rest →
      (part.foldl step demand).Orderly event)
    (waits : ∀ part rest, later = part ++ rest →
      content ∈ (part.foldl step demand).registry.pending) :
    cap * passCount cap demand later ≤ demand.line.idxOf content := by
  induction later generalizing demand with
  | nil => exact zero_le _
  | cons event rest ih =>
    have spent : (if passes cap demand event then cap else 0) +
        (demand.step event).line.idxOf content ≤ demand.line.idxOf content :=
      lined.idxOf_step (orderly [] event rest rfl) (waits [] _ rfl) (waits [event] rest rfl)
    have bound := ih (demand.step event) (lined.step event)
      (fun part next others split => orderly (event :: part) next others (by rw [split]; rfl))
      (fun part others split => waits (event :: part) others (by rw [split]; rfl))
    rw [passCount, mul_add]
    split_ifs at spent ⊢ <;> omega

/-- In every run whose passes are orderly, a pass admits no identity without the older ones
    that are outstanding, and a demand is admitted once there were more successful passes with
    one cap than the older ones fill. -/
theorem demand_admitted_oldest_first (limit : Nat) (events : List (Event ε))
    (orderly : ∀ done event rest, events = done ++ event :: rest →
      (run limit done).Orderly event) :
    (∀ done share commit rest, events = done ++ .pass share commit :: rest →
      (run limit done).line.Pairwise fun older younger =>
        younger ∈ (admitWants (run limit done).registry share commit).2.1 →
          older ∈ (admitWants (run limit done).registry share commit).2.1) ∧
    ∀ done later content cap older, events = done ++ later → 0 < cap →
      (∀ part rest, later = part ++ rest →
        (run limit (done ++ part)).registry.outstanding content) →
      (run limit done).line.idxOf content ≤ older →
      older / cap + 1 ≤ passCount cap (run limit done) later →
      ∃ part rest, later = part ++ rest ∧
        content ∈ (run limit (done ++ part)).registry.admitted := by
  constructor
  · intro done share commit rest split
    have lined := run_lined limit done
    obtain ⟨taken, left, line, hs, -⟩ := lined.front 0 (orderly done _ rest split)
    have apart := nodup_append.mp (line ▸ lined.nodup)
    rw [line, pairwise_append]
    simp only [hs]
    refine ⟨pairwise_of_forall_mem_list fun _ first _ _ _ => first, ?_, fun _ first _ _ _ => first⟩
    apply pairwise_of_forall_mem_list
    intro _ _ younger late early
    exact absurd rfl (apart.2.2 younger early younger late)
  · intro done later content cap older split hpos ho line ha
    by_contra never
    push Not at never
    have append (part : List (Event ε)) :
        part.foldl step (run limit done) = run limit (done ++ part) := by
      rw [run, run, foldl_append]
    have bound : cap * passCount cap (run limit done) later ≤
        (run limit done).line.idxOf content := by
      refine passCount_le _ (run_lined limit done) later (fun part event rest split' => ?_)
        (fun part rest split' => ?_)
      · rw [append]
        exact orderly (done ++ part) event rest (by rw [split, split', append_assoc])
      · rw [append]
        exact (ho part rest split').resolve_right (never part rest split')
    have full := mul_le_mul_left cap ha
    have := div_add_mod older cap
    have := mod_lt older hpos
    rw [mul_add] at full
    omega

def arrivals : List (Event Empty) := [.register ⟨1⟩, .register ⟨2⟩, .register ⟨3⟩]

def threePasses : List (Event Empty) := replicate 3 (.pass 1 fun _ => .ok ())

/-- Three readers ask in the order of the ids; the third is served by the third pass. -/
theorem demand_admitted_oldest_first_third :
    ∃ part rest, threePasses = part ++ rest ∧
      (⟨3⟩ : ContentId) ∈ (run 3 (arrivals ++ part)).registry.admitted := by
  have orderly (done : List (Event Empty)) (event : Event Empty) (rest : List (Event Empty))
      (split : arrivals ++ threePasses = done ++ event :: rest) :
      (run 3 done).Orderly event := by
    have found : (arrivals ++ threePasses)[done.length]? = some event := by simp [split]
    have few : done.length < 6 := (List.getElem?_eq_some_iff.mp found).1
    rw [show done = (arrivals ++ threePasses).take done.length by rw [split, take_left]]
    generalize done.length = count at found few ⊢
    interval_cases count <;> cases found <;> first | trivial | exact .inl (by decide +kernel)
  refine (demand_admitted_oldest_first 3 _ orderly).2 arrivals threePasses ⟨3⟩ 1 2 rfl
    one_pos (fun part rest split => ?_) (by decide +kernel) (by decide +kernel)
  have few : part.length < 4 := by
    have := congrArg length split
    simp [threePasses] at this
    omega
  rw [show part = threePasses.take part.length by rw [split, take_left]]
  generalize part.length = count at few ⊢
  interval_cases count <;> decide +kernel

def crossed : List (Event Empty) := [.register ⟨2⟩, .register ⟨1⟩, .pass 1 fun _ => .ok ()]

/-- The younger demand is admitted first, and the older one, with none ahead of it, is still
    pending after a successful pass. -/
theorem younger_admitted_first :
    (run 2 (crossed.take 2)).line = [⟨2⟩, ⟨1⟩] ∧
      passCount 1 (run 2 (crossed.take 1)) (crossed.drop 1) = 1 ∧
      (run 2 crossed).registry.admitted = {⟨1⟩} ∧
      (⟨2⟩ : ContentId) ∈ (run 2 crossed).registry.pending := by
  decide +kernel

end Demand

end Wyrd.Live
