import Wyrd.Intake.Runs

/-! # What a pass commits

Accepting an envelope lands one batch of facts or none. Whatever is gathered for a
batch, its own facts or those of the messages it wakes, has been charged to the
sender before, so a pass never commits more than its budget. A delivery that is
offered again ends the pass, so a pass also ends where every envelope is retried.
-/

namespace Wyrd.Intake

open Wyrd.Control Wyrd.Durable Wyrd.Keys Wyrd.Membership PendingQueue Function Finset Nat

variable {P : Primitives} {W : Wire}

namespace IntakeBudget

variable {budget : IntakeBudget} {sender : DeviceId}

structure Within (budget : IntakeBudget) : Prop where
  commits : budget.commits ≤ maxIntakeCommitsPerPass
  perSender : ∀ sender, budget.perSender sender ≤ maxIntakeCommitsPerSenderPerPass

lemma charge_zero : budget.charge sender 0 = budget := by
  simp [charge, update_eq_self]

lemma charge_charge (first second : Nat) :
    (budget.charge sender first).charge sender second = budget.charge sender (first + second) := by
  simp [charge, add_assoc]

lemma Within.charge (hw : budget.Within)
    (afford : budget.wouldAdmit sender facts = true) : (budget.charge sender facts).Within := by
  simp only [wouldAdmit, Bool.and_eq_true, decide_eq_true_eq] at afford
  refine ⟨afford.1, fun other => ?_⟩
  simp only [IntakeBudget.charge, update_apply]
  split_ifs with hs
  · exact afford.2
  · exact hw.perSender other

def Paid (sender : DeviceId) (budget : IntakeBudget) (facts : Nat) (spent : IntakeBudget) : Prop :=
  ∃ charges, facts ≤ charges ∧ spent = budget.charge sender charges ∧
    (budget.Within → spent.Within)

lemma Paid.nothing : Paid sender budget 0 budget := ⟨0, le_rfl, charge_zero.symm, id⟩

lemma Paid.admit (paid : Paid sender budget facts spent)
    (admits : spent.admitFacts sender more = some next) :
    Paid sender budget (facts + more) next := by
  obtain ⟨charges, ample, rfl, hw⟩ := paid
  unfold admitFacts at admits
  split_ifs at admits with ha
  cases admits
  exact ⟨charges + more, by omega, charge_charge _ _, fun start => (hw start).charge ha⟩

lemma Paid.fewer {facts fewer spent} (paid : Paid sender budget facts spent)
    (less : fewer ≤ facts) : Paid sender budget fewer spent := by
  obtain ⟨charges, ha, rest⟩ := paid
  exact ⟨charges, by omega, rest⟩

end IntakeBudget

open IntakeBudget

/-- The facts and the keys are those of the engine before. -/
structure Steady (before after : Engine P) : Prop where
  durable : after.durable = before.durable
  drive : after.drive = before.drive
  epochKeys : after.epochKeys = before.epochKeys

lemma Steady.refl (engine : Engine P) : Steady engine engine := ⟨rfl, rfl, rfl⟩

lemma Steady.trans {first second third : Engine P} (start : Steady first second)
    (rest : Steady second third) : Steady first third :=
  ⟨rest.durable.trans start.durable, rest.drive.trans start.drive,
    rest.epochKeys.trans start.epochKeys⟩

/-- Nothing durable moved, or a batch that was paid for went to the disk. -/
inductive Settles (W : Wire) (store : Store) (sender : DeviceId) (engine : Engine P)
    (budget : IntakeBudget) : Accepted P → Prop where
  | still {next spent outcome} : Steady engine next → Paid sender budget 0 spent →
      Settles W store sender engine budget (next, spent, outcome)
  | landed {flush : Flush P} : Steady engine flush.engine →
      Paid sender budget flush.facts.length flush.budget →
      Settles W store sender engine budget (landBatch W store flush)

section Walk

variable {store : Store} {engine : Engine P} {sender : DeviceId} {budget : IntakeBudget}

lemma Settles.after {middle : Engine P} {accepted : Accepted P} (steady : Steady engine middle)
    (settles : Settles W store sender middle budget accepted) :
    Settles W store sender engine budget accepted := by
  cases settles with
  | still later paid => exact .still (steady.trans later) paid
  | landed later paid => exact .landed (steady.trans later) paid

lemma Steady.settles (steady : Steady engine next) :
    Settles W store sender engine budget (next, budget, outcome) := .still steady .nothing

lemma resync_steady (store : Store) (engine : Engine P) :
    Steady engine (resync W store engine).1 := by
  obtain ⟨drive, -, hs, keys⟩ := resync_durable (W := W) store engine
  exact ⟨hs, drive, keys⟩

lemma messageAction_steady {staged staged' id message engine' result}
    (judged : messageAction W engine staged id message sender budget = (engine', staged', result)) :
    Steady engine engine' := by
  have known := messageAction_judged judged
  rcases result with _ | (_ | _ | _ | _ | _)
  case ok.commit =>
      obtain ⟨_, hc, _⟩ := known
      rw [hc.engine_eq]
      exact ⟨rfl, rfl, rfl⟩
  all_goals
    obtain ⟨rfl, _⟩ := known
    exact .refl _

def Gathered (sender : DeviceId) (engine : Engine P) (budget : IntakeBudget) (flush : Flush P) :
    Prop :=
  Steady engine flush.engine ∧ Paid sender budget flush.facts.length flush.budget

lemma Gathered.entry {flush : Flush P} (gathered : Gathered sender engine budget flush) (seq : Nat)
    (entry : PendingEntry) :
    Gathered sender engine budget (flushEntry W sender seq entry flush).1 := by
  obtain ⟨hs, paid⟩ := gathered
  unfold flushEntry
  rcases hr : messageAction W flush.engine flush.staged entry.id entry.message sender
    flush.budget with ⟨engine', staged, verdict⟩
  have later := hs.trans (messageAction_steady hr)
  rcases verdict with _ | (more | _ | _ | _ | _)
  case ok.commit =>
      simp only
      cases ha : flush.budget.admitFacts sender more.length with
      | none => exact ⟨⟨later.durable, later.drive, later.epochKeys⟩, paid⟩
      | some =>
        refine ⟨later, ?_⟩
        rw [List.length_append]
        exact paid.admit ha
  all_goals exact ⟨⟨later.durable, later.drive, later.epochKeys⟩, paid⟩

lemma Gathered.loop (seqs : List Nat) (gathered : Gathered sender engine budget flush) :
    Gathered sender engine budget (flushLoop W sender seqs flush).1 := by
  induction seqs generalizing flush with
  | nil => exact gathered
  | cons seq rest ih =>
    unfold flushLoop
    cases flush.engine.pending.removeSeq seq with
    | none => exact ih gathered
    | some taken =>
      obtain ⟨entry, queue⟩ := taken
      have start : Gathered sender engine budget
          { flush with engine := { flush.engine with pending := queue } } :=
        ⟨⟨gathered.1.durable, gathered.1.drive, gathered.1.epochKeys⟩, gathered.2⟩
      have first := start.entry (W := W) seq entry
      simp only
      rcases hf : flushEntry W sender seq entry
        { flush with engine := { flush.engine with pending := queue } } with ⟨next, verdict⟩
      rw [hf] at first
      rcases verdict with _ | (_ | _)
      · exact first
      · exact first
      · exact ih first

lemma flush_land_settles (committed : Option TransitionId) {flush : Flush P}
    (gathered : Gathered sender engine budget flush) :
    Settles W store sender engine budget
      (match flushPending W committed sender flush with
      | (flush, .error error) => abandon W store flush.engine flush.budget error
      | (flush, .ok ()) => landBatch W store flush) := by
  have woken := gathered.loop (W := W) (flush.engine.pending.wakeSeqs committed)
  unfold flushPending
  rcases hf : flushLoop W sender (flush.engine.pending.wakeSeqs committed) flush with
    ⟨next, verdict⟩
  rw [hf] at woken
  cases verdict with
  | error =>
    exact .still (woken.1.trans (resync_steady store next.engine)) (woken.2.fewer (zero_le _))
  | ok => exact .landed woken.1 woken.2

lemma commitMessage_settles (staged : Announcements) (id : ControlMessageId) (message : Message)
    (facts : List Fact) :
    Settles W store sender engine budget
      (commitMessage W store engine staged sender id message facts budget) := by
  unfold commitMessage
  cases ha : budget.admitFacts sender facts.length with
  | none => exact .still ⟨rfl, rfl, rfl⟩ .nothing
  | some spent =>
    have gathered : Gathered sender engine budget ⟨engine, staged, spent, facts⟩ :=
      ⟨.refl _, by simpa using Paid.nothing.admit ha⟩
    simp only
    split_ifs
    · exact flush_land_settles _ gathered
    · exact @Settles.landed P W store sender engine budget ⟨engine, staged, spent, facts⟩
        gathered.1 gathered.2

lemma commitAction_settles (id : ControlMessageId) (message : Message)
    (held : Option DeferredWait) :
    Settles W store sender engine budget
      (commitAction W store engine sender id message held budget) := by
  unfold commitAction
  rcases hr : messageAction W engine (fun _ => none) id message sender budget with
    ⟨engine', staged, verdict⟩
  have steady := messageAction_steady hr
  have moved : ∀ {next : Engine P} {outcome}, Steady engine' next →
      Settles W store sender engine budget (next, budget, outcome) :=
    fun hl => (steady.trans hl).settles
  rcases verdict with error | (facts | _ | _ | _ | wait)
  · refine moved (.trans ?_ (resync_steady store _))
    cases held <;> exact ⟨rfl, rfl, rfl⟩
  · simp only
    split_ifs
    · exact steady.settles
    · exact steady.settles
    · exact .after steady (commitMessage_settles staged id message facts)
  · exact steady.settles
  · exact moved ⟨rfl, rfl, rfl⟩
  · exact moved ⟨rfl, rfl, rfl⟩
  · simp only
    split_ifs
    · exact moved ⟨rfl, rfl, rfl⟩
    · exact moved ⟨rfl, rfl, rfl⟩

lemma acceptControl_settles (bytes : Bytes) :
    Settles W store sender engine budget (acceptControl W store engine sender bytes budget) := by
  unfold acceptControl
  cases engine.inbox.ingest W bytes with
  | error error => cases error <;> exact (Steady.refl _).settles
  | ok report =>
    obtain ⟨inbox, report⟩ := report
    cases report with
    | accepted id message =>
      have steady : Steady engine { engine with inbox := inbox } := ⟨rfl, rfl, rfl⟩
      exact .after steady (commitAction_settles id message none)
    | duplicate =>
      have steady : Steady engine (engine.takePending (W.messageId bytes)).2 := ⟨rfl, rfl, rfl⟩
      simp only
      rcases ht : engine.takePending (W.messageId bytes) with ⟨entry, next⟩
      rw [ht] at steady
      cases entry with
      | none => exact steady.settles
      | some => exact .after steady (commitAction_settles _ _ _)

lemma acceptRotation_settles (bytes : Bytes) :
    Settles W store sender engine budget (acceptRotation W store engine sender bytes budget) := by
  unfold acceptRotation
  have idle : ∀ {next : Engine P} {outcome}, Steady engine next →
      Settles W store sender engine budget (next, budget, outcome) := fun hs => hs.settles
  cases engine.inbox.ingestRotation W bytes with
  | error => exact idle (.refl _)
  | ok report =>
    obtain ⟨inbox, report⟩ := report
    cases report with
    | duplicate => exact idle (.refl _)
    | accepted id delivery =>
      simp only [rotationCommit]
      cases openGrant W { engine with inbox := inbox } delivery with
      | none => exact idle ⟨rfl, rfl, rfl⟩
      | some found =>
        obtain ⟨t, cap, proof⟩ := found
        simp only
        cases judgeGrant engine.drive (engine.log.observe t) t cap proof sender with
        | unauthorized | gap | unclassified => exact idle ⟨rfl, rfl, rfl⟩
        | granted =>
          cases ha : budget.admitFacts sender 3 with
          | none => exact idle ⟨rfl, rfl, rfl⟩
          | some =>
            have paid := Paid.nothing.admit ha
            exact flush_land_settles _ ⟨⟨rfl, rfl, rfl⟩, by simpa using paid⟩

lemma acceptEnvelope_settles (envelope : MailboxEnvelope) :
    Settles W store envelope.sender engine budget
      (acceptEnvelope W store engine envelope budget) := by
  unfold acceptEnvelope
  cases openFromSender W engine.device envelope with
  | none => exact (Steady.refl _).settles
  | some bytes =>
    simp only
    split_ifs
    · exact acceptRotation_settles bytes
    · exact acceptControl_settles bytes

lemma Settles.paid (settles : Settles W store sender engine budget accepted) :
    ∃ facts, accepted.1.durable = engine.durable ++ facts ∧
      Paid sender budget facts.length accepted.2.1 := by
  cases settles with
  | still steady paid => exact ⟨[], by simpa using steady.durable, paid⟩
  | @landed flush steady paid =>
    unfold landBatch commitFacts
    rw [← steady.durable]
    cases store.commit flush.engine.durable flush.facts with
    | refused =>
      have hk := resync_steady (W := W) store flush.engine
      exact ⟨[], by simpa [abandon] using hk.durable, paid.fewer (zero_le _)⟩
    | unreported =>
      have hk := resync_steady (W := W) store
        { flush.engine with durable := flush.engine.durable ++ flush.facts }
      exact ⟨flush.facts, hk.durable, paid⟩
    | landed => exact ⟨flush.facts, landed_durable flush.engine flush.staged flush.facts, paid⟩

end Walk

def Handover.committed (h : Handover P) : List Fact := h.after.durable.drop h.before.durable.length

/-- The facts added by the envelopes of one sender, with all that these woke. -/
def committedFrom (sender : DeviceId) (run : List (Handover P)) : List Fact :=
  (run.filter (fun h => h.envelope.sender = sender)).flatMap Handover.committed

section Pass

variable {store : Store} {deliveries : List Delivery} {offered : Finset Nat} {budget : IntakeBudget}
  {engine : Engine P}

/-- The facts of the handovers fit into what the budget has left. -/
structure Fits (budget : IntakeBudget) (run : List (Handover P)) : Prop where
  commits : budget.commits + (run.flatMap Handover.committed).length ≤ maxIntakeCommitsPerPass
  perSender : ∀ sender, budget.perSender sender + (committedFrom sender run).length ≤
    maxIntakeCommitsPerSenderPerPass

lemma IntakeBudget.Within.fits (hw : budget.Within) : Fits (P := P) budget [] :=
  ⟨hw.commits, hw.perSender⟩

lemma Fits.cons {h : Handover P} (ample : h.committed.length ≤ charges)
    (fits : Fits (budget.charge h.envelope.sender charges) later) : Fits budget (h :: later) := by
  have total := fits.commits
  refine ⟨?_, fun sender => ?_⟩
  · simp only [charge] at total
    simp only [List.flatMap_cons, List.length_append]
    omega
  · have each := fits.perSender sender
    simp only [charge, update_apply] at each
    simp only [committedFrom, List.filter_cons] at each ⊢
    by_cases mine : h.envelope.sender = sender
    · rw [if_pos mine.symm] at each
      simp only [mine, decide_true, if_true, List.flatMap_cons, List.length_append]
      rw [mine] at each
      omega
    · rw [if_neg (Ne.symm mine)] at each
      simpa [mine] using each

lemma drainLoop_bounded (hw : budget.Within) :
    let run := drainLoop W store deliveries offered budget engine
    run.2.durable = engine.durable ++ run.1.flatMap Handover.committed ∧ Fits budget run.1 := by
  induction deliveries generalizing offered budget engine with
  | nil => exact ⟨by simp [drainLoop], hw.fits⟩
  | cons delivery rest ih =>
    unfold drainLoop
    split_ifs with again
    · exact ⟨by simp, hw.fits⟩
    · have settles : Settles W store delivery.envelope.sender engine budget _ :=
        acceptEnvelope_settles delivery.envelope
      obtain ⟨facts, saved, charges, ample, spends, hk⟩ := settles.paid
      rcases hok : acceptEnvelope W store engine delivery.envelope budget with
        ⟨next, spent, outcome⟩
      rw [hok] at saved spends hk
      simp only at saved spends hk
      subst spends
      have added : ∀ outcome, Handover.committed
          ⟨store, engine, budget, delivery.envelope, next, outcome⟩ = facts := by
        simp [Handover.committed, saved]
      cases outcome with
      | error =>
        exact ⟨by simp [added, saved], .cons (by rw [added]; exact ample) (hk hw).fits⟩
      | ok =>
        obtain ⟨hg, hf⟩ := @ih (insert delivery.id offered) _ next (hk hw)
        exact ⟨by simp [added, hg, saved], .cons (by rw [added]; exact ample) hf⟩

/-- The handovers are a first part of what is lent, each delivery once. -/
lemma drainLoop_offers :
    ∃ taken, taken <+: deliveries ∧ (taken.map Delivery.id).Nodup ∧
      (∀ delivery ∈ taken, delivery.id ∉ offered) ∧
      (drainLoop W store deliveries offered budget engine).1.map Handover.envelope =
        taken.map Delivery.envelope := by
  induction deliveries generalizing offered budget engine with
  | nil => exact ⟨[], by simp [drainLoop]⟩
  | cons delivery rest ih =>
    unfold drainLoop
    split_ifs with again
    · exact ⟨[], by simp⟩
    · rcases acceptEnvelope W store engine delivery.envelope budget with ⟨next, spent, _ | outcome⟩
      · exact ⟨[delivery], by simp [again]⟩
      · obtain ⟨taken, hf, ho, new, hs⟩ :=
          @ih (insert delivery.id offered) spent next
        refine ⟨delivery :: taken, List.cons_prefix_cons.mpr ⟨rfl, hf⟩, ?_, ?_, by simp [hs]⟩
        · refine List.nodup_cons.mpr ⟨fun hm => ?_, ho⟩
          obtain ⟨other, among, equal⟩ := List.mem_map.mp hm
          exact new other among (by simp [equal])
        · rintro other (_ | ⟨_, among⟩)
          · exact again
          · exact fun old => new other among (mem_insert_of_mem old)

lemma drainLoop_stops (more : List Delivery)
    (repeats : (deliveries.map Delivery.id).Nodup → ∃ delivery ∈ deliveries, delivery.id ∈ offered) :
    drainLoop W store (deliveries ++ more) offered budget engine =
      drainLoop W store deliveries offered budget engine := by
  induction deliveries generalizing offered budget engine with
  | nil => simp at repeats
  | cons delivery rest ih =>
    rw [List.cons_append]
    unfold drainLoop
    split_ifs with again
    · rfl
    · have later : (rest.map Delivery.id).Nodup →
          ∃ other ∈ rest, other.id ∈ insert delivery.id offered := by
        intro ho
        by_cases hh : delivery.id ∈ rest.map Delivery.id
        · obtain ⟨other, among, hs⟩ := List.mem_map.mp hh
          exact ⟨other, among, by simp [hs]⟩
        · obtain ⟨other, among, old⟩ := repeats (List.nodup_cons.mpr ⟨hh, ho⟩)
          rcases List.mem_cons.mp among with rfl | among
          · exact absurd old again
          · exact ⟨other, among, mem_insert_of_mem old⟩
      rcases acceptEnvelope W store engine delivery.envelope budget with ⟨next, spent, _ | outcome⟩
      · rfl
      · simp only [ih later]

end Pass

/-- One pass commits at most the budget in all and at most the quota for each sender,
    counting what a sender's envelopes wake, and offers each delivery at most once.
    With finitely many delivery ids it stops reading, however often they are lent
    again. -/
theorem drain_bounded (W : Wire) (store : Store) (engine : Engine P) (deliveries : List Delivery) :
    let run := drain W store engine deliveries
    run.2.durable = engine.durable ++ run.1.flatMap Handover.committed ∧
      (run.1.flatMap Handover.committed).length ≤ maxIntakeCommitsPerPass ∧
      (∀ sender, (committedFrom sender run.1).length ≤ maxIntakeCommitsPerSenderPerPass) ∧
      (∃ offered, offered <+: deliveries ∧ (offered.map Delivery.id).Nodup ∧
        run.1.map Handover.envelope = offered.map Delivery.envelope) ∧
      ∀ ids : Finset Nat, (∀ delivery ∈ deliveries, delivery.id ∈ ids) →
        ids.card < deliveries.length →
        ∀ more, drain W store engine (deliveries ++ more) = run := by
  have new : IntakeBudget.fresh.Within := ⟨zero_le _, fun _ => zero_le _⟩
  obtain ⟨saved, fits⟩ := @drainLoop_bounded P W store deliveries ∅ .fresh engine new
  obtain ⟨taken, hf, once, -, hs⟩ :=
    @drainLoop_offers P W store deliveries ∅ .fresh engine
  refine ⟨saved, ?_, fun sender => ?_, ⟨taken, hf, once, hs⟩, ?_⟩
  · exact (le_add_left _ _).trans fits.commits
  · exact (le_add_left _ _).trans (fits.perSender sender)
  · intro ids hk few more
    refine drainLoop_stops more fun once => ?_
    -- more deliveries than ids: two of them share one
    have bound : (deliveries.map Delivery.id).toFinset.card ≤ ids.card := by
      apply card_le_card
      intro id hm
      obtain ⟨delivery, ha, rfl⟩ := List.mem_map.mp (List.mem_toFinset.mp hm)
      exact hk delivery ha
    rw [List.toFinset_card_of_nodup once, List.length_map] at bound
    omega

section Sample

def statingWire : Wire :=
  sampleWire (fun index => some (.reconciliationRequest ⟨sampleId 1, [index]⟩)) (fun _ => none)
    (fun _ => none) none

def blankEngine : Engine samplePrimitives :=
  ⟨sampleId 0, sampleId 3, [], .new (sampleId 0), fun _ => none, .new _ (sampleId 0),
    fun _ => none, fun _ => none, ∅, .new⟩

/-- No key is held, so the one envelope is retried; lent again, it ends the pass. -/
theorem drain_bounded_retried :
    drain statingWire sampleStore blankEngine
        ([mail 0 (sampleId 1) [0, 1], mail 0 (sampleId 1) [0, 1]] ++ [mail 1 (sampleId 1) [0, 2]]) =
      drain statingWire sampleStore blankEngine
        [mail 0 (sampleId 1) [0, 1], mail 0 (sampleId 1) [0, 1]] :=
  (drain_bounded statingWire sampleStore blankEngine
    [mail 0 (sampleId 1) [0, 1], mail 0 (sampleId 1) [0, 1]]).2.2.2.2 {0} (by decide) (by decide) _

end Sample

end Wyrd.Intake
