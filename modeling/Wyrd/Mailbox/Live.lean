import Wyrd.Intake.Runs
import Wyrd.Lib.Machine
import Wyrd.Mailbox.SeenStore

/-! # A drain pass over the live mailbox

`recv` takes new mail while there is room to hold it and otherwise offers held mail again,
the oldest first. A pass that runs to its end offers what waits in the channel, unless it
ends with no room: mail that the engine keeps retrying is held until the engine can take it.
-/

namespace Wyrd.Mailbox

open Wyrd.Intake Wyrd.Membership Option Nat

def maxUnackedDeliveries : Nat := 1024

def maxPoisonEntries : Nat := 4096

instance : NeZero maxPoisonEntries := ⟨by decide⟩

/-- An event of the relay stream, with what it unwraps to for this device, if it does. -/
structure Wrap (ε : Type) where
  id : ε
  giftWrap : Bool
  envelope : Option MailboxEnvelope

/-- A handover that is not consumed. -/
structure Held (ε : Type) where
  id : Nat
  wrapId : ε
  envelope : MailboxEnvelope

/-- `incoming` is what the relay stream holds ready. -/
structure LiveMailbox (ε : Type) where
  incoming : List (Wrap ε)
  unacked : List (Held ε)
  settledBelow : Nat
  outstanding : Finset Nat
  nextDelivery : Nat
  seen : SeenStore ε maxSeenEntries
  spool : Spool
  poison : BoundedIds ε maxPoisonEntries

namespace LiveMailbox

variable {ε : Type} [DecidableEq ε]

def heldByWrap (mailbox : LiveMailbox ε) (id : ε) : Bool :=
  mailbox.unacked.any fun held => decide (held.wrapId = id)

/-- The first wrap that becomes a handover. Other events, and wraps that are seen, poisoned
    or held, are passed over; what does not unwrap is poisoned. -/
def nextFresh (mailbox : LiveMailbox ε) : List (Wrap ε) → BoundedIds ε maxPoisonEntries →
    Option (ε × MailboxEnvelope) × List (Wrap ε) × BoundedIds ε maxPoisonEntries
  | [], poison => (none, [], poison)
  | wrap :: rest, poison =>
    if wrap.giftWrap = false ∨ mailbox.seen.contains wrap.id = true ∨
        poison.contains wrap.id = true ∨ mailbox.heldByWrap wrap.id = true then
      nextFresh mailbox rest poison
    else match wrap.envelope with
      | none => nextFresh mailbox rest (poison.insert wrap.id)
      | some envelope => (some (wrap.id, envelope), rest, poison)

/-- Offer the oldest held delivery again. -/
def rotate (mailbox : LiveMailbox ε) : LiveMailbox ε × Except String (Option Delivery) :=
  match mailbox.unacked with
  | [] => (mailbox, .ok none)
  | held :: rest =>
    ({ mailbox with unacked := rest ++ [held] }, .ok (some ⟨held.id, held.envelope⟩))

def recv (mailbox : LiveMailbox ε) : LiveMailbox ε × Except String (Option Delivery) :=
  if mailbox.unacked.length < maxUnackedDeliveries then
    match mailbox.nextFresh mailbox.incoming mailbox.poison with
    | (none, rest, poison) => { mailbox with incoming := rest, poison := poison }.rotate
    | (some (wrapId, envelope), rest, poison) =>
      let pulled := { mailbox with incoming := rest, poison := poison }
      if 2 ^ 64 ≤ mailbox.nextDelivery + 1 then (pulled, .error "delivery id space exhausted")
      else
        ({ pulled with
          nextDelivery := mailbox.nextDelivery + 1
          unacked := mailbox.unacked ++ [⟨mailbox.nextDelivery, wrapId, envelope⟩] },
          .ok (some ⟨mailbox.nextDelivery, envelope⟩))
  else mailbox.rotate

/-- Raise the low-water mark over consumed ids, as often as there are some. -/
def advance : Nat → Nat → Finset Nat → Nat × Finset Nat
  | 0, mark, outstanding => (mark, outstanding)
  | fuel + 1, mark, outstanding =>
    if mark + 1 < 2 ^ 64 ∧ mark + 1 ∈ outstanding then
      advance fuel (mark + 1) (outstanding.erase (mark + 1))
    else (mark, outstanding)

def forgetHeld (mailbox : LiveMailbox ε) (id : Nat) : LiveMailbox ε :=
  let consumed := insert id mailbox.outstanding
  let advanced := advance consumed.card mailbox.settledBelow consumed
  { mailbox with
    unacked := mailbox.unacked.eraseP fun held => decide (held.id = id)
    settledBelow := advanced.1
    outstanding := advanced.2 }

def settle (text : IdText ε) (mailbox : LiveMailbox ε) (id : Nat) (disposition : Disposition)
    (answer : DiskAnswer) : LiveMailbox ε × Except String Unit :=
  match mailbox.unacked.find? fun held => decide (held.id = id) with
  | some held =>
    match disposition with
    | .ack =>
      let (outcome, seen, spool) := mailbox.seen.record text mailbox.spool held.wrapId answer
      let recorded := { mailbox with seen := seen, spool := spool }
      match outcome with
      | .error error => (recorded, .error error)
      | .ok () => (recorded.forgetHeld id, .ok ())
    | .poison =>
      ({ mailbox with poison := mailbox.poison.insert held.wrapId }.forgetHeld id, .ok ())
    | .retry => (mailbox, .ok ())
  | none =>
    if id ≤ mailbox.settledBelow ∨ id ∈ mailbox.outstanding then (mailbox, .ok ())
    else (mailbox, .error "unknown delivery")

end LiveMailbox

inductive DrainError where
  | mailbox (message : String)
  | engine (error : EngineError)

/-- A drain pass under way: `offered` are the delivery ids met, `handed` the deliveries given
    to the engine. -/
structure Draining (P : Primitives) (ε : Type) where
  mailbox : LiveMailbox ε
  engine : Engine P
  budget : IntakeBudget
  offered : Finset Nat
  handed : List (Held ε)

namespace Draining

variable {P : Primitives} {ε : Type} [DecidableEq ε]

def start (engine : Engine P) (mailbox : LiveMailbox ε) : Draining P ε :=
  ⟨mailbox, engine, .fresh, ∅, []⟩

/-- One delivery. `recv` leaves what it offers at the back of the held queue. -/
def step (W : Wire) (text : IdText ε) (store : Store) (disk : Nat → DiskAnswer)
    (drain : Draining P ε) : Wyrd.Pass (Draining P ε) (Draining P ε × Except DrainError Unit) :=
  match drain.mailbox.recv with
  | (mailbox, .error error) => .done ({ drain with mailbox := mailbox }, .error (.mailbox error))
  | (mailbox, .ok none) => .done ({ drain with mailbox := mailbox }, .ok ())
  | (mailbox, .ok (some delivery)) =>
    if delivery.id ∈ drain.offered then .done ({ drain with mailbox := mailbox }, .ok ())
    else
      let handed := drain.handed ++ mailbox.unacked.getLast?.toList
      let offered := insert delivery.id drain.offered
      match acceptEnvelope W store drain.engine delivery.envelope drain.budget with
      | (engine, budget, .error error) =>
        .done (⟨mailbox, engine, budget, offered, handed⟩, .error (.engine error))
      | (engine, budget, .ok outcome) =>
        match mailbox.settle text delivery.id outcome.disposition (disk delivery.id) with
        | (settled, .error error) =>
          .done (⟨settled, engine, budget, offered, handed⟩, .error (.mailbox error))
        | (settled, .ok ()) => .more ⟨settled, engine, budget, offered, handed⟩

end Draining

namespace LiveMailbox

variable {ε : Type} [DecidableEq ε] {mailbox next : LiveMailbox ε} {wrap : Wrap ε} {id : Nat}
  {delivery : Delivery}

/-- A wrap in the channel that `recv` would hand over when it comes to it. Its id names no
    other event there. -/
structure Awaits (mailbox : LiveMailbox ε) (wrap : Wrap ε) : Prop where
  waiting : wrap ∈ mailbox.incoming
  identified : ∀ other ∈ mailbox.incoming, other.id = wrap.id → other = wrap
  giftWrap : wrap.giftWrap = true
  unwraps : wrap.envelope.isSome
  unseen : wrap.id ∉ mailbox.seen.seen.order
  unpoisoned : wrap.id ∉ mailbox.poison.order
  unheld : ∀ held ∈ mailbox.unacked, held.wrapId ≠ wrap.id

lemma mem_insert [NeZero cap] {ids : BoundedIds ε cap} (hm : other ∈ (ids.insert new).order) :
    other ∈ ids.order ∨ other = new := by
  unfold BoundedIds.insert at hm
  split at hm
  · exact .inl hm
  · rcases List.mem_append.mp hm with old | hl
    · exact .inl (ids.evict_sublist.subset old)
    · exact .inr (List.mem_singleton.mp hl)

lemma nextFresh_length (mailbox : LiveMailbox ε) (wraps : List (Wrap ε))
    (poison : BoundedIds ε maxPoisonEntries) :
    (mailbox.nextFresh wraps poison).2.1.length +
      (mailbox.nextFresh wraps poison).1.toList.length ≤ wraps.length := by
  induction wraps generalizing poison with
  | nil => simp [nextFresh]
  | cons first rest ih =>
    simp only [nextFresh, List.length_cons]
    split_ifs
    · exact (ih poison).trans (le_succ _)
    · split
      · exact (ih _).trans (le_succ _)
      · simp

lemma Awaits.nextFresh (awaits : mailbox.Awaits wrap) :
    ∃ wrapId envelope rest poison,
      mailbox.nextFresh mailbox.incoming mailbox.poison = (some (wrapId, envelope), rest, poison) ∧
      (wrapId ≠ wrap.id → { mailbox with incoming := rest, poison := poison }.Awaits wrap) := by
  obtain ⟨waits, known, giftWrap, unwraps, unseen, pure, unheld⟩ := awaits
  generalize mailbox.incoming = wraps at waits known ⊢
  generalize mailbox.poison = poison at pure ⊢
  induction wraps generalizing poison with
  | nil => cases waits
  | cons first rest ih =>
    have later : first ≠ wrap → wrap ∈ rest := fun apart =>
      (List.mem_cons.mp waits).resolve_left fun hs => apart hs.symm
    have hb := fun other hm => known other (List.mem_cons_of_mem _ hm)
    have hn : first ≠ wrap → first.id ≠ wrap.id := fun apart hs =>
      apart (known first List.mem_cons_self hs)
    simp only [LiveMailbox.nextFresh]
    split_ifs with passed
    · refine ih (later ?_) hb poison pure
      rintro rfl
      simp [giftWrap, SeenStore.contains, BoundedIds.contains, unseen, pure, heldByWrap]
        at passed
      obtain ⟨held, hm, hs⟩ := passed
      exact unheld held hm hs
    · cases hu : first.envelope with
      | none =>
        have apart : first ≠ wrap := by
          rintro rfl
          simp [hu] at unwraps
        refine ih (later apart) hb _ fun hm => ?_
        rcases mem_insert hm with old | new
        · exact pure old
        · exact hn apart new.symm
      | some envelope =>
        refine ⟨first.id, envelope, rest, poison, rfl, fun apart => ?_⟩
        exact ⟨later fun hs => apart (congrArg Wrap.id hs), hb, giftWrap, unwraps, unseen,
          pure, unheld⟩

/-- What `recv` offers is new, or the oldest held delivery when there is nothing new to hold. -/
inductive Received (mailbox : LiveMailbox ε) : LiveMailbox ε → Delivery → Prop
  | new {wrapId envelope rest poison}
      (found : mailbox.nextFresh mailbox.incoming mailbox.poison =
        (some (wrapId, envelope), rest, poison)) :
      Received mailbox
        { mailbox with
          incoming := rest
          poison := poison
          nextDelivery := mailbox.nextDelivery + 1
          unacked := mailbox.unacked ++ [⟨mailbox.nextDelivery, wrapId, envelope⟩] }
        ⟨mailbox.nextDelivery, envelope⟩
  | again {held : Held ε} {queue incoming poison} (front : mailbox.unacked = held :: queue)
      (nothing : mailbox.nextFresh mailbox.incoming mailbox.poison = (none, incoming, poison) ∨
        maxUnackedDeliveries ≤ mailbox.unacked.length ∧ incoming = mailbox.incoming ∧
          poison = mailbox.poison) :
      Received mailbox
        { mailbox with incoming := incoming, poison := poison, unacked := queue ++ [held] }
        ⟨held.id, held.envelope⟩

omit [DecidableEq ε] in
lemma rotate_some (turns : mailbox.rotate = (next, .ok (some delivery))) :
    ∃ held queue, mailbox.unacked = held :: queue ∧
      next = { mailbox with unacked := queue ++ [held] } ∧ delivery = ⟨held.id, held.envelope⟩ := by
  unfold rotate at turns
  cases queue : mailbox.unacked with
  | nil => simp [queue] at turns
  | cons held rest =>
    simp only [queue, Prod.mk.injEq, Except.ok.injEq, Option.some.injEq] at turns
    exact ⟨held, rest, rfl, turns.1.symm, turns.2.symm⟩

lemma recv_received (got : mailbox.recv = (next, .ok (some delivery))) :
    mailbox.Received next delivery := by
  unfold recv at got
  split at got
  · split at got
    · next rest poison found =>
      obtain ⟨held, queue, front, rfl, rfl⟩ := rotate_some got
      exact .again front (.inl found)
    · next wrapId envelope rest poison found =>
      dsimp only at got
      split at got
      · cases got
      · cases got
        exact .new found
  · next full =>
    obtain ⟨held, queue, front, rfl, rfl⟩ := rotate_some got
    exact .again front (.inr ⟨Nat.le_of_not_lt full, rfl, rfl⟩)

lemma recv_none (got : mailbox.recv = (next, .ok none)) : ¬ mailbox.Awaits wrap := by
  intro hw
  obtain ⟨wrapId, envelope, rest, poison, hf, -⟩ := hw.nextFresh
  unfold recv at got
  simp only [hf] at got
  split at got
  · split at got
    · cases got
    · cases got
  · next full =>
    unfold rotate at got
    split at got
    · next empty => simp [empty, maxUnackedDeliveries] at full
    · cases got

lemma record_seen (text : IdText ε) (store : SeenStore ε maxSeenEntries) (spool : Spool)
    (new other : ε) (answer : DiskAnswer)
    (hm : other ∈ (store.record text spool new answer).2.1.seen.order) :
    other ∈ store.seen.order ∨ other = new := by
  have entered {store : SeenStore ε maxSeenEntries} {spool : Spool} {answer}
      (hm : other ∈ (store.enter text spool new answer).2.1.seen.order) :
      other ∈ store.seen.order ∨ other = new := by
    unfold SeenStore.enter SeenStore.compact at hm
    dsimp only at hm
    split_ifs at hm
    · split at hm <;> exact mem_insert hm
    · exact mem_insert hm
  unfold SeenStore.record at hm
  split_ifs at hm
  · exact .inl hm
  · split at hm
    · exact .inl hm
    · next ready opened handle =>
      have hs : ready.seen = store.seen := by
        unfold SeenStore.ensureHandle at handle
        split_ifs at handle
        · cases handle
          rfl
        · split at handle <;> cases handle
          rfl
      rw [← hs]
      split at hm
      · exact .inl hm
      · exact entered hm

/-- Settling takes nothing from the channel, and consumes no wrap that is not held. -/
structure Settles (mailbox next : LiveMailbox ε) : Prop where
  incoming : next.incoming = mailbox.incoming
  minted : next.nextDelivery = mailbox.nextDelivery
  unacked : next.unacked.Sublist mailbox.unacked
  seen : ∀ wrapId ∈ next.seen.seen.order,
    wrapId ∈ mailbox.seen.seen.order ∨ ∃ held ∈ mailbox.unacked, held.wrapId = wrapId
  poison : ∀ wrapId ∈ next.poison.order,
    wrapId ∈ mailbox.poison.order ∨ ∃ held ∈ mailbox.unacked, held.wrapId = wrapId

lemma settle_settles (text : IdText ε) (mailbox : LiveMailbox ε) (id : Nat)
    (disposition : Disposition) (answer : DiskAnswer) :
    Settles mailbox (mailbox.settle text id disposition answer).1 := by
  have hs : Settles mailbox mailbox :=
    ⟨rfl, rfl, .refl _, fun _ => .inl, fun _ => .inl⟩
  unfold settle
  split
  · next held found =>
    have hm := List.mem_of_find?_eq_some found
    cases disposition with
    | retry => exact hs
    | poison =>
      refine ⟨rfl, rfl, List.eraseP_sublist, fun _ => .inl, fun wrapId mem => ?_⟩
      exact (mem_insert mem).imp_right fun new => ⟨held, hm, new.symm⟩
    | ack =>
      have entered := fun wrapId mem =>
        (record_seen text mailbox.seen mailbox.spool held.wrapId wrapId answer mem).imp_right
          fun new => (⟨held, hm, new.symm⟩ : ∃ held ∈ mailbox.unacked, held.wrapId = wrapId)
      dsimp only
      split
      · exact ⟨rfl, rfl, .refl _, entered, fun _ => .inl⟩
      · exact ⟨rfl, rfl, List.eraseP_sublist, entered, fun _ => .inl⟩
  · split_ifs
    · exact hs
    · exact hs

omit [DecidableEq ε] in
lemma Settles.awaits (settles : Settles mailbox next) (waits : mailbox.Awaits wrap) :
    next.Awaits wrap where
  waiting := settles.incoming ▸ waits.waiting
  identified := settles.incoming ▸ waits.identified
  giftWrap := waits.giftWrap
  unwraps := waits.unwraps
  unseen mem := (settles.seen _ mem).elim waits.unseen fun ⟨held, hm, hs⟩ =>
    waits.unheld held hm hs
  unpoisoned mem := (settles.poison _ mem).elim waits.unpoisoned fun ⟨held, hm, hs⟩ =>
    waits.unheld held hm hs
  unheld held hm := waits.unheld held (settles.unacked.subset hm)

end LiveMailbox

namespace LiveMailbox

variable {ε : Type} [DecidableEq ε] {mailbox next : LiveMailbox ε} {text : IdText ε}

/-- Ids in the queue were minted. -/
def Numbered (mailbox : LiveMailbox ε) : Prop :=
  ∀ held ∈ mailbox.unacked, held.id < mailbox.nextDelivery

/-- The mailboxes of a session, with any mail coming in and any settlements. -/
inductive Reachable (text : IdText ε) : LiveMailbox ε → Prop
  | boot (seen : SeenStore ε maxSeenEntries) (spool : Spool) :
      Reachable text ⟨[], [], 0, ∅, 1, seen, spool, .new⟩
  | arrive {before : LiveMailbox ε} (reached : Reachable text before) (wraps : List (Wrap ε)) :
      Reachable text { before with incoming := before.incoming ++ wraps }
  | recv {before : LiveMailbox ε} (reached : Reachable text before) : Reachable text before.recv.1
  | settle {before : LiveMailbox ε} (reached : Reachable text before) (id : Nat)
      (disposition : Disposition) (answer : DiskAnswer) :
      Reachable text (before.settle text id disposition answer).1

omit [DecidableEq ε] in
lemma Numbered.grow {wrapId envelope incoming poison} (counts : mailbox.Numbered) :
    ({ mailbox with
      incoming := incoming
      poison := poison
      nextDelivery := mailbox.nextDelivery + 1
      unacked := mailbox.unacked ++ [⟨mailbox.nextDelivery, wrapId, envelope⟩] } :
      LiveMailbox ε).Numbered := by
  intro held hm
  rcases List.mem_append.mp hm with old | hl
  · exact lt_succ_of_lt (counts held old)
  · rw [List.mem_singleton.mp hl]
    exact lt_succ_self _

omit [DecidableEq ε] in
lemma Numbered.rotate (counts : mailbox.Numbered) : mailbox.rotate.1.Numbered := by
  unfold LiveMailbox.rotate
  split
  · exact counts
  · next front queue =>
    intro held hm
    exact counts held (by rw [queue]; simpa [or_comm] using hm)

lemma Reachable.numbered (reachable : Reachable text mailbox) : mailbox.Numbered := by
  induction reachable with
  | boot => exact fun _ hm => absurd hm List.not_mem_nil
  | arrive _ _ ih => exact ih
  | @settle before _ id disposition answer ih =>
    have settles := settle_settles text before id disposition answer
    intro held hm
    rw [settles.minted]
    exact ih held (settles.unacked.subset hm)
  | recv _ ih =>
    unfold LiveMailbox.recv
    split
    · split
      · exact Numbered.rotate ih
      · split
        · exact ih
        · exact ih.grow
    · exact ih.rotate

end LiveMailbox

namespace Draining

open LiveMailbox

variable {P : Primitives} {ε : Type} [DecidableEq ε] {drain : Draining P ε} {wrap : Wrap ε}
  {mailbox : LiveMailbox ε} {delivery : Delivery}

def Handed (drain : Draining P ε) (wrap : Wrap ε) : Prop :=
  ∃ held ∈ drain.handed, held.wrapId = wrap.id

/-- Deliveries held that the pass has not met. -/
def unmet (mailbox : LiveMailbox ε) (offered : Finset Nat) : Nat :=
  mailbox.unacked.countP fun held => decide (held.id ∉ offered)

/-- What a pass keeps: the wrap is handed over or still waits, ids in the queue and ids met
    are minted, and the mail in the channel and in the queue gets no more than `total`. -/
structure Keeps (wrap : Wrap ε) (total : Nat) (drain : Draining P ε) : Prop where
  wrap : drain.Handed wrap ∨ drain.mailbox.Awaits wrap
  numbered : drain.mailbox.Numbered
  minted : ∀ id ∈ drain.offered, id < drain.mailbox.nextDelivery
  total : drain.mailbox.unacked.length + drain.mailbox.incoming.length ≤ total

omit [DecidableEq ε] in
lemma unmet_insert (queue : List (Held ε)) (offered : Finset Nat) (id : Nat) :
    queue.countP (fun held => decide (held.id ∉ insert id offered)) ≤
      queue.countP (fun held => decide (held.id ∉ offered)) := by
  apply List.countP_mono_left
  intro held _ unmet
  simp only [decide_eq_true_eq, Finset.mem_insert, not_or] at unmet ⊢
  exact unmet.2

lemma Keeps.receive {total} (keeps : drain.Keeps wrap total)
    (got : drain.mailbox.Received mailbox delivery) (fresh : delivery.id ∉ drain.offered) :
    ({ drain with
      mailbox := mailbox
      offered := insert delivery.id drain.offered
      handed := drain.handed ++ mailbox.unacked.getLast?.toList } : Draining P ε).Keeps wrap total ∧
    mailbox.incoming.length + unmet mailbox (insert delivery.id drain.offered) <
      drain.mailbox.incoming.length + unmet drain.mailbox drain.offered := by
  have prior := keeps.total
  cases got with
  | @new wrapId envelope rest poison hf =>
    have shorter := nextFresh_length drain.mailbox drain.mailbox.incoming drain.mailbox.poison
    rw [hf] at shorter
    have less := unmet_insert drain.mailbox.unacked drain.offered drain.mailbox.nextDelivery
    simp only [toList_some, List.length_singleton] at shorter
    refine ⟨⟨?_, keeps.numbered.grow, fun id hm => ?_, ?_⟩, ?_⟩
    · rcases keeps.wrap with ⟨held, hm, hs⟩ | waits
      · exact .inl ⟨held, List.mem_append_left _ hm, hs⟩
      · obtain ⟨_, _, _, _, hf', more⟩ := waits.nextFresh
        cases hf.symm.trans hf'
        by_cases hs : wrapId = wrap.id
        · exact .inl ⟨⟨drain.mailbox.nextDelivery, wrapId, envelope⟩, by simp, hs⟩
        · refine .inr { more hs with unheld := fun held hm => ?_ }
          rcases List.mem_append.mp hm with old | hl
          · exact waits.unheld held old
          · rw [List.mem_singleton.mp hl]
            exact hs
    · rcases Finset.mem_insert.mp hm with rfl | hm
      · exact lt_succ_self _
      · exact lt_succ_of_lt (keeps.minted id hm)
    · simp only [List.length_append, List.length_singleton]
      omega
    · simp only [unmet, List.countP_append, List.countP_singleton, Finset.mem_insert, true_or,
        not_true_eq_false, decide_false] at less ⊢
      simp only [Bool.false_eq_true, if_false]
      omega
  | @again held queue incoming poison front bare =>
    have shorter := nextFresh_length drain.mailbox drain.mailbox.incoming drain.mailbox.poison
    have less := unmet_insert queue drain.offered held.id
    have hk : incoming.length ≤ drain.mailbox.incoming.length := by
      rcases bare with hf | ⟨_, rfl, _⟩
      · rw [hf] at shorter
        simpa using shorter
      · exact le_rfl
    have hmem (other : Held ε) : other ∈ queue ++ [held] → other ∈ drain.mailbox.unacked := by
      rw [front]
      intro hm
      simpa [or_comm] using hm
    refine ⟨⟨?_, fun other hm => keeps.numbered other (hmem other hm), fun id hm => ?_, ?_⟩, ?_⟩
    · rcases keeps.wrap with ⟨held, hm, hs⟩ | waits
      · exact .inl ⟨held, List.mem_append_left _ hm, hs⟩
      · rcases bare with hf | ⟨_, rfl, rfl⟩
        · obtain ⟨_, _, _, _, hf', -⟩ := waits.nextFresh
          cases hf.symm.trans hf'
        · exact .inr { waits with
            unheld := fun other hm => waits.unheld other (hmem other hm) }
    · rcases Finset.mem_insert.mp hm with rfl | hm
      · exact keeps.numbered held (hmem held (by simp))
      · exact keeps.minted id hm
    · rw [front] at prior
      simp only [List.length_append, List.length_cons, List.length_nil] at prior ⊢
      omega
    · have unmet' : unmet drain.mailbox drain.offered =
          queue.countP (fun held => decide (held.id ∉ drain.offered)) + 1 := by
        simp [unmet, front, fresh]
      rw [unmet']
      simp only [unmet, List.countP_append, List.countP_singleton, Finset.mem_insert, true_or,
        not_true_eq_false, decide_false, Bool.false_eq_true, if_false] at less ⊢
      omega

omit [DecidableEq ε] in
lemma Keeps.settle {total} (keeps : drain.Keeps wrap total)
    (settles : Settles drain.mailbox mailbox) (engine : Engine P) (budget : IntakeBudget) :
    (⟨mailbox, engine, budget, drain.offered, drain.handed⟩ : Draining P ε).Keeps wrap total ∧
    mailbox.incoming.length + unmet mailbox drain.offered ≤
      drain.mailbox.incoming.length + unmet drain.mailbox drain.offered := by
  have prior := keeps.total
  have shorter := settles.unacked.length_le
  have less : unmet mailbox drain.offered ≤ unmet drain.mailbox drain.offered :=
    settles.unacked.countP_le
  refine ⟨⟨keeps.wrap.imp_right settles.awaits, fun held hm => ?_, fun id hm => ?_, ?_⟩, ?_⟩
  · rw [settles.minted]
    exact keeps.numbered held (settles.unacked.subset hm)
  · rw [settles.minted]
    exact keeps.minted id hm
  · rw [settles.incoming]
    exact (Nat.add_le_add_right shorter _).trans prior
  · rw [settles.incoming]
    exact Nat.add_le_add_left less _

/-- A pass that comes to its end without room, with the wrap still in the channel. -/
def Full (wrap : Wrap ε) (total : Nat) (drain : Draining P ε) : Prop :=
  maxUnackedDeliveries ≤ drain.mailbox.unacked.length ∧ wrap ∈ drain.mailbox.incoming ∧
    drain.mailbox.unacked.length + drain.mailbox.incoming.length ≤ total

/-- A pass ends on a delivery met before only if it could not take a new one. -/
lemma Keeps.ends {total} (keeps : drain.Keeps wrap total)
    (got : drain.mailbox.Received mailbox delivery) (met : delivery.id ∈ drain.offered) :
    drain.Handed wrap ∨ Full wrap total { drain with mailbox := mailbox } := by
  cases got with
  | new => exact absurd (keeps.minted _ met) (lt_irrefl _)
  | @again held queue incoming poison front hb =>
    refine keeps.wrap.imp_right fun waits => ?_
    rcases hb with hf | ⟨full, rfl, rfl⟩
    · obtain ⟨_, _, _, _, hf', -⟩ := waits.nextFresh
      cases hf.symm.trans hf'
    · have prior := keeps.total
      rw [front] at full prior
      simp only [List.length_cons] at full prior
      refine ⟨?_, waits.waiting, ?_⟩
      · simpa using full
      · simpa using prior

lemma step_keeps (W : Wire) (text : IdText ε) (store : Store) (disk : Nat → DiskAnswer)
    (keeps : drain.Keeps wrap total) : match step W text store disk drain with
    | .more next => next.Keeps wrap total ∧
        next.mailbox.incoming.length + unmet next.mailbox next.offered <
          drain.mailbox.incoming.length + unmet drain.mailbox drain.offered
    | .done result => result.2 = .ok () → result.1.Handed wrap ∨ result.1.Full wrap total := by
  unfold step
  rcases taken : drain.mailbox.recv with ⟨mailbox, error | _ | delivery⟩
  · nofun
  · exact fun _ => .inl (keeps.wrap.resolve_right (recv_none taken))
  · have got := recv_received taken
    dsimp only
    by_cases met : delivery.id ∈ drain.offered
    · simp only [met, if_true]
      exact fun _ => keeps.ends got met
    · simp only [met, if_false]
      obtain ⟨taken, smaller⟩ := keeps.receive got met
      rcases acceptEnvelope W store drain.engine delivery.envelope drain.budget with
        ⟨engine, budget, error | outcome⟩
      · nofun
      · have settles := settle_settles text mailbox delivery.id outcome.disposition (disk delivery.id)
        obtain ⟨hk, hs⟩ := taken.settle settles engine budget
        dsimp only
        rcases settled : mailbox.settle text delivery.id outcome.disposition (disk delivery.id) with
          ⟨after, error | done⟩
        · nofun
        · rw [settled] at hk hs
          exact ⟨hk, lt_of_le_of_lt hs smaller⟩

lemma Keeps.returns (W : Wire) (text : IdText ε) (store : Store) (disk : Nat → DiskAnswer) {total}
    (keeps : drain.Keeps wrap total) :
    ∃ fuel result, Machine.run (step W text store disk) fuel drain = some result ∧
      (result.2 = .ok () → result.1.Handed wrap ∨ result.1.Full wrap total) := by
  refine Machine.returns_of_measure (fun drain : Draining P ε =>
    drain.mailbox.incoming.length + unmet drain.mailbox drain.offered) (fun drain keeps => ?_) keeps
  have hk := step_keeps W text store disk keeps
  cases taken : step W text store disk drain with
  | more =>
    rw [taken] at hk
    exact hk
  | done =>
    rw [taken] at hk
    exact hk

/-- A drain pass ends, and if nothing failed it has handed a wrap that waited to the engine or
    ends with the held queue full. It has handed it over if all mail there was has room. -/
theorem drain_offers_or_fills (W : Wire) (text : IdText ε) (store : Store)
    (disk : Nat → DiskAnswer) (engine : Engine P) (mailbox : LiveMailbox ε)
    (reachable : mailbox.Reachable text) (wrap : Wrap ε) (awaits : mailbox.Awaits wrap) :
    ∃ fuel result,
      (∀ more, fuel ≤ more →
        Machine.run (step W text store disk) more (.start engine mailbox) = some result) ∧
      (result.2 = .ok () → result.1.Handed wrap ∨
        maxUnackedDeliveries ≤ result.1.mailbox.unacked.length) ∧
      (result.2 = .ok () →
        mailbox.unacked.length + mailbox.incoming.length ≤ maxUnackedDeliveries →
        result.1.Handed wrap) := by
  have initial : Keeps wrap (mailbox.unacked.length + mailbox.incoming.length)
      (start engine mailbox) := ⟨.inr awaits, reachable.numbered, nofun, le_rfl⟩
  obtain ⟨fuel, result, hg, ended⟩ := initial.returns W text store disk
  refine ⟨fuel, result, fun more ha => Machine.run_mono hg ha, ?_, ?_⟩
  · exact fun fine => (ended fine).imp_right And.left
  · intro fine hf
    refine (ended fine).resolve_right fun ⟨full, hw, total⟩ => ?_
    have := List.length_pos_of_mem hw
    omega

section Flood

/-- A device of the drive that holds no control key yet. -/
def newcomer : Engine samplePrimitives :=
  ⟨sampleId 0, sampleId 3, [], .new (sampleId 0), fun _ => none, .new _ (sampleId 0), fun _ => none,
    fun _ => none, ∅, .new⟩

def strayEnvelope : MailboxEnvelope := ⟨sampleId 9, sampleId 3, [0, 1]⟩

def stray (index : Nat) : Wrap Nat := ⟨index, true, some strayEnvelope⟩

def floodText : IdText Nat := ⟨fun _ => [], fun _ => true, fun _ => none⟩

def floodWire : Wire := sampleWire (fun _ => none) (fun _ => none) (fun _ => none) none

/-- Two wraps wait behind a delivery that is held. -/
def backlog : LiveMailbox Nat where
  incoming := [stray 1, stray 2]
  unacked := [⟨1, 0, strayEnvelope⟩]
  settledBelow := 0
  outstanding := ∅
  nextDelivery := 2
  seen := ⟨.new, 0, 0, true⟩
  spool := .empty
  poison := .new

theorem drain_offers_backlog :
    ∃ fuel result,
      (∀ more, fuel ≤ more →
        Machine.run (step floodWire floodText sampleStore fun _ => .fine) more
          (.start newcomer backlog) = some result) ∧
      result.2.isOk = true ∧ result.1.Handed (stray 2) := by
  have reachable : backlog.Reachable floodText :=
    ((Reachable.boot ⟨.new, 0, 0, true⟩ .empty).arrive ((List.range 3).map stray)).recv
  have awaits : backlog.Awaits (stray 2) :=
    ⟨by simp [backlog], by simp [backlog, stray], rfl, rfl, List.not_mem_nil, List.not_mem_nil,
      by simp [backlog, stray]⟩
  obtain ⟨fuel, result, returns, -, handed⟩ := drain_offers_or_fills floodWire floodText sampleStore
    (fun _ => .fine) newcomer backlog reachable (stray 2) awaits
  have fine : (Machine.run (step floodWire floodText sampleStore fun _ => .fine) 4
      (.start newcomer backlog)).map (·.2.isOk) = some true := by decide +kernel
  obtain ⟨ended, ran, fine⟩ := map_eq_some_iff.mp fine
  obtain rfl : ended = result := Option.some.inj
    ((Machine.run_mono ran (le_max_left 4 fuel)).symm.trans (returns _ (le_max_right 4 fuel)))
  refine ⟨fuel, ended, returns, fine, handed ?_ (by decide)⟩
  cases outcome : ended.2 with
  | error => rw [outcome] at fine; cases fine
  | ok => rfl

/-- Of 1025 wraps, as many as given are held. -/
def floodedMailbox (taken : Nat) : LiveMailbox Nat where
  incoming := (List.range' taken (1025 - taken)).map stray
  unacked := (List.range taken).map fun index => ⟨index + 1, index, strayEnvelope⟩
  settledBelow := 0
  outstanding := ∅
  nextDelivery := taken + 1
  seen := ⟨.new, 0, 0, true⟩
  spool := .empty
  poison := .new

def flooding (taken : Nat) : Draining samplePrimitives Nat :=
  ⟨floodedMailbox taken, newcomer, .fresh, .Ico 1 (taken + 1), (floodedMailbox taken).unacked⟩

lemma floodedMailbox_recv (room : taken < 1024) :
    (floodedMailbox taken).recv =
      (floodedMailbox (taken + 1), .ok (some ⟨taken + 1, strayEnvelope⟩)) := by
  have waits : List.range' taken (1025 - taken) =
      taken :: List.range' (taken + 1) (1025 - (taken + 1)) := by
    rw [show 1025 - taken = 1025 - (taken + 1) + 1 by omega, List.range'_succ]
  have unheld : ¬ ∃ index < taken, index = taken := by omega
  have least : ¬ 2 ^ 64 ≤ taken + 1 + 1 := by omega
  unfold recv
  simp only [floodedMailbox, waits, List.map_cons, nextFresh, stray, heldByWrap]
  simp [SeenStore.contains, BoundedIds.contains, BoundedIds.new, maxUnackedDeliveries, room, unheld,
    List.range_succ]
  omega

lemma flooding_step (room : taken < 1024) :
    step floodWire floodText sampleStore (fun _ => .fine) (flooding taken) =
      .more (flooding (taken + 1)) := by
  have unmet : taken + 1 ∉ Finset.Ico 1 (taken + 1) := by simp
  have met : insert (taken + 1) (Finset.Ico 1 (taken + 1)) = Finset.Ico 1 (taken + 1 + 1) := by
    ext id
    simp only [Finset.mem_insert, Finset.mem_Ico]
    omega
  have held : ((floodedMailbox (taken + 1)).unacked.find?
      fun held => decide (held.id = taken + 1)).isSome := by
    simp [floodedMailbox]
  have handed : (floodedMailbox taken).unacked ++
      (floodedMailbox (taken + 1)).unacked.getLast?.toList = (floodedMailbox (taken + 1)).unacked := by
    simp [floodedMailbox, List.range_succ]
  have denied : acceptEnvelope floodWire sampleStore newcomer strayEnvelope .fresh =
      (newcomer, .fresh, .ok .skipped) := rfl
  obtain ⟨_, hf⟩ := isSome_iff_exists.mp held
  simp only [step, flooding, floodedMailbox_recv room, unmet, if_false, denied, met, handed,
    Outcome.disposition, settle, hf]

lemma flooding_last :
    step floodWire floodText sampleStore (fun _ => .fine) (flooding 1024) =
      .done ({ flooding 1024 with mailbox := (floodedMailbox 1024).rotate.1 }, .ok ()) := by
  have full : ¬ (floodedMailbox 1024).unacked.length < maxUnackedDeliveries := by
    simp [floodedMailbox, maxUnackedDeliveries]
  have met : 1 ∈ Finset.Ico 1 (1024 + 1) := by simp
  have front : (floodedMailbox 1024).unacked = ⟨1, 0, strayEnvelope⟩ ::
      (List.range' 1 1023).map fun index => ⟨index + 1, index, strayEnvelope⟩ := by
    simp only [floodedMailbox, List.range_eq_range', List.range'_succ (n := 1023), List.map_cons]
  have again : (floodedMailbox 1024).recv =
      ((floodedMailbox 1024).rotate.1, .ok (some ⟨1, strayEnvelope⟩)) := by
    unfold recv
    rw [if_neg full]
    simp only [rotate, front]
  simp only [step, flooding, again, met, if_true]

lemma flooding_returns (left : taken ≤ 1024) :
    Machine.run (step floodWire floodText sampleStore fun _ => .fine) (1024 - taken + 1)
        (flooding taken) =
      some ({ flooding 1024 with mailbox := (floodedMailbox 1024).rotate.1 }, .ok ()) := by
  -- Downwards from the last pass.
  induction left using Nat.decreasingInduction with
  | self =>
    unfold Machine.run
    rw [flooding_last]
  | of_succ taken room ih =>
    rw [show 1024 - taken + 1 = 1024 - (taken + 1) + 1 + 1 by omega]
    unfold Machine.run
    rw [flooding_step room]
    exact ih

/-- The first 1024 of 1025 wraps are under a key the engine does not hold: it has them
    retried, and the pass ends before the last one. -/
theorem flood_starves :
    (floodedMailbox 0).Reachable floodText ∧ (floodedMailbox 0).Awaits (stray 1024) ∧
    ∃ result,
      (∀ more, 1025 ≤ more →
        Machine.run (step floodWire floodText sampleStore fun _ => .fine) more
          (.start newcomer (floodedMailbox 0)) = some result) ∧
      result.2.isOk = true ∧ ¬ result.1.Handed (stray 1024) := by
  refine ⟨(Reachable.boot ⟨.new, 0, 0, true⟩ .empty).arrive ((List.range' 0 1025).map stray), ?_, _,
    fun more ha => Machine.run_mono (flooding_returns (zero_le 1024)) ha, rfl, ?_⟩
  · refine ⟨List.mem_map.mpr ⟨1024, by simp, rfl⟩, ?_, rfl, rfl, List.not_mem_nil, List.not_mem_nil,
      nofun⟩
    rintro other hm hs
    obtain ⟨index, -, rfl⟩ := List.mem_map.mp hm
    cases hs
    rfl
  · rintro ⟨held, hm, hs⟩
    simp only [flooding, floodedMailbox, List.mem_map, List.mem_range] at hm
    obtain ⟨index, hb, rfl⟩ := hm
    exact hb.ne hs

end Flood

end Draining

end Wyrd.Mailbox
