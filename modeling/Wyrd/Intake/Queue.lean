import Wyrd.Intake.Inbox

/-! # The held queue as a map

The three maps of the queue move together, so the queue is read as one partial
map from message ids to held entries: holding updates it at one id, taking an
entry clears it at one id. Nothing above this module looks at the maps.
-/

namespace Wyrd.Intake.PendingQueue

open Option Function

variable {queue : PendingQueue}

def held (queue : PendingQueue) (id : ControlMessageId) : Option PendingEntry :=
  (queue.byId id).bind (fun seq => (queue.bySeq.lookup seq).map Prod.snd)

/-- The id index and the arrival order name each other, below the next slot. -/
structure Coherent (queue : PendingQueue) : Prop where
  byId : ∀ {id seq}, queue.byId id = some seq →
    ∃ entry, queue.bySeq.lookup seq = some (seq, entry) ∧ entry.id = id
  bySeq : ∀ {seq entry}, queue.bySeq.lookup seq = some (seq, entry) →
    queue.byId entry.id = some seq
  below : ∀ {seq entry}, queue.bySeq.lookup seq = some (seq, entry) → seq < queue.nextSeq

lemma coherent_new : Coherent .new := by
  constructor <;> intros <;> simp_all [new, Observed.lookup, Observed.empty]

lemma held_new (id : ControlMessageId) : held .new id = none := rfl

section Index

variable (queue) (id : ControlMessageId) (wait : DeferredWait)

@[simp] lemma index_bySeq : (queue.index id wait).bySeq = queue.bySeq := by cases wait <;> rfl

@[simp] lemma index_byId : (queue.index id wait).byId = queue.byId := by cases wait <;> rfl

@[simp] lemma index_nextSeq : (queue.index id wait).nextSeq = queue.nextSeq := by
  cases wait <;> rfl

@[simp] lemma unindex_bySeq : (queue.unindex id wait).bySeq = queue.bySeq := by cases wait <;> rfl

@[simp] lemma unindex_byId : (queue.unindex id wait).byId = queue.byId := by cases wait <;> rfl

@[simp] lemma unindex_nextSeq : (queue.unindex id wait).nextSeq = queue.nextSeq := by
  cases wait <;> rfl

end Index

/-- Coherence and contents depend on the order and the id index alone. -/
lemma Coherent.congr (clean : queue.Coherent) {other : PendingQueue}
    (bySeq : other.bySeq = queue.bySeq) (byId : other.byId = queue.byId)
    (nextSeq : other.nextSeq = queue.nextSeq) : other.Coherent where
  byId := by rw [bySeq, byId]; exact clean.byId
  bySeq := by rw [bySeq, byId]; exact clean.bySeq
  below := by rw [bySeq, nextSeq]; exact clean.below

lemma held_congr {other : PendingQueue} (bySeq : other.bySeq = queue.bySeq)
    (byId : other.byId = queue.byId) : other.held = queue.held := by
  funext id
  simp only [held, bySeq, byId]

variable {id : ControlMessageId} {entry : PendingEntry}

lemma held_eq_some :
    queue.held id = some entry ↔
      ∃ seq, queue.byId id = some seq ∧ queue.bySeq.lookup seq = some (seq, entry) := by
  simp only [held, bind_eq_some_iff, map_eq_some_iff, Prod.exists]
  constructor
  · rintro ⟨seq, hn, _, _, hf, rfl⟩
    obtain rfl := Observed.key_of_lookup hf
    exact ⟨_, hn, hf⟩
  · exact fun ⟨seq, hn, hf⟩ => ⟨seq, hn, seq, entry, hf, rfl⟩

lemma Coherent.id_of_held (clean : queue.Coherent) (hf : queue.held id = some entry) :
    entry.id = id := by
  obtain ⟨seq, hn, atSeq⟩ := held_eq_some.mp hf
  obtain ⟨other, hs, hn'⟩ := clean.byId hn
  cases hs.symm.trans atSeq
  exact hn'

lemma Coherent.held_eq_none (clean : queue.Coherent) :
    queue.held id = none ↔ queue.byId id = none := by
  simp only [held]
  cases hn : queue.byId id with
  | none => simp
  | some =>
    obtain ⟨entry, hf, _⟩ := clean.byId hn
    simp [hf]

/-- What an operation must do to hold one entry. -/
structure HoldsEntry (queue next : PendingQueue) (entry : PendingEntry) : Prop where
  coherent : next.Coherent
  held : next.held = update queue.held entry.id (some entry)

lemma Coherent.restore (clean : queue.Coherent) (gone : queue.byId entry.id = none)
    (free : queue.bySeq.lookup seq = none) (hb : seq < queue.nextSeq) :
    HoldsEntry queue (queue.restore seq entry) entry := by
  have atSeq : ∀ k, (queue.bySeq.observe (seq, entry)).lookup k =
      if k = seq then some (seq, entry) else queue.bySeq.lookup k :=
    Observed.lookup_observe _ _
  have apart : ∀ {id k}, queue.byId id = some k → k ≠ seq ∧ id ≠ entry.id := by
    intro id k hn
    obtain ⟨other, hf, rfl⟩ := clean.byId hn
    refine ⟨?_, ?_⟩
    · rintro rfl
      simp [free] at hf
    · intro hs
      simp [hs, gone] at hn
  have stored : (queue.restore seq entry).Coherent := by
    suffices hp : ({ queue with
        bySeq := queue.bySeq.observe (seq, entry)
        byId := update queue.byId entry.id (some seq) } : PendingQueue).Coherent from
      hp.congr (index_bySeq ..) (index_byId ..) (index_nextSeq ..)
    constructor
    · intro id k hn
      simp only [update_apply] at hn
      simp only [atSeq]
      split_ifs at hn with hs
      · cases hn
        exact ⟨entry, if_pos rfl, hs.symm⟩
      · obtain ⟨other, hf, ho⟩ := clean.byId hn
        exact ⟨other, by rw [if_neg (apart hn).1, hf], ho⟩
    · intro k other hf
      simp only [atSeq] at hf
      simp only [update_apply]
      split_ifs at hf with hs
      · cases hf
        rw [if_pos rfl, hs]
      · have hn := clean.bySeq hf
        rw [if_neg (apart hn).2, hn]
    · intro k other hf
      simp only [atSeq] at hf
      split_ifs at hf with hs
      · exact hs ▸ hb
      · exact clean.below hf
  refine ⟨stored, funext fun id => ?_⟩
  simp only [held, PendingQueue.restore, index_byId, index_bySeq, update_apply]
  split_ifs with hs
  · rw [bind_some, atSeq, if_pos rfl, map_some]
  · cases hn : queue.byId id with
    | none => rfl
    | some => rw [bind_some, bind_some, atSeq, if_neg (apart hn).1]

lemma Coherent.append (clean : queue.Coherent) (gone : queue.byId entry.id = none) :
    HoldsEntry queue (queue.append entry) entry := by
  have free : queue.bySeq.lookup queue.nextSeq = none := by
    cases hf : queue.bySeq.lookup queue.nextSeq with
    | none => rfl
    | some pair =>
      obtain ⟨k, other⟩ := pair
      obtain rfl : k = queue.nextSeq := Observed.key_of_lookup hf
      exact absurd (clean.below hf) (lt_irrefl _)
  have grown : ({ queue with nextSeq := queue.nextSeq + 1 } : PendingQueue).Coherent :=
    ⟨clean.byId, clean.bySeq, fun hf => Nat.lt_succ_of_lt (clean.below hf)⟩
  obtain ⟨hs, hc⟩ := grown.restore gone free (Nat.lt_succ_self _)
  exact ⟨hs, hc⟩

lemma Coherent.insert (clean : queue.Coherent) (entry : PendingEntry) :
    HoldsEntry queue (queue.insert entry) entry := by
  unfold PendingQueue.insert
  cases hn : queue.byId entry.id with
  | none => exact clean.append hn
  | some seq =>
    obtain ⟨old, hf, owns⟩ := clean.byId hn
    simp only [hf]
    let renewed : PendingEntry := { old with message := entry.message, wait := entry.wait }
    have hs : renewed = entry := by
      cases entry
      simpa [renewed] using owns
    have atSeq : ∀ k, (queue.bySeq.observe (seq, renewed)).lookup k =
        if k = seq then some (seq, renewed) else queue.bySeq.lookup k :=
      Observed.lookup_observe _ _
    have replaced : HoldsEntry queue
        { queue with bySeq := queue.bySeq.observe (seq, renewed) } entry := by
      refine ⟨⟨?_, ?_, ?_⟩, funext fun id => ?_⟩
      · intro id k hn'
        simp only [atSeq]
        split_ifs with hh
        · subst hh
          obtain ⟨other, hf', owns'⟩ := clean.byId hn'
          cases hf.symm.trans hf'
          exact ⟨renewed, rfl, owns'⟩
        · exact clean.byId hn'
      · intro k other hf'
        simp only [atSeq] at hf'
        split_ifs at hf' with hh
        · cases hf'
          have hn' : queue.byId old.id = some seq := clean.bySeq hf
          exact hn'
        · exact clean.bySeq hf'
      · intro k other hf'
        simp only [atSeq] at hf'
        split_ifs at hf' with hh
        · subst hh
          exact clean.below hf
        · exact clean.below hf'
      · simp only [held, update_apply]
        split_ifs with hh
        · rw [hh, hn, bind_some, atSeq, if_pos rfl, map_some, hs]
        · cases hn' : queue.byId id with
          | none => rfl
          | some =>
            rw [bind_some, bind_some, atSeq, if_neg]
            rintro rfl
            obtain ⟨other, hf', owns'⟩ := clean.byId hn'
            cases hf.symm.trans hf'
            exact hh (owns'.symm.trans owns)
    split_ifs with same
    · exact replaced
    · exact ⟨replaced.coherent.congr (by simp [renewed]) (by simp) (by simp),
        (held_congr (by simp [renewed]) (by simp)).trans replaced.held⟩

/-- What an operation must do to take one entry out. -/
structure TakesEntry (queue next : PendingQueue) (entry : PendingEntry) : Prop where
  coherent : next.Coherent
  here : queue.held entry.id = some entry
  held : next.held = update queue.held entry.id none

lemma Coherent.clear (clean : queue.Coherent) (hf : queue.bySeq.lookup seq = some (seq, entry)) :
    TakesEntry queue { queue with
      bySeq := queue.bySeq.erase seq
      byId := update queue.byId entry.id none } entry := by
  have hn := clean.bySeq hf
  have atSeq : ∀ k, (queue.bySeq.erase seq).lookup k =
      if k = seq then none else queue.bySeq.lookup k := Observed.lookup_erase _ _
  have owns : ∀ {id}, queue.byId id = some seq → id = entry.id := by
    intro id hn'
    obtain ⟨other, hf', owns'⟩ := clean.byId hn'
    cases hf.symm.trans hf'
    exact owns'.symm
  refine ⟨⟨?_, ?_, ?_⟩, held_eq_some.mpr ⟨seq, hn, hf⟩, funext fun id => ?_⟩
  · intro id k hn'
    simp only [update_apply] at hn'
    split_ifs at hn' with gone
    have apart : k ≠ seq := by
      rintro rfl
      exact gone (owns hn')
    simp only [atSeq, if_neg apart]
    exact clean.byId hn'
  · intro k other hf'
    simp only [atSeq] at hf'
    split_ifs at hf' with gone
    have hn' := clean.bySeq hf'
    simp only [update_apply]
    rw [if_neg, hn']
    intro hs
    rw [hs, hn] at hn'
    exact gone (Option.some.inj hn').symm
  · intro k other hf'
    simp only [atSeq] at hf'
    split_ifs at hf'
    exact clean.below hf'
  · simp only [held, update_apply]
    split_ifs with hh
    · rfl
    · cases hn' : queue.byId id with
      | none => rfl
      | some =>
        rw [bind_some, bind_some, atSeq, if_neg]
        rintro rfl
        exact hh (owns hn')

lemma TakesEntry.unindex {next : PendingQueue} (takes : TakesEntry queue next entry)
    (id : ControlMessageId) (wait : DeferredWait) : TakesEntry queue (next.unindex id wait) entry :=
  ⟨takes.coherent.congr (by simp) (by simp) (by simp), takes.here,
    (held_congr (by simp) (by simp)).trans takes.held⟩

/-- An entry taken by its slot may go back to that slot. -/
lemma Coherent.removeSeq (clean : queue.Coherent)
    (taken : queue.removeSeq seq = some (entry, next)) :
    TakesEntry queue next entry ∧
      ∀ wait, HoldsEntry next (next.restore seq { entry with wait := wait })
        { entry with wait := wait } := by
  simp only [PendingQueue.removeSeq, map_eq_some_iff, Prod.mk.injEq] at taken
  obtain ⟨⟨k, entry⟩, found, rfl, rfl⟩ := taken
  obtain rfl : k = seq := Observed.key_of_lookup found
  have takes := (clean.clear found).unindex entry.id entry.wait
  refine ⟨takes, fun wait => takes.coherent.restore ?_ ?_ ?_⟩
  · simp
  · simp [Observed.lookup_erase]
  · simpa using clean.below found

lemma Coherent.remove (clean : queue.Coherent) (id : ControlMessageId) : match queue.held id with
    | none => queue.remove id = (none, queue)
    | some entry => ∃ next, queue.remove id = (some entry, next) ∧ TakesEntry queue next entry := by
  unfold PendingQueue.remove
  cases hn : queue.byId id with
  | none => simp [clean.held_eq_none.mpr hn]
  | some seq =>
    obtain ⟨entry, hf, rfl⟩ := clean.byId hn
    rw [held_eq_some.mpr ⟨seq, hn, hf⟩]
    simp only [hf]
    exact ⟨_, rfl, (clean.clear hf).unindex _ _⟩

end Wyrd.Intake.PendingQueue
