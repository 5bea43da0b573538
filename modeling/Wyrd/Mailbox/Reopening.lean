import Wyrd.Mailbox.Ledger

/-! # The dedupe log reopens

One call of `record` either leaves the log alone, adds part of a line, or adds a whole
line and perhaps rewrites the log. From this, what a run keeps: everything the log held
lately reads back as the set of the open store, or as that set with the one id whose
append failed. A whole line is synced before it is acknowledged, so a loss of power that
takes back bytes that were not synced takes back no more than that.
-/

namespace Wyrd.Mailbox

open List Bool Nat

variable {ε : Type} {cap : Nat} [NeZero cap] [DecidableEq ε] {text : IdText ε}

omit [NeZero cap] [DecidableEq ε] in
lemma BoundedIds.ext_order {ids other : BoundedIds ε cap} (hs : ids.order = other.order) :
    ids = other := by
  cases ids
  cases other
  cases hs
  rfl

lemma foldl_insert_order (new : List ε) (ids : BoundedIds ε cap)
    (nodup : (ids.order ++ new).Nodup) (fits : (ids.order ++ new).length ≤ cap) :
    (new.foldl .insert ids).order = ids.order ++ new := by
  induction new generalizing ids with
  | nil => simp
  | cons id new ih =>
    have gone : id ∉ ids.order := fun hm =>
      (nodup_append.mp nodup).2.2 id hm id mem_cons_self rfl
    have room : ids.evict = ids.order := by
      simp only [length_append, length_cons] at fits
      rw [BoundedIds.evict, if_neg (by omega)]
    have inserted : (ids.insert id).order ++ new = ids.order ++ id :: new := by
      rw [insert_order gone, room, append_assoc]
      rfl
    rw [foldl_cons, ih _ (inserted ▸ nodup) (inserted ▸ fits), inserted]

lemma retained_order (ids : BoundedIds ε cap) : retained ids.order = ids :=
  BoundedIds.ext_order (foldl_insert_order ids.order .new ids.nodup ids.bounded)

namespace SeenStore

/-- The handle, when it is good, writes to the file the path leads to. -/
def Aligned (store : SeenStore ε cap) (spool : Spool) : Prop :=
  store.handleOk = true → store.file = spool.generation

/-- The log lists whole lines that are read back as the set. -/
def Lists (text : IdText ε) (spool : Spool) (seen : BoundedIds ε cap) : Prop :=
  ∃ ids, spool.bytes = text.lines ids ∧ retained ids = seen

variable {store : SeenStore ε cap} {spool : Spool} {id : ε}

omit [NeZero cap] [DecidableEq ε] in
lemma ensureHandle_ok (level : store.Aligned spool)
    (ensured : store.ensureHandle spool answer = .ok (ready, open')) :
    ready.seen = store.seen ∧ ready.handleOk = true ∧ ready.file = open'.generation ∧
      open'.bytes = spool.bytes ∧ open'.unsynced ⊆ spool.unsynced := by
  unfold ensureHandle at ensured
  split at ensured
  · next good =>
    cases ensured
    exact ⟨rfl, good, level good, rfl, Subset.refl _⟩
  · cases answer with
    | some => exact absurd ensured (by simp)
    | none =>
      cases ensured
      exact ⟨rfl, rfl, rfl, spool.bytes_openAppend, spool.unsynced_openAppend⟩

variable (answer : Option (Stage × String))

lemma compact_spec (level : store.Aligned spool) :
    (store.compact text spool answer).2.1.seen = store.seen ∧
      (store.compact text spool answer).2.1.Aligned (store.compact text spool answer).2.2 ∧
      (Lists text spool store.seen → Lists text (store.compact text spool answer).2.2 store.seen) ∧
      (spool.unsynced = [] → (store.compact text spool answer).2.2.unsynced = []) := by
  have rewritten : ∀ replaced : Spool, replaced.bytes = text.lines store.seen.order →
      Lists text replaced store.seen := fun _ hs =>
    ⟨store.seen.order, hs, retained_order store.seen⟩
  unfold compact
  split
  · exact ⟨rfl, level, id, id⟩
  · exact ⟨rfl, level, id, id⟩
  · exact ⟨rfl, fun good => absurd good false_ne_true, fun _ => rewritten _ rfl, fun _ => rfl⟩
  · exact ⟨rfl, fun _ => rfl, fun _ => rewritten _ rfl, fun _ => rfl⟩
  · exact ⟨rfl, fun _ => rfl, fun _ => rewritten _ rfl, fun _ => rfl⟩

lemma enter_spec (level : store.Aligned spool) :
    (store.enter text spool id answer).2.1.seen = store.seen.insert id ∧
      (store.enter text spool id answer).2.1.Aligned (store.enter text spool id answer).2.2 ∧
      (Lists text spool (store.seen.insert id) →
        Lists text (store.enter text spool id answer).2.2 (store.seen.insert id)) ∧
      (spool.unsynced = [] → (store.enter text spool id answer).2.2.unsynced = []) := by
  simp only [enter]
  split
  · exact compact_spec answer level
  · exact ⟨rfl, level, fun lists => lists, fun synced => synced⟩

/-- What a call of `record` can do. -/
inductive Recording (text : IdText ε) (store : SeenStore ε cap) (spool : Spool) (id : ε) :
    Written → Except String Unit × SeenStore ε cap × Spool → Prop
  | held (known : id ∈ store.seen.order) : Recording text store spool id .nothing (.ok (), store, spool)
  | stuck (absent : id ∉ store.seen.order) (error : String) :
      Recording text store spool id .nothing (.error error, store, spool)
  | torn (absent : id ∉ store.seen.order) (error : String) (arrived : Nat) {after : SeenStore ε cap}
      {written : Spool} (seen : after.seen = store.seen) (aligned : after.Aligned written)
      (bytes : written.bytes = spool.bytes ++ (text.line id).take arrived)
      (unsynced : written.unsynced ⊆
        (range arrived).map (spool.bytes ++ (text.line id).take ·) ++ spool.unsynced) :
      Recording text store spool id (.torn arrived) (.error error, after, written)
  | whole (absent : id ∉ store.seen.order) (result : Except String Unit)
      {after : SeenStore ε cap} {written : Spool} (seen : after.seen = store.seen.insert id)
      (aligned : after.Aligned written)
      (lists : Lists text spool store.seen → Lists text written (store.seen.insert id))
      (synced : written.unsynced = []) :
      Recording text store spool id .whole (result, after, written)

lemma Lists.reads {seen : BoundedIds ε cap} (lists : Lists text spool seen) :
    Reads text spool.bytes seen := by
  obtain ⟨ids, hs, rfl⟩ := lists
  exact hs ▸ reads_lines ids

lemma Lists.append (lists : Lists text spool store.seen) {written}
    (bytes : written.bytes = spool.bytes ++ text.line id) :
    Lists text written (store.seen.insert id) := by
  obtain ⟨ids, hs, reads⟩ := lists
  refine ⟨ids ++ [id], ?_, ?_⟩
  · rw [bytes, hs]
    simp [IdText.lines]
  · rw [← reads]
    simp [retained]

lemma record_recording (level : store.Aligned spool) (answer : DiskAnswer) :
    Recording text store spool id (store.written id answer) (store.record text spool id answer) := by
  have known : store.contains id = true ↔ id ∈ store.seen.order := by
    simp [contains, BoundedIds.contains]
  unfold record written
  by_cases held : id ∈ store.seen.order
  · rw [if_pos (known.mpr held), if_pos (.inl (known.mpr held))]
    exact .held held
  rw [if_neg (mt known.mp held)]
  cases ensured : store.ensureHandle spool answer.reopen with
  | error error =>
    have stuck : store.handleOk = false ∧ answer.reopen.isSome = true := by
      unfold ensureHandle at ensured
      split at ensured
      · cases ensured
      · next bad =>
        refine ⟨eq_false_iff.mpr bad, ?_⟩
        cases reopen : answer.reopen with
        | none => rw [reopen] at ensured; cases ensured
        | some => rfl
    rw [if_pos (.inr stuck)]
    exact .stuck held error
  | ok ready =>
    obtain ⟨ready, opened⟩ := ready
    obtain ⟨seen, good, file, bytes, unsynced⟩ := ensureHandle_ok level ensured
    have free : ¬(store.contains id = true ∨ store.handleOk = false ∧ answer.reopen.isSome = true) := by
      rintro (hm | ⟨bad, fails⟩)
      · exact held (known.mp hm)
      · obtain ⟨error, reopen⟩ := Option.isSome_iff_exists.mp fails
        simp [ensureHandle, bad, reopen] at ensured
    rw [if_neg free]
    cases answer.append with
    | some failed =>
      refine .torn held _ failed.1 seen (fun _ => by rw [file, Spool.generation_append]) ?_ ?_
      · rw [file, Spool.bytes_append, bytes]
      · rw [file, Spool.unsynced_append, bytes]
        exact append_subset.mpr ⟨subset_append_left .., subset_append_of_subset_right _ unsynced⟩
    | none =>
      let flushed := (opened.append ready.file (text.line id) (text.line id).length).sync ready.file
      have level : ready.Aligned flushed := fun _ => by simp [flushed, file]
      have entered : (ready.enter text flushed id answer.compaction).2.1.seen =
          ready.seen.insert id ∧ _ := enter_spec answer.compaction level
      rw [seen] at entered
      change Recording text store spool id .whole (ready.enter text flushed id answer.compaction)
      generalize ready.enter text flushed id answer.compaction = outcome at entered ⊢
      exact .whole held outcome.1 entered.1 entered.2.1 (fun lists =>
        entered.2.2.1 (lists.append (by simp [flushed, file, bytes])))
          (entered.2.2.2 (by simp [flushed, file, Spool.sync]))

end SeenStore

open SeenStore

namespace Ledger

/-- What the log may be read back as: the set of the open store, or that set with the
    id whose append failed. -/
inductive Candidate (ledger : Ledger ε cap) (held : BoundedIds ε cap) : BoundedIds ε cap → Prop
  | same : Candidate ledger held held
  | further (id : ε) (spoiled : ledger.spoiled = true) (absent : id ∉ held.order)
      (called : ∃ call ∈ ledger.calls, call.id = id) (latest : Latest ledger.calls id) :
      Candidate ledger held (held.insert id)

structure Sound (text : IdText ε) (ledger : Ledger ε cap) (store : SeenStore ε cap) : Prop where
  running : ledger.store = some store
  aligned : store.Aligned ledger.spool
  lists : ledger.spoiled = false → Lists text ledger.spool store.seen
  current : ledger.spool.bytes ∈ ledger.recent
  reads : ∀ bytes ∈ ledger.recent, ∃ seen, Reads text bytes seen ∧ ledger.Candidate store.seen seen
  keeps : Keeps cap ledger.calls store.seen.order

variable {ledger : Ledger ε cap} {store : SeenStore ε cap}

lemma Sound.candidate (sound : ledger.Sound text store) {seen}
    (picked : ledger.Candidate store.seen seen) : Keeps cap ledger.calls seen.order := by
  cases picked with
  | same => exact sound.keeps
  | further id hs hg hc hl =>
    exact .entered sound.keeps.passed sound.keeps.placed (fun other _ => sound.keeps.kept other)
      hl hc hg

lemma opened_sound (lawful : text.Lawful) {spool : Spool} {seen : BoundedIds ε cap}
    (reads : Reads text spool.bytes seen) (keeps : Keeps cap ledger.calls seen.order) :
    ∃ next cut, SeenStore.open text spool = .ok (next, cut) ∧ next.seen = seen ∧
      (ledger.opened text spool).Sound text next := by
  obtain ⟨next, cut, opens, rfl, good, file, lists⟩ := open_reads lawful reads
  refine ⟨next, cut, opens, rfl, ?_⟩
  simp only [Ledger.opened, opens]
  refine ⟨rfl, fun _ => file, fun _ => lists, by simp, fun bytes hm => ?_, keeps⟩
  refine ⟨next.seen, ?_, .same⟩
  rcases mem_cons.mp hm with rfl | hm
  · exact reads
  · rw [mem_singleton.mp hm]
    exact Lists.reads lists

lemma Sound.opened (lawful : text.Lawful) (sound : ledger.Sound text store) {spool}
    (recent : spool.bytes ∈ ledger.recent) :
    ∃ next cut, SeenStore.open text spool = .ok (next, cut) ∧
      Keeps cap ledger.calls next.seen.order ∧ (ledger.opened text spool).Sound text next := by
  obtain ⟨seen, reads, hp⟩ := sound.reads _ recent
  have keeps := sound.candidate hp
  obtain ⟨next, cut, opens, rfl, ho⟩ := opened_sound lawful reads keeps
  exact ⟨next, cut, opens, keeps, ho⟩

lemma Candidate.called {next : Ledger ε cap} {seen} {call : Call ε}
    (candidate : ledger.Candidate store.seen seen) (spoiled : next.spoiled = ledger.spoiled)
    (calls : next.calls = ledger.calls ++ [call])
    (held : ledger.spoiled = true → call.held = true) : next.Candidate store.seen seen := by
  cases candidate with
  | same => exact .same
  | further id bad hg hc hl =>
    obtain ⟨earlier, hm, same⟩ := hc
    refine .further id (spoiled.trans bad) hg ?_ ?_
    · exact ⟨earlier, calls ▸ mem_append_left _ hm, same⟩
    · exact calls ▸ hl.called (held bad)

lemma Sound.recorded (lawful : text.Lawful) (sound : ledger.Sound text store) (id : ε)
    (answer : DiskAnswer) (allowed : store.contains id = true ∨ ledger.spoiled = false) :
    ∃ next, (ledger.recorded text store id answer).Sound text next := by
  have recording : Recording text store ledger.spool id (store.written id answer)
    (store.record text ledger.spool id answer) := record_recording sound.aligned answer
  have known : store.contains id = decide (id ∈ store.seen.order) := rfl
  refine ⟨(store.record text ledger.spool id answer).2.1, ?_⟩
  unfold Ledger.recorded
  generalize store.record text ledger.spool id answer = outcome at recording ⊢
  generalize store.written id answer = written at recording ⊢
  rw [known] at allowed ⊢
  cases recording with
  | held member =>
    refine ⟨rfl, sound.aligned, sound.lists, sound.current, fun bytes recent => ?_,
      sound.keeps.called (fun _ => member) fun fresh => absurd member (by simpa using fresh)⟩
    obtain ⟨seen, reads, candidate⟩ := sound.reads bytes recent
    exact ⟨seen, reads, candidate.called rfl rfl fun _ => by simpa using member⟩
  | stuck absent =>
    have clean : ledger.spoiled = false := by simpa [absent] using allowed
    refine ⟨rfl, sound.aligned, sound.lists, sound.current, fun bytes recent => ?_,
      sound.keeps.called (fun held => absurd (by simpa using held) absent) fun _ => ⟨absent, rfl⟩⟩
    obtain ⟨seen, reads, candidate⟩ := sound.reads bytes recent
    exact ⟨seen, reads, candidate.called rfl rfl fun bad => absurd (clean.symm.trans bad) (by simp)⟩
  | @torn absent error arrived after written seen aligned bytes =>
    have clean : ledger.spoiled = false := by simpa [absent] using allowed
    obtain ⟨ids, lines, retains⟩ := sound.lists clean
    refine ⟨rfl, aligned, fun unspoiled => ?_, ?_, fun recalled recent => ?_, ?_⟩
    · have none : arrived = 0 := by simpa [clean] using unspoiled
      exact ⟨ids, by rw [bytes, none, take_zero, append_nil, lines], retains.trans seen.symm⟩
    · rw [bytes]
      exact mem_append_right _ (mem_map.mpr ⟨arrived, by simp, rfl⟩)
    · rw [seen]
      rcases mem_append.mp recent with recent | recent
      · obtain ⟨read, reads, candidate⟩ := sound.reads recalled recent
        cases candidate with
        | same => exact ⟨_, reads, .same⟩
        | further _ bad => exact absurd (clean.symm.trans bad) (by simp)
      · obtain ⟨part, within, rfl⟩ := mem_map.mp recent
        rw [lines]
        rcases (reads_append lawful ids id part : Reads text _ (retained ids : BoundedIds ε cap) ∨ _)
          with reads | ⟨more, reads⟩
        · exact ⟨_, reads, retains ▸ .same⟩
        · rw [retains] at reads
          have torn : 0 < arrived := lt_of_lt_of_le more
            (Nat.lt_succ_iff.mp (mem_range.mp within))
          exact ⟨_, reads, .further id (by simp [torn]) absent
            ⟨_, mem_append_right _ mem_cons_self, rfl⟩ (latest_last ledger.calls _)⟩
    · rw [seen]
      exact sound.keeps.called (fun held => absurd (by simpa using held) absent)
        fun _ => ⟨absent, rfl⟩
  | @whole absent result after written seen aligned lists =>
    have clean : ledger.spoiled = false := by simpa [absent] using allowed
    have listed := lists (sound.lists clean)
    have line : Reads text (ledger.spool.bytes ++ text.line id) (store.seen.insert id) := by
      obtain ⟨ids, lines, retains⟩ := sound.lists clean
      refine ⟨ids ++ [id], [], ?_, by simp, by simp, ?_⟩
      · simp [lines, IdText.lines]
      · simp [retained, ← retains]
    refine ⟨rfl, aligned, fun _ => seen ▸ listed, by simp, fun bytes recent => ?_, ?_⟩
    · refine ⟨store.seen.insert id, ?_, seen ▸ .same⟩
      rcases mem_cons.mp recent with rfl | recent
      · exact line
      · rw [mem_singleton.mp recent]
        exact listed.reads
    · rw [seen]
      refine .entered (fun other member => ?_)
        (sound.keeps.placed.called fun _ => absent)
        (fun other different => (sound.keeps.kept other).called fun same => absurd same.symm different)
        (latest_last ledger.calls _) ⟨_, mem_append_right _ mem_cons_self, rfl⟩ absent
      obtain ⟨call, among, same⟩ := sound.keeps.passed other member
      exact ⟨call, mem_append_left _ among, same⟩

lemma start_sound (lawful : text.Lawful) :
    ∃ store, (start text : Ledger ε cap).Sound text store := by
  have reads : Reads text Spool.empty.bytes (.new : BoundedIds ε cap) := reads_lines []
  have keeps : Keeps cap (⟨.empty, none, [], false, []⟩ : Ledger ε cap).calls
      (.new : BoundedIds ε cap).order := by
    refine ⟨fun id hm => absurd hm not_mem_nil, fun _ _ _ split => ?_, fun id => ?_⟩
    · exact absurd split (by simp [BoundedIds.new])
    · rintro ok since ⟨before, split⟩
      exact absurd split (by simp)
  obtain ⟨store, _, _, _, ho⟩ := opened_sound lawful reads keeps
  exact ⟨store, ho⟩

lemma Sound.step (lawful : text.Lawful) (sound : ledger.Sound text store) {event}
    (allows : ledger.allows event = true) : ∃ next, (ledger.step text event).Sound text next := by
  cases event with
  | record id answer =>
    simp only [Ledger.allows, sound.running, or_eq_true, not_eq_true'] at allows
    simp only [Ledger.step, sound.running]
    exact sound.recorded lawful id answer allows
  | restart =>
    obtain ⟨next, _, _, _, ho⟩ := sound.opened lawful sound.current
    exact ⟨next, ho⟩
  | powerLoss =>
    obtain ⟨next, _, _, _, ho⟩ := sound.opened lawful (of_decide_eq_true allows)
    exact ⟨next, ho⟩

lemma Sound.run (lawful : text.Lawful) (events : List (Event ε)) (sound : ledger.Sound text store)
    (allowed : ledger.allowed text events = true) :
    ∃ next, (events.foldl (Ledger.step text) ledger).Sound text next := by
  induction events generalizing ledger store with
  | nil => exact ⟨store, sound⟩
  | cons event events ih =>
    rw [Ledger.allowed, and_eq_true] at allowed
    obtain ⟨next, hs⟩ := sound.step lawful allowed.1
    exact ih hs allowed.2

/-- What the log held and was not synced, it held lately. -/
def Unsynced (ledger : Ledger ε cap) : Prop := ledger.spool.unsynced ⊆ ledger.recent

lemma Unsynced.recorded (unsynced : ledger.Unsynced) (aligned : store.Aligned ledger.spool)
    (id : ε) (answer : DiskAnswer) : (ledger.recorded text store id answer).Unsynced := by
  have recording : Recording text store ledger.spool id (store.written id answer)
    (store.record text ledger.spool id answer) := record_recording aligned answer
  unfold Ledger.recorded Unsynced
  generalize store.record text ledger.spool id answer = outcome at recording ⊢
  generalize store.written id answer = written at recording ⊢
  cases recording with
  | held => exact unsynced
  | stuck => exact unsynced
  | torn _ _ arrived _ _ _ later =>
    refine Subset.trans later
      (append_subset.mpr ⟨?_, subset_append_of_subset_left _ unsynced⟩)
    refine subset_append_of_subset_right _ (map_subset _ fun part early => ?_)
    exact mem_range.mpr (lt_succ_of_lt (mem_range.mp early))
  | whole _ _ _ _ _ synced => simp [synced]

lemma opened_unsynced {spool : Spool} (synced : spool.unsynced = [])
    (opens : (SeenStore.open text spool : Except String (SeenStore ε cap × Spool)).isOk = true) :
    (ledger.opened text spool).Unsynced := by
  have created : spool.openAppend.unsynced = [] :=
    eq_nil_of_subset_nil (synced ▸ spool.unsynced_openAppend)
  unfold Ledger.opened SeenStore.open Unsynced at *
  cases loaded : SeenStore.load text (spool.bytes.length + 1) spool.bytes
      (.new : BoundedIds ε cap) with
  | error => rw [loaded] at opens; cases opens
  | ok read =>
    dsimp only [bind, Except.bind, pure, Except.pure]
    split_ifs
    · simp [Spool.setLen, created]
    · simp [created]

/-- As what a run allows, with what the disk does in its place: a loss of power takes back
    bytes that were not synced, and a restart finds the log synced. -/
def spares (ledger : Ledger ε cap) : Event ε → Bool
  | .record id answer => ledger.allows (.record id answer)
  | .restart => ledger.spool.unsynced.isEmpty
  | .powerLoss (.displaced _) => false
  | .powerLoss _ => true

def spared (text : IdText ε) : Ledger ε cap → List (Event ε) → Bool
  | _, [] => true
  | ledger, event :: events => ledger.spares event && spared text (ledger.step text event) events

lemma Sound.allows (sound : ledger.Sound text store) (unsynced : ledger.Unsynced) {event}
    (spares : ledger.spares event = true) : ledger.allows event = true := by
  cases event with
  | record => exact spares
  | restart => rfl
  | powerLoss loss =>
    refine decide_eq_true ?_
    cases loss with
    | nothing => exact sound.current
    | displaced => cases spares
    | unsynced index =>
      cases lost : ledger.spool.unsynced[index]? with
      | none => simpa [Spool.lose, Spool.survivor, Spool.bytes, lost] using sound.current
      | some bytes =>
        simpa [Spool.lose, Spool.survivor, Spool.bytes, lost] using
          unsynced (mem_of_getElem? lost)

lemma Unsynced.step (lawful : text.Lawful) (sound : ledger.Sound text store)
    (unsynced : ledger.Unsynced) {event} (spares : ledger.spares event = true) :
    (ledger.step text event).Unsynced := by
  have opens {spool : Spool} (recent : spool.bytes ∈ ledger.recent) :
      (SeenStore.open text spool : Except String (SeenStore ε cap × Spool)).isOk = true := by
    obtain ⟨next, cut, opens, -⟩ := sound.opened lawful recent
    rw [opens]
    rfl
  cases event with
  | record id answer =>
    simp only [Ledger.step, sound.running]
    exact unsynced.recorded sound.aligned id answer
  | restart => exact opened_unsynced (isEmpty_iff.mp spares) (opens sound.current)
  | powerLoss =>
    exact opened_unsynced rfl (opens (of_decide_eq_true (sound.allows unsynced spares)))

lemma Sound.spared (lawful : text.Lawful) (events : List (Event ε))
    (sound : ledger.Sound text store) (unsynced : ledger.Unsynced)
    (spared : ledger.spared text events = true) : ledger.allowed text events = true := by
  induction events generalizing ledger store with
  | nil => rfl
  | cons event events ih =>
    obtain ⟨spares, later⟩ := and_eq_true_iff.mp spared
    have allows := sound.allows unsynced spares
    obtain ⟨next, sound'⟩ := sound.step lawful allows
    exact and_eq_true_iff.mpr ⟨allows, ih sound' (unsynced.step lawful sound spares) later⟩

/-- Losses of bytes that were not synced meet what a run allows, as long as every restart finds
    the log synced. -/
lemma spared_allowed (lawful : text.Lawful) (events : List (Event ε))
    (spared : (start text : Ledger ε cap).spared text events = true) :
    (start text : Ledger ε cap).allowed text events = true := by
  obtain ⟨store, sound⟩ : ∃ store, (start text : Ledger ε cap).Sound text store :=
    start_sound lawful
  exact sound.spared lawful events (opened_unsynced rfl rfl) spared

end Ledger

/-- Fewer than `cap` other ids were acknowledged. -/
def AmongLatest (cap : Nat) (id : ε) (since : List (Call ε)) : Prop :=
  (others id (since.filter Call.ok)).card < cap

/-- Every other id passed to `record` was acknowledged. -/
def Settled (id : ε) (since : List (Call ε)) : Prop :=
  ∀ call ∈ since, call.id ≠ id → ∃ later ∈ since, later.id = call.id ∧ later.ok = true

/-- What the path leads to when the log is opened next: as it is, or as a loss of power
    leaves it. -/
def Ledger.left (ledger : Ledger ε cap) : Option Loss → Spool
  | none => ledger.spool
  | some loss => ledger.spool.lose loss

lemma others_settled {id} {since : List (Call ε)} (fixed : Settled id since) :
    others id since = others id (since.filter Call.ok) := by
  ext other
  simp only [others, Finset.mem_erase, mem_toFinset, mem_map, mem_filter]
  refine and_congr_right fun hne => ⟨?_, ?_⟩
  · rintro ⟨call, among, rfl⟩
    obtain ⟨later, hm, hs, fine⟩ := fixed call among hne
    exact ⟨later, ⟨hm, fine⟩, hs⟩
  · rintro ⟨call, among, hs⟩
    exact ⟨call, among.1, hs⟩

/-- The log opens, lists only ids passed to `record`, and lists every id recorded and
    acknowledged since which fewer than `cap` others were acknowledged. -/
theorem dedupe_log_reopens (lawful : text.Lawful) (events : List (Event ε))
    (allowed : (Ledger.start text : Ledger ε cap).allowed text events = true) (loss : Option Loss)
    (back : ∀ lost ∈ loss, (Ledger.run text events : Ledger ε cap).bringsBack lost = true) :
    ∃ (store : SeenStore ε cap) (cut : Spool),
      SeenStore.open text ((Ledger.run text events : Ledger ε cap).left loss) = .ok (store, cut) ∧
      (∀ id, store.contains id = true →
        ∃ call ∈ (Ledger.run text events : Ledger ε cap).calls, call.id = id) ∧
      ∀ id ok since, Recorded (Ledger.run text events : Ledger ε cap).calls id ok since →
        Acknowledged id ok since → Settled id since → AmongLatest cap id since →
        store.contains id = true := by
  obtain ⟨first, hs⟩ : ∃ store, (Ledger.start text : Ledger ε cap).Sound text store :=
    Ledger.start_sound lawful
  obtain ⟨last, sound⟩ := hs.run lawful events allowed
  have recent : ((Ledger.run text events : Ledger ε cap).left loss).bytes ∈
      (Ledger.run text events : Ledger ε cap).recent := by
    cases loss with
    | none => exact sound.current
    | some lost => exact of_decide_eq_true (back lost rfl)
  obtain ⟨store, cut, ho, keeps, -⟩ := sound.opened lawful recent
  refine ⟨store, cut, ho, fun id hh => keeps.passed id (of_decide_eq_true hh), ?_⟩
  intro id ok since hn ha hf hl
  rcases keeps.kept id ok since hn ha with hm | crowd
  · exact decide_eq_true hm
  · rw [others_settled hf] at crowd
    exact absurd hl (not_lt.mpr crowd)

def sampleText : IdText (Fin 2) where
  hex id := List.replicate 63 48 ++ [if id = 0 then 48 else 49]
  validUtf8 bytes := bytes.all (· < 128)
  fromHex bytes :=
    if bytes = List.replicate 63 48 ++ [48] then some 0
    else if bytes = List.replicate 63 48 ++ [49] then some 1 else none

lemma sampleText_lawful : sampleText.Lawful where
  length := by decide
  newline := by decide
  utf8 := by decide
  fromHex := by decide

/-- An append that stops after one byte. -/
def tornAnswer : DiskAnswer := ⟨none, some (1, "no space left on device"), none⟩

/-- An append is torn, the process restarts, and the id is recorded again. -/
def sampleRetry : List (Event (Fin 2)) :=
  [.record 0 .fine, .record 1 tornAnswer, .restart, .record 1 .fine, .powerLoss .nothing]

theorem dedupe_log_reopens_retry :
    ∃ (store : SeenStore (Fin 2) maxSeenEntries) (cut : Spool),
      SeenStore.open sampleText
        ((Ledger.run sampleText sampleRetry : Ledger (Fin 2) maxSeenEntries).left none) =
          .ok (store, cut) ∧ store.contains 0 = true ∧ store.contains 1 = true := by
  have calls : (Ledger.run sampleText sampleRetry : Ledger (Fin 2) maxSeenEntries).calls =
      [⟨0, false, true⟩, ⟨1, false, false⟩, ⟨1, false, true⟩] := by decide +kernel
  obtain ⟨store, cut, ho, -, retains⟩ := dedupe_log_reopens sampleText_lawful sampleRetry
    (by decide +kernel : (Ledger.start sampleText : Ledger (Fin 2) maxSeenEntries).allowed
      sampleText sampleRetry = true) none (by simp)
  rw [calls] at retains
  refine ⟨store, cut, ho, ?_, ?_⟩
  · exact retains 0 true [⟨1, false, false⟩, ⟨1, false, true⟩] ⟨[], rfl⟩ (.inl rfl)
      (by simp [Settled]) (by decide +kernel : (others _ _).card < maxSeenEntries)
  · exact retains 1 true [] ⟨[⟨0, false, true⟩, ⟨1, false, false⟩], rfl⟩ (.inl rfl)
      (by simp [Settled]) (by decide +kernel : (others _ _).card < maxSeenEntries)

/-- Behind a torn append the next one makes a line that is no id: the acknowledged id
    is in the log, and the log does not open. -/
theorem torn_append_corrupts :
    (Ledger.run sampleText [.record 0 tornAnswer, .record 1 .fine] :
        Ledger (Fin 2) maxSeenEntries).calls = [⟨0, false, false⟩, ⟨1, false, true⟩] ∧
      (SeenStore.open sampleText (Ledger.run sampleText [.record 0 tornAnswer, .record 1 .fine] :
        Ledger (Fin 2) maxSeenEntries).spool :
          Except String (SeenStore (Fin 2) maxSeenEntries × Spool)).isOk = false := by
  decide +kernel

end Wyrd.Mailbox
