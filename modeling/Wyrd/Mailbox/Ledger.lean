import Wyrd.Mailbox.SeenStore

/-! # Reopening the dedupe log

A run of the store: calls of `record` whose writes may fail, restarts of the process,
and losses of power. Beside the store a run keeps the calls made, what the log held
since it was last opened or last took a whole line, and whether an append has failed
with bytes of its line left in the log.

The log opens again, retains what was recorded within the bound, and lists nothing
else, in every run in which no new id is recorded behind such an append and no loss of
power takes the log back behind what was opened or acknowledged.
-/

namespace Wyrd.Mailbox

open Finset Nat

/-- A call of `record`: whether the store held the id, and whether the call succeeded. -/
structure Call (ε : Type) where
  id : ε
  held : Bool
  ok : Bool
  deriving DecidableEq, Repr

inductive Event (ε : Type) where
  | record (id : ε) (answer : DiskAnswer)
  | restart
  | powerLoss (loss : Loss)

structure Ledger (ε : Type) (cap : Nat) where
  spool : Spool
  /-- The open store; none once opening has failed. -/
  store : Option (SeenStore ε cap)
  calls : List (Call ε)
  /-- An append has failed since the log was opened, and left bytes in it. -/
  spoiled : Bool
  /-- What the log held since it was opened or last took a whole line. -/
  recent : List Bytes

variable {ε : Type} {cap : Nat} [NeZero cap] [DecidableEq ε]

/-- What a call of `record` writes. -/
inductive Written where
  | nothing
  | torn (arrived : Nat)
  | whole

def SeenStore.written (store : SeenStore ε cap) (id : ε) (answer : DiskAnswer) : Written :=
  if store.contains id ∨ store.handleOk = false ∧ answer.reopen.isSome then .nothing
  else
    match answer.append with
    | some (arrived, _) => .torn arrived
    | none => .whole

namespace Ledger

/-- The log is opened over what the path leads to. -/
def opened (text : IdText ε) (ledger : Ledger ε cap) (spool : Spool) : Ledger ε cap :=
  match SeenStore.open text spool with
  | .ok (store, cut) => { ledger with
      spool := cut, store := some store, spoiled := false, recent := [spool.bytes, cut.bytes] }
  | .error _ => { ledger with spool := spool, store := none }

/-- A call of `record` on the open store. -/
def recorded (text : IdText ε) (ledger : Ledger ε cap) (store : SeenStore ε cap) (id : ε)
    (answer : DiskAnswer) : Ledger ε cap :=
  let outcome := store.record text ledger.spool id answer
  let before := ledger.spool.bytes
  { spool := outcome.2.2
    store := some outcome.2.1
    calls := ledger.calls ++ [⟨id, store.contains id, outcome.1.isOk⟩]
    spoiled :=
      match store.written id answer with
      | .torn arrived => ledger.spoiled || decide (0 < arrived)
      | _ => ledger.spoiled
    recent :=
      match store.written id answer with
      | .nothing => ledger.recent
      | .torn arrived =>
        ledger.recent ++ (List.range (arrived + 1)).map (before ++ (text.line id).take ·)
      | .whole => [before ++ text.line id, outcome.2.2.bytes] }

def step (text : IdText ε) (ledger : Ledger ε cap) : Event ε → Ledger ε cap
  | .record id answer =>
    match ledger.store with
    | none => ledger
    | some store => ledger.recorded text store id answer
  | .restart => ledger.opened text ledger.spool
  | .powerLoss loss => ledger.opened text (ledger.spool.lose loss)

def start (text : IdText ε) : Ledger ε cap := opened text ⟨.empty, none, [], false, []⟩ .empty

def run (text : IdText ε) (events : List (Event ε)) : Ledger ε cap :=
  events.foldl (step text) (start text)

/-- A loss of power brings back the log as it was since it was last opened or last
    took a whole line. -/
def bringsBack (ledger : Ledger ε cap) (loss : Loss) : Bool :=
  decide ((ledger.spool.lose loss).bytes ∈ ledger.recent)

/-- No new id is recorded behind an append that left bytes in the log, and no loss of
    power takes back more than it may. -/
def allows (ledger : Ledger ε cap) : Event ε → Bool
  | .record id _ =>
    match ledger.store with
    | none => true
    | some store => store.contains id || !ledger.spoiled
  | .restart => true
  | .powerLoss loss => ledger.bringsBack loss

def allowed (text : IdText ε) : Ledger ε cap → List (Event ε) → Bool
  | _, [] => true
  | ledger, event :: events => ledger.allows event && allowed text (ledger.step text event) events

end Ledger

lemma readUntil_line (gone : newline ∉ before) (short : before.length < limit) :
    readUntil limit (before ++ newline :: rest) = before ++ [newline] := by
  induction before generalizing limit with
  | nil =>
    obtain ⟨limit, rfl⟩ := exists_eq_succ_of_ne_zero (ne_of_gt short)
    simp [readUntil]
  | cons byte before ih =>
    obtain ⟨limit, rfl⟩ := exists_eq_succ_of_ne_zero (ne_of_gt (zero_lt_of_lt short))
    rw [List.mem_cons, not_or] at gone
    rw [List.cons_append, readUntil, if_neg (Ne.symm gone.1),
      ih gone.2 (by simpa using short), List.cons_append]

lemma readUntil_tail (gone : newline ∉ tail) (short : tail.length ≤ limit) :
    readUntil limit tail = tail := by
  induction tail generalizing limit with
  | nil => cases limit <;> rfl
  | cons byte tail ih =>
    obtain ⟨limit, rfl⟩ := exists_eq_succ_of_ne_zero
      (ne_of_gt (lt_of_lt_of_le (succ_pos _) short))
    rw [List.mem_cons, not_or] at gone
    rw [readUntil, if_neg (Ne.symm gone.1), ih gone.2 (by simpa using short)]

/-- The set a list of lines is read back as. -/
def retained (ids : List ε) : BoundedIds ε cap := ids.foldl .insert .new

/-- The log lists ids that are read back as a set, but for a torn last line. -/
def Reads (text : IdText ε) (bytes : Bytes) (seen : BoundedIds ε cap) : Prop :=
  ∃ ids tail, bytes = text.lines ids ++ tail ∧ newline ∉ tail ∧ tail.length ≤ maxRecordLen ∧
    retained ids = seen

section Reading

variable {text : IdText ε} (lawful : text.Lawful)

include lawful

lemma load_lines (ids : List ε) (gone : newline ∉ tail) (short : tail.length ≤ maxRecordLen)
    (seen : BoundedIds ε cap) (ample : (text.lines ids ++ tail).length < fuel) :
    SeenStore.load text fuel (text.lines ids ++ tail) seen =
      .ok (ids.foldl .insert seen, tail.length) := by
  induction ids generalizing seen fuel with
  | nil =>
    obtain ⟨fuel, rfl⟩ := exists_eq_succ_of_ne_zero (ne_of_gt (zero_lt_of_lt ample))
    have whole : readUntil (maxRecordLen + 1) tail = tail := readUntil_tail gone (by omega)
    have torn : tail.getLast? ≠ some newline := fun hl => gone (List.mem_of_getLast? hl)
    simp only [IdText.lines, List.flatMap_nil, List.nil_append, SeenStore.load, whole,
      List.foldl_nil, if_pos torn, if_neg (not_lt.mpr short)]
    split
    · simp [*]
    · rfl
  | cons id ids ih =>
    obtain ⟨fuel, rfl⟩ := exists_eq_succ_of_ne_zero (ne_of_gt (zero_lt_of_lt ample))
    have split : text.lines (id :: ids) ++ tail =
        text.hex id ++ newline :: (text.lines ids ++ tail) := by
      simp [IdText.lines, IdText.line]
    have long := lawful.length id
    have chunk : readUntil (maxRecordLen + 1) (text.hex id ++ newline :: (text.lines ids ++ tail)) =
        text.hex id ++ [newline] := readUntil_line (lawful.newline id) (by simp [long, maxRecordLen])
    rw [split] at ample ⊢
    have rest : (text.hex id ++ newline :: (text.lines ids ++ tail)).drop
        (text.hex id ++ [newline]).length = text.lines ids ++ tail := by
      rw [show text.hex id ++ newline :: (text.lines ids ++ tail) =
        (text.hex id ++ [newline]) ++ (text.lines ids ++ tail) by simp, List.drop_left]
    simp only [SeenStore.load, chunk, rest, List.append_eq_nil_iff, List.cons_ne_self, and_false,
      List.getLast?_append, List.getLast?_singleton, Option.some_or, List.dropLast_concat,
      lawful.utf8 id, lawful.fromHex id, ne_eq, not_true_eq_false, reduceCtorEq, if_false]
    rw [ih _ (by simp at ample ⊢; omega), List.foldl_cons]

lemma open_reads {spool : Spool} {seen : BoundedIds ε cap} (reads : Reads text spool.bytes seen) :
    ∃ store cut, SeenStore.open text spool = .ok (store, cut) ∧ store.seen = seen ∧
      store.handleOk = true ∧ store.file = cut.generation ∧
      ∃ ids, cut.bytes = text.lines ids ∧ retained ids = seen := by
  obtain ⟨ids, tail, split, hg, short, rfl⟩ := reads
  have loaded : SeenStore.load text (spool.bytes.length + 1) spool.bytes (.new : BoundedIds ε cap) =
      .ok (retained ids, tail.length) := by
    rw [split]
    exact load_lines lawful ids hg short .new (lt_succ_self _)
  refine ⟨_, _, by simp only [SeenStore.open, loaded]; rfl, rfl, rfl, rfl, ids, ?_, rfl⟩
  split_ifs with torn
  · simp [split]
  · have none : tail = [] := List.length_eq_zero_iff.mp (Nat.eq_zero_of_not_pos torn)
    simp [split, none]

omit lawful in
lemma reads_lines (ids : List ε) :
    Reads text (text.lines ids) (retained ids : BoundedIds ε cap) := by
  exact ⟨ids, [], by simp, by simp, by simp, rfl⟩

/-- An append behind whole lines: until the newline arrives, the log reads as before. -/
lemma reads_append (ids : List ε) (id : ε) (arrived : Nat) :
    Reads text (text.lines ids ++ (text.line id).take arrived) (retained ids : BoundedIds ε cap) ∨
      0 < arrived ∧ Reads text (text.lines ids ++ (text.line id).take arrived)
        ((retained ids : BoundedIds ε cap).insert id) := by
  by_cases early : arrived ≤ 64
  · have part : (text.line id).take arrived = (text.hex id).take arrived := by
      rw [IdText.line, List.take_append_of_le_length (by rw [lawful.length id]; exact early)]
    refine .inl ⟨ids, _, rfl, ?_, ?_, rfl⟩
    · rw [part]
      exact fun hm => lawful.newline id (List.mem_of_mem_take hm)
    · rw [part, List.length_take, lawful.length id, maxRecordLen]
      omega
  · have whole : (text.line id).take arrived = text.line id := by
      refine List.take_of_length_le ?_
      rw [IdText.line, List.length_append, lawful.length id, List.length_singleton]
      omega
    have grown : text.lines (ids ++ [id]) = text.lines ids ++ text.line id := by simp [IdText.lines]
    refine .inr ⟨by omega, ids ++ [id], [], by rw [whole, grown, List.append_nil], by simp, by simp, ?_⟩
    simp [retained]

end Reading

/-- A call found an id absent; `since` are the calls behind it. -/
def Recorded (calls : List (Call ε)) (id : ε) (ok : Bool) (since : List (Call ε)) : Prop :=
  ∃ before, calls = before ++ ⟨id, false, ok⟩ :: since

/-- That call or a later one for the same id succeeded. -/
def Acknowledged (id : ε) (ok : Bool) (since : List (Call ε)) : Prop :=
  ok = true ∨ ∃ call ∈ since, call.id = id ∧ call.ok = true

def others (id : ε) (calls : List (Call ε)) : Finset ε := (calls.map Call.id).toFinset.erase id

/-- An id is in the set, or as many others as the set takes were recorded since. -/
def Kept (cap : Nat) (calls : List (Call ε)) (order : List ε) (id : ε) : Prop :=
  ∀ ok since, Recorded calls id ok since → Acknowledged id ok since →
    id ∈ order ∨ cap ≤ (others id since).card

/-- What stands behind an id in the set was recorded behind it. -/
def Placed (calls : List (Call ε)) (order : List ε) : Prop :=
  ∀ before id behind, order = before ++ id :: behind → ∀ ok since, Recorded calls id ok since →
    ∀ other ∈ behind, ∃ call ∈ since, call.id = other

structure Keeps (cap : Nat) (calls : List (Call ε)) (order : List ε) : Prop where
  passed : ∀ id ∈ order, ∃ call ∈ calls, call.id = id
  placed : Placed calls order
  kept : ∀ id, Kept cap calls order id

section Calls

variable {calls earlier since : List (Call ε)} {order : List ε} {next : Call ε} {id : ε} {ok : Bool}

omit [DecidableEq ε] in
lemma recorded_append (noted : Recorded (calls ++ [next]) id ok since) :
    (∃ earlier, since = earlier ++ [next] ∧ Recorded calls id ok earlier) ∨
      since = [] ∧ next = ⟨id, false, ok⟩ := by
  obtain ⟨before, split⟩ := noted
  rcases List.eq_nil_or_concat' since with rfl | ⟨earlier, last, rfl⟩
  · obtain ⟨-, hs⟩ := List.append_inj' split rfl
    exact .inr ⟨rfl, List.singleton_inj.mp hs⟩
  · have shape : calls ++ [next] = (before ++ ⟨id, false, ok⟩ :: earlier) ++ [last] := by
      rw [split]; simp
    obtain ⟨hs, final⟩ := List.append_inj' shape rfl
    exact .inl ⟨earlier, by rw [List.singleton_inj.mp final], before, hs⟩

omit [DecidableEq ε] in
lemma Acknowledged.ofSilent (acked : Acknowledged id ok (earlier ++ [next]))
    (silent : next.id = id → next.ok = false) : Acknowledged id ok earlier := by
  rcases acked with now | ⟨later, hm, hs, fine⟩
  · exact .inl now
  rcases List.mem_append.mp hm with hm | hm
  · exact .inr ⟨later, hm, hs, fine⟩
  · obtain rfl := List.mem_singleton.mp hm
    exact absurd (fine.symm.trans (silent hs)) (by decide)

lemma others_append : (others id earlier).card ≤ (others id (earlier ++ [next])).card := by
  refine card_le_card (erase_subset_erase _ fun other hm => ?_)
  simp only [List.mem_toFinset, List.map_append, List.mem_append] at hm ⊢
  exact .inl hm

omit [NeZero cap] in
lemma Kept.called (hk : Kept cap calls order id) (silent : next.id = id → next.ok = false) :
    Kept cap (calls ++ [next]) order id := by
  intro ok since hn acked
  rcases recorded_append hn with ⟨earlier, rfl, old⟩ | ⟨rfl, rfl⟩
  · exact (hk ok earlier old (acked.ofSilent silent)).imp_right (le_trans · others_append)
  · rcases acked with now | ⟨_, hm, _⟩
    · exact absurd (now.symm.trans (silent rfl)) (by decide)
    · exact absurd hm List.not_mem_nil

omit [DecidableEq ε] in
lemma Placed.called (placed : Placed calls order) (new : next.held = false → next.id ∉ order) :
    Placed (calls ++ [next]) order := by
  intro before id behind split ok since hn other hm
  rcases recorded_append hn with ⟨earlier, rfl, old⟩ | ⟨-, rfl⟩
  · obtain ⟨call, ha, hs⟩ := placed before id behind split ok earlier old other hm
    exact ⟨call, List.mem_append_left _ ha, hs⟩
  · exact absurd (split ▸ List.mem_append_right _ List.mem_cons_self) (new rfl)

omit [NeZero cap] in
lemma Keeps.called (keeps : Keeps cap calls order) (held : next.held = true → next.id ∈ order)
    (new : next.held = false → next.id ∉ order ∧ next.ok = false) :
    Keeps cap (calls ++ [next]) order := by
  refine ⟨fun id hm => ?_, keeps.placed.called fun hg => (new hg).1, fun id => ?_⟩
  · obtain ⟨earlier, ha, hs⟩ := keeps.passed id hm
    exact ⟨earlier, List.mem_append_left _ ha, hs⟩
  by_cases there : id ∈ order
  · exact fun _ _ _ _ => .inl there
  refine (keeps.kept id).called fun hs => (new ?_).2
  exact Bool.eq_false_iff.mpr fun hk => there (hs ▸ held hk)

/-- Every other id was recorded before the last call for this one. -/
def Latest (calls : List (Call ε)) (id : ε) : Prop :=
  ∀ other ok since, other ≠ id → Recorded calls other ok since → ∃ call ∈ since, call.id = id

omit [DecidableEq ε] in
lemma latest_last (calls : List (Call ε)) (next : Call ε) : Latest (calls ++ [next]) next.id := by
  intro other ok since hne hn
  rcases recorded_append hn with ⟨earlier, rfl, -⟩ | ⟨-, rfl⟩
  · exact ⟨next, List.mem_append_right _ List.mem_cons_self, rfl⟩
  · exact absurd rfl hne

omit [DecidableEq ε] in
lemma Latest.called (latest : Latest calls id) (held : next.held = true) :
    Latest (calls ++ [next]) id := by
  intro other ok since hne hn
  rcases recorded_append hn with ⟨earlier, rfl, old⟩ | ⟨-, rfl⟩
  · obtain ⟨call, ha, hs⟩ := latest other ok earlier hne old
    exact ⟨call, List.mem_append_left _ ha, hs⟩
  · exact absurd held Bool.false_ne_true

omit [NeZero cap] in
lemma evicted_crowd {ids : BoundedIds ε cap} (first : ids.order = other :: behind)
    (full : cap ≤ ids.order.length) (gone : id ∉ ids.order)
    (behindCalls : ∀ old ∈ behind, ∃ call ∈ since, call.id = old)
    (newCall : ∃ call ∈ since, call.id = id) : cap ≤ (others other since).card := by
  have nodup := ids.nodup
  rw [first] at full gone nodup
  have once : (id :: behind).Nodup :=
    List.nodup_cons.mpr ⟨fun hm => gone (List.mem_cons_of_mem _ hm), nodup.of_cons⟩
  calc cap ≤ (id :: behind).length := full
    _ = (id :: behind).toFinset.card := (List.toFinset_card_of_nodup once).symm
    _ ≤ (others other since).card := by
      refine card_le_card fun old hm => ?_
      rw [List.mem_toFinset, List.mem_cons] at hm
      simp only [others, mem_erase, List.mem_toFinset, List.mem_map]
      rcases hm with rfl | hm
      · exact ⟨fun hs => gone (hs ▸ List.mem_cons_self), newCall⟩
      · exact ⟨fun hs => (List.nodup_cons.mp nodup).1 (hs ▸ hm), behindCalls old hm⟩

omit [DecidableEq ε] in
/-- The queue with room for one more is the whole queue, or lacks the oldest id of a
    full one. -/
lemma evict_shape (ids : BoundedIds ε cap) :
    ids.evict = ids.order ∨ ∃ oldest, cap ≤ ids.order.length ∧ ids.order = oldest :: ids.evict := by
  unfold BoundedIds.evict
  split
  · have := NeZero.pos cap
    cases shape : ids.order with
    | nil => simp_all
    | cons oldest => exact .inr ⟨oldest, by simp_all, rfl⟩
  · exact .inl rfl

lemma insert_order {ids : BoundedIds ε cap} (gone : id ∉ ids.order) :
    (ids.insert id).order = ids.evict ++ [id] := by
  rw [BoundedIds.insert, dif_neg gone]

lemma Keeps.entered {ids : BoundedIds ε cap}
    (passed : ∀ other ∈ ids.order, ∃ call ∈ calls, call.id = other)
    (placed : Placed calls ids.order) (hk : ∀ other, other ≠ id → Kept cap calls ids.order other)
    (latest : Latest calls id) (called : ∃ call ∈ calls, call.id = id) (gone : id ∉ ids.order) :
    Keeps cap calls (ids.insert id).order := by
  rw [insert_order gone]
  refine ⟨fun other hm => ?_, ?_, fun other => ?_⟩
  · rcases List.mem_append.mp hm with hm | hm
    · exact passed other (ids.evict_sublist.subset hm)
    · exact List.mem_singleton.mp hm ▸ called
  · intro before other behind split ok since noted last hm
    rcases List.eq_nil_or_concat' behind with rfl | ⟨inner, final, rfl⟩
    · exact absurd hm List.not_mem_nil
    have shape : ids.evict ++ [id] = (before ++ other :: inner) ++ [final] := by rw [split]; simp
    obtain ⟨hk, hs⟩ := List.append_inj' shape rfl
    have among : other ∈ ids.order := ids.evict_sublist.subset (hk ▸ by simp)
    rcases List.mem_append.mp hm with hm | hm
    · obtain ⟨pre, hw⟩ : ∃ pre, ids.order = pre ++ other :: inner := by
        rcases evict_shape ids with all | ⟨oldest, -, first⟩
        · exact ⟨before, all.symm.trans hk⟩
        · exact ⟨oldest :: before, by rw [first, hk]; rfl⟩
      exact placed pre other inner hw ok since noted last hm
    · obtain rfl := (List.mem_singleton.mp hm).trans (List.singleton_inj.mp hs).symm
      exact latest other ok since (fun hs => gone (hs ▸ among)) noted
  · intro ok since noted ha
    by_cases new : other = id
    · exact .inl (List.mem_append_right _ (List.mem_singleton.mpr new))
    rcases hk other new ok since noted ha with hm | crowd
    · rcases evict_shape ids with all | ⟨oldest, full, first⟩
      · exact .inl (List.mem_append_left _ (all ▸ hm))
      rw [first] at hm
      rcases List.mem_cons.mp hm with rfl | hm
      · exact .inr (evicted_crowd first full gone
          (placed [] other ids.evict first ok since noted) (latest other ok since new noted))
      · exact .inl (List.mem_append_left _ hm)
    · exact .inr crowd

end Calls

end Wyrd.Mailbox
