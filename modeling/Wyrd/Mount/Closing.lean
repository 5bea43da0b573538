import Wyrd.Mount.Plans
import Wyrd.Mount.Reservations

/-! # Closing a handle gives its reservation back

A handle that is dirty and no longer open has a task that will settle it: the commit of
its own release, or the fold of a mount that is destroyed. This holds as long as such a
fold gets its memory, nothing else works on a handle while it is closed, and folds give
back what they took. That the images a fold gathers are covered by reservations only needs
the mutation loop to answer a forcing handle with a commit or a failure.
-/

namespace Wyrd.Mount

open List

namespace Session

/-- The fold of a release, or of a mount that is destroyed. -/
def closesHandles : Forcer → Bool
  | .handle _ .release | .none => true
  | _ => false

/-- A forcing handle is told of a commit or of a failure. -/
def answers (task : Task) (answer : Answer) : Bool :=
  match task with
  | .submitted (.handle _ _) _ _ =>
    match answer.verdict with
    | .fold (.applied outcome) _ =>
      match outcome with
      | .committed _ => true
      | _ => false
    | _ => true
  | _ => true

/-- A section of a task is undisturbed: a base reads as long as its identity says, a
    forcing handle that lost its image to another fold took nothing itself, a mount that
    is destroyed finds no image taken, a fold that closes handles gets its memory, a
    forcing handle is told of a commit or of a failure, and no image of a destroyed
    mount is put back. -/
def undisturbed (limits : Limits) (session : Session) (task : Task) (answer : Answer) : Bool :=
  match task with
  | .reading handle change _ =>
    !answer.readable || (session.handles handle).all (readsWhole · change)
  | .gather _ (.handle own _) [] taken => taken.isEmpty || taken.any (·.handle = own)
  | .gather _ .none rest _ =>
    rest[answer.next]?.all fun handle => (session.handles handle).all (·.inflight.isNone)
  | .lease forcer taken =>
    !closesHandles forcer || session.budget.total + bytesOf taken ≤ limits.aggregate
  | .submitted (.handle _ _) _ _ => answers task answer
  | .submitted .none _ _ =>
    match answer.verdict with
    | .fold _ members => !members.contains .restored
    | _ => true
  | _ => true

/-- Nothing is changing a handle when it is released, or any handle when the mount is
    destroyed, and sections are undisturbed. -/
def allows (limits : Limits) (session : Session) : Event → Bool
  | .release handle => session.tasks.all fun task => changes task != some handle
  | .destroy => session.tasks.all fun task => (changes task).isNone
  | .advance index answer =>
    session.tasks[index]?.all fun task =>
      { session with tasks := session.tasks.eraseIdx index }.undisturbed limits task answer
  | _ => true

def allowed (limits : Limits) : Session → List Event → Bool
  | _, [] => true
  | session, event :: events =>
    session.allows limits event && (session.step limits event).allowed limits events

def hears (session : Session) : Event → Bool
  | .advance index answer => session.tasks[index]?.all (answers · answer)
  | _ => true

/-- The mutation loop answers every forcing handle of a run with a commit or a failure. -/
def answered (limits : Limits) : Session → List Event → Bool
  | _, [] => true
  | session, event :: events =>
    session.hears event && (session.step limits event).answered limits events

variable {strict : Bool} {limits : Limits} {session : Session} {task : Task} {answer : Answer} {handle : HandleId}
  {write : WriteHandle} {fold : Nat} {forcer : Forcer} {taken : List TakenMember}

lemma Settles.closesHandles (settles : Settles forcer handle) : closesHandles forcer = true := by
  cases forcer with
  | none => rfl
  | op => exact settles.elim
  | handle own purpose =>
    cases purpose with
    | release => rfl
    | commit => exact settles.elim
    | fsync => exact settles.elim

lemma AccountedBut.numbered (tally : session.Accounted strict) (foldIds : Nat) :
    { session with foldIds := foldIds }.Accounted strict :=
  ⟨tally.stands, tally.proper, tally.fresh, tally.known⟩

lemma misled_perm (perm : taken'.Perm taken) (own : misled (.lease forcer taken) = false) :
    misled (.lease forcer taken') = false := by
  cases forcer with
  | op => rfl
  | none => rfl
  | handle => simpa only [misled, perm.any_eq] using own

lemma Accounted.gathered (tally : (session.push (.gather fold forcer [] taken)).Accounted strict)
    (calm : strict = true →
      undisturbed limits session (.gather fold forcer [] taken) answer = true) :
    (session.gathered forcer taken).Accounted strict := by
  have leased (own : misled (.lease forcer taken) = false)
      (shut : ∀ handle, Closes handle (.gather fold forcer [] taken) →
        Settles forcer handle ∧ handle ∈ taken.map TakenMember.handle) :
      (session.push (.lease forcer
        (taken.mergeSort fun first second => first.seq ≤ second.seq))).Accounted strict :=
    tally.folds rfl rfl (mergeSort_perm ..) (misled_perm (mergeSort_perm ..) own) fun _ handle _ close =>
      (shut handle close).imp_right ((mergeSort_perm ..).map _).mem_iff.mpr
  have dropped (bare : taken = []) (next : List Task) (hc : ∀ handle, claimed next handle = 0)
      (hp : ∀ other ∈ next, Proper strict session.table other)
      (shut : ∀ handle, Closes handle (.gather fold forcer [] []) →
        ∃ other ∈ next, Closes handle other) :
      { session with tasks := next ++ session.tasks }.Accounted strict := by
    subst bare
    exact tally.moves next (fun handle _ => hc handle) hp fun _ handle _ _ => shut handle
  unfold Session.gathered
  cases forcer with
  | handle own purpose =>
    dsimp only
    split_ifs with mine
    · refine leased (by simpa [misled] using mine) fun handle shut => ⟨shut, ?_⟩
      obtain ⟨member, took, own'⟩ := any_eq_true.mp mine
      cases purpose with
      | commit => exact shut.elim
      | fsync => exact shut.elim
      | release =>
        cases (shut : own = handle)
        exact mem_map.mpr ⟨member, took, of_decide_eq_true own'⟩
    · cases strict with
      | false => exact tally.drop rfl |>.push (fun _ _ => rfl) (by simp [Proper, misled, changes])
      | true =>
        have bare : taken = [] := by simpa [undisturbed, mine] using calm rfl
        refine dropped bare [.force own purpose] (fun _ => rfl) (by simp [Proper, misled, changes])
          fun handle close => ⟨_, mem_singleton_self _, ?_⟩
        cases purpose <;> simp_all [Closes, Settles]
  | op => exact leased rfl fun handle shut => shut.elim
  | none =>
    dsimp only
    split_ifs with bare
    · exact dropped bare [] (fun _ => rfl) (by simp) fun handle shut => by
        simp [Closes] at shut
    · exact leased rfl fun handle shut => ⟨trivial, by simpa [Closes] using shut⟩

lemma settlePlan_told (told : answers (.submitted forcer taken bytes) answer = true)
    (plan : List PlanEntry) :
    misled (.settle forcer plan bytes (settlePlan forcer taken answer.verdict).2) = false := by
  cases forcer with
  | op => rfl
  | none => rfl
  | handle =>
    unfold answers at told
    unfold settlePlan
    dsimp only at told ⊢
    split
    · rfl
    · rfl
    · next outcome members verdict =>
      rw [verdict] at told
      split_ifs
      · rfl
      · cases outcome with
        | failed => rfl
        | applied outcome => cases outcome <;> first | rfl | exact absurd told (by simp)

/-- A handle its own commit finds clean needs no task. -/
lemma Accounted.forced (tally : (session.push (.force handle purpose)).Accounted strict)
    (clean : ∀ write, session.handles handle = some write → write.dirty = false) (next : List Task)
    (claims : ∀ handle, claimed next handle = 0)
    (proper : ∀ other ∈ next, Proper strict session.table other) :
    { session with tasks := next ++ session.tasks }.Accounted strict := by
  refine tally.moves next (fun handle _ => claims handle) proper ?_
  rintro - other - ⟨write, hf, hd⟩ ⟨rfl, -⟩
  exact absurd ((clean write hf).symm.trans hd) (by simp)

lemma Accounted.resume (tally : (session.push task).Accounted strict)
    (told : answers task answer = true)
    (calm : strict = true → undisturbed limits session task answer = true) :
    (session.resume limits task answer).Accounted strict := by
  cases task with
  | buffer handle change =>
    have dropped : session.Accounted strict :=
      tally.moves [] (fun _ _ => rfl) (by simp) fun _ _ _ _ shut => shut.elim
    simp only [Session.resume]
    split
    · exact dropped
    · next write hf =>
      split_ifs with blocked fails
      · exact tally
      · exact dropped
      · rw [Bool.or_eq_true, not_or, Bool.not_eq_true, Bool.not_eq_true] at blocked
        have ho (strictly : strict = true) : handle ∈ session.table :=
          (tally.proper _ (mem_cons_self ..)).2 strictly handle rfl
        exact dropped.change hf ho blocked.1 (by simpa using blocked.2)
          (Bool.eq_false_iff.mpr fails) change
  | reading =>
    simp only [Session.resume]
    split
    · next missing =>
      have bare := (tally.missing missing).1
      simp [Session.push, Task.claims, Task.taken, takenOf] at bare
    · next write hf =>
      split_ifs with hr
      · refine tally.changeRead hf fun strictly => ?_
        simpa [undisturbed, hr, hf] using calm strictly
      · exact tally.unread hf
  | force handle purpose =>
    simp only [Session.resume]
    split
    · next missing => exact tally.forced (by simp [missing]) [] (fun _ => rfl) (by simp)
    · next write hf =>
      have only (clean : write.dirty = false) :
          ∀ other, session.handles handle = some other → other.dirty = false := by
        intro other hf'
        cases hf.symm.trans hf'
        exact clean
      split_ifs with blocked fails dirty
      · exact tally
      · refine tally.forced (only ?_) [] (fun _ => rfl) (by simp)
        by_contra dirty
        have hf' : (session.push (.force handle purpose)).handles handle = some write := hf
        have sane := (tally.at hf').1.sane (by simpa using dirty)
        exact absurd (fails.symm.trans sane) (by simp)
      · exact tally.moves [.enlist handle purpose] (fun _ _ => rfl)
          (by simp [Proper, misled, changes]) fun _ other _ _ shut =>
            ⟨_, mem_singleton_self _, shut⟩
      · have clean := only (by simpa using dirty)
        split
        · exact tally.forced clean [.fsync _] (fun _ => rfl) (by simp [Proper, misled, changes])
        · exact tally.forced clean [] (fun _ => rfl) (by simp)
  | enlist handle purpose =>
    refine (tally.moves [.gather session.foldIds (.handle handle purpose)
      (session.table ++ [handle]).dedup []] (fun _ _ => rfl) (by simp [Proper, misled, changes])
      ?_).numbered _
    rintro - other - - ⟨rfl, rfl⟩
    exact ⟨_, mem_singleton_self _, rfl⟩
  | fsync =>
    have dropped : session.Accounted strict :=
      tally.moves [] (fun _ _ => rfl) (by simp) fun _ _ _ _ shut => shut.elim
    simp only [Session.resume]
    split
    · exact dropped
    · split_ifs
      · exact tally
      · exact dropped
      · exact dropped.push (fun _ _ => rfl) ⟨rfl, by simp [changes]⟩
      · split
        · exact dropped
        · exact dropped.push (fun _ _ => rfl) ⟨rfl, by simp [changes]⟩
  | gather fold forcer rest taken =>
    simp only [Session.resume]
    split
    · split_ifs with visited
      · subst visited
        exact tally.gathered calm
      · exact tally
    · next handle visiting =>
      split
      · next missing =>
        refine tally.folds rfl rfl (.refl _) rfl fun _ other dirty shut => ?_
        rw [← append_nil taken]
        refine shut.visit visiting fun _ hs => ?_
        obtain ⟨write, hf, -⟩ := dirty
        exact absurd ((hs ▸ hf).symm.trans missing) (by simp)
      · next write hf =>
        split_ifs with locked
        · exact tally
        · refine tally.take visiting hf (Bool.eq_false_iff.mpr locked) (fun strictly free => ?_) _
          subst free
          simpa [undisturbed, visiting, hf] using calm strictly
  | lease forcer taken =>
    simp only [Session.resume]
    split
    · next refused =>
      refine tally.folds rfl rfl (.refl _) rfl fun strictly other _ shut => ?_
      have given : session.budget.total + bytesOf taken ≤ limits.aggregate := by
        simpa [undisturbed, shut.1.closesHandles] using calm strictly
      rw [WriteBudget.reserveFold, if_neg (not_lt.mpr given)] at refused
      cases refused
    · next budget reserved => exact tally.lease reserved
  | restore taken =>
    cases taken with
    | nil => exact tally.moves [] (fun _ _ => rfl) (by simp) fun _ _ _ _ shut => shut.elim
    | cons member rest =>
      exact tally.settleOne (.restore rest) rfl rfl rfl rfl .restored none fun _ _ shut => shut.elim
  | submitted forcer taken =>
    refine tally.folds rfl rfl (settlePlan_member forcer taken answer.verdict)
      (settlePlan_told told _) fun strictly other _ shut => ?_
    obtain ⟨settles, took⟩ := shut
    obtain ⟨member, hm, rfl⟩ := mem_map.mp took
    have closing : forcer.owns member = true ∨ ∀ outcome members,
        answer.verdict = .fold outcome members → Disposition.restored ∉ members := by
      cases forcer with
      | none =>
        refine .inr fun outcome members ruled => ?_
        simpa [undisturbed, ruled] using calm strictly
      | op => exact settles.elim
      | handle own purpose =>
        cases purpose with
        | release => exact .inl (decide_eq_true (Eq.symm settles))
        | commit => exact settles.elim
        | fsync => exact settles.elim
    obtain ⟨entry, plans, hs, putBack⟩ := settlePlan_closes hm closing
    exact ⟨entry, plans, by rw [hs], putBack⟩
  | settle forcer plan bytes conclusion =>
    have told := (tally.proper _ (mem_cons_self ..)).1
    cases plan with
    | cons entry rest =>
      refine tally.settleOne (.settle forcer rest bytes _) rfl rfl rfl ?_ _ _ fun other restored shut => ?_
      · split_ifs
        · cases forcer <;> rfl
        · cases forcer <;> cases conclusion <;> first | rfl | exact absurd told (by simp [misled])
      · obtain ⟨closing, plans, rfl, putBack⟩ := shut
        rcases mem_cons.mp plans with rfl | hl
        · exact absurd (restored rfl) putBack
        · exact ⟨closing, hl, rfl, putBack⟩
    | nil =>
      have ended := tally.settled
      cases forcer with
      | op => cases conclusion <;> exact ended
      | none => cases conclusion <;> exact ended
      | handle own purpose =>
        cases conclusion with
        | other => exact absurd told (by simp [misled])
        | error => cases purpose <;> exact ended
        | committed =>
          cases purpose with
          | commit => exact ended
          | release => exact ended
          | fsync => exact ended.push (fun _ _ => rfl) ⟨rfl, by simp [changes]⟩

lemma Accounted.retable (tally : session.Accounted strict) (table : List HandleId)
    (working : strict = true → ∀ task ∈ session.tasks, ∀ handle, changes task = some handle → handle ∈ table)
    (heard : strict = true → ∀ handle, session.DirtyAt handle → handle ∈ session.table →
      handle ∈ table ∨ ∃ task ∈ session.tasks, Closes handle task) :
    { session with table := table }.Accounted strict :=
  ⟨fun handle free => (tally.stands handle free).imp fun strictly hd hp =>
      hp.elim (heard strictly handle hd) .inr,
    fun task hm => ⟨(tally.proper task hm).1, fun strictly => working strictly task hm⟩,
    tally.fresh, tally.known⟩

lemma Accounted.opened (tally : session.Accounted strict) (clean : write.dirty = false)
    (landed : write.inflight = none) (bare : write.image = none) :
    { session.set session.nextHandle write with
      nextHandle := session.nextHandle + 1 }.Accounted strict := by
  obtain ⟨hu, unreserved⟩ := tally.missing (tally.fresh session.nextHandle le_rfl)
  have but : { session with nextHandle := session.nextHandle + 1 }.AccountedBut strict
      (some session.nextHandle) :=
    ⟨fun other _ => tally.stands other (by simp), tally.proper,
      fun other unused => tally.fresh other (Nat.le_of_succ_le unused), by simp⟩
  exact (but.set write).close (Function.update_self ..) hu unreserved
    (.clean clean landed fun _ => bare) (by simp [clean])

lemma Accounted.repin (tally : session.Accounted strict)
    (hf : session.handles handle = some write) (free : session.locked handle = false)
    (clean : write.dirty = false) (base : FileIdentity) (capture : Bytes) :
    (session.set handle { write with base := base, capture := capture }).Accounted strict := by
  have stands := (tally.at hf).1
  generalize holding : claimed session.tasks handle = claims at stands
  generalize hb : session.budget.entry handle = entry at stands
  cases stands with
  | clean _ hl bare =>
    exact ((tally.but hf).set _).close (Function.update_self ..) holding hb
      (.clean clean hl bare) (by simp [clean])
  | reading change =>
    exact absurd (holding ▸ Multiset.mem_singleton_self _) (unlocked_claims free change _)
  | buffered _ _ dirty => exact absurd (clean.symm.trans dirty) (by simp)
  | taken _ _ _ dirty => exact absurd (clean.symm.trans dirty) (by simp)
  | dropped _ _ _ dirty => exact absurd (clean.symm.trans dirty) (by simp)

lemma Accounted.step (accounted : session.Accounted strict) (told : session.hears event = true)
    (calm : strict = true → session.allows limits event = true) :
    (session.step limits event).Accounted strict := by
  cases event with
  | opened =>
    exact (accounted.opened rfl rfl rfl).retable _
      (fun strictly task member handle changing =>
        mem_cons_of_mem _ ((accounted.proper task member).2 strictly handle changing))
      fun _ handle _ opened => .inl (mem_cons_of_mem _ opened)
  | buffer =>
    simp only [Session.step]
    split_ifs with opened
    · exact accounted.push (fun _ _ => rfl)
        ⟨rfl, fun _ other changing => Option.some.inj changing ▸ opened⟩
    · exact accounted
  | commit | fsync =>
    simp only [Session.step]
    split_ifs
    · exact accounted.push (fun _ _ => rfl) ⟨rfl, by simp [changes]⟩
    · exact accounted
  | forceOp skipPaths =>
    have pushed : (session.push
        (.gather session.foldIds (.op skipPaths) session.table [])).Accounted strict :=
      accounted.push (fun _ _ => rfl) ⟨rfl, by simp [changes]⟩
    exact pushed.numbered _
  | repin handle base capture =>
    simp only [Session.step]
    split
    · exact accounted
    · next write found =>
      split_ifs with busy
      · exact accounted
      · simp only [Bool.or_eq_true, not_or, Bool.not_eq_true] at busy
        exact accounted.repin found busy.1.1 busy.1.2 base capture
  | release handle =>
    simp only [Session.step]
    split_ifs
    · have pushed : (session.push (.force handle .release)).Accounted strict :=
        accounted.push (fun _ _ => rfl) ⟨rfl, by simp [changes]⟩
      refine pushed.retable _ (fun strictly task member other changing => ?_)
        fun _ other dirty opened => ?_
      · refine (mem_erase_of_ne ?_).mpr ((pushed.proper task member).2 strictly other changing)
        rintro rfl
        rcases mem_cons.mp member with rfl | member
        · cases changing
        · have unchanged := all_eq_true.mp (calm strictly) task member
          simp [changing] at unchanged
      · by_cases same : other = handle
        · exact .inr ⟨.force handle .release, mem_cons_self .., same.symm, rfl⟩
        · exact .inl ((mem_erase_of_ne same).mpr opened)
    · exact accounted
  | destroy =>
    have candidate {handle : HandleId} (dirty : session.DirtyAt handle)
        (opened : handle ∈ session.table) : handle ∈ session.candidates := by
      obtain ⟨write, found, dirty⟩ := dirty
      have sane := (accounted.at found).1.sane dirty
      exact mem_filter.mpr ⟨opened, by simp [found, dirty, sane]⟩
    have working (strictly : strict = true) (task : Task) (member : task ∈ session.tasks) (handle : HandleId)
        (changing : changes task = some handle) : handle ∈ ([] : List HandleId) := by
      have unchanged := all_eq_true.mp (calm strictly) task member
      simp [changing] at unchanged
    simp only [Session.step]
    split_ifs with nothing
    · refine accounted.retable _ working fun _ handle dirty opened => ?_
      exact absurd (nothing ▸ candidate dirty opened) not_mem_nil
    · have pushed : (session.push (.gather session.foldIds .none session.candidates [])).Accounted strict :=
        accounted.push (fun _ _ => rfl) ⟨rfl, by simp [changes]⟩
      refine (pushed.retable [] (fun strictly task member => ?_) fun _ handle dirty opened =>
        .inr ⟨_, mem_cons_self .., .inl (candidate dirty opened)⟩).numbered _
      rcases mem_cons.mp member with rfl | member
      · simp [changes]
      · exact working strictly task member
  | advance =>
    simp only [Session.step]
    split
    · exact accounted
    · next task found =>
      refine Accounted.resume (accounted.perm (tasks_perm found)) ?_ fun strictly => ?_
      · simpa [Session.hears, found] using told
      · simpa [Session.allows, found] using calm strictly

lemma accounted_new : new.Accounted strict :=
  ⟨fun _ _ => ⟨rfl, rfl⟩, by simp [new], fun _ _ => rfl, by simp⟩

lemma run_accounted (accounted : session.Accounted strict)
    (told : session.answered limits events = true)
    (calm : strict = true → session.allowed limits events = true) :
    (events.foldl (step limits) session).Accounted strict := by
  induction events generalizing session with
  | nil => exact accounted
  | cons event events ih =>
    obtain ⟨now, later⟩ := Bool.and_eq_true_iff.mp told
    exact ih (accounted.step now fun strictly => (Bool.and_eq_true_iff.mp (calm strictly)).1) later
      fun strictly => (Bool.and_eq_true_iff.mp (calm strictly)).2

lemma undisturbed_answers (calm : undisturbed limits session task answer = true) :
    answers task answer = true := by
  unfold answers
  split
  · simpa only [undisturbed, answers] using calm
  · rfl

lemma allowed_answered (calm : session.allowed limits events = true) :
    session.answered limits events = true := by
  induction events generalizing session with
  | nil => rfl
  | cons event events ih =>
    obtain ⟨now, later⟩ := Bool.and_eq_true_iff.mp calm
    refine Bool.and_eq_true_iff.mpr ⟨?_, ih later⟩
    cases event with
    | advance index =>
      simp only [allows, Option.all_eq_true] at now
      exact (Option.all_eq_true ..).mpr fun task found => undisturbed_answers (now task found)
    | _ => rfl

/-- What is reserved for a handle when no task is in progress. -/
lemma Accounted.quiet (tally : session.Accounted true) (idle : session.tasks = []) (length : Nat) :
    session.budget.entry handle = some length ↔ handle ∈ session.table ∧
      ∃ write image, session.handles handle = some write ∧ write.dirty = true ∧
        write.image = some image ∧ image.length = length := by
  have unheld : claimed session.tasks handle = 0 := by rw [idle]; rfl
  cases hf : session.handles handle with
  | none => simp [(tally.missing hf).2]
  | some =>
    obtain ⟨stands, hh⟩ := tally.at hf
    rw [Attended, idle, unheld] at *
    generalize session.budget.entry handle = entry at stands
    generalize holding : (0 : Multiset Claim) = claims at stands
    cases stands with
    | clean dirty => simp [dirty]
    | reading => exact absurd holding.symm (Multiset.singleton_ne_zero _)
    | buffered image reserved dirty _ _ held covers =>
      simpa [dirty, held, covers.2 rfl] using fun _ => hh rfl dirty
    | taken => exact absurd holding.symm (Multiset.singleton_ne_zero _)
    | dropped _ _ loose => cases loose

/-- When no operation is in progress, a handle has an entry in the budget exactly if it
    is open and dirty, with the length of its image, and the total is their sum. -/
theorem reservations_are_dirty_handles (limits : Limits) (events : List Event)
    (undisturbed : allowed limits new events = true) (idle : (run limits events).tasks = []) :
    (∀ handle length, (run limits events).budget.entry handle = some length ↔
      handle ∈ (run limits events).table ∧ ∃ write image,
        (run limits events).handles handle = some write ∧ write.dirty = true ∧
        write.image = some image ∧ image.length = length) ∧
    (run limits events).budget.total = (run limits events).budget.sum := by
  have tally : (run limits events).Accounted true :=
    run_accounted accounted_new (allowed_answered undisturbed) fun _ => undisturbed
  exact ⟨fun handle length => tally.quiet idle length, total_alone (by simp [idle])⟩

def closeOne : List Event :=
  writeOne ++ .release 0 :: List.replicate 5 goOn ++
    [.advance 0 ⟨0, true, true, .fold (.applied (.committed ⟨1, false, []⟩)) [], none⟩,
      .advance 0 ⟨0, true, true, .other, some [7]⟩, goOn]

/-- One handle is closed, another one is open with two bytes in it. -/
def closeOneWriteTwo : List Event :=
  closeOne ++ [.opened "more" ⟨0, false, []⟩ [] false false, .buffer 1 (.write 0 [7, 8]), goOn,
    goOn]

theorem reservations_are_dirty_handles_closed :
    allowed ⟨4, 4, 4⟩ new closeOneWriteTwo = true ∧
      (run ⟨4, 4, 4⟩ closeOneWriteTwo).budget.entry 0 = none ∧
      (run ⟨4, 4, 4⟩ closeOneWriteTwo).budget.entry 1 = some 2 ∧
      (1 ∈ (run ⟨4, 4, 4⟩ closeOneWriteTwo).table ∧ ∃ write image,
        (run ⟨4, 4, 4⟩ closeOneWriteTwo).handles 1 = some write ∧ write.dirty = true ∧
        write.image = some image ∧ image.length = 2) :=
  ⟨by decide +kernel, by decide +kernel, by decide +kernel,
    ((reservations_are_dirty_handles ⟨4, 4, 4⟩ closeOneWriteTwo (by decide +kernel)
      (by decide +kernel)).1 1 2).mp (by decide +kernel)⟩

/-- A handle is closed while its image takes more than half of the budget: its commit gets
    no memory, the image is put back into the closed handle, and its reservation stays. -/
theorem refused_release_leaks :
    (run ⟨1, 1, 1⟩ (writeOne ++ .release 0 :: List.replicate 7 goOn)).tasks = [] ∧
      (run ⟨1, 1, 1⟩ (writeOne ++ .release 0 :: List.replicate 7 goOn)).table = [] ∧
      (run ⟨1, 1, 1⟩ (writeOne ++ .release 0 :: List.replicate 7 goOn)).budget.entry 0 = some 1 := by
  decide +kernel

/-! ## Folds of admitted buffers -/

/-- What a fold has taken, its handles have reserved. -/
lemma Accounted.bytesOf_le {index : Nat} (accounted : session.Accounted strict)
    (found : session.tasks[index]? = some task) (fold : task.folds = true) :
    bytesOf task.taken ≤ session.budget.sum := by
  have claims (handle : HandleId) : claimed session.tasks handle =
      takenOf task.taken handle + claimed (session.tasks.eraseIdx index) handle := by
    rw [← folds_claims fold, ← claimed_cons]
    exact ((tasks_perm found).symm.map _).sum_eq
  have distinct : (task.taken.map TakenMember.handle).Nodup := by
    refine nodup_iff_count_le_one.mpr fun handle => ?_
    have held := Accounts.card_le (accounted.stands handle (by simp))
    rw [claims, Multiset.card_add, takenOf, Multiset.coe_card, length_map] at held
    rw [count, countP_map, countP_eq_length_filter]
    exact (Nat.le_add_right ..).trans held
  have covered (member : TakenMember) (took : member ∈ task.taken) : ∃ reserved,
      session.budget.entry member.handle = some reserved ∧ member.content.length ≤ reserved := by
    have claim := Multiset.mem_of_le (claims member.handle ▸ Multiset.le_add_right ..)
      (mem_takenOf took)
    cases found : session.handles member.handle with
    | none => exact absurd ((accounted.missing found).1 ▸ claim) (Multiset.notMem_zero _)
    | some write =>
      obtain ⟨-, ⟨reserved, entry, covers⟩, -⟩ := (accounted.at found).1.of_taken claim
      exact ⟨reserved, entry, covers.1⟩
  exact WriteBudget.sum_distinct_le distinct covered

/-- Whatever is admitted is within its bounds. When a fold comes to lease its memory and no
    other has any, its own handle is among those it gathered from, what it gathered is at
    most what is reserved, and it gets its memory if that fits beside the reservations:
    always where these take at most half of the aggregate. -/
theorem admitted_fold_fits (limits : Limits) (events : List Event)
    (told : answered limits new events = true) (index : Nat) (answer : Answer) (forcer : Forcer)
    (taken : List TakenMember)
    (leasing : (run limits events).tasks[index]? = some (.lease forcer taken))
    (alone : ∀ task ∈ (run limits events).tasks, task.leased = 0) :
    (∀ handle length, (run limits events).budget.entry handle = some length →
      length ≤ limits.perHandle) ∧
    (run limits events).budget.sum ≤ limits.aggregate ∧
    (∀ own purpose, forcer = .handle own purpose → own ∈ taken.map TakenMember.handle) ∧
    bytesOf taken ≤ (run limits events).budget.sum ∧
    (run limits (events ++ [.advance index answer])).tasks =
      (if limits.aggregate < (run limits events).budget.sum + bytesOf taken then .restore taken
        else .submitted forcer taken (bytesOf taken)) :: (run limits events).tasks.eraseIdx index ∧
    (2 * (run limits events).budget.sum ≤ limits.aggregate →
      (run limits (events ++ [.advance index answer])).tasks =
        .submitted forcer taken (bytesOf taken) :: (run limits events).tasks.eraseIdx index) := by
  have accounted : (run limits events).Accounted false :=
    run_accounted accounted_new told fun strictly => absurd strictly (by simp)
  have balanced := run_metered limits events
  have gathered : bytesOf taken ≤ (run limits events).budget.sum :=
    accounted.bytesOf_le leasing rfl
  have next := lease_alone answer leasing alone
  refine ⟨balanced.each, total_alone alone ▸ balanced.together, ?_, gathered, next, fun half => ?_⟩
  · rintro own purpose rfl
    have proper := (accounted.proper _ (mem_of_getElem? leasing)).1
    simpa [misled] using proper
  · rw [next, if_neg (by omega)]

/-- Two handles are dirty; the path of the second is gone when the first is committed. -/
def forceOneOfTwo : List Event :=
  writeOne ++ [.opened "more" ⟨0, false, []⟩ [] false false, .buffer 1 (.write 0 [8]),
    goOn, goOn, .commit 0] ++ List.replicate 5 (.advance 0 ⟨0, false, true, .other, none⟩)

theorem admitted_fold_fits_half :
    (run ⟨1, 4, 2⟩ forceOneOfTwo).budget.sum = 2 ∧
      (run ⟨1, 4, 2⟩ (forceOneOfTwo ++ [goOn])).tasks = [.submitted (.handle 0 .commit) [takenOne] 1] :=
  ⟨by decide +kernel, ((admitted_fold_fits ⟨1, 4, 2⟩ forceOneOfTwo (by decide +kernel) 0 _
    (.handle 0 .commit) [takenOne] (by decide +kernel) (by decide +kernel)).2.2.2.2.2
      (by decide +kernel)).trans (by decide +kernel)⟩

/-- The budget admits one byte where one fits, and refuses the fold that commits it. -/
theorem fold_refused_alone :
    answered ⟨1, 1, 1⟩ new forceOne = true ∧
      (run ⟨1, 1, 1⟩ forceOne).tasks = [.lease (.handle 0 .commit) [takenOne]] ∧
      (run ⟨1, 1, 1⟩ forceOne).budget.sum = 1 ∧
      (run ⟨1, 1, 1⟩ (forceOne ++ [goOn])).tasks = [.restore [takenOne]] := by
  decide +kernel

end Session

end Wyrd.Mount
