import Wyrd.Mount.Leases

/-! # Reservations are the dirty handles

What each handle has reserved is explained by where its image is: buffered in the
handle, taken by a fold in flight, or being read. The reservation covers the image. Read
strictly it is the length of the image, no image is lost, and a dirty handle is open or
some task ends with it clean.
-/

namespace Wyrd.Mount

open Option Function Multiset

@[simp] lemma resize_length (image : Bytes) (length : Nat) : (resize image length).length = length := by
  simp only [resize, List.length_append, List.length_take, List.length_replicate]
  omega

@[simp] lemma patch_length (image : Bytes) (offset : Nat) (data : Bytes) :
    (patch image offset data).length = max image.length (offset + data.length) := by
  simp only [patch, List.length_append, List.length_take, List.length_drop, resize_length]
  omega

/-- What a task holds of a handle: its lock and a reservation while it reads for a
    change, or its image. -/
inductive Claim where
  | reading (change : Change) (reserved : Nat)
  | taken (length : Nat)

/-- What a list of taken images holds of a handle. -/
def takenOf (taken : List TakenMember) (handle : HandleId) : Multiset Claim :=
  ((taken.filter (·.handle = handle)).map fun member => .taken member.content.length : List Claim)

namespace Task

def taken : Task → List TakenMember
  | .gather _ _ _ taken | .lease _ taken | .restore taken | .submitted _ taken _ => taken
  | .settle _ plan _ _ => plan.map PlanEntry.member
  | _ => []

def claims (task : Task) (handle : HandleId) : Multiset Claim :=
  (match task with
    | .reading reader change reserved => if reader = handle then {.reading change reserved} else 0
    | _ => 0) + takenOf task.taken handle

/-- A task of a fold holds the images it has taken, and no lock. -/
def folds : Task → Bool
  | .gather .. | .lease .. | .restore _ | .submitted .. | .settle .. => true
  | _ => false

end Task

def claimed (tasks : List Task) (handle : HandleId) : Multiset Claim :=
  (tasks.map (·.claims handle)).sum

@[simp] lemma claimed_cons (task : Task) (tasks : List Task) (handle : HandleId) :
    claimed (task :: tasks) handle = task.claims handle + claimed tasks handle := rfl

@[simp] lemma claimed_append (tasks other : List Task) (handle : HandleId) :
    claimed (tasks ++ other) handle = claimed tasks handle + claimed other handle := by
  simp [claimed]

/-- What a change reserves before the base is read. -/
def WriteHandle.projected (write : WriteHandle) : Change → Nat
  | .write offset data => max write.base.size (offset + data.length)
  | .truncate _ size => max write.base.size size
  | .setExec _ _ => write.base.size

/-- So much is reserved for an image of a length; strictly, that length. -/
def Covers (strict : Bool) (length reserved : Nat) : Prop :=
  length ≤ reserved ∧ (strict = true → length = reserved)

lemma Covers.rfl {strict : Bool} {length : Nat} : Covers strict length length :=
  ⟨le_rfl, fun _ => Eq.refl _⟩

/-- A handle, what tasks hold of it, and what is reserved for it. -/
inductive Standing (strict : Bool) (write : WriteHandle) : Multiset Claim → Option Nat → Prop
  | clean (dirty : write.dirty = false) (inflight : write.inflight = none)
      (image : write.append = false → write.image = none) : Standing strict write 0 none
  | reading (change : Change) (dirty : write.dirty = false) (inflight : write.inflight = none)
      (failed : write.failed = false) (image : write.image = none) :
      Standing strict write {.reading change (write.projected change)}
        (some (write.projected change))
  | buffered (image : Bytes) (reserved : Nat) (dirty : write.dirty = true)
      (inflight : write.inflight = none) (failed : write.failed = false)
      (held : write.image = some image) (covers : Covers strict image.length reserved) :
      Standing strict write 0 (some reserved)
  | taken (length reserved fold : Nat) (dirty : write.dirty = true)
      (inflight : write.inflight = some fold) (failed : write.failed = false)
      (image : write.image = none) (covers : Covers strict length reserved) :
      Standing strict write {.taken length} (some reserved)
  | dropped (fold reserved : Nat) (loose : strict = false) (dirty : write.dirty = true)
      (inflight : write.inflight = some fold) (failed : write.failed = false)
      (image : write.image = none) : Standing strict write 0 (some reserved)

section Standing

variable {strict : Bool} {write : WriteHandle} {claims : Multiset Claim} {entry : Option Nat}

section

variable (standing : Standing strict write claims entry)
include standing

lemma Standing.free (unread : ∀ change reserved, Claim.reading change reserved ∉ claims)
    (landed : write.inflight = none) :
    claims = 0 ∧ (write.dirty = false ∧ (write.append = false → write.image = none) ∧ entry = none ∨
      ∃ image reserved, write.dirty = true ∧ write.image = some image ∧ entry = some reserved ∧
        Covers strict image.length reserved) := by
  cases standing with
  | clean dirty _ image => exact ⟨rfl, .inl ⟨dirty, image, rfl⟩⟩
  | reading change => exact absurd (mem_singleton_self _) (unread change _)
  | buffered image reserved dirty _ _ hh covers =>
    exact ⟨rfl, .inr ⟨image, reserved, dirty, hh, rfl, covers⟩⟩
  | taken _ _ _ _ inflight => exact absurd (inflight.symm.trans landed) (by simp)
  | dropped _ _ _ _ inflight => exact absurd (inflight.symm.trans landed) (by simp)

lemma Standing.sane (dirty : write.dirty = true) : write.failed = false := by
  cases standing with
  | clean clean => exact absurd (clean.symm.trans dirty) (by simp)
  | reading _ clean => exact absurd (clean.symm.trans dirty) (by simp)
  | buffered _ _ _ _ sane => exact sane
  | taken _ _ _ _ _ sane => exact sane
  | dropped _ _ _ _ _ sane => exact sane

lemma Standing.of_reading (member : .reading change reserved ∈ claims) :
    claims = {.reading change reserved} ∧ entry = some reserved ∧
      reserved = write.projected change ∧ write.dirty = false ∧ write.inflight = none ∧
      write.failed = false ∧ write.image = none := by
  cases standing with
  | clean => exact absurd member (notMem_zero _)
  | reading other hd hi hf image =>
    cases mem_singleton.mp member
    exact ⟨rfl, rfl, rfl, hd, hi, hf, image⟩
  | buffered | dropped => exact absurd member (notMem_zero _)
  | taken => cases mem_singleton.mp member

lemma Standing.of_taken (member : .taken length ∈ claims) :
    claims = {.taken length} ∧
      (∃ reserved, entry = some reserved ∧ Covers strict length reserved) ∧
      (∃ fold, write.inflight = some fold) ∧ write.dirty = true ∧ write.failed = false ∧
      write.image = none := by
  cases standing with
  | clean => exact absurd member (notMem_zero _)
  | reading => cases mem_singleton.mp member
  | buffered | dropped => exact absurd member (notMem_zero _)
  | taken other reserved fold hd hi hf image covers =>
    cases mem_singleton.mp member
    exact ⟨rfl, ⟨reserved, rfl, covers⟩, ⟨fold, hi⟩, hd, hf, image⟩

end

end Standing

/-- What is known of a handle that may not exist; a dirty one is attended to, strictly. -/
def Accounts (strict : Bool) : Option WriteHandle → Multiset Claim → Option Nat → Prop → Prop
  | none, claims, entry, _ => claims = 0 ∧ entry = none
  | some write, claims, entry, attended =>
    Standing strict write claims entry ∧ (strict = true → write.dirty = true → attended)

lemma Accounts.imp {strict : Bool} {attended attended' : Prop}
    (accounts : Accounts strict write claims entry attended)
    (implies : strict = true → (∃ held, write = some held ∧ held.dirty = true) → attended →
      attended') : Accounts strict write claims entry attended' := by
  cases write with
  | none => exact accounts
  | some held =>
    exact ⟨accounts.1, fun strictly dirty => implies strictly ⟨held, rfl, dirty⟩ (accounts.2 strictly dirty)⟩

lemma Accounts.card_le {strict : Bool} (accounts : Accounts strict write claims entry attended) :
    claims.card ≤ 1 := by
  cases write with
  | none => simp [accounts.1]
  | some write => cases accounts.1 <;> simp

namespace Session

/-- A task that will change the image of a handle. -/
def changes : Task → Option HandleId
  | .buffer handle _ | .reading handle _ _ => some handle
  | _ => none

/-- The fold of a forcer settles a handle that it took. -/
def Settles : Forcer → HandleId → Prop
  | .handle own .release, handle => own = handle
  | .none, _ => True
  | _, _ => False

/-- A task ends with a handle clean. -/
def Closes (handle : HandleId) : Task → Prop
  | .force own purpose | .enlist own purpose => own = handle ∧ purpose = .release
  | .gather _ .none rest taken => handle ∈ rest ∨ handle ∈ taken.map TakenMember.handle
  | .gather _ forcer _ _ => Settles forcer handle
  | .lease forcer taken | .submitted forcer taken _ =>
    Settles forcer handle ∧ handle ∈ taken.map TakenMember.handle
  | .settle _ plan _ _ =>
    ∃ entry ∈ plan, entry.member.handle = handle ∧ entry.settlement ≠ .restored
  | _ => False

def DirtyAt (session : Session) (handle : HandleId) : Prop :=
  ∃ write, session.handles handle = some write ∧ write.dirty = true

def Attended (session : Session) (handle : HandleId) : Prop :=
  handle ∈ session.table ∨ ∃ task ∈ session.tasks, Closes handle task

def StandsAt (strict : Bool) (session : Session) (handle : HandleId) : Prop :=
  Accounts strict (session.handles handle) (claimed session.tasks handle) (session.budget.entry handle)
    (session.Attended handle)

/-- A forcing handle was told something that is no commit, or leases without its own
    image. -/
def misled : Task → Bool
  | .settle (.handle _ _) _ _ .other => true
  | .lease (.handle own _) taken => !taken.any (·.handle = own)
  | _ => false

/-- A task that was not misled, and changes open handles only, strictly. -/
def Proper (strict : Bool) (table : List HandleId) (task : Task) : Prop :=
  misled task = false ∧ (strict = true → ∀ handle, changes task = some handle → handle ∈ table)

/-- Every handle is accounted for, but for one that a section may be working on. -/
structure AccountedBut (strict : Bool) (aside : Option HandleId) (session : Session) : Prop where
  stands : ∀ handle, aside ≠ some handle → session.StandsAt strict handle
  proper : ∀ task ∈ session.tasks, Proper strict session.table task
  fresh : ∀ handle, session.nextHandle ≤ handle → session.handles handle = none
  known : ∀ handle, aside = some handle → handle < session.nextHandle

abbrev Accounted (strict : Bool) : Session → Prop := AccountedBut strict none

/-- Tasks that take the place of others, with a new budget: but for one handle they hold
    the same, and they still end with the same dirty handles clean. -/
structure Follows (strict : Bool) (aside : Option HandleId) (base : Session) (tasks next : List Task)
    (budget : WriteBudget) : Prop where
  claims : ∀ handle, aside ≠ some handle → claimed next handle = claimed tasks handle
  entries : ∀ handle, aside ≠ some handle → budget.entry handle = base.budget.entry handle
  proper : ∀ task ∈ next, Proper strict base.table task
  closes : strict = true → ∀ handle, aside ≠ some handle → base.DirtyAt handle → ∀ task ∈ tasks,
    Closes handle task → ∃ task ∈ next, Closes handle task

variable {strict : Bool} {limits : Limits} {session base : Session} {task next : Task} {handle : HandleId}
  {write : WriteHandle} {aside : Option HandleId}

lemma AccountedBut.follow (base : Session) (tasks next : List Task) {budget}
    (tally : { base with tasks := tasks ++ base.tasks }.AccountedBut strict aside)
    (follows : Follows strict aside base tasks next budget) :
    { base with tasks := next ++ base.tasks, budget := budget }.AccountedBut strict aside := by
  refine ⟨fun handle free => ?_, fun task member => ?_, tally.fresh, tally.known⟩
  · have stands := tally.stands handle free
    simp only [StandsAt, claimed_append, ← follows.claims handle free,
      ← follows.entries handle free] at stands
    rw [StandsAt, claimed_append]
    refine stands.imp fun strictly hd => Or.imp_right ?_
    rintro ⟨task, member, shut⟩
    rcases List.mem_append.mp member with hs | hk
    · obtain ⟨task, member, shut⟩ := follows.closes strictly handle free hd task hs shut
      exact ⟨task, List.mem_append_left _ member, shut⟩
    · exact ⟨task, List.mem_append_right _ hk, shut⟩
  · rcases List.mem_append.mp member with added | hk
    · exact follows.proper task added
    · exact tally.proper task (List.mem_append_right _ hk)

section

variable (tally : session.Accounted strict)
include tally

lemma Accounted.at (hf : session.handles handle = some write) :
    Standing strict write (claimed session.tasks handle) (session.budget.entry handle) ∧
      (strict = true → write.dirty = true → session.Attended handle) := by
  have stands := tally.stands handle (by simp)
  rw [StandsAt, hf] at stands
  exact stands

lemma Accounted.missing (lost : session.handles handle = none) :
    claimed session.tasks handle = 0 ∧ session.budget.entry handle = none := by
  have stands := tally.stands handle (by simp)
  rw [StandsAt, lost] at stands
  exact stands

lemma Accounted.perm {tasks} (perm : tasks.Perm session.tasks) :
    { session with tasks := tasks }.Accounted strict := by
  have claims (handle : HandleId) : claimed tasks handle = claimed session.tasks handle :=
    (perm.map _).sum_eq
  refine ⟨fun handle free => ?_, fun task member => tally.proper task (perm.mem_iff.mp member),
    tally.fresh, by simp⟩
  rw [StandsAt, claims]
  exact (tally.stands handle free).imp fun _ _ => Or.imp_right fun ⟨task, member, hs⟩ =>
    ⟨task, perm.mem_iff.mpr member, hs⟩

lemma Accounted.but (hf : session.handles handle = some write) :
    session.AccountedBut strict (some handle) := by
  refine ⟨fun other _ => tally.stands other (by simp), tally.proper, tally.fresh, ?_⟩
  rintro _ ⟨⟩
  by_contra hu
  exact absurd (hf.symm.trans (tally.fresh handle (not_lt.mp hu))) (by simp)

end

namespace AccountedBut

section

variable (tally : session.AccountedBut strict (some handle))
include tally

lemma close (hf : session.handles handle = some write)
    (held : claimed session.tasks handle = claims) (booked : session.budget.entry handle = entry)
    (standing : Standing strict write claims entry)
    (heard : strict = true → write.dirty = true → session.Attended handle) : session.Accounted strict := by
  refine ⟨fun other _ => ?_, tally.proper, tally.fresh, by simp⟩
  by_cases hs : handle = other
  · rw [← hs, StandsAt, hf, held, booked]
    exact ⟨standing, heard⟩
  · exact tally.stands other (by simpa using hs)

lemma set (write : WriteHandle) : (session.set handle write).AccountedBut strict (some handle) := by
  have rest {other : HandleId} (hne : some handle ≠ some other) :
      (session.set handle write).handles other = session.handles other :=
    update_of_ne (fun hs => hne (congrArg some hs.symm)) ..
  refine ⟨fun other hne => ?_, tally.proper, fun other unused => ?_, tally.known⟩
  · rw [StandsAt, rest hne]
    exact tally.stands other hne
  · rw [rest fun hs => absurd (tally.known _ hs) (not_lt.mpr unused)]
    exact tally.fresh other unused

lemma charge {budget}
    (rest : ∀ other, other ≠ handle → budget.entry other = session.budget.entry other) :
    (session.charge budget).AccountedBut strict (some handle) :=
  tally.follow session [] [] ⟨fun _ _ => rfl,
    fun other hne => rest other fun hs => hne (congrArg some hs.symm),
    by simp, by simp⟩

lemma release : (session.release handle).AccountedBut strict (some handle) :=
  tally.charge fun _ hne => WriteBudget.release_other hne

lemma reserve {budget length} (booked : session.budget.reserve limits handle length = .ok budget) :
    (session.charge budget).AccountedBut strict (some handle) :=
  tally.charge fun _ hne => WriteBudget.reserve_other booked hne

end

end AccountedBut

lemma AccountedBut.moves (tally : (base.push task).AccountedBut strict aside) (next : List Task)
    (claims : ∀ handle, aside ≠ some handle → claimed next handle = task.claims handle)
    (proper : ∀ other ∈ next, Proper strict base.table other)
    (shut : strict = true → ∀ handle, aside ≠ some handle → base.DirtyAt handle →
      Closes handle task → ∃ other ∈ next, Closes handle other) :
    { base with tasks := next ++ base.tasks }.AccountedBut strict aside := by
  refine tally.follow base [task] next ⟨fun handle free => ?_, fun _ _ => rfl, proper,
    fun strictly handle free hd other member hc => ?_⟩
  · rw [claims handle free]
    exact (add_zero _).symm
  · cases List.mem_singleton.mp member
    exact shut strictly handle free hd hc

lemma AccountedBut.push (tally : base.AccountedBut strict aside)
    (claims : ∀ handle, aside ≠ some handle → task.claims handle = 0)
    (proper : Proper strict base.table task) : (base.push task).AccountedBut strict aside := by
  refine tally.follow base [] [task] ⟨fun handle free => ?_, fun _ _ => rfl, by simpa, by simp⟩
  rw [claimed_cons, claims handle free]
  rfl

lemma unlocked_claims (free : session.locked handle = false) (change : Change) (reserved : Nat) :
    Claim.reading change reserved ∉ claimed session.tasks handle := by
  unfold locked at free
  generalize session.tasks = tasks at free ⊢
  induction tasks with
  | nil => exact notMem_zero _
  | cons task tasks ih =>
    rw [List.any_cons, Bool.or_eq_false_iff] at free
    rw [claimed_cons, mem_add, not_or]
    refine ⟨fun member => ?_, ih free.2⟩
    unfold Task.claims at member
    rcases mem_add.mp member with member | member
    · split at member
      · split_ifs at member with hs
        · exact absurd free.1 (by simp [hs])
        · exact notMem_zero _ member
      · exact notMem_zero _ member
    · simp [takenOf] at member

/-- A handle of which tasks hold nothing gets an image that its reservation covers. -/
lemma AccountedBut.buffered (tally : session.AccountedBut strict (some handle))
    (ho : strict = true → handle ∈ session.table) (unheld : claimed session.tasks handle = 0)
    (landed : write.inflight = none) (sane : write.failed = false) {reserved : Nat}
    (entry : session.budget.entry handle = some reserved)
    (covers : Covers strict image.length reserved) :
    (session.buffered handle write image).Accounted strict := by
  have stamped (seq : Nat) :
      { session.set handle (write.buffer image session.foldSeq) with foldSeq := seq }.Accounted strict := by
    have hd : (session.set handle (write.buffer image session.foldSeq)).Accounted strict :=
      (tally.set _).close (update_self ..) unheld entry
        (.buffered image reserved rfl landed sane rfl covers) fun strictly _ => .inl (ho strictly)
    exact ⟨hd.stands, hd.proper, hd.fresh, hd.known⟩
  unfold Session.buffered
  by_cases sync : write.sync = true
  · rw [if_pos sync]
    exact (stamped _).push (fun _ _ => rfl) ⟨rfl, by simp [changes]⟩
  · rw [if_neg sync]
    exact stamped _

lemma Accounted.materialize (tally : session.Accounted strict)
    (hf : session.handles handle = some write) (ho : strict = true → handle ∈ session.table)
    (unheld : claimed session.tasks handle = 0) (landed : write.inflight = none)
    (sane : write.failed = false) (cleanly : write.dirty = false) (bare : write.image = none)
    (change : Change) :
    (session.materialize limits handle change (write.projected change)).Accounted strict := by
  unfold Session.materialize
  cases reserved : session.budget.reserve limits handle (write.projected change) with
  | error => exact tally
  | ok =>
    have charged := (tally.but hf).reserve reserved
    refine (charged.push (fun other hne => ?_) ⟨rfl, ?_⟩).close hf ?_
      (WriteBudget.reserve_entry reserved) (.reading change cleanly landed sane bare) (by simp [cleanly])
    · have hne : handle ≠ other := by simpa using hne
      simp [Task.claims, Task.taken, takenOf, hne]
    · rintro strictly _ ⟨⟩
      exact ho strictly
    · simp [Session.push, Session.charge, Task.claims, Task.taken, takenOf, unheld]

/-- The section under the lock of a handle that no fold holds. -/
lemma Accounted.change (tally : session.Accounted strict)
    (hf : session.handles handle = some write) (ho : strict = true → handle ∈ session.table)
    (free : session.locked handle = false) (landed : write.inflight = none)
    (sane : write.failed = false) (change : Change) :
    (session.change limits handle write change).Accounted strict := by
  obtain ⟨unheld, image⟩ := (tally.at hf).1.free (unlocked_claims free) landed
  have rebuffer {image : Bytes} {budget : WriteBudget}
      (booked : session.budget.reserve limits handle image.length = .ok budget) :
      ((session.charge budget).buffered handle write image).Accounted strict :=
    ((tally.but hf).reserve booked).buffered ho unheld landed sane (WriteBudget.reserve_entry booked) .rfl
  have read (bare : write.image = none) (change : Change) :
      (session.materialize limits handle change (write.projected change)).Accounted strict := by
    refine tally.materialize hf ho unheld landed sane ?_ bare change
    rcases image with ⟨cleanly, -, -⟩ | ⟨image, reserved, -, held, -⟩
    · exact cleanly
    · exact absurd (bare.symm.trans held) (by simp)
  cases change with
  | write offset data =>
    simp only [Session.change]
    split_ifs with hb ha far
    · exact tally
    · split
      · -- A refused append leaves an empty sequence in a clean handle.
        refine ((tally.but hf).set _).close (update_self ..) unheld rfl ?_
          fun strictly _ => .inl (ho strictly)
        rcases image with ⟨cleanly, -, entry⟩ | ⟨image, reserved, hd, held, entry, covers⟩
        · change Standing strict _ _ (session.budget.entry handle)
          rw [entry]
          exact .clean cleanly landed fun hp => absurd (ha.symm.trans hp) (by simp)
        · change Standing strict _ _ (session.budget.entry handle)
          rw [entry, held]
          exact .buffered image reserved hd landed sane rfl covers
      · next budget booked => exact rebuffer (by simpa using booked)
    · exact tally
    · split
      · split
        · exact tally
        · next budget booked => exact rebuffer (by simpa using booked)
      · next bare => exact read bare (.write offset data)
  | truncate path size =>
    simp only [Session.change]
    split_ifs
    · exact tally
    · exact tally
    · split
      · split
        · exact tally
        · next budget booked => exact rebuffer (by simpa using booked)
      · next bare => exact read bare (.truncate path size)
  | setExec path executable =>
    simp only [Session.change]
    split_ifs with denied hs
    · exact tally
    · exact tally
    · split
      · next content held =>
        rw [not_or, not_not] at denied
        rcases image with ⟨-, bare, -⟩ | ⟨other, reserved, -, held', entry, covers⟩
        · exact absurd ((bare (Bool.eq_false_iff.mpr denied.1)).symm.trans held) (by simp)
        · rw [held, some_inj] at held'
          have landed' : { write with executable := executable }.inflight = none := landed
          exact (tally.but hf).buffered ho unheld landed' sane entry (held' ▸ covers)
      · next bare => exact read bare (.setExec path executable)

def readsWhole (write : WriteHandle) : Change → Bool
  | .truncate _ _ => true
  | _ => write.materialized.length = write.base.size

/-- The end of a read: nothing is held of the handle any more, and it is still clean. -/
lemma Accounted.read {change reserved}
    (tally : (base.push (.reading handle change reserved)).Accounted strict)
    (hf : base.handles handle = some write) :
    base.AccountedBut strict (some handle) ∧ (strict = true → handle ∈ base.table) ∧ claimed base.tasks handle = 0 ∧
      base.budget.entry handle = some (write.projected change) ∧ write.dirty = false ∧
      write.inflight = none ∧ write.failed = false ∧ write.image = none := by
  have held : (base.push (.reading handle change reserved)).handles handle = some write := hf
  have claims : claimed (base.push (.reading handle change reserved)).tasks handle =
      {.reading change reserved} + claimed base.tasks handle := by
    simp [Session.push, Task.claims, Task.taken, takenOf]
  have standing := (tally.at held).1
  rw [claims] at standing
  have member : Claim.reading change reserved ∈
      {.reading change reserved} + claimed base.tasks handle := by simp
  obtain ⟨only, entry, rfl, facts⟩ := standing.of_reading member
  have ho (strictly : strict = true) : handle ∈ base.table :=
    (tally.proper _ (List.mem_cons_self ..)).2 strictly handle rfl
  refine ⟨(tally.but held).moves [] (fun other hne => ?_) (by simp) fun _ _ _ _ hs => hs.elim, ho,
    add_eq_left.mp only, entry, facts⟩
  have hne : handle ≠ other := by simpa using hne
  simp [claimed, Task.claims, Task.taken, takenOf, hne]

lemma Accounted.unread {change reserved}
    (tally : (base.push (.reading handle change reserved)).Accounted strict)
    (hf : base.handles handle = some write) : (base.release handle).Accounted strict := by
  obtain ⟨but, -, hu, -, cleanly, hl, sane, bare⟩ := tally.read hf
  exact but.release.close hf hu (WriteBudget.release_entry ..)
    (.clean cleanly hl fun _ => bare) (by simp [cleanly])

lemma Accounted.changeRead {change reserved}
    (tally : (base.push (.reading handle change reserved)).Accounted strict)
    (hf : base.handles handle = some write)
    (whole : strict = true → readsWhole write change = true) :
    (base.changeRead limits handle write change).Accounted strict := by
  obtain ⟨but, ho, unheld, entry, hc, landed, sane, bare⟩ := tally.read hf
  have shorter : write.materialized.length ≤ write.base.size := by
    rw [WriteHandle.materialized, List.length_take]
    omega
  cases change with
  | write =>
    refine but.buffered ho unheld landed sane entry ?_
    rw [patch_length]
    refine ⟨max_le_max_right _ shorter, fun strictly => ?_⟩
    rw [of_decide_eq_true (whole strictly)]
    rfl
  | truncate =>
    simp only [Session.changeRead]
    split
    · exact tally.unread hf
    · next budget reserved =>
      refine (but.reserve reserved).buffered ho unheld landed sane (WriteBudget.reserve_entry reserved) ?_
      rw [resize_length]
      exact .rfl
  | setExec path executable =>
    have landed' : { write with executable := executable }.inflight = none := landed
    exact but.buffered ho unheld landed' sane entry
      ⟨shorter, fun strictly => of_decide_eq_true (whole strictly)⟩

variable {taken : List TakenMember}

lemma takenOf_perm (perm : taken.Perm other) (handle : HandleId) :
    takenOf taken handle = takenOf other handle :=
  Quot.sound ((perm.filter _).map _)

lemma takenOf_cons (member : TakenMember) (taken : List TakenMember) :
    takenOf (member :: taken) member.handle =
      {.taken member.content.length} + takenOf taken member.handle := by
  simp [takenOf]

variable {member : TakenMember}

lemma takenOf_other (hne : some member.handle ≠ some handle) (taken : List TakenMember) :
    takenOf (member :: taken) handle = takenOf taken handle := by
  simp [takenOf, some_inj.not.mp hne]

lemma mem_takenOf (took : member ∈ taken) :
    Claim.taken member.content.length ∈ takenOf taken member.handle :=
  mem_coe.mpr (List.mem_map.mpr ⟨member, List.mem_filter.mpr ⟨took, by simp⟩, rfl⟩)

lemma folds_claims (fold : task.folds = true) (handle : HandleId) :
    task.claims handle = takenOf task.taken handle := by
  cases task <;> first | exact zero_add _ | cases fold

lemma folds_proper (fold : task.folds = true) (told : misled task = false)
    (table : List HandleId) : Proper strict table task := by
  refine ⟨told, fun handle hc => ?_⟩
  cases task <;> simp_all [Task.folds, changes]

lemma Accounted.folds (tally : (base.push task).Accounted strict) (fold : task.folds = true)
    (fold' : next.folds = true) (perm : next.taken.Perm task.taken) (told : misled next = false)
    (shut : strict = true → ∀ handle, base.DirtyAt handle → Closes handle task →
      Closes handle next) : (base.push next).Accounted strict := by
  refine tally.moves [next] (fun handle _ => ?_) (by simpa using folds_proper fold' told base.table)
    fun strictly handle _ hd hc =>
      ⟨next, List.mem_singleton_self _, shut strictly handle hd hc⟩
  rw [folds_claims fold, ← takenOf_perm perm, ← folds_claims fold']
  exact add_zero _

variable {forcer : Forcer} {rest : List HandleId} {fold index : Nat}

lemma mem_eraseIdx_of_ne (meets : rest[index]? = some handle) (hne : other ≠ handle)
    (left : other ∈ rest) : other ∈ rest.eraseIdx index := by
  obtain ⟨position, placed⟩ := List.mem_iff_getElem?.mp left
  refine List.mem_eraseIdx_iff_getElem?.mpr ⟨position, fun hs => hne ?_, placed⟩
  exact Option.some.inj (placed.symm.trans (hs ▸ meets))

lemma Closes.visit (shut : Closes other (.gather fold forcer rest taken))
    (meets : rest[index]? = some handle)
    (met : forcer = .none → other = handle → other ∈ more.map TakenMember.handle) :
    Closes other (.gather fold forcer (rest.eraseIdx index) (taken ++ more)) := by
  cases forcer with
  | handle => exact shut
  | op => exact shut
  | none =>
    simp only [Closes, List.map_append, List.mem_append] at shut ⊢
    by_cases hs : other = handle
    · exact .inr (.inr (met rfl hs))
    · exact shut.imp (mem_eraseIdx_of_ne meets hs) .inl

lemma Attended.imp {base : Session} (heard : (base.push task).Attended handle)
    (shut : Closes handle task → Closes handle next) : (base.push next).Attended handle := by
  refine heard.imp_right ?_
  rintro ⟨other, member, close⟩
  rcases List.mem_cons.mp member with rfl | member
  · exact ⟨next, List.mem_cons_self .., shut close⟩
  · exact ⟨other, List.mem_cons_of_mem _ member, close⟩

lemma Accounted.takes (tally : (base.push (.gather fold forcer rest taken)).Accounted strict)
    (member : TakenMember) (hf : base.handles member.handle = some write)
    (dirty : write.dirty = true) (sane : write.failed = false)
    (unheld : claimed (base.push (.gather fold forcer rest taken)).tasks member.handle = 0)
    (entry : base.budget.entry member.handle = some reserved)
    (covers : Covers strict member.content.length reserved)
    (meets : rest[index]? = some member.handle) :
    ((base.set member.handle { write with image := none, inflight := some fold }).push
      (.gather fold forcer (rest.eraseIdx index) (taken ++ [member]))).Accounted strict := by
  have moved (other : HandleId) :
      (Task.gather fold forcer (rest.eraseIdx index) (taken ++ [member])).claims other =
        takenOf (member :: taken) other := by
    rw [folds_claims rfl]
    exact takenOf_perm (List.perm_append_singleton ..) other
  have goesOn (other : HandleId) (shut : Closes other (.gather fold forcer rest taken)) :
      Closes other (.gather fold forcer (rest.eraseIdx index) (taken ++ [member])) :=
    shut.visit meets (by simp)
  have held : (base.push (.gather fold forcer rest taken)).handles member.handle = some write := hf
  have heard (strictly : strict = true) := (tally.at held).2 strictly dirty
  simp only [Session.push, claimed_cons, add_eq_zero] at unheld
  have but : (base.push (.gather fold forcer (rest.eraseIdx index) (taken ++ [member]))).AccountedBut strict
      (some member.handle) := by
    refine (tally.but held).moves [_] (fun other hne => ?_)
      (by simpa using folds_proper rfl rfl base.table) fun _ other _ _ shut =>
        ⟨_, List.mem_singleton_self _, goesOn other shut⟩
    rw [claimed_cons, moved, takenOf_other hne, folds_claims rfl]
    exact add_zero _
  refine (but.set _).close (update_self ..) ?_ entry (.taken _ _ fold dirty rfl sane rfl covers)
    fun strictly _ => (heard strictly).imp (goesOn _)
  simp only [Session.push, Session.set, claimed_cons, moved, takenOf_cons, unheld.2, add_zero]
  exact (congrArg _ unheld.1).trans (add_zero _)

lemma Accounted.take (tally : (base.push (.gather fold forcer rest taken)).Accounted strict)
    (meets : rest[index]? = some handle) (hf : base.handles handle = some write)
    (free : base.locked handle = false)
    (landed : strict = true → forcer = .none → write.inflight = none) (resolves : Bool) :
    ((base.take fold forcer handle write resolves).1.push
      (.gather fold forcer (rest.eraseIdx index)
        (taken ++ (base.take fold forcer handle write resolves).2))).Accounted strict := by
  have held : (base.push (.gather fold forcer rest taken)).handles handle = some write := hf
  unfold Session.take
  by_cases skipped : (write.failed || !write.dirty || write.inflight.isSome ||
      filtered forcer handle write resolves) = true
  · rw [if_pos skipped]
    refine tally.folds rfl rfl (by simp [Task.taken]) rfl fun strictly other dirty shut =>
      shut.visit meets fun unforced hs => ?_
    -- A mount that is destroyed skips clean handles only.
    subst unforced hs
    obtain ⟨write', hf', dirty⟩ := dirty
    cases hf.symm.trans hf'
    simp [filtered, dirty, landed strictly rfl, (tally.at held).1.sane dirty] at skipped
  · rw [if_neg skipped]
    simp only [Bool.or_eq_true, Bool.not_eq_true', not_or, Bool.not_eq_false,
      Bool.not_eq_true, isSome_eq_false_iff, isNone_iff_eq_none] at skipped
    obtain ⟨⟨⟨sane, dirty⟩, landed⟩, -⟩ := skipped
    obtain ⟨hu, clean | ⟨image, reserved, -, hb, entry, covers⟩⟩ :=
      (tally.at held).1.free (unlocked_claims free) landed
    · exact absurd (clean.1.symm.trans dirty) (by simp)
    · rw [hb]
      exact tally.takes ⟨handle, write.dirtySeq, write.path, write.base, write.executable,
        write.append, image⟩ hf dirty sane hu entry covers meets

/-- A fold settles the first of its images; its handle is dirty, and only this fold holds it. -/
lemma Accounted.settleOne (tally : (base.push task).Accounted strict) (next : Task)
    (fold : task.folds = true) (fold' : next.folds = true)
    (taken : task.taken = member :: next.taken) (told : misled next = false)
    (settlement : Settlement) (capture : Option Bytes)
    (goesOn : ∀ handle, (handle = member.handle → settlement = .restored) →
      Closes handle task → Closes handle next) :
    ((base.settleOne member settlement capture).push next).Accounted strict := by
  have claims : claimed (base.push task).tasks member.handle = {.taken member.content.length} +
      claimed (base.push next).tasks member.handle := by
    simp only [Session.push, claimed_cons, folds_claims fold, folds_claims fold', taken, takenOf_cons,
      add_assoc]
  have held : Claim.taken member.content.length ∈ claimed (base.push task).tasks member.handle := by
    rw [claims]
    simp
  cases hf : base.handles member.handle with
  | none => exact absurd ((tally.missing hf).1 ▸ held) (notMem_zero _)
  | some write =>
    have hf' : (base.push task).handles member.handle = some write := hf
    obtain ⟨standing, hh⟩ := tally.at hf'
    obtain ⟨only, ⟨reserved, entry, covers⟩, -, dirty, sane, bare⟩ := standing.of_taken held
    have unheld : claimed (base.push next).tasks member.handle = 0 :=
      add_eq_left.mp (claims.symm.trans only)
    have but : (base.push next).AccountedBut strict (some member.handle) := by
      refine (tally.but hf').moves [next] (fun other hne => ?_)
        (by simpa using folds_proper fold' told base.table) fun _ other hne _ shut =>
          ⟨_, List.mem_singleton_self _, goesOn other (fun hs => ?_) shut⟩
      · rw [folds_claims fold, taken, takenOf_other hne, ← folds_claims fold']
        exact add_zero _
      · exact absurd (congrArg some hs.symm) hne
    have fixed {write' : WriteHandle} (dirty' : write'.dirty = false)
        (hl : write'.inflight = none) (bare' : write'.image = none) :
        (((base.set member.handle write').release member.handle).push next).Accounted strict :=
      (but.set write').release.close (update_self ..) unheld
        (WriteBudget.release_entry ..) (.clean dirty' hl fun _ => bare') (by simp [dirty'])
    rw [Session.settleOne, hf]
    dsimp only
    cases settlement with
    | restored =>
      exact (but.set { write with image := some member.content, dirty := true, inflight := none })
        |>.close (update_self ..) unheld entry (.buffered _ reserved rfl rfl sane rfl covers)
          fun strictly _ => (hh strictly dirty).imp (goesOn _ fun _ => rfl)
    | failed => exact fixed rfl rfl bare
    | applied outcome => cases outcome <;> cases capture <;> exact fixed rfl rfl bare

/-- Not strictly, a fold may lose what it has taken. -/
lemma Accounted.drop (tally : (base.push task).Accounted false) (fold : task.folds = true) :
    base.Accounted false := by
  refine ⟨fun handle _ => ?_, fun other member => tally.proper other (List.mem_cons_of_mem _ member),
    tally.fresh, by simp⟩
  have stands := tally.stands handle (by simp)
  simp only [StandsAt, Session.push, claimed_cons, folds_claims fold] at stands ⊢
  rcases empty_or_exists_mem (takenOf task.taken handle) with nothing | ⟨claim, took⟩
  · rw [nothing, zero_add] at stands
    exact stands.imp fun strictly => absurd strictly (by simp)
  · cases found : base.handles handle with
    | none =>
      rw [found] at stands
      simp only [Accounts, add_eq_zero] at stands
      exact absurd took (stands.1.1 ▸ notMem_zero _)
    | some write =>
      rw [found] at stands
      obtain ⟨member, -, rfl⟩ : ∃ member ∈ task.taken.filter (·.handle = handle),
          Claim.taken member.content.length = claim := List.mem_map.mp took
      obtain ⟨only, ⟨reserved, entry, -⟩, ⟨owner, inflight⟩, dirty, sane, bare⟩ :=
        stands.1.of_taken (mem_add.mpr (.inl took))
      have unheld : claimed base.tasks handle = 0 := by
        obtain ⟨more, split⟩ := exists_cons_of_mem took
        rw [split, cons_add, ← cons_zero, cons_inj_right,
          add_eq_zero] at only
        exact only.2
      rw [unheld, entry]
      exact ⟨.dropped owner reserved rfl dirty inflight sane bare, by simp⟩

lemma Accounted.lease {budget} (tally : (base.push (.lease forcer taken)).Accounted strict)
    (booked : base.budget.reserveFold limits (bytesOf taken) = .ok budget) :
    ((base.charge budget).push (.submitted forcer taken (bytesOf taken))).Accounted strict := by
  obtain ⟨rfl, -⟩ := WriteBudget.reserveFold_ok booked
  refine tally.follow base [_] [.submitted forcer taken (bytesOf taken)] ⟨fun _ _ => rfl,
    fun _ _ => rfl, by simpa using folds_proper rfl rfl base.table,
    fun _ handle _ _ other member hs => ⟨_, List.mem_singleton_self _, ?_⟩⟩
  cases List.mem_singleton.mp member
  exact hs

lemma Accounted.settled (tally : (base.push (.settle forcer [] bytes conclusion)).Accounted strict) :
    (base.charge (base.budget.releaseFold bytes)).Accounted strict := by
  refine tally.follow base [_] [] ⟨fun _ _ => rfl, fun _ _ => rfl, by simp,
    fun _ handle _ _ other member hs => ?_⟩
  cases List.mem_singleton.mp member
  simp [Closes] at hs

end Session

end Wyrd.Mount
