import Wyrd.Mount.Handles

/-! # The memory of a fold

Whatever tasks do and however they interleave, the total of the budget is what is reserved
for handles and for folds in flight. A fold leases what it gathered from the same total,
beside the reservations of the handles it gathered from.
-/

namespace Wyrd.Mount

open List Nat

def Task.leased : Task → Nat
  | .submitted _ _ bytes | .settle _ _ bytes _ => bytes
  | _ => 0

def leasedBy (tasks : List Task) : Nat := (tasks.map Task.leased).sum

namespace Session

/-- The budget is explained, with so much leased by a task that is set aside. -/
def Metered (limits : Limits) (session : Session) (leased : Nat) : Prop :=
  session.budget.Balanced limits (leased + leasedBy session.tasks)

variable {limits : Limits} {session : Session} {handle : HandleId} {write : WriteHandle} {leased : Nat}

lemma Metered.push (metered : session.Metered limits leased) (hs : task.leased = leased) :
    (session.push task).Metered limits 0 := by
  subst hs
  rw [Metered, zero_add]
  exact metered

lemma Metered.release (metered : session.Metered limits leased) (handle : HandleId) :
    (session.release handle).Metered limits leased :=
  WriteBudget.release_balanced metered

lemma Metered.reserve (metered : session.Metered limits leased) {size budget}
    (admitted : session.budget.reserve limits handle size = .ok budget) :
    (session.charge budget).Metered limits leased :=
  WriteBudget.reserve_balanced admitted metered

lemma Metered.settleOne (metered : session.Metered limits leased) (member : TakenMember)
    (settlement : Settlement) (capture : Option Bytes) :
    (session.settleOne member settlement capture).Metered limits leased := by
  unfold Session.settleOne
  dsimp only
  repeat' split
  all_goals first
    | exact metered
    | exact Metered.release metered _

section

variable (metered : session.Metered limits 0)
include metered

lemma Metered.buffered (image : Bytes) : (session.buffered handle write image).Metered limits 0 := by
  unfold Session.buffered
  dsimp only
  split_ifs
  all_goals first
    | exact metered
    | exact Metered.push metered rfl

lemma Metered.materialize (change : Change) (projected : Nat) :
    (session.materialize limits handle change projected).Metered limits 0 := by
  unfold Session.materialize
  split
  · exact metered
  · next reserved => exact (Metered.reserve metered reserved).push rfl

lemma Metered.change (change : Change) : (session.change limits handle write change).Metered limits 0 := by
  cases change <;> simp only [Session.change] <;> repeat' split
  all_goals first
    | exact metered
    | exact metered.materialize _ _
    | exact metered.buffered _
    | exact (Metered.reserve metered (by assumption)).buffered _

lemma Metered.changeRead (change : Change) :
    (session.changeRead limits handle write change).Metered limits 0 := by
  cases change <;> simp only [Session.changeRead] <;> repeat' split
  all_goals first
    | exact metered.release _
    | exact metered.buffered _
    | exact (Metered.reserve metered (by assumption)).buffered _

lemma Metered.take (fold : Nat) (forcer : Forcer) (resolves : Bool) :
    (session.take fold forcer handle write resolves).1.Metered limits 0 := by
  unfold Session.take
  repeat' split
  all_goals first
    | exact metered
    | exact Metered.release metered _

lemma Metered.gathered (forcer : Forcer) (taken : List TakenMember) :
    (session.gathered forcer taken).Metered limits 0 := by
  unfold Session.gathered
  dsimp only
  repeat' split
  all_goals first
    | exact metered
    | exact metered.push rfl

lemma Metered.lease {budget bytes}
    (granted : session.budget.reserveFold limits bytes = .ok budget) :
    (session.charge budget).Metered limits bytes := by
  obtain ⟨total, -, each⟩ := metered
  obtain ⟨rfl, fits⟩ := WriteBudget.reserveFold_ok granted
  refine ⟨?_, fits, each⟩
  show session.budget.total + bytes = session.budget.sum + (bytes + leasedBy session.tasks)
  omega

end

lemma Metered.resume (metered : session.Metered limits task.leased) (answer : Answer) :
    (session.resume limits task answer).Metered limits 0 := by
  unfold Session.resume
  split
  case h_7 =>
    split
    · exact metered.push rfl
    · next reserved => exact (Metered.lease metered reserved).push rfl
  case h_11 => exact (metered.settleOne ..).push rfl
  case h_13 bytes _ _ =>
    have given : (session.charge (session.budget.releaseFold bytes)).Metered limits 0 := by
      rw [Metered, zero_add]
      exact WriteBudget.releaseFold_balanced metered
    dsimp only
    split
    · exact given.push rfl
    · exact given
  all_goals
    repeat' split
    all_goals first
      | exact metered
      | exact metered.push rfl
      | exact metered.release _
      | exact metered.change _
      | exact metered.changeRead _
      | exact metered.gathered _ _
      | exact (metered.take ..).push rfl
      | exact (metered.settleOne ..).push rfl
      | exact (Metered.release metered _).push rfl

lemma tasks_perm (hf : session.tasks[index]? = some task) :
    ({ session with tasks := session.tasks.eraseIdx index }.push task).tasks.Perm
      session.tasks := by
  obtain ⟨hb, rfl⟩ := List.getElem?_eq_some_iff.mp hf
  exact getElem_cons_eraseIdx_perm hb

lemma Metered.step (metered : session.Metered limits 0) (event : Event) :
    (session.step limits event).Metered limits 0 := by
  cases event with
  | advance index answer =>
    simp only [Session.step]
    split
    · exact metered
    · next task found =>
      rw [Metered, leasedBy, ← ((tasks_perm found).map Task.leased).sum_eq, zero_add] at metered
      have aside : { session with tasks := session.tasks.eraseIdx index }.Metered limits task.leased := metered
      exact aside.resume answer
  | _ =>
    simp only [Session.step]
    repeat' split
    all_goals first
      | exact metered
      | exact Metered.push metered rfl

lemma run_append (limits : Limits) (events : List Event) (event : Event) :
    run limits (events ++ [event]) = (run limits events).step limits event :=
  foldl_append

lemma run_metered (limits : Limits) (events : List Event) : (run limits events).Metered limits 0 := by
  induction events using List.reverseRecOn with
  | nil => exact ⟨rfl, zero_le _, fun _ _ found => by cases found⟩
  | append_singleton events event ih =>
    rw [run_append]
    exact ih.step event

lemma total_alone (alone : ∀ task ∈ (run limits events).tasks, task.leased = 0) :
    (run limits events).budget.total = (run limits events).budget.sum := by
  have idle : leasedBy (run limits events).tasks = 0 := by
    refine sum_eq_zero fun bytes hm => ?_
    obtain ⟨task, mem, rfl⟩ := mem_map.mp hm
    exact alone task mem
  have total := (run_metered limits events).total
  rwa [idle] at total

/-- When a fold comes to lease its memory and no other has any, it is refused exactly if the
    reservations and the gathered bytes do not fit together. -/
lemma lease_alone (answer : Answer)
    (leasing : (run limits events).tasks[index]? = some (.lease forcer taken))
    (alone : ∀ task ∈ (run limits events).tasks, task.leased = 0) :
    (run limits (events ++ [.advance index answer])).tasks =
      (if limits.aggregate < (run limits events).budget.sum + bytesOf taken then .restore taken
        else .submitted forcer taken (bytesOf taken)) :: (run limits events).tasks.eraseIdx index := by
  rw [run_append, ← total_alone alone]
  simp only [Session.step, leasing, Session.resume, WriteBudget.reserveFold]
  split_ifs
  · rfl
  · rfl

/-- The first task goes on, with nothing in its way. -/
def goOn : Event := .advance 0 ⟨0, true, true, .other, none⟩

/-- A handle is opened and one byte is written; reading its base was due in between. -/
def writeOne : List Event :=
  [.opened "notes" ⟨0, false, []⟩ [] false false, .buffer 0 (.write 0 [7]), goOn, goOn]

/-- The byte is committed: its image is taken. -/
def forceOne : List Event := writeOne ++ .commit 0 :: List.replicate 4 goOn

def takenOne : TakenMember := ⟨0, 0, "notes", ⟨0, false, []⟩, false, false, [7]⟩

end Session

end Wyrd.Mount
