import Wyrd.Control.Message
import Wyrd.Mount.Budget

/-! # Writable handles and the folds that commit them

Every operation of the mount is a task, and a task advances by critical sections: what
it does under the lock of one handle, on the budget, or on the table of open handles.
Tasks interleave freely between their sections. What the rest of the system decides (a
path that resolves, a base that can be read, the answer of the mutation loop) is the
answer a section is given.

The errors an operation replies with are left out; they do not come back into this
state.
-/

namespace Wyrd.Mount

/-- The comparison a commit makes against the path. -/
structure FileIdentity where
  size : Nat
  executable : Bool
  chunks : List ContentId
  deriving DecidableEq

structure WriteHandle where
  path : String
  /-- What the open-time capture reads as. -/
  capture : Bytes
  base : FileIdentity
  executable : Bool
  image : Option Bytes
  append : Bool
  dirty : Bool
  dirtySeq : Nat
  /-- The fold that holds the image. -/
  inflight : Option Nat
  failed : Bool
  sync : Bool
  deriving DecidableEq

/-- A dirty buffer taken by a fold. -/
structure TakenMember where
  handle : HandleId
  seq : Nat
  path : String
  base : FileIdentity
  executable : Bool
  append : Bool
  content : Bytes
  deriving DecidableEq

/-- Why a handle is committed: for itself, because it is being closed, or because a
    clean handle on the same path is synced. -/
inductive Purpose where
  | commit
  | release
  | fsync (caller : HandleId)
  deriving DecidableEq

/-- What owns a fold: a handle's commit, a namespace operation that rebinds some paths,
    or nothing (the mount is destroyed). -/
inductive Forcer where
  | handle (handle : HandleId) (purpose : Purpose)
  | op (skipPaths : List String)
  | none
  deriving DecidableEq

/-- An applied outcome of the mutation loop. -/
inductive MutationOutcome where
  | done
  | created (identity : FileIdentity)
  | committed (identity : FileIdentity)
  | fold
  deriving DecidableEq

inductive ForcerOutcome where
  | applied (outcome : MutationOutcome)
  | failed
  deriving DecidableEq

inductive Disposition where
  | committed (identity : FileIdentity)
  | done
  | created (identity : FileIdentity)
  | failed
  | restored
  deriving DecidableEq

inductive Verdict where
  | refused
  | fold (forcer : ForcerOutcome) (members : List Disposition)
  | other
  deriving DecidableEq

/-- How one taken handle is settled. -/
inductive Settlement where
  | applied (outcome : MutationOutcome)
  | failed
  | restored
  deriving DecidableEq

/-- One step of a settlement; the steps of the forcer's own run are marked. -/
structure PlanEntry where
  member : TakenMember
  settlement : Settlement
  forcing : Bool
  deriving DecidableEq

/-- What a forcing handle is told. -/
inductive Conclusion where
  | committed
  | other
  | error
  deriving DecidableEq

/-- A submitted member and the taken handles behind it. -/
structure SubmitMember where
  path : String
  append : Bool
  taken : List TakenMember
  forcer : Bool

/-- Add a taken buffer to the runs: an append joins the earlier run of appends on its
    path. -/
def SubmitMember.add (runs : List SubmitMember) (member : TakenMember) (forcer : Bool) :
    List SubmitMember :=
  match member.append, runs.findIdx? (fun run => run.append && run.path == member.path) with
  | true, some position =>
    runs.modify position fun run =>
      { run with taken := run.taken ++ [member], forcer := run.forcer || forcer }
  | _, _ => runs ++ [⟨member.path, member.append, [member], forcer⟩]

def Forcer.owns (forcer : Forcer) (member : TakenMember) : Bool :=
  match forcer with
  | .handle own _ => member.handle = own
  | _ => false

/-- The runs a fold submits for its taken buffers. -/
def submitRuns (forcer : Forcer) (taken : List TakenMember) : List SubmitMember :=
  taken.foldl (fun runs member => SubmitMember.add runs member (forcer.owns member)) []

def Disposition.settlement : Disposition → Settlement
  | .committed identity => .applied (.committed identity)
  | .done => .applied .done
  | .created identity => .applied (.created identity)
  | .failed => .failed
  | .restored => .restored

/-- Settle the handles behind one run. -/
def SubmitMember.settle (run : SubmitMember) (settlement : Settlement) : List PlanEntry :=
  run.taken.map fun member => ⟨member, settlement, run.forcer⟩

def ForcerOutcome.settlement : ForcerOutcome → Settlement
  | .applied outcome => .applied outcome
  | .failed => .failed

def ForcerOutcome.conclusion : ForcerOutcome → Conclusion
  | .applied (.committed _) => .committed
  | .applied _ => .other
  | .failed => .error

/-- How the taken handles are settled, in order, and what the forcing handle is told.
    A fold that did not run, or whose answer does not fit it, fails every handle. -/
def settlePlan (forcer : Forcer) (taken : List TakenMember) (verdict : Verdict) :
    List PlanEntry × Conclusion :=
  let runs := submitRuns forcer taken
  let members := runs.filter fun run => !run.forcer
  let failAll := taken.map fun member => ⟨member, .failed, false⟩
  match verdict with
  | .refused | .other => (failAll, .error)
  | .fold outcome dispositions =>
    if dispositions.length ≠ members.length then (failAll, .error)
    else
      ((List.zipWith (fun run disposition => SubmitMember.settle run disposition.settlement)
          members dispositions).flatten ++
        (runs.filter (·.forcer)).flatMap (·.settle outcome.settlement),
      outcome.conclusion)

/-- A change a caller asks of a writable handle. -/
inductive Change where
  | write (offset : Nat) (data : Bytes)
  | truncate (path : String) (size : Nat)
  | setExec (path : String) (executable : Bool)
  deriving DecidableEq

/-- The largest size a truncation may ask for. -/
def maxWriteBufferBytes : Nat := 64 * 1024 * 1024

/-- Zero-fill or cut an image to a length. -/
def resize (image : Bytes) (length : Nat) : Bytes :=
  image.take length ++ List.replicate (length - image.length) 0

/-- Write over an image, which grows where the write reaches past its end. -/
def patch (image : Bytes) (offset : Nat) (data : Bytes) : Bytes :=
  let grown := resize image (max image.length (offset + data.length))
  grown.take offset ++ data ++ grown.drop (offset + data.length)

/-- What a clean handle's base reads as: a read takes at most `u32::MAX` bytes. -/
def WriteHandle.materialized (write : WriteHandle) : Bytes :=
  write.capture.take (min write.base.size (2 ^ 32 - 1))

/-- A handle with a new image is dirty; it keeps the stamp of its first one. -/
def WriteHandle.buffer (write : WriteHandle) (image : Bytes) (seq : Nat) : WriteHandle :=
  { write with
    image := some image, dirty := true, dirtySeq := if write.dirty then write.dirtySeq else seq }

inductive Task where
  /-- Waiting to change a handle. -/
  | buffer (handle : HandleId) (change : Change)
  /-- Reading the base of a clean handle under its lock, with so much reserved. -/
  | reading (handle : HandleId) (change : Change) (reserved : Nat)
  /-- At the head of the loop that commits a handle. -/
  | force (handle : HandleId) (purpose : Purpose)
  /-- The handle is dirty: about to list the handles to visit. -/
  | enlist (handle : HandleId) (purpose : Purpose)
  /-- Syncing the path of a handle. -/
  | fsync (handle : HandleId)
  /-- Taking dirty images one handle after another. -/
  | gather (fold : Nat) (forcer : Forcer) (rest : List HandleId) (taken : List TakenMember)
  /-- About to reserve the memory of a fold. -/
  | lease (forcer : Forcer) (taken : List TakenMember)
  /-- Putting the images back after that was refused. -/
  | restore (taken : List TakenMember)
  /-- Waiting for the mutation loop. -/
  | submitted (forcer : Forcer) (taken : List TakenMember) (bytes : Nat)
  | settle (forcer : Forcer) (plan : List PlanEntry) (bytes : Nat)
      (conclusion : Conclusion)
  deriving DecidableEq

/-- What the rest of the system decides about one section. -/
structure Answer where
  /-- Which of the handles left to gather is next. -/
  next : Nat
  resolves : Bool
  readable : Bool
  verdict : Verdict
  capture : Option Bytes

structure Session where
  handles : HandleId → Option WriteHandle
  /-- The open writable handles. -/
  table : List HandleId
  budget : WriteBudget
  nextHandle : HandleId
  foldSeq : Nat
  foldIds : Nat
  tasks : List Task

namespace Session

def new : Session := ⟨fun _ => none, [], .empty, 0, 0, 0, []⟩

variable (session : Session)

def push (task : Task) : Session :=
  { session with tasks := task :: session.tasks }

variable (limits : Limits) (handle : HandleId)

def set (write : WriteHandle) : Session :=
  { session with handles := Function.update session.handles handle (some write) }

def charge (budget : WriteBudget) : Session :=
  { session with budget := budget }

def release (session : Session) (handle : HandleId) : Session :=
  session.charge (session.budget.release handle)

/-- Another task holds the lock of a handle while it reads. -/
def locked : Bool :=
  session.tasks.any fun task =>
    match task with
    | .reading reader _ _ => reader = handle
    | _ => false

/-- A handle gets a new image and is dirty; a synchronous one is committed at once. -/
def buffered (write : WriteHandle) (image : Bytes) : Session :=
  let stamped := { session.set handle (write.buffer image session.foldSeq) with
    foldSeq := if write.dirty then session.foldSeq else session.foldSeq + 1 }
  if write.sync then stamped.push (.force handle .commit) else stamped

/-- A clean handle is materialized: reserve first, then read. -/
def materialize (session : Session) (handle : HandleId) (change : Change) (projected : Nat) :
    Session :=
  match session.budget.reserve limits handle projected with
  | .error _ => session
  | .ok budget => (session.charge budget).push (.reading handle change projected)

/-- The section of `write_handle`, `truncate_handle_locked` or `set_exec_handle` under
    the handle's lock. -/
def change (session : Session) (handle : HandleId) (write : WriteHandle) :
    Change → Session
  | .write offset data =>
    if data = [] then session
    else if write.append then
      let image := write.image.getD []
      match session.budget.reserve limits handle (image.length + data.length) with
      | .error _ => session.set handle { write with image := some image }
      | .ok budget => (session.charge budget).buffered handle write (image ++ data)
    else if 2 ^ 64 ≤ offset + data.length then session
    else
      match write.image with
      | some image =>
        match session.budget.reserve limits handle (max image.length (offset + data.length)) with
        | .error _ => session
        | .ok budget =>
          (session.charge budget).buffered handle write (patch image offset data)
      | none =>
        session.materialize limits handle (.write offset data)
          (max write.base.size (offset + data.length))
  | .truncate path size =>
    if write.append ∨ maxWriteBufferBytes < size ∨ write.path ≠ path then session
    else if (write.image.elim write.base.size List.length) = size ∧ write.dirty = false then
      session
    else
      match write.image with
      | some image =>
        match session.budget.reserve limits handle size with
        | .error _ => session
        | .ok budget => (session.charge budget).buffered handle write (resize image size)
      | none =>
        session.materialize limits handle (.truncate path size) (max write.base.size size)
  | .setExec path executable =>
    if write.append ∨ write.path ≠ path then session
    else if write.executable = executable ∧ write.dirty = false then session
    else
      match write.image with
      | some image => session.buffered handle { write with executable := executable } image
      | none => session.materialize limits handle (.setExec path executable) write.base.size

/-- The base was read: apply the change to it. -/
def changeRead (session : Session) (handle : HandleId) (write : WriteHandle) :
    Change → Session
  | .write offset data => session.buffered handle write (patch write.materialized offset data)
  | .truncate _ size =>
    match session.budget.reserve limits handle size with
    | .error _ => session.release handle
    | .ok budget =>
      (session.charge budget).buffered handle write (resize write.materialized size)
  | .setExec _ executable =>
    session.buffered handle { write with executable := executable } write.materialized

/-- A fold leaves a dirty handle alone: its path is rebound by the operation, or gone. -/
def filtered (forcer : Forcer) (handle : HandleId) (write : WriteHandle) (resolves : Bool) : Bool :=
  match forcer with
  | .handle own _ => own ≠ handle && !resolves
  | .op skipPaths => skipPaths.contains write.path || !resolves
  | .none => false

/-- Take the image of one handle, if it has one to take. -/
def take (fold : Nat) (forcer : Forcer) (handle : HandleId) (write : WriteHandle)
    (resolves : Bool) : Session × List TakenMember :=
  if write.failed || !write.dirty || write.inflight.isSome ||
      filtered forcer handle write resolves then (session, [])
  else
    match write.image with
    | none => ((session.set handle { write with failed := true, dirty := false }).release handle, [])
    | some content =>
      (session.set handle { write with image := none, inflight := some fold },
        [⟨handle, write.dirtySeq, write.path, write.base, write.executable, write.append, content⟩])

def bytesOf (taken : List TakenMember) : Nat := (taken.map (·.content.length)).sum

/-- Every handle was visited. A forcing handle whose image another fold has taken starts
    over; what this one had taken is dropped. -/
def gathered (forcer : Forcer) (taken : List TakenMember) : Session :=
  let ordered := taken.mergeSort fun first second => first.seq ≤ second.seq
  match forcer with
  | .handle own purpose =>
    if taken.any (·.handle = own) then session.push (.lease forcer ordered)
    else session.push (.force own purpose)
  | .op _ => session.push (.lease forcer ordered)
  | .none => if taken = [] then session else session.push (.lease forcer ordered)

/-- Settle one taken handle; a capture that cannot be resolved again fails it. -/
def settleOne (member : TakenMember) (settlement : Settlement) (capture : Option Bytes) : Session :=
  match session.handles member.handle with
  | none => session
  | some write =>
    let cleared := { write with dirty := false, inflight := none }
    match settlement with
    | .restored =>
      session.set member.handle
        { write with image := some member.content, dirty := true, inflight := none }
    | .failed => (session.set member.handle { cleared with failed := true }).release member.handle
    | .applied .fold =>
      (session.set member.handle { cleared with failed := true }).release member.handle
    | .applied outcome =>
      let based :=
        match outcome with
        | .committed identity | .created identity =>
          { cleared with executable := identity.executable, base := identity }
        | _ => cleared
      match capture with
      | some capture =>
        (session.set member.handle { based with capture := capture }).release member.handle
      | none =>
        (session.set member.handle { based with failed := true }).release member.handle

/-- A forcing handle was told something that is no commit. -/
def spoil (write : WriteHandle) : Session :=
  (session.set handle { write with failed := true, dirty := false, inflight := none }).release handle

/-- The earliest dirty handle on a path. -/
def earliestDirtyOn (path : String) : Option HandleId :=
  if session.budget.dirtyHandles = 0 then none
  else
    ((session.table.filterMap fun handle =>
        match session.handles handle with
        | some write =>
          if write.dirty && !write.failed && write.path == path then
            some (write.dirtySeq, handle)
          else none
        | none => none).argmin Prod.fst).map Prod.snd

/-- A task advances by one section; where it would block, it waits. The session is the
    one without the task. -/
def resume (session : Session) (task : Task) (answer : Answer) : Session :=
  match task with
  | .buffer handle change =>
    match session.handles handle with
    | none => session
    | some write =>
      if session.locked handle || write.inflight.isSome then session.push task
      else if write.failed then session
      else session.change limits handle write change
  | .reading handle change _ =>
    match session.handles handle with
    | none => session
    | some write =>
      if answer.readable then session.changeRead limits handle write change
      else session.release handle
  | .force handle purpose =>
    match session.handles handle with
    | none => session
    | some write =>
      if session.locked handle || write.inflight.isSome then session.push task
      else if write.failed then session
      else if write.dirty then session.push (.enlist handle purpose)
      else
        match purpose with
        | .fsync caller => session.push (.fsync caller)
        | _ => session
  | .enlist handle purpose =>
    { session.push (.gather session.foldIds (.handle handle purpose)
        (session.table ++ [handle]).dedup []) with foldIds := session.foldIds + 1 }
  | .fsync handle =>
    match session.handles handle with
    | none => session
    | some write =>
      if session.locked handle || write.inflight.isSome then session.push task
      else if write.failed then session
      else if write.dirty then session.push (.force handle .commit)
      else
        match session.earliestDirtyOn write.path with
        | none => session
        | some other => session.push (.force other (.fsync handle))
  | .gather fold forcer rest taken =>
    match rest[answer.next]? with
    | none => if rest = [] then session.gathered forcer taken else session.push task
    | some handle =>
      let left := rest.eraseIdx answer.next
      match session.handles handle with
      | none => session.push (.gather fold forcer left taken)
      | some write =>
        if session.locked handle then session.push task
        else
          let visited := session.take fold forcer handle write answer.resolves
          visited.1.push (.gather fold forcer left (taken ++ visited.2))
  | .lease forcer taken =>
    match session.budget.reserveFold limits (bytesOf taken) with
    | .error _ => session.push (.restore taken)
    | .ok budget => (session.charge budget).push (.submitted forcer taken (bytesOf taken))
  | .restore [] => session
  | .restore (member :: rest) =>
    (session.settleOne member .restored none).push (.restore rest)
  | .submitted forcer taken bytes =>
    let plan := settlePlan forcer taken answer.verdict
    session.push (.settle forcer plan.1 bytes plan.2)
  | .settle forcer (entry :: rest) bytes conclusion =>
    let settled := session.settleOne entry.member entry.settlement answer.capture
    -- A forcing handle is told when its run could not be settled.
    let missed := entry.forcing && (entry.settlement == .applied .fold || answer.capture.isNone)
    settled.push (.settle forcer rest bytes (if missed then .error else conclusion))
  | .settle (.handle handle purpose) [] bytes .other =>
    match session.handles handle with
    | none => session.push (.settle (.handle handle purpose) [] bytes .error)
    | some write =>
      if session.locked handle then session.push task
      else (session.spoil handle write).push (.settle (.handle handle purpose) [] bytes .error)
  | .settle forcer [] bytes conclusion =>
    let ended := session.charge (session.budget.releaseFold bytes)
    match forcer, conclusion with
    | .handle _ (.fsync caller), .committed => ended.push (.fsync caller)
    | _, _ => ended

inductive Event where
  /-- A successful open for writing, or a create. -/
  | opened (path : String) (base : FileIdentity) (capture : Bytes) (append sync : Bool)
  | buffer (handle : HandleId) (change : Change)
  | commit (handle : HandleId)
  | fsync (handle : HandleId)
  /-- A namespace operation, a truncating open or a path-addressed `setattr`. -/
  | forceOp (skipPaths : List String)
  /-- A path change was committed beside a clean handle. -/
  | repin (handle : HandleId) (base : FileIdentity) (capture : Bytes)
  | release (handle : HandleId)
  | destroy
  | advance (index : Nat) (answer : Answer)

/-- The handles to take when the mount is destroyed. -/
def candidates : List HandleId :=
  session.table.filter fun handle =>
    (session.handles handle).any fun write => write.dirty && !write.failed

def step (session : Session) : Event → Session
  | .opened path base capture append sync =>
    { session.set session.nextHandle ⟨path, capture, base, base.executable, none, append, false, 0,
        none, false, sync⟩ with
      table := session.nextHandle :: session.table
      nextHandle := session.nextHandle + 1 }
  | .buffer handle change =>
    if handle ∈ session.table then session.push (.buffer handle change) else session
  | .commit handle =>
    if handle ∈ session.table then session.push (.force handle .commit) else session
  | .fsync handle => if handle ∈ session.table then session.push (.fsync handle) else session
  | .forceOp skipPaths =>
    { session.push (.gather session.foldIds (.op skipPaths) session.table []) with
      foldIds := session.foldIds + 1 }
  | .repin handle base capture =>
    match session.handles handle with
    | none => session
    | some write =>
      if session.locked handle || write.dirty || write.failed then session
      else session.set handle { write with base := base, capture := capture }
  | .release handle =>
    if handle ∈ session.table then
      { session with table := session.table.erase handle }.push (.force handle .release)
    else session
  | .destroy =>
    let drained := { session with table := [] }
    if session.candidates = [] then drained
    else { drained.push (.gather session.foldIds .none session.candidates []) with
      foldIds := session.foldIds + 1 }
  | .advance index answer =>
    match session.tasks[index]? with
    | none => session
    | some task =>
      { session with tasks := session.tasks.eraseIdx index }.resume limits task answer

def run (events : List Event) : Session := events.foldl (step limits) new

end Session

end Wyrd.Mount
