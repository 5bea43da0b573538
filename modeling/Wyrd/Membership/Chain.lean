import Wyrd.Lib.Observed
import Wyrd.Membership.State

/-! # The canonicality walk

Given the observed transition set: classify each link against its predecessor,
walk the canonical chain from genesis, resolve conflicts only through explicit
resolutions, and classify everything else by ancestry. The definitions follow
the source pass by pass. Hash maps are functions to `Option`, updated in place;
loops without a static bound carry fuel, and running out of it is proved
impossible where the loop is analysed.
-/

namespace Wyrd.Membership

open Function

/-- The observed transition set of one drive. The memoized analysis of the
    source is a cache of a pure function of this value and is left out. -/
structure MembershipLog (P : Primitives) where
  drive : DriveId
  transitions : Observed P.transitionId

/-- The outcome of validating one transition against its predecessor. A valid
    link carries the derived state and every device admitted from genesis
    through this transition. -/
inductive Link where
  | valid (state : MembershipState) (admitted : Finset DeviceId)
  | invalid (reason : InvalidReason)
  | pending
  | orphaned

inductive TransitionStatus where
  | canonical
  | contested
  | voided
  | orphaned
  | pending
  | invalid (reason : InvalidReason)
  deriving DecidableEq

abbrev LinkMap := TransitionId → Option Link

/-- The test `matches!(link.get(id), Some(Link::Valid { .. }))`. -/
def isValid (link : LinkMap) (id : TransitionId) : Bool :=
  match link id with
  | some (.valid _ _) => true
  | _ => false

/-- The result of one classification run over the whole observed set. -/
structure Analysis where
  status : TransitionId → Option TransitionStatus
  states : TransitionId → Option MembershipState
  canonical : List TransitionId
  frozenAt : Option Nat

/-- `Analysis::default`. -/
def Analysis.initial : Analysis := ⟨fun _ => none, fun _ => none, [], none⟩

variable (result : Analysis)

def Analysis.setStatus (id : TransitionId) (status : TransitionStatus) : Analysis :=
  { result with status := update result.status id (some status) }

/-- Record the derived state of a valid link; other links have none. -/
def Analysis.setState (link : LinkMap) (id : TransitionId) : Analysis :=
  match link id with
  | some (.valid state _) => { result with states := update result.states id (some state) }
  | _ => result

def Analysis.push (id : TransitionId) : Analysis :=
  { result with canonical := result.canonical ++ [id] }

/-- Select a transition for its epoch: canonical status, state, chain position. -/
def Analysis.select (link : LinkMap) (id : TransitionId) : Analysis :=
  ((result.setStatus id .canonical).setState link id).push id

/-- What became of a conflict among valid siblings. -/
inductive ConflictOutcome where
  | unresolved
  | resolved (resolution : TransitionId)
  | contradictory

variable {P : Primitives}

namespace MembershipLog

def new (P : Primitives) (drive : DriveId) : MembershipLog P := ⟨drive, .empty⟩

def observe (log : MembershipLog P) (t : MembershipTransition) : MembershipLog P :=
  { log with transitions := log.transitions.observe t }

def transition (log : MembershipLog P) (id : TransitionId) : Option MembershipTransition :=
  log.transitions.lookup id

def observedIds (log : MembershipLog P) : List TransitionId := log.transitions.ids

def len (log : MembershipLog P) : Nat := log.transitions.size

end MembershipLog

section Links

variable (log : MembershipLog P)

/-- The `resolves` loop of `validate_link`: the verdict of the first entry that
    is not a valid transition at the epoch below, if there is one. -/
def resolvesVerdict (epoch : Nat) (link : LinkMap) : List TransitionId → Option Link
  | [] => none
  | entry :: rest =>
    match log.transition entry with
    | none => some .pending
    | some entryT =>
      if checkedAdd entryT.epoch 1 ≠ some epoch then some (.invalid .invalidResolvesEntry)
      else match link entry with
        | some (.valid _ _) => resolvesVerdict epoch link rest
        | some .pending | none => some .pending
        | some _ => some (.invalid .invalidResolvesEntry)

/-- A genesis derives from the empty state. -/
def validateGenesis (P : Primitives) (t : MembershipTransition) : Link :=
  match deriveNext P .initial t with
  | .error reason => .invalid reason
  | .ok state =>
    match checkGenesisShape state with
    | .error reason => .invalid reason
    | .ok () => .valid state (admits t.changes).toFinset

variable (t : MembershipTransition) (link : LinkMap)

/-- The checks of `validate_link` once the predecessor is a valid link. -/
def validateSuccessor (prevState : MembershipState) (prevAdmitted : Finset DeviceId) : Link :=
  match checkAuthority prevState t with
  | .error reason => .invalid reason
  | .ok () =>
    match deriveNext P prevState t with
    | .error reason => .invalid reason
    | .ok state =>
      if (admits t.changes).any (fun device => device ∈ prevAdmitted) then
        .invalid .admitRetiredDevice
      else if t.resolves.toFinset.card ≠ t.resolves.length then .invalid .duplicateResolves
      else match resolvesVerdict log t.epoch link t.resolves with
        | some verdict => verdict
        | none => .valid state (prevAdmitted ∪ (admits t.changes).toFinset)

/-- Validate one transition against its (already classified) predecessor. -/
def validateLink : Link :=
  match checkIntrinsic P t with
  | .error reason => .invalid reason
  | .ok () =>
    if signatureVerifies P log.drive t = false then .invalid .badSignature
    else match t.prev with
      | none => validateGenesis P t
      | some prevId =>
        match log.transition prevId with
        | none => .pending
        | some prevT =>
          if checkedAdd prevT.epoch 1 ≠ some t.epoch then .invalid .prevWrongEpoch
          else match link prevId with
            | none => .pending
            | some (.invalid _) | some .orphaned => .orphaned
            | some .pending => .pending
            | some (.valid prevState prevAdmitted) =>
              validateSuccessor log t link prevState prevAdmitted

/-- What classifying a transition looks up: predecessor, then `resolves`. -/
def dependencies : List TransitionId := t.prev.toList ++ t.resolves

/-- The explicit stack of `link_for`, top first. -/
structure Gather where
  closure : List TransitionId
  stack : List TransitionId
  seen : Finset TransitionId

def Gather.push (g : Gather) (dep : TransitionId) : Gather :=
  if dep ∈ g.seen then g
  else ⟨g.closure ++ [dep], dep :: g.stack, insert dep g.seen⟩

/-- One iteration of the gathering loop, or `none` on an empty stack. -/
def gatherStep (g : Gather) : Option Gather :=
  match g.stack with
  | [] => none
  | cur :: rest =>
    let popped := { g with stack := rest }
    if (link cur).isSome then some popped
    else match log.transition cur with
      | none => some popped
      | some curT => some ((dependencies curT).foldl Gather.push popped)

def gatherLoop (link : LinkMap) : Nat → Gather → Gather
  | 0, g => g
  | fuel + 1, g =>
    match gatherStep log link g with
    | none => g
    | some next => gatherLoop link fuel next

/-- Every id some observed transition depends on. -/
def mentioned : List TransitionId := log.transitions.docs.flatMap dependencies

/-- The closure of one id under the dependencies not yet classified. -/
def gather (id : TransitionId) : List TransitionId :=
  (gatherLoop log link (2 * (mentioned log).length + 1) ⟨[id], [id], {id}⟩).closure

/-- The epoch of an observed id; as the sort key of the closure, an unobserved
    id comes first. -/
def epochOf (dep : TransitionId) : Nat := (log.transition dep).elim 0 MembershipTransition.epoch

def classifyDependency (dep : TransitionId) : LinkMap :=
  if (link dep).isSome then link
  else match log.transition dep with
    | none => link
    | some depT => update link dep (some (validateLink log depT link))

/-- Memoized classification: the updated map and the verdict of `t`. -/
def linkFor : LinkMap × Link :=
  let id := P.transitionId t
  match link id with
  | some verdict => (link, verdict)
  | none =>
    let closure := (gather log link id).insertionSort (fun a b => epochOf log a ≤ epochOf log b)
    let classified := closure.foldl (classifyDependency log) link
    (classified, (classified id).getD .pending)

/-- Observed ids by ascending epoch, then id. -/
def byEpoch : List (Nat × TransitionId) :=
  (log.observedIds.filterMap (fun id => (log.transition id).map (fun t => (t.epoch, id)))).insertionSort
    (fun a b => toLex a ≤ toLex b)

/-- One iteration of the ascending pass. -/
def classifyEntry (entry : Nat × TransitionId) : LinkMap :=
  match log.transition entry.2 with
  | none => link
  | some t => (linkFor log t link).1

/-- The first pass of `analyse`. -/
def linkPass : LinkMap := (byEpoch log).foldl (classifyEntry log) (fun _ => none)

end Links

section Walk

variable (log : MembershipLog P)

def indexChild (children : TransitionId → List TransitionId) (id : TransitionId) :
    TransitionId → List TransitionId :=
  match log.transition id with
  | none => children
  | some t =>
    match t.prev with
    | none => children
    | some prev => update children prev (children prev ++ [id])

/-- Every observed transition with a `prev`, grouped by parent. -/
def buildChildrenIndex : TransitionId → List TransitionId :=
  log.observedIds.foldl (indexChild log) (fun _ => [])

variable (link : LinkMap)

/-- Whether `grand`, a child of `contender`, is valid and names exactly the
    other contenders. -/
def isResolution (contenders : List TransitionId) (contender grand : TransitionId) : Bool :=
  isValid link grand &&
    match log.transition grand with
    | none => false
    | some gt => decide (gt.resolves ≠ []) &&
        decide (gt.resolves.toFinset = contenders.toFinset.filter (· ≠ contender))

def resolutionCandidates (children : TransitionId → List TransitionId)
    (contenders : List TransitionId) : List TransitionId :=
  contenders.flatMap (fun contender =>
    (children contender).filter (isResolution log link contenders contender))

def markContested (result : Analysis) (ids : List TransitionId) : Analysis :=
  ids.foldl (fun result id => (result.setStatus id .contested).setState link id) result

/-- Siblings of the winner: voided when the resolution names them. -/
def markLosers (winner : TransitionId) (named : List TransitionId) (result : Analysis)
    (contenders : List TransitionId) : Analysis :=
  contenders.foldl (fun result c =>
    if c = winner then result
    else (result.setStatus c (if c ∈ named then .voided else .contested)).setState link c) result

/-- Detect resolutions among the children of `contenders` and record the
    outcome. -/
def handleConflict (children : TransitionId → List TransitionId) (result : Analysis)
    (contenders : List TransitionId) (conflictEpoch : Nat) : Analysis × ConflictOutcome :=
  match resolutionCandidates log link children contenders with
  | [] => (markContested link { result with frozenAt := some conflictEpoch } contenders, .unresolved)
  | [r] =>
    match log.transition r with
    | none => (result, .unresolved)
    | some rt =>
      match rt.prev with
      | none => (result, .unresolved)
      | some winner =>
        (markLosers link winner rt.resolves ((result.select link winner).select link r)
          contenders, .resolved r)
  | candidates =>
    (markContested link (markContested link
        { result with frozenAt := some (saturatingAdd conflictEpoch 1) } contenders) candidates,
      .contradictory)

/-- Advance the canonical chain from `current`. -/
def walk (link : LinkMap) (children : TransitionId → List TransitionId) :
    Nat → Analysis → TransitionId → Analysis
  | 0, result, _ => result
  | fuel + 1, result, current =>
    match (children current).filter (isValid link) with
    | [] => result
    | [child] =>
      match log.transition child with
      | none => result
      | some t =>
        if t.resolves ≠ [] then
          result.setStatus child (.invalid .resolvesWithoutConflict)
        else walk link children fuel (result.select link child) child
    | first :: second :: rest =>
      match log.transition first with
      | none => result
      | some t =>
        match handleConflict log link children result (first :: second :: rest) t.epoch with
        | (next, .resolved resolution) => walk link children fuel next resolution
        | (next, _) => next

/-- The inheritance loop of `classify_remaining`: the nearest classified
    ancestor decides. -/
def inheritedStatus (status : TransitionId → Option TransitionStatus) :
    Nat → TransitionId → Option TransitionStatus
  | 0, _ => none
  | fuel + 1, current =>
    match log.transition current with
    | none => some .voided
    | some t =>
      match t.prev with
      | none => some .voided
      | some prev =>
        match status prev with
        | some .contested | some .voided | some .canonical => some .voided
        | _ => inheritedStatus status fuel prev

/-- One id of `classify_remaining`. A valid link climbs at most its own epoch
    many predecessors. -/
def classifyOne (result : Analysis) (id : TransitionId) : Analysis :=
  if (result.status id).isSome then result
  else match link id with
    | none => result
    | some (.invalid reason) => result.setStatus id (.invalid reason)
    | some .pending => result.setStatus id .pending
    | some .orphaned => result.setStatus id .orphaned
    | some (.valid _ _) =>
      match inheritedStatus log result.status (epochOf log id) id with
      | none => result
      | some status => (result.setStatus id status).setState link id

def classifyRemaining (result : Analysis) : Analysis :=
  log.observedIds.foldl (classifyOne log link) result

/-- The valid geneses, in the order of the epoch index. -/
def geneses : List TransitionId :=
  ((byEpoch log).filter (fun entry => decide (entry.1 = 1) && isValid link entry.2)).map Prod.snd

def analyse : Analysis :=
  let link := linkPass log
  let children := buildChildrenIndex log
  let result := match geneses log link with
    | [] => Analysis.initial
    | [genesis] =>
      walk log link children log.len (Analysis.initial.select link genesis) genesis
    | contenders =>
      match handleConflict log link children .initial contenders 1 with
      | (next, .resolved resolution) => walk log link children log.len next resolution
      | (next, _) => next
  classifyRemaining log link result

end Walk

/-- What a capability's named transition offers an authorization check. -/
inductive Authorizable where
  | valid (transition : MembershipTransition) (state : MembershipState)
  | pending
  | terminal

/-- The canonical tip's state. -/
structure KnownState where
  epoch : Nat
  transitionId : TransitionId
  membersRoot : Digest
  ownersRoot : Digest
  readersRoot : Digest

namespace MembershipLog

variable (log : MembershipLog P)

variable (id : TransitionId)

def authoritative : Option Authorizable :=
  match log.transition id with
  | none => none
  | some transition =>
    match (analyse log).states id with
    | some state => some (.valid transition state)
    | none =>
      match (analyse log).status id with
      | some .pending => some .pending
      | _ => some .terminal

def status (id : TransitionId) : Option TransitionStatus :=
  match log.transition id with
  | none => none
  | some _ => (analyse log).status id

def statuses : TransitionId → Option TransitionStatus := (analyse log).status

def knownState : Option KnownState :=
  match (analyse log).canonical.getLast? with
  | none => none
  | some tip => (log.transition tip).map
      (fun t => ⟨t.epoch, tip, t.membersRoot, t.ownersRoot, t.readersRoot⟩)

def frozenAt : Option Nat := (analyse log).frozenAt

def stateOf : Option MembershipState := (analyse log).states id

def membersOf : Option (Finset DeviceId) := (log.stateOf id).map (·.members)

def ownersOf : Option (Finset DeviceId) := (log.stateOf id).map (·.owners)

def readersOf : Option (Finset DeviceId) := (log.stateOf id).map (·.readers)

end MembershipLog

end Wyrd.Membership
