import Wyrd.Format.Documents

/-! # Membership state and per-transition validation

The member, owner and reader sets at one point of the transition chain, the
rules by which changes apply to them, and the checks a transition must pass on
its own or against the state it leaves.
-/

namespace Wyrd.Membership

/-- The sets at one point in the chain, with each admitted device's registered
    encryption key. -/
structure MembershipState where
  members : Finset DeviceId
  owners : Finset DeviceId
  readers : Finset DeviceId
  encryptionKeys : Finmap (fun _ : DeviceId => DeviceEncryptionKey)

/-- `MembershipState::default`. -/
def MembershipState.initial : MembershipState := ⟨∅, ∅, ∅, ∅⟩

inductive ApplyError where
  | admitExistingMember
  | admitExistingReaderAsMember
  | admitReaderExisting
  | removeThenAdmitSameDevice
  | removeUnknownMember
  | removingOwner
  | danglingOwner
  | setOwnersNotSingleton
  deriving DecidableEq

/-- The device a change admits, in either role. -/
def admittedDevice : Change → Option DeviceId
  | .admitMember admission | .admitReader admission => some admission.device
  | _ => none

def removedDevice : Change → Option DeviceId
  | .remove device => some device
  | _ => none

/-- Devices admitted by a list of changes, in either role: retirement is about
    identity use, not the role granted. -/
def admits (changes : List Change) : List DeviceId := changes.filterMap admittedDevice

/-- One change against the state reached so far. -/
def applyChange (next : MembershipState) : Change → Except ApplyError MembershipState
  | .admitMember admission =>
    if admission.device ∈ next.members then .error .admitExistingMember
    else if admission.device ∈ next.readers then .error .admitExistingReaderAsMember
    else .ok { next with
      members := insert admission.device next.members
      encryptionKeys := next.encryptionKeys.insert admission.device admission.encryptionKey }
  | .admitReader admission =>
    if admission.device ∈ next.members ∨ admission.device ∈ next.readers then
      .error .admitReaderExisting
    else .ok { next with
      readers := insert admission.device next.readers
      encryptionKeys := next.encryptionKeys.insert admission.device admission.encryptionKey }
  | .remove device =>
    if device ∉ next.members ∧ device ∉ next.readers then .error .removeUnknownMember
    else
      let evicted : MembershipState := { next with
        members := next.members.erase device
        readers := next.readers.erase device
        encryptionKeys := next.encryptionKeys.erase device }
      if device ∈ next.owners then
        if next.owners.card > 1 then .error .removingOwner
        else .ok { evicted with owners := next.owners.erase device }
      else .ok evicted
  | .rotate => .ok next
  | .setOwners owners =>
    if owners.length ≠ 1 then .error .setOwnersNotSingleton
    else .ok { next with owners := owners.toFinset }

/-- Apply changes in order. A device may not be removed and admitted by one
    transition; `owners ⊆ members` is checked once, at the end. -/
def apply (state : MembershipState) (changes : List Change) : Except ApplyError MembershipState :=
  if (admits changes).any (fun device => device ∈ changes.filterMap removedDevice) then
    .error .removeThenAdmitSameDevice
  else do
    let next ← changes.foldlM applyChange state
    if next.owners ⊆ next.members then .ok next else .error .danglingOwner

inductive InvalidReason where
  | epochZero
  | genesisWithPrev
  | missingPrev
  | prevWrongEpoch
  | emptyChanges
  | badSignature
  | authorNotOwner
  | badChanges
  | admitRetiredDevice
  | rootMismatch
  | badGenesis
  | resolvesWithoutConflict
  | invalidResolvesEntry
  | duplicateResolves
  deriving DecidableEq

section Validate

variable (P : Primitives)

def signatureVerifies (drive : DriveId) (t : MembershipTransition) : Bool :=
  P.validDeviceKey t.author && P.parsesSignature t.signature &&
    P.verifySchnorr t.signature (P.membershipChallenge t drive) t.author

/-- The encryption key of an admission must be a curve point. -/
def admitsGarbageKey : Change → Bool
  | .admitMember admission | .admitReader admission => !P.validEncryptionKey admission.encryptionKey
  | _ => false

/-- Structural checks that need no predecessor state. -/
def checkIntrinsic (t : MembershipTransition) : Except InvalidReason Unit :=
  if t.epoch = 0 then .error .epochZero
  else if t.epoch = 1 ∧ t.prev.isSome then .error .genesisWithPrev
  else if t.epoch ≠ 1 ∧ t.prev.isNone then .error .missingPrev
  else if t.prev.isNone ∧ t.resolves ≠ [] then .error .resolvesWithoutConflict
  else if t.changes = [] then .error .emptyChanges
  else if t.changes.any (admitsGarbageKey P) then .error .badChanges
  else .ok ()

/-- The genesis state covers exactly one device, who is the owner. -/
def checkGenesisShape (state : MembershipState) : Except InvalidReason Unit :=
  if (state.members.card = 1 ∧ state.owners.card = 1 ∧ state.members = state.owners) ∧
      state.readers = ∅ then .ok ()
  else .error .badGenesis

/-- Authority comes from the owner set of the state being left. -/
def checkAuthority (prevState : MembershipState) (t : MembershipTransition) :
    Except InvalidReason Unit :=
  if t.author ∈ prevState.owners then .ok () else .error .authorNotOwner

/-- The declared roots are the recomputed ones; a failed recomputation is a
    mismatch. -/
def rootsMatch (state : MembershipState) (t : MembershipTransition) : Bool :=
  decide (P.setRoot .members state.members = some t.membersRoot) &&
    decide (P.setRoot .owners state.owners = some t.ownersRoot) &&
    decide (P.setRoot .readers state.readers = some t.readersRoot)

/-- Derive the next state and check the derive-the-roots rule. -/
def deriveNext (prevState : MembershipState) (t : MembershipTransition) :
    Except InvalidReason MembershipState :=
  match apply prevState t.changes with
  | .error _ => .error .badChanges
  | .ok derived => if rootsMatch P derived t then .ok derived else .error .rootMismatch

lemma deriveNext_ok :
    deriveNext P prevState t = .ok state ↔
      apply prevState t.changes = .ok state ∧ rootsMatch P state t = true := by
  simp only [deriveNext]
  cases hr : apply prevState t.changes with
  | error => simp
  | ok =>
    simp only [Except.ok.injEq]
    split_ifs with roots
    · simp only [Except.ok.injEq]
      constructor
      · rintro rfl
        exact ⟨rfl, roots⟩
      · exact And.left
    · simp only [false_iff, not_and]
      rintro rfl
      exact roots

lemma checkAuthority_ok : checkAuthority prevState t = .ok () ↔ t.author ∈ prevState.owners := by
  simp only [checkAuthority]
  split_ifs with ho <;> simp [ho]

/-- Past the intrinsic checks, having no predecessor and being at epoch one are
    the same, and a genesis resolves nothing. -/
lemma checkIntrinsic_ok (passed : checkIntrinsic P t = .ok ()) :
    (t.prev = none ↔ t.epoch = 1) ∧ (t.prev = none → t.resolves = []) := by
  simp only [checkIntrinsic] at passed
  split_ifs at passed with zero first lost stray
  simp only [Option.isSome_iff_ne_none, Option.isNone_iff_eq_none, ne_eq] at first lost stray
  exact ⟨⟨fun none => by_contra fun ho => lost ⟨ho, none⟩,
      fun one => by_contra fun some => first ⟨one, some⟩⟩,
    fun none => by_contra fun some => stray ⟨none, some⟩⟩

end Validate

end Wyrd.Membership
