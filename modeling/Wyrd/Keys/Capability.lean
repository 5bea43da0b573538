import Wyrd.Lib.Fallible
import Wyrd.Control.Message
import Wyrd.Membership.Chain

/-! # Capabilities and the keyring

A capability carries the secrets of epochs `1..=N` for one device, bound to the
transition that admits them. Every install path runs the same predicate: the log
supplies the transition together with the state it produces. Installing fills
vacant epochs only, so the first vector to land anchors every epoch it covers.
-/

namespace Wyrd.Keys

open Wyrd.Membership Function

variable {P : Primitives}

/-- Secrets for one device of one drive; entry `i` is the secret of epoch
    `i + 1`. -/
structure Capability where
  drive : DriveId
  device : DeviceId
  encryptionKey : DeviceEncryptionKey
  transition : TransitionId
  secrets : List EpochSecret
  deriving DecidableEq

inductive CapabilityError where
  | epochMismatch (declared carried : Nat)
  | notAMember
  | staleEncryptionKey
  | transitionMismatch (expected found : TransitionId)
  | unknownTransition (transition : TransitionId)
  | unauthorizableTransition (transition : TransitionId)
  | driveMismatch (expected found : DriveId)
  deriving DecidableEq

namespace Capability

/-- The epoch this capability covers: the number of secrets it carries. -/
def coveredEpoch (cap : Capability) : Nat := cap.secrets.length

/-- The device is registered in the state, under this encryption key. -/
def validateAgainst (cap : Capability) (state : MembershipState) : Except CapabilityError Unit :=
  match state.encryptionKeys.lookup cap.device with
  | none => .error .notAMember
  | some registered =>
    if registered = cap.encryptionKey then .ok () else .error .staleEncryptionKey

/-- The binding of a capability to the transition the log supplied. -/
def checkBinding (P : Primitives) (cap : Capability) (transition : MembershipTransition) :
    Except CapabilityError Unit :=
  if cap.transition ≠ P.transitionId transition then
    .error (.transitionMismatch (P.transitionId transition) cap.transition)
  else if cap.coveredEpoch ≠ transition.epoch then
    .error (.epochMismatch transition.epoch cap.coveredEpoch)
  else .ok ()

/-- The full authorization predicate. Unobserved and pending history may still
    arrive or resolve; terminal history never can. -/
def authorizeAgainst (cap : Capability) (drive : DriveId) (log : MembershipLog P)
    (transitionId : TransitionId) : Except CapabilityError Unit :=
  if cap.drive ≠ drive then .error (.driveMismatch drive cap.drive)
  else match log.authoritative transitionId with
    | some (.valid transition state) => do
        cap.validateAgainst state
        cap.checkBinding P transition
    | some .pending | none => .error (.unknownTransition transitionId)
    | some .terminal => .error (.unauthorizableTransition transitionId)

end Capability

structure DriveKeyring where
  drive : DriveId
  device : DeviceId
  secrets : Nat → Option EpochSecret

inductive InstallError where
  | wrongDrive
  | wrongDevice
  | unauthorized (error : CapabilityError)
  deriving DecidableEq

/-- Fill a vacant epoch; a held secret stays. -/
def fillVacant (held : Nat → Option EpochSecret) (epoch : Nat) (secret : EpochSecret) :
    Nat → Option EpochSecret :=
  match held epoch with
  | some _ => held
  | none => update held epoch (some secret)

/-- Fill vacant epochs from a vector whose first entry is the secret of
    `epoch`. -/
def fillFrom (held : Nat → Option EpochSecret) : Nat → List EpochSecret → Nat → Option EpochSecret
  | _, [] => held
  | epoch, secret :: rest => fillFrom (fillVacant held epoch secret) (epoch + 1) rest

namespace DriveKeyring

def new (drive : DriveId) (device : DeviceId) : DriveKeyring := ⟨drive, device, fun _ => none⟩

def secret (keyring : DriveKeyring) (epoch : Nat) : Option EpochSecret := keyring.secrets epoch

/-- Drive and device routing, then the full predicate. -/
def preflight (keyring : DriveKeyring) (cap : Capability) (log : MembershipLog P) :
    Except InstallError Unit :=
  if cap.drive ≠ keyring.drive then .error .wrongDrive
  else if cap.device ≠ keyring.device then .error .wrongDevice
  else (cap.authorizeAgainst keyring.drive log cap.transition).mapError .unauthorized

/-- Install only the epochs the keyring does not hold. -/
def installVacant (keyring : DriveKeyring) (cap : Capability) (log : MembershipLog P) :
    Except InstallError DriveKeyring := do
  keyring.preflight cap log
  return { keyring with secrets := fillFrom keyring.secrets 1 cap.secrets }

end DriveKeyring

/-- Filling keeps what is held and takes the rest from the vector. -/
lemma fillFrom_apply (held : Nat → Option EpochSecret) (first : Nat)
    (secrets : List EpochSecret) (epoch : Nat) :
    fillFrom held first secrets epoch =
      (held epoch).or (if first ≤ epoch then secrets[epoch - first]? else none) := by
  induction secrets generalizing held first with
  | nil => simp [fillFrom]
  | cons secret rest ih =>
    rw [fillFrom, ih]
    unfold fillVacant
    rcases lt_trichotomy epoch first with hb | rfl | ha
    · have apart : epoch ≠ first := by omega
      cases free : held first <;>
        simp [update_of_ne apart, show ¬ first + 1 ≤ epoch by omega,
          show ¬ first ≤ epoch by omega]
    · cases free : held epoch <;> simp [free]
    · obtain ⟨step, rfl⟩ : ∃ step, epoch = first + 1 + step := ⟨epoch - (first + 1), by omega⟩
      have apart : first + 1 + step ≠ first := by omega
      have entry : (secret :: rest)[first + 1 + step - first]? = rest[step]? := by
        rw [show first + 1 + step - first = step + 1 by omega]
        rfl
      have later : first + 1 ≤ first + 1 + step := by omega
      cases free : held first <;>
        simp [update_of_ne apart, entry, later, show first ≤ first + 1 + step by omega]

/-- A secret held after filling was held before, or is the vector's own for that
    epoch. -/
lemma fillFrom_origin (found : fillFrom held first secrets epoch = some new) :
    held epoch = some new ∨ first ≤ epoch ∧ secrets[epoch - first]? = some new := by
  rw [fillFrom_apply, Option.or_eq_some_iff] at found
  rcases found with before | ⟨_, entry⟩
  · exact .inl before
  · split_ifs at entry with past
    exact .inr ⟨past, entry⟩

lemma DriveKeyring.installVacant_ok {keyring next : DriveKeyring} {cap : Capability}
    {log : MembershipLog P} (put : keyring.installVacant cap log = .ok next) :
    keyring.preflight cap log = .ok () ∧
      next = { keyring with secrets := fillFrom keyring.secrets 1 cap.secrets } := by
  simp only [installVacant, bind_ok] at put
  obtain ⟨_, hc, hd⟩ := put
  cases hd
  exact ⟨hc, rfl⟩

end Wyrd.Keys
