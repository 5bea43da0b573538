import Wyrd.Durable.Records

/-! # Replay

Committed facts rebuilt into a log, a keyring and the runtime projection:
transitions first, then capabilities against the state their transition
produces, then the runtime facts in commit order.
-/

namespace Wyrd.Durable

open Wyrd.Control Wyrd.Keys Wyrd.Membership

variable {P : Primitives}

inductive DurableError where
  | install (error : InstallError)
  | runtime (error : RuntimeError)
  deriving DecidableEq

def logOf (P : Primitives) (drive : DriveId) (facts : List Fact) : MembershipLog P :=
  (transitionsIn facts).foldl MembershipLog.observe (MembershipLog.new P drive)

/-- One capability of the store; capabilities of other devices are passed over. -/
def installFor (log : MembershipLog P) (device : DeviceId) (keyring : DriveKeyring)
    (cap : Capability) : Except DurableError DriveKeyring :=
  if cap.device ≠ device then .ok keyring
  else (keyring.installVacant cap log).mapError .install

/-- The authorized keys of one device, first-committed secrets holding. -/
def buildKeyring (P : Primitives) (drive : DriveId) (facts : List Fact) (device : DeviceId) :
    Except DurableError DriveKeyring :=
  (capabilitiesIn facts).foldlM (installFor (logOf P drive facts) device)
    (DriveKeyring.new drive device)

/-- One fact applied through the mutator that accepted it. Transitions,
    capabilities and received statements change no runtime projection, and the
    announcement queue is read by the send paths only. -/
def replayFact (D : Digests) (state : RuntimeState P) : Fact → Except RuntimeError (RuntimeState P)
  | .announcement a => state.recordAnnouncement a
  | .snapshotBody s => state.recordSnapshotBody s
  | .manifest record => state.recordManifest D record
  | .localObject content => .ok (state.markLocalObject content)
  | .objectRemoved content => .ok (state.removeLocalObject content)
  | .materialization content desired => .ok (state.setMaterialization content desired)
  | .controlMessage id => .ok (state.rememberControlMessage id)
  | .transitionQueued id recipient => .ok (state.recordTransitionQueued id recipient)
  | .transitionDelivered id recipient => .ok (state.recordTransitionDelivered id recipient)
  | .transitionReconciled id recipient statement =>
    .ok (state.recordTransitionReconciled id recipient statement)
  | .transition _ | .capability _ | .announcementQueued _ _
  | .reconciliationRequestReceived _ _ => .ok state

def replay (D : Digests) (facts : List Fact) : Except RuntimeError (RuntimeState P) :=
  facts.foldlM (replayFact D) (RuntimeState.new P)

structure Rebuilt (P : Primitives) where
  log : MembershipLog P
  keyring : DriveKeyring
  runtime : RuntimeState P
  reconciliationRequests : List (DeviceId × ReconciliationEvidence)

def rebuildFacts (P : Primitives) (D : Digests) (drive : DriveId) (facts : List Fact)
    (device : DeviceId) : Except DurableError (Rebuilt P) := do
  let keyring ← buildKeyring P drive facts device
  let runtime ← (replay D facts).mapError .runtime
  return ⟨logOf P drive facts, keyring, runtime, requestsIn facts⟩

lemma logOf_append (drive : DriveId) (facts more : List Fact) :
    logOf P drive (facts ++ more) =
      (transitionsIn more).foldl MembershipLog.observe (logOf P drive facts) := by
  simp only [logOf, transitionsIn, List.filterMap_append, List.foldl_append]

lemma mem_of_logOf {drive facts id t} (hf : (logOf P drive facts).transition id = some t) :
    .transition t ∈ facts ∧ P.transitionId t = id := by
  have folded : ∀ (ts : List MembershipTransition) (log : MembershipLog P),
      (ts.foldl MembershipLog.observe log).transitions =
        ts.foldl Observed.observe log.transitions := by
    intro ts
    induction ts with
    | nil => exact fun _ => rfl
    | cons head rest ih => exact fun log => ih (log.observe head)
  refine ⟨?_, Observed.key_of_lookup hf⟩
  rw [MembershipLog.transition, logOf, folded] at hf
  rcases Observed.lookup_foldl_observe hf with ho | hm
  · cases ho
  · exact mem_transitionsIn.mp hm

lemma rebuildFacts_ok :
    rebuildFacts P D drive facts device = .ok rebuilt ↔
      buildKeyring P drive facts device = .ok rebuilt.keyring ∧
        replay D facts = .ok rebuilt.runtime ∧ rebuilt.log = logOf P drive facts ∧
        rebuilt.reconciliationRequests = requestsIn facts := by
  simp only [rebuildFacts, bind_ok, mapError_ok]
  constructor
  · rintro ⟨keyring, put, runtime, rerun, hd⟩
    cases hd
    exact ⟨put, rerun, rfl, rfl⟩
  · rintro ⟨put, rerun, log, hr⟩
    refine ⟨_, put, _, rerun, ?_⟩
    rw [← log, ← hr]
    rfl

end Wyrd.Durable
