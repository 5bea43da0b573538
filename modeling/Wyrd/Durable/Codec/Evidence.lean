import Wyrd.Durable.Codec.Records

/-! # The byte forms of reconciliation evidence

The decoder collects three counted sections into sets, in whatever order and however often
the bytes list an element. So a byte string is the encoding of its evidence exactly if each
section is strictly ascending, and only then does its digest tell it from the encodings.
-/

namespace Wyrd.Durable

open Reader List

def decodeReconciliationEvidence (bytes : Bytes) : Option ReconciliationEvidence :=
  parse readEvidence bytes

/-- What a retirement refers to, over the hash of its domain. -/
def reconciliationStatementDigest (hash : Bytes → Digest) (requester : DeviceId)
    (evidence : ReconciliationEvidence) : Digest :=
  hash (requester.asBytes ++ encodeEvidence evidence)

namespace Sections

def Ascending (listed : Sections) : Prop :=
  listed.transitions.Pairwise (· < ·) ∧ listed.snapshots.Pairwise (· < ·) ∧
    listed.capabilities.Pairwise fun a b => toLex a < toLex b

variable {listed : Sections} {bytes : Bytes} {evidence : ReconciliationEvidence}

lemma of_evidence (rises : listed.Ascending) : of listed.evidence = listed := by
  obtain ⟨hm, hs, hc⟩ := rises
  have sets := evidence_of ⟨⟨listed.transitions, hm⟩, ⟨listed.snapshots, hs⟩,
    ⟨listed.capabilities, hc⟩⟩
  exact congrArg of sets

lemma section_some {α : Type} {item} {encode : α → Bytes} {P : α → Prop}
    (each : ∀ bytes value rest, item bytes = some (value, rest) →
      bytes = encode value ++ rest ∧ P value) {items : List α} {rest}
    (hok : readSection item bytes = some (items, rest)) :
    bytes = leBytes 4 items.length ++ items.flatMap encode ++ rest ∧
      items.length ≤ maxRecordsPerCommit ∧ ∀ value ∈ items, P value := by
  obtain ⟨count, middle, counts, hc⟩ := bind_some.mp hok
  obtain ⟨⟨⟩, _, needed, hl⟩ := bind_some.mp hc
  unfold require at needed
  split_ifs at needed with few
  · cases needed
    obtain ⟨rfl, rfl, all⟩ := times_some each hl
    exact ⟨by rw [append_assoc, ← (word_some counts).1], few, all⟩
  · cases needed

lemma id_some (bytes : Bytes) (id : Id kind) (rest : Bytes)
    (hok : Id.read bytes = some (id, rest)) : bytes = id.asBytes ++ rest ∧ True :=
  ⟨Id.spells bytes id rest hok, trivial⟩

lemma install_some (bytes : Bytes) (install : DeviceId × Nat) (rest : Bytes)
    (hok : readInstall bytes = some (install, rest)) :
    bytes = installBytes install ++ rest ∧ Fits64 install.2 := by
  obtain ⟨device, _, hn, dated⟩ := bind_some.mp hok
  obtain ⟨epoch, _, hc, hl⟩ := bind_some.mp dated
  cases hl
  obtain ⟨rfl, hs⟩ := word_some hc
  obtain ⟨rfl, -⟩ := id_some _ _ _ hn
  exact ⟨(append_assoc ..).symm, by unfold Fits64; omega⟩

lemma parse_read (parsed : parse read bytes = some listed) :
    listed.encode = bytes ∧ listed.Within := by
  obtain ⟨transitions, _, first, hs⟩ := bind_some.mp (parse_some.mp parsed)
  obtain ⟨snapshots, _, hl, third⟩ := bind_some.mp hs
  obtain ⟨capabilities, _, latest, last⟩ := bind_some.mp third
  cases last
  obtain ⟨rfl, hf, he⟩ := section_some install_some latest
  obtain ⟨rfl, fewSnapshots, -⟩ := section_some id_some hl
  obtain ⟨rfl, few, -⟩ := section_some id_some first
  exact ⟨by simp [encode], few, fewSnapshots, hf, he⟩

lemma Within.collected (hw : listed.Within) : (of listed.evidence).Within := by
  have hs {α : Type} : Function.Injective fun item : α => item := fun _ _ hs => hs
  have lex : Function.Injective fun install : DeviceId × Nat => toLex install :=
    fun _ _ hs => toLex.injective hs
  exact ⟨(Observed.length_ofList hs _).trans hw.transitions,
    (Observed.length_ofList hs _).trans hw.snapshots,
    (Observed.length_ofList lex _).trans hw.capabilities,
    fun install hm => hw.epochs install ((Observed.mem_ofList lex).mp hm)⟩

lemma parse_encode (hw : listed.Within) : parse read listed.encode = some listed :=
  parse_of_reads (reads hw)

lemma encode_of (evidence : ReconciliationEvidence) :
    (of evidence).encode = encodeEvidence evidence := rfl

lemma ascending_of (evidence : ReconciliationEvidence) : (of evidence).Ascending :=
  ⟨evidence.transitions.ascending, evidence.snapshots.ascending, evidence.capabilities.ascending⟩

lemma parse_encodeEvidence (hw : (of evidence).Within) :
    parse read (encodeEvidence evidence) = some (of evidence) := by
  rw [← encode_of, parse_encode hw]

end Sections

open Sections

variable {bytes : Bytes} {evidence : ReconciliationEvidence}

lemma decodeReconciliationEvidence_some :
    decodeReconciliationEvidence bytes = some evidence ↔
      ∃ listed, parse read bytes = some listed ∧ listed.evidence = evidence := by
  rw [decodeReconciliationEvidence, readEvidence_eq, parse_map, Option.map_eq_some_iff]

/-- An accepted byte string is its evidence's encoding exactly if it lists each section
    strictly ascending. -/
lemma encodeEvidence_eq_iff (parsed : parse read bytes = some listed) :
    encodeEvidence listed.evidence = bytes ↔ listed.Ascending := by
  obtain ⟨spells, hw⟩ := parse_read parsed
  constructor
  · intro hs
    have again := parse_encodeEvidence hw.collected
    rw [hs, parsed] at again
    rw [Option.some.inj again]
    exact ascending_of _
  · intro hr
    rw [← encode_of, of_evidence hr, spells]

lemma decode_encodeEvidence (hw : (of evidence).Within) :
    decodeReconciliationEvidence (encodeEvidence evidence) = some evidence :=
  decodeReconciliationEvidence_some.mpr ⟨of evidence, parse_encodeEvidence hw, evidence_of evidence⟩

def ListsAscending (bytes : Bytes) : Prop :=
  ∃ listed, parse read bytes = some listed ∧ listed.Ascending

/-- Accepted bytes are the one form of their evidence, and their digest tells them from every
    other such form, exactly if they list each section strictly ascending. -/
theorem evidence_one_form_iff (accepted : decodeReconciliationEvidence bytes = some evidence)
    {hash : Bytes → Digest} {requester : DeviceId}
    (free : ∀ other, CollisionFree hash (requester.asBytes ++ encodeEvidence other)
      (requester.asBytes ++ encodeEvidence evidence)) :
    (∀ stated, (of stated).Within →
        decodeReconciliationEvidence (encodeEvidence stated) = some stated) ∧
      (encodeEvidence evidence = bytes ↔ ListsAscending bytes) ∧
      ((∀ other stated, decodeReconciliationEvidence other = some stated → ListsAscending other →
          other ≠ bytes → reconciliationStatementDigest hash requester stated ≠
            reconciliationStatementDigest hash requester evidence) ↔ ListsAscending bytes) := by
  obtain ⟨listed, parsed, rfl⟩ := decodeReconciliationEvidence_some.mp accepted
  have hw := (parse_read parsed).2.collected
  have form : encodeEvidence listed.evidence = bytes ↔ ListsAscending bytes := by
    rw [encodeEvidence_eq_iff parsed]
    constructor
    · exact fun rises => ⟨listed, parsed, rises⟩
    · rintro ⟨other, again, rises⟩
      rwa [Option.some.inj (parsed.symm.trans again)]
  refine ⟨fun _ => decode_encodeEvidence, form, ?_⟩
  constructor
  · intro ho
    rw [← form]
    by_contra other
    exact ho _ _ (decode_encodeEvidence hw) ⟨_, parse_encodeEvidence hw, ascending_of _⟩ other rfl
  · intro rises other stated hd ⟨sections, again, ha⟩ differ hs
    obtain ⟨listing, hh, rfl⟩ := decodeReconciliationEvidence_some.mp hd
    cases hh.symm.trans again
    have encodings := append_cancel_left (free _ hs)
    rw [(encodeEvidence_eq_iff again).mpr ha, form.mpr rises] at encodings
    exact differ encodings

def descending : Sections := ⟨[⟨1⟩, ⟨0⟩], [], []⟩

/-- Two transitions the wrong way round are accepted, and share their evidence, and so any
    digest, with its encoding. -/
theorem descending_accepted : ∃ bytes evidence, decodeReconciliationEvidence bytes = some evidence ∧
    encodeEvidence evidence ≠ bytes ∧
    decodeReconciliationEvidence (encodeEvidence evidence) = some evidence := by
  have hw : descending.Within := ⟨by decide, by decide, by decide, nofun⟩
  have parsed := parse_encode hw
  refine ⟨_, descending.evidence, decodeReconciliationEvidence_some.mpr ⟨_, parsed, rfl⟩, ?_,
    decode_encodeEvidence hw.collected⟩
  rw [Ne, encodeEvidence_eq_iff parsed]
  exact fun hr => absurd hr.1 (by decide)

def several : Sections := ⟨[⟨1⟩, ⟨2⟩], [⟨3⟩, ⟨4⟩], [(⟨5⟩, 1), (⟨5⟩, 2)]⟩

def fewer : Sections := ⟨[⟨2⟩], [⟨3⟩, ⟨4⟩], []⟩

/-- Tells one statement from all others. -/
def markingHash (bytes : Bytes) : Digest :=
  if bytes = (⟨0⟩ : DeviceId).asBytes ++ encodeEvidence several.evidence then 1 else 0

theorem evidence_one_form_iff_several : encodeEvidence several.evidence = several.encode ∧
    reconciliationStatementDigest markingHash ⟨0⟩ fewer.evidence ≠
      reconciliationStatementDigest markingHash ⟨0⟩ several.evidence := by
  have reads : parse read several.encode = some several :=
    parse_encode ⟨by decide, by decide, by decide, by unfold Fits64; decide⟩
  have reads' : parse read fewer.encode = some fewer :=
    parse_encode ⟨by decide, by decide, by decide, by unfold Fits64; decide⟩
  have ascending : several.Ascending := ⟨by decide, by decide, by decide⟩
  have ascending' : fewer.Ascending := ⟨by decide, by decide, by decide⟩
  have free (other : ReconciliationEvidence) : CollisionFree markingHash
      ((⟨0⟩ : DeviceId).asBytes ++ encodeEvidence other)
      ((⟨0⟩ : DeviceId).asBytes ++ encodeEvidence several.evidence) := by
    intro same
    by_contra differs
    simp only [markingHash, if_neg differs] at same
    exact absurd same (by decide)
  obtain ⟨-, form, apart⟩ := evidence_one_form_iff
    (decodeReconciliationEvidence_some.mpr ⟨_, reads, rfl⟩) free
  refine ⟨form.mpr ⟨_, reads, ascending⟩, apart.mpr ⟨_, reads, ascending⟩ fewer.encode _
    (decodeReconciliationEvidence_some.mpr ⟨_, reads', rfl⟩) ⟨_, reads', ascending'⟩ ?_⟩
  intro same
  rw [same, reads] at reads'
  cases reads'

end Wyrd.Durable
