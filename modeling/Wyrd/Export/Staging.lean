import Mathlib

/-! # Which staging containers a sweep removes

An export writes the time of its progress into a marker beside its payload, and a later export
removes the siblings whose marker is older than an hour. The marker is written at every 64th
progress point only: points less than an hour apart do not keep it fresh. A marker that ends
early is read as an earlier time.
-/

namespace Wyrd.Export

open List Nat

/-- Nanoseconds since the epoch, in 128 bits. -/
abbrev Nanos := Fin (2 ^ 128)

def staleAfter : Nat := 3600 * 10 ^ 9

def heartbeatMagic : List Char := "WYRD-EXPORT-HEARTBEAT-v1".toList

def splitOnce (separator : Char) (text : List Char) : Option (List Char × List Char) :=
  if separator ∈ text then
    some (text.takeWhile (· ≠ separator), (text.dropWhile (· ≠ separator)).drop 1)
  else none

/-- Unicode's `White_Space`. -/
def isWhiteSpace (char : Char) : Bool :=
  let n := char.toNat
  (9 ≤ n ∧ n ≤ 13) ∨ (0x2000 ≤ n ∧ n ≤ 0x200a) ∨
    n ∈ [0x20, 0x85, 0xa0, 0x1680, 0x2028, 0x2029, 0x202f, 0x205f, 0x3000]

def trim (text : List Char) : List Char := (text.dropWhile isWhiteSpace).rdropWhile isWhiteSpace

/-- Decimal digits, which one plus sign may precede. -/
def parseU128 (text : List Char) : Option Nanos :=
  let digits := match text with
    | '+' :: rest => rest
    | _ => text
  if digits ≠ [] ∧ digits.all Char.isDigit then
    let value := Nat.ofDigitChars 10 digits 0
    if fits : value < 2 ^ 128 then some ⟨value, fits⟩ else none
  else none

def stagingShape (remainder : List Char) : Bool :=
  match splitOnce '.' remainder with
  | some (first, second) => first ≠ [] ∧ second ≠ [] ∧ '.' ∉ second ∧
      first.all Char.isDigit ∧ second.all Char.isDigit
  | none => false

def readMarker (text : List Char) : Option Nanos := do
  let (magic, rest) ← splitOnce '\n' text
  if magic = heartbeatMagic then parseU128 (trim rest) else none

/-- `marker` is what the marker file reads as, if it can be read. -/
def isStale (marker : Option (List Char)) (now : Nanos) : Bool :=
  match marker.bind readMarker with
  | some beat => staleAfter < now.val - beat.val
  | none => false

/-- The writer of a marker, with what it has written. -/
structure Heartbeat where
  calls : Nat
  marker : Option (List Char)

def markerText (now : Nanos) : List Char :=
  heartbeatMagic ++ '\n' :: (Nat.toDigits 10 now ++ ['\n'])

def Heartbeat.beat (heartbeat : Heartbeat) (now : Nanos) : Heartbeat :=
  let calls := heartbeat.calls + 1
  if calls % 64 ≠ 1 then ⟨calls, heartbeat.marker⟩ else ⟨calls, some (markerText now)⟩

/-- An entry of the parent directory: its name, what its marker reads as at the two reads, and
    whether removing it fails. -/
structure Sibling where
  name : List Char
  classified : Option (List Char)
  rechecked : Option (List Char)
  fails : Bool

def stagingLead (stem : List Char) : List Char := stem ++ ".wyrd-export.".toList

def condemned (stem : List Char) (now : Nanos) (sibling : Sibling) : Bool :=
  (stagingLead stem).isPrefixOf sibling.name ∧
    stagingShape (sibling.name.drop (stagingLead stem).length) ∧
    isStale sibling.classified now ∧ isStale sibling.rechecked now

/-- The siblings that are removed, and whether the sweep went through. It ends at an entry that
    cannot be read and at a removal that fails. -/
def sweepStaging (stem : List Char) (now : Nanos) : List (Option Sibling) → List Sibling × Bool
  | [] => ([], true)
  | none :: _ => ([], false)
  | some sibling :: rest =>
    if condemned stem now sibling then
      if sibling.fails then ([sibling], false)
      else (sibling :: (sweepStaging stem now rest).1, (sweepStaging stem now rest).2)
    else sweepStaging stem now rest

/-- An export: the name of its container, the times of its progress points, that of the
    claim first, and the time of the rename that publishes. -/
structure Run where
  stem : List Char
  pid : Nat
  nanos : Nat
  points : List Nanos
  publishes : Nanos

namespace Run

/-- The marker behind the first `done` points. -/
def marker (run : Run) (done : Nat) : Option (List Char) :=
  ((run.points.take done).foldl Heartbeat.beat ⟨0, none⟩).marker

/-- The container as a sweep meets it behind so many points. -/
def container (run : Run) (classified rechecked : Nat) : Sibling where
  name := stagingLead run.stem ++ (Nat.toDigits 10 run.pid ++ '.' :: Nat.toDigits 10 run.nanos)
  classified := run.marker classified
  rechecked := run.marker rechecked
  fails := false

/-- A sweep that began at `now` looks behind the first `done` points, not later than the next
    one or, behind the last, than the rename. -/
def Meets (run : Run) (now : Nanos) (done : Nat) : Prop :=
  ∃ next, (run.points ++ [run.publishes])[done]? = some next ∧ now ≤ next

def NeverSwept (run : Run) : Prop :=
  ∀ now done, run.Meets now done → isStale (run.marker done) now = false ∧
    ∀ stem rechecked, condemned stem now (run.container done rechecked) = false

/-- Every point, and the rename, is within the lease of the last point before it that wrote
    the marker. -/
def Beaten (run : Run) : Prop :=
  ∀ done beat next, run.points[done / 64 * 64]? = some beat →
    (run.points ++ [run.publishes])[done + 1]? = some next → next.val - beat.val ≤ staleAfter

end Run

lemma splitOnce_append {separator first second} (absent : separator ∉ first) :
    splitOnce separator (first ++ separator :: second) = some (first, second) := by
  have others : ∀ char ∈ first, decide (char ≠ separator) = true := by
    intro char member
    simpa using ne_of_mem_of_not_mem member absent
  rw [splitOnce, if_pos (by simp), takeWhile_append_of_pos others, dropWhile_append_of_pos others]
  simp

lemma splitOnce_some {separator text first second}
    (split : splitOnce separator text = some (first, second)) :
    text = first ++ separator :: second := by
  unfold splitOnce at split
  split_ifs at split with found
  cases split
  have rest : text.dropWhile (· ≠ separator) ≠ [] := by
    simpa [dropWhile_eq_nil_iff] using found
  have head : (text.dropWhile (· ≠ separator)).head rest = separator := by
    simpa using head_dropWhile_not (· ≠ separator) rest
  conv_lhs => rw [← takeWhile_append_dropWhile (p := (· ≠ separator)) (l := text),
    ← cons_head_tail rest, head]
  rw [drop_one]

lemma not_isWhiteSpace_of_isDigit {char : Char} (digit : char.isDigit = true) :
    isWhiteSpace char = false := by
  have bounds : 48 ≤ char.toNat ∧ char.toNat ≤ 57 := by
    simpa [Char.isDigit, UInt32.le_iff_toNat_le] using digit
  simp [isWhiteSpace]
  omega

lemma readMarker_markerText (now : Nanos) : readMarker (markerText now) = some now := by
  have digits : ∀ char ∈ Nat.toDigits 10 now, char.isDigit = true :=
    fun char member => isDigit_of_mem_toDigits (by decide) (by decide) member
  have trims : trim (Nat.toDigits 10 now ++ ['\n']) = Nat.toDigits 10 now := by
    have some : Nat.toDigits 10 now ≠ [] := toDigits_ne_nil
    unfold trim
    rw [dropWhile_eq_self_iff.mpr, rdropWhile_concat_pos _ _ _ (by decide), rdropWhile_eq_self_iff]
    · intro some
      simp [not_isWhiteSpace_of_isDigit (digits _ (getLast_mem some))]
    · intro _
      rw [getElem_append_left (length_pos_of_ne_nil some)]
      simp [not_isWhiteSpace_of_isDigit (digits _ (getElem_mem _))]
  have parses : parseU128 (Nat.toDigits 10 now) = some now := by
    unfold parseU128
    split
    · next rest signed =>
      have := digits '+' (by simp [signed])
      cases this
    · simpa [ofDigitChars_toDigits] using digits
  rw [readMarker, markerText, splitOnce_append (by decide)]
  simp [trims, parses]

lemma isStale_markerText (beat now : Nanos) :
    isStale (some (markerText beat)) now = decide (staleAfter < now.val - beat.val) := by
  simp [isStale, readMarker_markerText]

namespace Run

variable {run : Run} {done : Nat}

lemma calls_take (reached : done ≤ run.points.length) :
    ((run.points.take done).foldl Heartbeat.beat ⟨0, none⟩).calls = done := by
  induction done with
  | zero => rfl
  | succ done ih =>
    rw [take_succ_eq_append_getElem reached, foldl_append, foldl_cons, foldl_nil, Heartbeat.beat]
    have := ih (by omega)
    split_ifs <;> simp [this]

/-- The marker holds the time of the last point that wrote it. -/
lemma marker_succ (reached : done < run.points.length) :
    run.marker (done + 1) = run.points[done / 64 * 64]?.map markerText := by
  have beats {done} (reached : done < run.points.length) : run.marker (done + 1) =
      if (done + 1) % 64 ≠ 1 then run.marker done else run.points[done]?.map markerText := by
    unfold marker
    rw [take_succ_eq_append_getElem reached, foldl_append, foldl_cons, foldl_nil, Heartbeat.beat,
      calls_take reached.le, getElem?_eq_getElem reached]
    split_ifs <;> rfl
  induction done with
  | zero => exact beats reached
  | succ done ih =>
    rw [beats reached]
    split_ifs with keeps
    · rw [ih (by omega), show (done + 1) / 64 * 64 = done / 64 * 64 by omega]
    · rw [show (done + 1) / 64 * 64 = done + 1 by omega]

/-- Behind a point, the marker is stale to a sweep that began a lease after it was written. -/
lemma isStale_marker {now beat next : Nanos} (written : run.points[done / 64 * 64]? = some beat)
    (follows : (run.points ++ [run.publishes])[done + 1]? = some next) :
    isStale (run.marker (done + 1)) now = decide (staleAfter < now.val - beat.val) := by
  have reached := (List.getElem?_eq_some_iff.mp follows).1
  rw [length_append, length_singleton] at reached
  rw [marker_succ (by omega), written, Option.map_some, isStale_markerText]

lemma neverSwept_iff : run.NeverSwept ↔ run.Beaten := by
  constructor
  · intro never done beat next written follows
    have fresh := (never next (done + 1) ⟨next, follows, le_rfl⟩).1
    rw [isStale_marker written follows, decide_eq_false_iff_not] at fresh
    omega
  · rintro beaten now done ⟨next, follows, early⟩
    have fresh : isStale (run.marker done) now = false := by
      cases done with
      | zero => rfl
      | succ done =>
        have reached := (List.getElem?_eq_some_iff.mp follows).1
        rw [length_append, length_singleton] at reached
        obtain ⟨beat, written⟩ : ∃ beat, run.points[done / 64 * 64]? = some beat :=
          ⟨_, getElem?_eq_getElem (by omega)⟩
        have early : now.val ≤ next.val := early
        have within := beaten done beat next written follows
        rw [isStale_marker written follows, decide_eq_false_iff_not]
        omega
    refine ⟨fresh, fun stem rechecked => ?_⟩
    simp [condemned, container, fresh]

end Run

lemma sweepStaging_condemned {stem now siblings sibling}
    (removed : sibling ∈ (sweepStaging stem now siblings).1) :
    condemned stem now sibling = true := by
  induction siblings with
  | nil => cases removed
  | cons head rest ih =>
    cases head with
    | none => cases removed
    | some head =>
      unfold sweepStaging at removed
      split_ifs at removed with stale <;> grind

lemma stagingShape_some {remainder} (shape : stagingShape remainder = true) :
    ∃ first second, remainder = first ++ '.' :: second ∧ first ≠ [] ∧ second ≠ [] ∧
      ∀ char ∈ first ++ second, char.isDigit = true := by
  unfold stagingShape at shape
  split at shape
  · next first second split =>
    simp only [decide_eq_true_eq, all_eq_true] at shape
    obtain ⟨some, more, -, digits, digits'⟩ := shape
    refine ⟨first, second, splitOnce_some split, some, more, fun char member => ?_⟩
    exact (mem_append.mp member).elim (digits char) (digits' char)
  · cases shape

/-- An export's container is never found stale, and so never removed, while the export is at work
    exactly if each of its progress points, and its rename, is within the lease of the last point
    before it that wrote the marker. What a sweep removes has two numbers after the stem and, at
    the recheck, a marker that begins with the magic line; if that marker is complete, the time
    in it is older than the lease. -/
theorem export_never_swept_iff (run : Run) (stem now siblings) :
    (run.NeverSwept ↔ run.Beaten) ∧ ∀ sibling ∈ (sweepStaging stem now siblings).1,
      ∃ first second rest, sibling.name = stagingLead stem ++ (first ++ '.' :: second) ∧
        first ≠ [] ∧ second ≠ [] ∧ (∀ char ∈ first ++ second, char.isDigit = true) ∧
        sibling.rechecked = some (heartbeatMagic ++ '\n' :: rest) ∧
        ∀ beat, sibling.rechecked = some (markerText beat) → beat.val + staleAfter < now.val := by
  refine ⟨run.neverSwept_iff, fun sibling removed => ?_⟩
  have condemned := sweepStaging_condemned removed
  simp only [Export.condemned, decide_eq_true_eq] at condemned
  obtain ⟨leads, shape, -, stale⟩ := condemned
  obtain ⟨remainder, name⟩ := isPrefixOf_iff_prefix.mp leads
  rw [← name, drop_left] at shape
  obtain ⟨first, second, rfl, some, more, digits⟩ := stagingShape_some shape
  unfold isStale at stale
  split at stale
  · next beat found =>
    obtain ⟨text, read, parsed⟩ := Option.bind_eq_some_iff.mp found
    obtain ⟨⟨magic, rest⟩, split, parsed'⟩ := Option.bind_eq_some_iff.mp parsed
    dsimp only at parsed'
    split_ifs at parsed' with ours
    refine ⟨first, second, rest, name.symm, some, more, digits, ?_, fun written complete => ?_⟩
    · rw [read, splitOnce_some split, ours]
    · rw [read, Option.some_inj] at complete
      rw [complete, readMarker_markerText] at parsed
      cases parsed
      simp only [decide_eq_true_eq] at stale
      omega
  · cases stale

/-- Three points, each just under an hour after the one before. -/
def slowRun : Run :=
  ⟨"backup".toList, 7, 1, [0, 3599 * 10 ^ 9, 7198 * 10 ^ 9], 7199 * 10 ^ 9⟩

/-- Another export begins before the third point and removes the container. -/
theorem slow_run_swept :
    slowRun.points.IsChain (fun a b => a ≤ b ∧ b.val - a.val < staleAfter) ∧
      slowRun.Meets (7198 * 10 ^ 9) 2 ∧
      (sweepStaging slowRun.stem (7198 * 10 ^ 9) [some (slowRun.container 2 2)]).1.length = 1 :=
  ⟨by decide +kernel, ⟨_, rfl, le_rfl⟩, by decide +kernel⟩

/-- A marker that ends within its time: what is left of it reads as a time long past. -/
def tornMarker : List Char := heartbeatMagic ++ "\n1".toList

/-- The marker of a fresh run, cut short, has its container removed. -/
lemma torn_marker_swept :
    tornMarker <+: markerText (1700000000 * 10 ^ 9) ∧
      isStale (some (markerText (1700000000 * 10 ^ 9))) (1700000001 * 10 ^ 9) = false ∧
      (sweepStaging slowRun.stem (1700000001 * 10 ^ 9) [some
        { slowRun.container 1 1 with classified := tornMarker, rechecked := tornMarker }]).1.length
        = 1 := by
  decide +kernel

end Wyrd.Export
