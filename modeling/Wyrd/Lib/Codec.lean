import Mathlib

/-! # Byte readers and the encodings they read back

A reader consumes octets from the front and may fail. `Reads` says what a reader
makes of one encoding, whatever octets follow it; there is one rule for each way
of building a reader, so a decoder is shown to read an encoder back by following
its own text. `Spells` says the converse: whatever a reader accepts, the encoder writes.
Numbers are little-endian or big-endian words of a fixed width.
-/

namespace Wyrd

open Option

/-- A number in `width` octets, least significant first; higher digits are cut. -/
def leBytes : Nat → Nat → List UInt8
  | 0, _ => []
  | width + 1, n => UInt8.ofNat n :: leBytes width (n / 256)

def ofLe : List UInt8 → Nat
  | [] => 0
  | byte :: rest => byte.toNat + 256 * ofLe rest

/-- A number in `width` octets, most significant first. -/
def beBytes (width n : Nat) : List UInt8 := (leBytes width n).reverse

def ofBe (bytes : List UInt8) : Nat := ofLe bytes.reverse

@[simp] lemma length_leBytes (width n : Nat) : (leBytes width n).length = width := by
  induction width generalizing n with
  | zero => rfl
  | succ width ih => simp [leBytes, ih]

@[simp] lemma length_beBytes (width n : Nat) : (beBytes width n).length = width := by
  simp [beBytes]

lemma ofLe_leBytes (fits : n < 256 ^ width) : ofLe (leBytes width n) = n := by
  induction width generalizing n with
  | zero => simp [leBytes, ofLe] at fits ⊢; omega
  | succ width ih =>
    have high : n / 256 < 256 ^ width := by
      rw [pow_succ] at fits
      exact Nat.div_lt_of_lt_mul (by omega)
    simp only [leBytes, ofLe, ih high, UInt8.toNat_ofNat']
    omega

lemma ofBe_beBytes (fits : n < 256 ^ width) : ofBe (beBytes width n) = n := by
  rw [ofBe, beBytes, List.reverse_reverse, ofLe_leBytes fits]

lemma ofLe_lt (bytes : List UInt8) : ofLe bytes < 256 ^ bytes.length := by
  induction bytes with
  | nil => simp [ofLe]
  | cons byte =>
    have small := byte.toNat_lt
    simp only [ofLe, List.length_cons, pow_succ]
    omega

lemma leBytes_ofLe (bytes : List UInt8) : leBytes bytes.length (ofLe bytes) = bytes := by
  induction bytes with
  | nil => rfl
  | cons byte bytes ih =>
    have small := byte.toNat_lt
    have low : UInt8.ofNat (byte.toNat + 256 * ofLe bytes) = byte := by
      apply UInt8.toNat_inj.mp
      rw [UInt8.toNat_ofNat']
      omega
    have high : (byte.toNat + 256 * ofLe bytes) / 256 = ofLe bytes := by omega
    rw [List.length_cons, ofLe, leBytes, low, high, ih]

lemma ofBe_lt (bytes : List UInt8) : ofBe bytes < 256 ^ bytes.length := by
  rw [ofBe, ← List.length_reverse]
  exact ofLe_lt _

lemma beBytes_ofBe (bytes : List UInt8) : beBytes bytes.length (ofBe bytes) = bytes := by
  rw [beBytes, ofBe, ← List.length_reverse, leBytes_ofLe, List.reverse_reverse]

abbrev Reader := StateT (List UInt8) Option

namespace Reader

variable {α β : Type}

def take (count : Nat) : Reader (List UInt8) := fun bytes =>
  if count ≤ bytes.length then some (bytes.take count, bytes.drop count) else none

def rest : Reader (List UInt8) := fun bytes => some (bytes, [])

def lift (outcome : Option α) : Reader α := fun bytes => outcome.map (·, bytes)

def byte : Reader UInt8 := do
  let bytes ← take 1
  lift bytes.head?

def word (width : Nat) : Reader Nat := do
  let bytes ← take width
  return ofLe bytes

/-- One item after the other, `count` times. -/
def times (read : Reader α) : Nat → Reader (List α)
  | 0 => return []
  | count + 1 => do
      let item ← read
      let items ← times read count
      return item :: items

/-- A list behind its length in 32 bits. -/
def counted (read : Reader α) : Reader (List α) := do
  let count ← word 4
  times read count

/-- Octets behind their length in 32 bits. -/
def blob : Reader (List UInt8) := do
  let count ← word 4
  take count

/-- A big-endian number below a bound, in `width` octets. -/
def fixed (width bound : Nat) [NeZero bound] : Reader (Fin bound) := do
  let bytes ← take width
  return Fin.ofNat bound (ofBe bytes)

/-- Go on only if a condition holds. -/
def require (condition : Prop) [Decidable condition] : Reader Unit :=
  lift (if condition then some () else none)

/-- The value of a reader that consumes its whole input. -/
def parse (read : Reader α) (bytes : List UInt8) : Option α :=
  match read bytes with
  | some (value, []) => some value
  | _ => none

/-- What a reader makes of one encoding, whatever follows it. -/
def Reads (read : Reader α) (bytes : List UInt8) (outcome : Option α) : Prop :=
  ∀ follow, read (bytes ++ follow) = outcome.map (·, follow)

section Rules

variable {read : Reader α} {bytes : List UInt8}

lemma reads_pure (value : α) : Reads (pure value) [] (some value) := fun _ => rfl

lemma reads_lift (outcome : Option α) : Reads (lift outcome) [] outcome := fun _ => rfl

lemma Reads.bind {next : α → Reader β} (first : Reads read bytes (some value))
    (second : Reads (next value) more outcome) : Reads (read >>= next) (bytes ++ more) outcome := by
  intro follow
  have hh : read (bytes ++ (more ++ follow)) = some (value, more ++ follow) := first _
  simp only [Bind.bind, StateT.bind, List.append_assoc, hh]
  exact second follow

lemma Reads.skip {next : α → Reader β} (first : Reads read [] (some value))
    (second : Reads (next value) bytes outcome) :
    Reads (read >>= next) bytes outcome := first.bind second

lemma Reads.map (first : Reads read bytes (some value)) (f : α → β) :
    Reads (read >>= fun item => pure (f item)) bytes (some (f value)) := by
  intro follow
  have hh := first follow
  simp only [Bind.bind, StateT.bind, hh]
  rfl

lemma reads_take (exact : bytes.length = count) : Reads (take count) bytes (some bytes) := by
  intro follow
  subst exact
  simp [take]

lemma reads_byte (octet : UInt8) : Reads byte [octet] (some octet) := fun _ => rfl

lemma reads_word (fits : n < 256 ^ width) : Reads (word width) (leBytes width n) (some n) := by
  have read := (reads_take (length_leBytes width n)).map ofLe
  rwa [ofLe_leBytes fits] at read

lemma reads_times (items : List β) (each : ∀ item ∈ items, Reads read (encode item) (decode item)) :
    Reads (times read items.length) (items.flatMap encode) (items.mapM decode) := by
  induction items with
  | nil => exact reads_pure []
  | cons item items ih =>
    intro follow
    have later := ih (fun other hm => each other (List.mem_cons_of_mem _ hm)) follow
    have hh := each item List.mem_cons_self (items.flatMap encode ++ follow)
    simp only [List.length_cons, times, Bind.bind, StateT.bind, List.flatMap_cons,
      List.append_assoc, hh, List.mapM_cons]
    cases decode item with
    | none => rfl
    | some =>
      simp only [map_some, bind_some, later]
      cases items.mapM decode <;> rfl

lemma reads_items (each : ∀ item ∈ items, Reads read (encode item) (some item)) :
    Reads (times read items.length) (items.flatMap encode) (some items) := by
  have all : ∀ items : List α, items.mapM some = some items := by
    intro items
    induction items with
    | nil => rfl
    | cons item items ih => simp [List.mapM_cons, ih]
  rw [← all items]
  exact reads_times items each

lemma reads_counted {encode : α → List UInt8} {items : List α} (fits : items.length < 2 ^ 32)
    (each : ∀ item ∈ items, Reads read (encode item) (some item)) :
    Reads (counted read) (leBytes 4 items.length ++ items.flatMap encode) (some items) :=
  (reads_word (by omega)).bind (reads_items each)

lemma reads_blob (fits : bytes.length < 2 ^ 32) :
    Reads blob (leBytes 4 bytes.length ++ bytes) (some bytes) :=
  (reads_word (by omega)).bind (reads_take rfl)

lemma reads_fixed [NeZero bound] (wide : bound ≤ 256 ^ width) (value : Fin bound) :
    Reads (fixed width bound) (beBytes width value) (some value) := by
  have read := (reads_take (length_beBytes width value)).map (fun bytes => Fin.ofNat bound (ofBe bytes))
  rwa [ofBe_beBytes (value.isLt.trans_le wide), Fin.ofNat_val_eq_self] at read

lemma reads_require {condition : Prop} [Decidable condition] (holds : condition) :
    Reads (require condition) [] (some ()) := by
  rw [require, if_pos holds]
  exact reads_lift _

lemma parse_of_reads (reads : Reads read bytes outcome) : parse read bytes = outcome := by
  have whole := reads []
  rw [List.append_nil] at whole
  simp only [parse, whole]
  cases outcome <;> rfl

lemma parse_bind {next : α → Reader β} (first : Reads read bytes (some value)) :
    parse (read >>= next) (bytes ++ more) = parse (next value) more := by
  have hh : read (bytes ++ more) = some (value, more) := first _
  simp only [parse, Bind.bind, StateT.bind, hh, bind_some]

lemma parse_rest (next : List UInt8 → Reader β) :
    parse (rest >>= next) bytes = parse (next bytes) [] := rfl

lemma parse_map (f : α → β) :
    parse (read >>= fun value => pure (f value)) bytes = (parse read bytes).map f := by
  simp only [parse, Bind.bind, StateT.bind]
  rcases read bytes with _ | ⟨value, _ | _⟩ <;> rfl

lemma parse_lift (next : α → Reader β) (value : α) :
    parse (lift (some value) >>= next) bytes = parse (next value) bytes := rfl

lemma parse_require {condition : Prop} [Decidable condition] (next : Unit → Reader β)
    (holds : condition) : parse (require condition >>= next) bytes = parse (next ()) bytes :=
  parse_bind (reads_require holds)

lemma parse_require_not {condition : Prop} [Decidable condition] (next : Unit → Reader β)
    (fails : ¬ condition) : parse (require condition >>= next) bytes = none := by
  rw [require, if_neg fails]
  rfl

@[simp] lemma parse_pure (value : α) : parse (pure value) [] = some value := rfl

end Rules

/-- Whatever the reader accepts, an encoder writes, behind the octets already read. -/
def Spells (before : List UInt8) (read : Reader α) (encode : α → List UInt8) : Prop :=
  ∀ bytes value rest, read bytes = some (value, rest) → before ++ bytes = encode value ++ rest

section Spelling

variable {read : Reader α} {encode : α → List UInt8} {before : List UInt8} {whole : β → List UInt8}

lemma bind_some {next : α → Reader β} {bytes rest result} :
    (read >>= next) bytes = some (result, rest) ↔
      ∃ value middle, read bytes = some (value, middle) ∧ next value middle = some (result, rest) := by
  simp only [Bind.bind, StateT.bind, bind_eq_some_iff, Prod.exists]

lemma Spells.bind {next : α → Reader β} (first : Spells [] read encode)
    (later : ∀ value, Spells (before ++ encode value) (next value) whole) :
    Spells before (read >>= next) whole := by
  intro bytes result rest hok
  obtain ⟨value, middle, hh, ht⟩ := bind_some.mp hok
  rw [← later value middle result rest ht, List.append_assoc, ← first bytes value middle hh]
  rfl

lemma spells_pure (spells : before = encode value) : Spells before (pure value) encode := by
  rintro bytes _ _ ⟨⟩
  rw [spells]

lemma spells_lift {outcome} {next : α → Reader β}
    (later : ∀ value, outcome = some value → Spells before (next value) whole) :
    Spells before (lift outcome >>= next) whole := by
  intro bytes result rest hok
  obtain ⟨value, middle, hh, ht⟩ := bind_some.mp hok
  cases outcome with
  | none => cases hh
  | some =>
    cases hh
    exact later value rfl bytes result rest ht

lemma spells_lifted (spells : ∀ value, outcome = some value → before = encode value) :
    Spells before (lift outcome) encode := by
  intro bytes value rest hok
  cases outcome with
  | none => cases hok
  | some =>
    cases hok
    rw [spells _ rfl]

lemma take_some {count bytes taken rest} :
    take count bytes = some (taken, rest) ↔ bytes = taken ++ rest ∧ taken.length = count := by
  unfold take
  constructor
  · intro hok
    split_ifs at hok with ha
    cases hok
    exact ⟨(List.take_append_drop ..).symm, List.length_take_of_le ha⟩
  · rintro ⟨rfl, rfl⟩
    simp

lemma word_some {width n : Nat} {bytes rest} (hok : word width bytes = some (n, rest)) :
    bytes = leBytes width n ++ rest ∧ n < 256 ^ width := by
  obtain ⟨taken, middle, hh, ht⟩ := bind_some.mp hok
  obtain ⟨rfl, rfl⟩ := take_some.mp hh
  cases ht
  exact ⟨by rw [leBytes_ofLe], ofLe_lt taken⟩

lemma spells_word (width : Nat) : Spells [] (word width) (leBytes width) :=
  fun _ _ _ hok => (word_some hok).1

lemma spells_byte : Spells [] byte fun octet => [octet] := by
  intro bytes value rest hok
  obtain ⟨taken, middle, hh, ht⟩ := bind_some.mp hok
  obtain ⟨rfl, hs⟩ := take_some.mp hh
  obtain ⟨octet, rfl⟩ := List.length_eq_one_iff.mp hs
  cases ht
  rfl

lemma spells_fixed {width bound : Nat} [NeZero bound] (wide : 256 ^ width = bound) :
    Spells [] (fixed width bound) fun value => beBytes width value := by
  intro bytes value rest hok
  obtain ⟨taken, middle, hh, ht⟩ := bind_some.mp hok
  obtain ⟨rfl, rfl⟩ := take_some.mp hh
  cases ht
  have small := ofBe_lt taken
  dsimp only
  rw [Fin.val_ofNat, Nat.mod_eq_of_lt (wide ▸ small), beBytes_ofBe]
  rfl

lemma times_some {P : α → Prop} (each : ∀ bytes value rest,
      read bytes = some (value, rest) → bytes = encode value ++ rest ∧ P value) {count : Nat}
    {bytes rest} {items : List α} (hok : times read count bytes = some (items, rest)) :
    items.length = count ∧ bytes = items.flatMap encode ++ rest ∧ ∀ item ∈ items, P item := by
  induction count generalizing bytes items with
  | zero =>
    cases hok
    exact ⟨rfl, rfl, nofun⟩
  | succ count ih =>
    obtain ⟨item, middle, hh, hl⟩ := bind_some.mp hok
    obtain ⟨others, _, ht, last⟩ := bind_some.mp hl
    cases last
    obtain ⟨rfl, rfl, all⟩ := ih ht
    obtain ⟨rfl, hf⟩ := each bytes item _ hh
    refine ⟨rfl, ?_, List.forall_mem_cons.mpr ⟨hf, all⟩⟩
    rw [List.flatMap_cons, List.append_assoc]

lemma length_times {count : Nat} {bytes follow : List UInt8} {items : List α}
    (hok : times read count bytes = some (items, follow)) : items.length = count := by
  induction count generalizing bytes items with
  | zero => cases hok; rfl
  | succ count ih =>
    obtain ⟨item, middle, -, hl⟩ := bind_some.mp hok
    obtain ⟨others, _, ht, ⟨⟩⟩ := bind_some.mp hl
    rw [List.length_cons, ih ht]

/-- Reads made in reading `count` items, to the first that fails. -/
def rounds (read : Reader α) : Nat → List UInt8 → Nat
  | 0, _ => 0
  | count + 1, bytes =>
    match read bytes with
    | some (_, follow) => rounds read count follow + 1
    | none => 1

lemma rounds_le (less : ∀ bytes value follow, read bytes = some (value, follow) →
      follow.length < bytes.length) (count : Nat) (bytes : List UInt8) :
    rounds read count bytes ≤ bytes.length + 1 := by
  induction count generalizing bytes with
  | zero => exact Nat.zero_le _
  | succ count ih =>
    unfold rounds
    split
    · next value follow hf =>
      have := ih follow
      have := less bytes value follow hf
      omega
    · omega

lemma spells_counted (spells : Spells [] read encode) :
    Spells [] (counted read) fun items => leBytes 4 items.length ++ items.flatMap encode := by
  intro bytes items rest hok
  obtain ⟨count, middle, hh, ht⟩ := bind_some.mp hok
  obtain ⟨rfl, rfl, -⟩ := times_some (P := fun _ => True)
    (fun bytes value rest hok => ⟨spells bytes value rest hok, trivial⟩) ht
  rw [List.append_assoc]
  exact spells_word 4 bytes _ _ hh

lemma spells_blob : Spells [] blob fun bytes => leBytes 4 bytes.length ++ bytes := by
  intro bytes value rest hok
  obtain ⟨count, middle, hh, ht⟩ := bind_some.mp hok
  obtain ⟨rfl, rfl⟩ := take_some.mp ht
  rw [List.append_assoc]
  exact spells_word 4 bytes _ _ hh

lemma parse_some : parse read bytes = some value ↔ read bytes = some (value, []) := by
  unfold parse
  constructor
  · intro parsed
    split at parsed
    · next hf => cases parsed; exact hf
    · cases parsed
  · intro hf
    rw [hf]

lemma Spells.parse (spelled : Spells [] read encode) (parsed : parse read bytes = some value) :
    encode value = bytes := by
  have spells := spelled bytes value [] (parse_some.mp parsed)
  rw [List.append_nil] at spells
  exact spells.symm

end Spelling

end Reader

end Wyrd
