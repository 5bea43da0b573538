import Wyrd.Lib.Codec

/-! # Parsers that say why they refuse

A parser consumes octets from the front, or refuses with an error. `Accepts` says what
it makes of one encoding, whatever octets follow.
-/

namespace Wyrd

abbrev Parser (ε : Type) := StateT (List UInt8) (Except ε)

namespace Parser

variable {ε α β : Type}

def take (short : ε) (count : Nat) : Parser ε (List UInt8) := fun bytes =>
  if count ≤ bytes.length then .ok (bytes.take count, bytes.drop count) else .error short

def lift (outcome : Except ε α) : Parser ε α := fun bytes => outcome.map (·, bytes)

def word (short : ε) (width : Nat) : Parser ε Nat := do
  let bytes ← take short width
  return ofLe bytes

/-- What a parser makes of one encoding, whatever follows it. -/
def Accepts (parse : Parser ε α) (bytes : List UInt8) (value : α) : Prop :=
  ∀ follow, parse (bytes ++ follow) = .ok (value, follow)

variable {parse : Parser ε α} {bytes : List UInt8} {value : α}

lemma accepts_pure (value : α) : Accepts (pure value : Parser ε α) [] value := fun _ => rfl

lemma accepts_lift {outcome : Except ε α} (fine : outcome = .ok value) :
    Accepts (lift outcome) [] value := by
  subst fine
  exact fun _ => rfl

lemma Accepts.bind {next : α → Parser ε β} (first : Accepts parse bytes value)
    (second : Accepts (next value) more result) :
    Accepts (parse >>= next) (bytes ++ more) result := by
  intro follow
  have hh : parse (bytes ++ (more ++ follow)) = .ok (value, more ++ follow) := first _
  simp only [Bind.bind, StateT.bind, List.append_assoc, hh]
  exact second follow

lemma Accepts.skip {next : α → Parser ε β} (first : Accepts parse [] value)
    (second : Accepts (next value) bytes result) : Accepts (parse >>= next) bytes result :=
  first.bind second

lemma Accepts.map (first : Accepts parse bytes value) (f : α → β) :
    Accepts (parse >>= fun item => pure (f item)) bytes (f value) := by
  intro follow
  have hh := first follow
  simp only [Bind.bind, StateT.bind, hh]
  rfl

lemma accepts_take (short : ε) (exact : bytes.length = count) :
    Accepts (take short count) bytes bytes := by
  intro follow
  subst exact
  simp [take]

lemma accepts_word (short : ε) (fits : n < 256 ^ width) :
    Accepts (word short width) (leBytes width n) n := by
  have parsed := (accepts_take short (length_leBytes width n)).map ofLe
  rwa [ofLe_leBytes fits] at parsed

lemma bind_accepted {next : α → Parser ε β} (parsed : (parse >>= next) bytes = .ok (result, rest)) :
    ∃ value middle, parse bytes = .ok (value, middle) ∧ next value middle = .ok (result, rest) := by
  simp only [Bind.bind, StateT.bind] at parsed
  cases first : parse bytes with
  | error => rw [first] at parsed; cases parsed
  | ok pair => rw [first] at parsed; exact ⟨pair.1, pair.2, rfl, parsed⟩

lemma lift_accepted {outcome : Except ε α} {rest : List UInt8}
    (parsed : lift outcome bytes = .ok (value, rest)) : outcome = .ok value ∧ rest = bytes := by
  cases outcome with
  | error => cases parsed
  | ok => cases parsed; exact ⟨rfl, rfl⟩

lemma take_accepted {short : ε} {count : Nat} {taken rest : List UInt8}
    (parsed : take short count bytes = .ok (taken, rest)) :
    bytes = taken ++ rest ∧ taken.length = count := by
  unfold take at parsed
  split_ifs at parsed with ha
  cases parsed
  exact ⟨(List.take_append_drop ..).symm, List.length_take_of_le ha⟩

end Parser

end Wyrd
