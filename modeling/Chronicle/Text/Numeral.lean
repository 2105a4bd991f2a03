/-!
# Bounded decimal numerals

Numbers in the configuration are written as an optional `+` and ASCII digits. The digits are taken
from the left into a running value, and the scan stops at the first character that is no digit or
at the first digit that carries the value past the bound, whichever comes first.

* `Text.Numeral.Flaw`: why a text is no numeral;
* `Text.Numeral.scan`: the digit by digit reading;
* `Text.Numeral.read`: a whole text, sign included.
-/

namespace Chronicle.Text.Numeral

/-- Why a text is not a numeral within its bound. -/
inductive Flaw where
  | empty
  | invalidDigit
  | tooLarge
deriving DecidableEq, Repr

/-- The wording of a flaw. -/
def Flaw.message : Flaw → String
  | .empty => "cannot parse integer from empty string"
  | .invalidDigit => "invalid digit found in string"
  | .tooLarge => "number too large to fit in target type"

/-- The value of an ASCII digit. -/
def digit? (c : Char) : Option Nat :=
  if '0' ≤ c ∧ c ≤ '9' then some (c.toNat - '0'.toNat) else none

/-- Reads digits on top of `value`, which must stay at most `bound`. -/
def scan (bound : Nat) : Nat → List Char → Except Flaw Nat
  | value, [] => .ok value
  | value, c :: rest =>
    match digit? c with
    | none => .error .invalidDigit
    | some d =>
      let next := 10 * value + d
      if bound < next then .error .tooLarge else scan bound next rest

/-- Reads a text: an optional `+`, then at least one digit. -/
def read (bound : Nat) (s : String) : Except Flaw Nat :=
  match s.toList with
  | [] => .error .empty
  | ['+'] => .error .invalidDigit
  | '+' :: digits => scan bound 0 digits
  | digits => scan bound 0 digits

end Chronicle.Text.Numeral
