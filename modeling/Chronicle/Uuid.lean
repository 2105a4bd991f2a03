/-!
# Event identifiers

A UUID is 128 bits. Its text is 32 hexadecimal digits in groups of 8, 4, 4, 4 and 12; it is read in
either case, with or without the hyphens, in braces or as a URN, and written in lower case.

* `Uuid.nil`, `Uuid.parse?`, `Uuid.text`.
-/

namespace Chronicle

/-- An identifier of 128 bits. -/
structure Uuid where
  bits : BitVec 128
deriving DecidableEq

namespace Uuid

/-- The identifier whose bits are all zero. -/
def nil : Uuid := ⟨0⟩

instance : Inhabited Uuid := ⟨nil⟩

/-- The value of a hexadecimal digit. -/
def digit? (c : Char) : Option Nat :=
  if '0' ≤ c ∧ c ≤ '9' then some (c.toNat - '0'.toNat)
  else if 'a' ≤ c ∧ c ≤ 'f' then some (c.toNat - 'a'.toNat + 10)
  else if 'A' ≤ c ∧ c ≤ 'F' then some (c.toNat - 'A'.toNat + 10)
  else none

/-- The identifier of 32 hexadecimal digits. -/
def ofDigits? (cs : List Char) : Option Uuid :=
  if cs.length = 32 then
    (cs.mapM digit?).map fun ds => ⟨BitVec.ofNat 128 (ds.foldl (fun n d => 16 * n + d) 0)⟩
  else none

/-- The digits of a text with hyphens after 8, 12, 16 and 20 digits. -/
def ungroup? (cs : List Char) : Option (List Char) :=
  if cs.length = 36 ∧ [8, 13, 18, 23].all (fun i => cs[i]? = some '-') then
    some (cs.filter (· ≠ '-'))
  else none

/-- The characters of a URN in front of the identifier. -/
def urn : List Char := "urn:uuid:".toList

/-- Reads an identifier: plain, in groups, in groups between braces, or in groups as a URN. -/
def parse? (s : String) : Option Uuid :=
  let cs := s.toList
  if cs.length = 32 then ofDigits? cs
  else if cs.length = 38 ∧ cs.head? = some '\x7b' ∧ cs.getLast? = some '\x7d' then
    ungroup? (cs.drop 1).dropLast >>= ofDigits?
  else if cs.take urn.length = urn then ungroup? (cs.drop urn.length) >>= ofDigits?
  else ungroup? cs >>= ofDigits?

/-- The lower-case digit of `n < 16`. -/
def digitChar (n : Nat) : Char :=
  if n < 10 then Char.ofNat ('0'.toNat + n) else Char.ofNat ('a'.toNat + (n - 10))

/-- The `count` lowest hexadecimal digits of `n`, highest first. -/
def digits : Nat → Nat → List Char
  | 0, _ => []
  | count + 1, n => digits count (n / 16) ++ [digitChar (n % 16)]

/-- The text in lower case and in groups. -/
def text (u : Uuid) : String :=
  let ds := digits 32 u.bits.toNat
  let group (start size : Nat) := String.ofList ((ds.drop start).take size)
  group 0 8 ++ "-" ++ group 8 4 ++ "-" ++ group 12 4 ++ "-" ++ group 16 4 ++ "-" ++ group 20 12

end Uuid
end Chronicle
