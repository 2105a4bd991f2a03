/-!
# Request paths

The path of a request target is what stands in front of the query and the fragment, and, when the
target is absolute, after the scheme and the authority. It is split at slashes first; an escape
never adds a slash. A segment is then decoded: a percent sign and two hexadecimal digits stand for
a byte, anything else for itself, and the bytes have to be UTF-8.

* `Path.segments?`: the raw segments of a target;
* `Path.decode?`: the text of a segment.
-/

namespace Chronicle.Path

/-- Whether `c` may stand in a scheme. -/
def isSchemeChar (c : Char) : Bool :=
  c.isAlphanum || c == '+' || c == '-' || c == '.'

/-- Whether `c` ends an authority. -/
def endsAuthority (c : Char) : Bool :=
  c == '/' || c == '?' || c == '#'

/-- What follows the scheme and the authority of an absolute target. The authority is not empty. -/
def afterAuthority? (target : List Char) : Option (List Char) :=
  match target.dropWhile isSchemeChar with
  | ':' :: '/' :: '/' :: rest =>
    match rest with
    | [] => none
    | c :: _ => if endsAuthority c then none else some (rest.dropWhile (!endsAuthority ·))
  | _ => none

/-- The characters in front of the query and the fragment. -/
def beforeQuery (cs : List Char) : List Char :=
  cs.takeWhile fun c => c ≠ '?' ∧ c ≠ '#'

/-- The path of a target. An absolute target without a path has the path of one slash, and a target
that neither starts with a slash nor is absolute has none. -/
def pathChars? : List Char → Option (List Char)
  | '/' :: rest => some ('/' :: beforeQuery rest)
  | target =>
    (afterAuthority? target).map fun rest =>
      match beforeQuery rest with
      | [] => ['/']
      | path => path

/-- Splits at slashes; `acc` holds the present segment, last character first. -/
def splitSlashes (acc : List Char) : List Char → List (List Char)
  | [] => [acc.reverse]
  | c :: rest =>
    if c = '/' then acc.reverse :: splitSlashes [] rest else splitSlashes (c :: acc) rest

/-- The raw segments of a target's path, which starts with a slash. -/
def segments? (target : String) : Option (List (List Char)) :=
  match pathChars? target.toList with
  | some ('/' :: rest) => some (splitSlashes [] rest)
  | _ => none

/-! ## Escapes -/

/-- The value of a hexadecimal digit. -/
def hexDigit? (c : Char) : Option Nat :=
  if '0' ≤ c ∧ c ≤ '9' then some (c.toNat - '0'.toNat)
  else if 'a' ≤ c ∧ c ≤ 'f' then some (c.toNat - 'a'.toNat + 10)
  else if 'A' ≤ c ∧ c ≤ 'F' then some (c.toNat - 'A'.toNat + 10)
  else none

/-- The UTF-8 bytes of a character. -/
def charBytes (c : Char) : List Nat :=
  let n := c.toNat
  if n < 0x80 then [n]
  else if n < 0x800 then [0xC0 + n / 0x40, 0x80 + n % 0x40]
  else if n < 0x10000 then [0xE0 + n / 0x1000, 0x80 + n / 0x40 % 0x40, 0x80 + n % 0x40]
  else
    [0xF0 + n / 0x40000, 0x80 + n / 0x1000 % 0x40, 0x80 + n / 0x40 % 0x40, 0x80 + n % 0x40]

/-- The bytes of a segment, escapes resolved. -/
def bytes : List Char → List Nat
  | [] => []
  | '%' :: a :: b :: rest =>
    match hexDigit? a, hexDigit? b with
    | some x, some y => (16 * x + y) :: bytes rest
    | _, _ => '%'.toNat :: bytes (a :: b :: rest)
  | c :: rest => charBytes c ++ bytes rest

/-! ## UTF-8 -/

/-- A byte that continues a character, without its mark. -/
def tail? (b : Nat) : Option Nat :=
  if 0x80 ≤ b ∧ b < 0xC0 then some (b - 0x80) else none

/-- The characters that bytes stand for; every character in its shortest form, and no surrogates. -/
def chars? : List Nat → Option (List Char)
  | [] => some []
  | a :: rest =>
    if a < 0x80 then (chars? rest).map (Char.ofNat a :: ·)
    else if 0xC2 ≤ a ∧ a < 0xE0 then
      match rest with
      | b :: rest => do
        let x ← tail? b
        (chars? rest).map (Char.ofNat ((a - 0xC0) * 0x40 + x) :: ·)
      | [] => none
    else if 0xE0 ≤ a ∧ a < 0xF0 then
      match rest with
      | b :: c :: rest => do
        let x ← tail? b
        let y ← tail? c
        let n := (a - 0xE0) * 0x1000 + x * 0x40 + y
        if n < 0x800 ∨ (0xD800 ≤ n ∧ n < 0xE000) then none
        else (chars? rest).map (Char.ofNat n :: ·)
      | _ => none
    else if 0xF0 ≤ a ∧ a < 0xF5 then
      match rest with
      | b :: c :: d :: rest => do
        let x ← tail? b
        let y ← tail? c
        let z ← tail? d
        let n := (a - 0xF0) * 0x40000 + x * 0x1000 + y * 0x40 + z
        if n < 0x10000 ∨ 0x110000 ≤ n then none
        else (chars? rest).map (Char.ofNat n :: ·)
      | _ => none
    else none

/-- The text of a segment, unless its bytes are not UTF-8. -/
def decode? (segment : List Char) : Option String :=
  (chars? (bytes segment)).map String.ofList

end Chronicle.Path
