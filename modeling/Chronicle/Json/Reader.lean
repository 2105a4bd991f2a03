import Chronicle.Json.Basic
/-!
# Reading JSON

One value is read from the front of a list of characters. The reader walks them with a budget of one
step per character, which no text exhausts because every step consumes a character.

* `Json.Reader.value`: one value and the characters after it, the form of every reading here;
* `Json.parse?`: a whole text, blanks around the value allowed.
-/

namespace Chronicle.Json

namespace Reader

/-- Drops the blanks that JSON allows between tokens. -/
def skipBlanks : List Char → List Char
  | [] => []
  | c :: rest =>
    if c = ' ' ∨ c = '\n' ∨ c = '\r' ∨ c = '\t' then skipBlanks rest else c :: rest

/-- The value of a hexadecimal digit. -/
def hexDigit? (c : Char) : Option Nat :=
  if '0' ≤ c ∧ c ≤ '9' then some (c.toNat - '0'.toNat)
  else if 'a' ≤ c ∧ c ≤ 'f' then some (c.toNat - 'a'.toNat + 10)
  else if 'A' ≤ c ∧ c ≤ 'F' then some (c.toNat - 'A'.toNat + 10)
  else none

/-- Four hexadecimal digits. -/
def hex4 : List Char → Option (Nat × List Char)
  | a :: b :: c :: d :: rest => do
    let a ← hexDigit? a
    let b ← hexDigit? b
    let c ← hexDigit? c
    let d ← hexDigit? d
    some (((a * 16 + b) * 16 + c) * 16 + d, rest)
  | _ => none

/-- The character after a backslash and `u`: one unit, or a pair of surrogates. -/
def unicode (cs : List Char) : Option (Char × List Char) := do
  let (high, rest) ← hex4 cs
  if 0xD800 ≤ high ∧ high < 0xDC00 then
    match rest with
    | '\\' :: 'u' :: rest =>
      let (low, rest) ← hex4 rest
      if 0xDC00 ≤ low ∧ low < 0xE000 then
        some (Char.ofNat (0x10000 + (high - 0xD800) * 0x400 + (low - 0xDC00)), rest)
      else none
    | _ => none
  else if 0xDC00 ≤ high ∧ high < 0xE000 then none
  else some (Char.ofNat high, rest)

/-- The rest of a string after its opening quote; `acc` holds what was read, last first. -/
def text : Nat → List Char → List Char → Option (String × List Char)
  | 0, _, _ => none
  | _ + 1, _, [] => none
  | budget + 1, acc, c :: rest =>
    match c, rest with
    | '"', rest => some (String.ofList acc.reverse, rest)
    | '\\', '"' :: rest => text budget ('"' :: acc) rest
    | '\\', '\\' :: rest => text budget ('\\' :: acc) rest
    | '\\', '/' :: rest => text budget ('/' :: acc) rest
    | '\\', 'b' :: rest => text budget ('\x08' :: acc) rest
    | '\\', 'f' :: rest => text budget ('\x0c' :: acc) rest
    | '\\', 'n' :: rest => text budget ('\n' :: acc) rest
    | '\\', 'r' :: rest => text budget ('\r' :: acc) rest
    | '\\', 't' :: rest => text budget ('\t' :: acc) rest
    | '\\', 'u' :: rest =>
      match unicode rest with
      | some (c, rest) => text budget (c :: acc) rest
      | none => none
    | '\\', _ => none
    | c, rest => if c.toNat < 0x20 then none else text budget (c :: acc) rest

/-! ## Numbers -/

/-- Whether `c` is an ASCII digit. -/
def isDigit (c : Char) : Bool :=
  '0' ≤ c && c ≤ '9'

/-- The number that a row of digits denotes. -/
def natOfDigits (digits : List Char) : Nat :=
  digits.foldl (fun n c => 10 * n + (c.toNat - '0'.toNat)) 0

/-- The digits at the front, and what follows them. -/
def digits (cs : List Char) : List Char × List Char :=
  (cs.takeWhile isDigit, cs.dropWhile isDigit)

/-- A fraction, with its point; empty when there is none. -/
def fraction : List Char → Option (List Char × List Char)
  | '.' :: rest =>
    match digits rest with
    | ([], _) => none
    | (ds, rest) => some ('.' :: ds, rest)
  | rest => some ([], rest)

/-- An exponent, with its letter and sign; empty when there is none. -/
def exponent : List Char → Option (List Char × List Char)
  | c :: rest =>
    if c = 'e' ∨ c = 'E' then
      let (sign, rest) := match rest with
        | '+' :: rest => (['+'], rest)
        | '-' :: rest => (['-'], rest)
        | rest => ([], rest)
      match digits rest with
      | ([], _) => none
      | (ds, rest) => some (c :: sign ++ ds, rest)
    else some ([], c :: rest)
  | [] => some ([], [])

/-- The value of a number literal, given its parts. Minus zero is no integer. -/
def numberOf (negative : Bool) (whole frac expo : List Char) : Json :=
  let magnitude := natOfDigits whole
  let literal := String.ofList ((if negative then ['-'] else []) ++ whole ++ frac ++ expo)
  if frac ≠ [] ∨ expo ≠ [] then .real literal
  else if negative then
    if magnitude = 0 ∨ Bound.int64 + 1 < magnitude then .real literal
    else .int (-(magnitude : Int))
  else if Bound.uint64 < magnitude then .real literal else .int magnitude

/-- A number, from its sign on. -/
def number (cs : List Char) : Option (Json × List Char) := do
  let (negative, cs) := match cs with
    | '-' :: rest => (true, rest)
    | rest => (false, rest)
  let (whole, rest) := digits cs
  match whole with
  | [] => none
  | '0' :: _ :: _ => none
  | _ =>
    let (frac, rest) ← fraction rest
    let (expo, rest) ← exponent rest
    some (numberOf negative whole frac expo, rest)

/-! ## Values -/

/-- Puts a field into an object's fields; a repeated name keeps its last value. -/
def putField (name : String) (v : Json) (fields : List (String × Json)) : List (String × Json) :=
  fields.filter (fun f => f.1 ≠ name) ++ [(name, v)]

mutual

/-- One value and the characters after it. -/
def value : Nat → List Char → Option (Json × List Char)
  | 0, _ => none
  | budget + 1, cs =>
    match skipBlanks cs with
    | 'n' :: 'u' :: 'l' :: 'l' :: rest => some (.null, rest)
    | 't' :: 'r' :: 'u' :: 'e' :: rest => some (.bool true, rest)
    | 'f' :: 'a' :: 'l' :: 's' :: 'e' :: rest => some (.bool false, rest)
    | '"' :: rest => (text budget [] rest).map fun (s, rest) => (.str s, rest)
    | '[' :: rest =>
      match skipBlanks rest with
      | ']' :: rest => some (.arr [], rest)
      | rest => items budget [] rest
    | '\x7b' :: rest =>
      match skipBlanks rest with
      | '\x7d' :: rest => some (.obj [], rest)
      | rest => fields budget [] rest
    | rest => number rest

/-- The items of an array from the next one on; `acc` holds those read, last first. -/
def items : Nat → List Json → List Char → Option (Json × List Char)
  | 0, _, _ => none
  | budget + 1, acc, cs =>
    match value budget cs with
    | none => none
    | some (v, rest) =>
      match skipBlanks rest with
      | ',' :: rest => items budget (v :: acc) rest
      | ']' :: rest => some (.arr (v :: acc).reverse, rest)
      | _ => none

/-- The fields of an object from the next name on; `acc` holds those read. -/
def fields : Nat → List (String × Json) → List Char → Option (Json × List Char)
  | 0, _, _ => none
  | budget + 1, acc, cs =>
    match skipBlanks cs with
    | '"' :: rest =>
      match text budget [] rest with
      | none => none
      | some (name, rest) =>
        match skipBlanks rest with
        | ':' :: rest =>
          match value budget rest with
          | none => none
          | some (v, rest) =>
            match skipBlanks rest with
            | ',' :: rest => fields budget (putField name v acc) rest
            | '\x7d' :: rest => some (.obj (putField name v acc), rest)
            | _ => none
        | _ => none
    | _ => none

end

end Reader

/-- The value that a whole text denotes. -/
def parse? (s : String) : Option Json :=
  let cs := s.toList
  match Reader.value (cs.length + 1) cs with
  | some (v, rest) => if Reader.skipBlanks rest = [] then some v else none
  | none => none

end Chronicle.Json
