import Chronicle.Bound
/-!
# JSON values

Event payloads and answers are JSON. A number is an **integer** when it is written without fraction
or exponent and fits 64 bits, signed or unsigned; every other number is kept as the literal it was
written with, because nothing in this library accepts it.

* `Json`: the value type;
* `Json.field?`: a field of an object;
* `Json.asString?`, `Json.asBool?`, `Json.asUInt64?`, `Json.asInt64?`: typed readings, none of which
  coerces.
-/

namespace Chronicle

/-- A JSON value. The fields of an object have distinct names. -/
inductive Json where
  | null
  | bool (b : Bool)
  /-- An integer literal between `-2^63` and `2^64 - 1`. -/
  | int (n : Int)
  /-- A number with a fraction, an exponent or too many digits. -/
  | real (literal : String)
  | str (s : String)
  | arr (items : List Json)
  | obj (fields : List (String × Json))
deriving Inhabited

namespace Json

/-- A text or `null`. -/
def ofString? : Option String → Json
  | some s => .str s
  | none => .null

/-- The value under `name`, in a list of fields. -/
def lookup? (name : String) : List (String × Json) → Option Json
  | [] => none
  | (n, v) :: rest => if n = name then some v else lookup? name rest

/-- The field `name` of an object. -/
def field? (name : String) : Json → Option Json
  | .obj fields => lookup? name fields
  | _ => none

/-- The text of a string value. -/
def asString? : Json → Option String
  | .str s => some s
  | _ => none

/-- The truth value of a boolean. -/
def asBool? : Json → Option Bool
  | .bool b => some b
  | _ => none

/-- An integer of 64 unsigned bits. -/
def asUInt64? : Json → Option UInt64
  | .int n => if 0 ≤ n ∧ n ≤ Bound.uint64 then some (UInt64.ofNat n.toNat) else none
  | _ => none

/-- An integer of 64 signed bits. -/
def asInt64? : Json → Option Int
  | .int n => if -Bound.int64 - 1 ≤ n ∧ n ≤ Bound.int64 then some n else none
  | _ => none

/-- The items of an array. -/
def asArray? : Json → Option (List Json)
  | .arr items => some items
  | _ => none

/-- An array of texts. -/
def asStrings? (v : Json) : Option (List String) :=
  v.asArray? >>= fun items => items.mapM asString?

/-- The number `n` as a value. -/
def ofNat (n : Nat) : Json :=
  .int n

/-- A list of texts as a value. -/
def ofStrings (xs : List String) : Json :=
  .arr (xs.map .str)

end Json
end Chronicle
