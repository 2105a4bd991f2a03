/-!
# Blank characters

A character is **blank** when it has the Unicode property `White_Space`. Identifiers that hold
blanks only count as empty, and settings and role names are trimmed of blanks at both ends.

* `Text.isBlank`: the property, as a table of code points;
* `Text.trim`: a text without the blanks at its ends;
* `Text.allBlank`: a text that trims to nothing.
-/

namespace Chronicle.Text

/-- The code points with the property `White_Space`, as inclusive ranges. -/
def blankRanges : List (Nat × Nat) :=
  [(0x9, 0xD), (0x20, 0x20), (0x85, 0x85), (0xA0, 0xA0), (0x1680, 0x1680), (0x2000, 0x200A),
    (0x2028, 0x2029), (0x202F, 0x202F), (0x205F, 0x205F), (0x3000, 0x3000)]

/-- Whether `c` has the property `White_Space`. -/
def isBlank (c : Char) : Bool :=
  blankRanges.any fun r => r.1 ≤ c.toNat && c.toNat ≤ r.2

/-- The characters of `cs` without the blanks at either end. -/
def trimChars (cs : List Char) : List Char :=
  ((cs.dropWhile isBlank).reverse.dropWhile isBlank).reverse

/-- `s` without the blanks at either end. -/
def trim (s : String) : String :=
  String.ofList (trimChars s.toList)

/-- Every character of `s` is blank; the empty text is. -/
def allBlank (s : String) : Bool :=
  s.toList.all isBlank

end Chronicle.Text
