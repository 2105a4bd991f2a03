/-!
# Bounds of fixed-width numbers

Payloads, settings and columns hold numbers of a fixed width. Each width has a greatest number.

* `Bound.uint16`, `Bound.uint32`, `Bound.uint64`: of unsigned numbers;
* `Bound.int64`: of signed numbers; the least one is `-Bound.int64 - 1`.
-/

namespace Chronicle.Bound

/-- The greatest number of 16 unsigned bits. -/
def uint16 : Nat := 0xFFFF

/-- The greatest number of 32 unsigned bits. -/
def uint32 : Nat := 0xFFFFFFFF

/-- The greatest number of 64 unsigned bits. -/
def uint64 : Nat := 0xFFFFFFFFFFFFFFFF

/-- The greatest number of 64 signed bits. -/
def int64 : Nat := 0x7FFFFFFFFFFFFFFF

end Chronicle.Bound
