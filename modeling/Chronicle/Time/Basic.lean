import Chronicle.Bound
/-!
# Instants and durations

Instants count nanoseconds from the start of 1970 in UTC and end at a last representable one.
Durations are non-negative and hold at most `2^64 - 1` seconds and a fraction.

* `Duration`, `Duration.ofParts`, `Duration.double`, `Duration.third`;
* `Instant`, `Instant.last`, `Instant.since`;
* **`Instant.deadline`**: the instant a given wait from now, never past the last one.
-/

namespace Chronicle

/-- Nanoseconds in a second. -/
def nanosPerSecond : Nat := 1000000000

/-- Nanoseconds in a millisecond. -/
def nanosPerMilli : Nat := 1000000

/-- A length of time of at most `2^64 - 1` seconds and 999999999 nanoseconds. -/
structure Duration where
  nanos : Nat
  bounded : nanos < (Bound.uint64 + 1) * nanosPerSecond
deriving DecidableEq

namespace Duration

/-- The greatest length of time. -/
def longest : Duration :=
  ⟨(Bound.uint64 + 1) * nanosPerSecond - 1, by decide⟩

/-- The length of `n` nanoseconds, or the greatest one if that is too long. -/
def ofNanos (n : Nat) : Duration :=
  if h : n < (Bound.uint64 + 1) * nanosPerSecond then ⟨n, h⟩ else longest

/-- No time at all. -/
def zero : Duration := ⟨0, by decide⟩

instance : Inhabited Duration := ⟨zero⟩

/-- `secs` seconds and `nanos` nanoseconds. -/
def ofParts (secs nanos : Nat) : Duration :=
  ofNanos (secs * nanosPerSecond + nanos)

/-- `secs` seconds. -/
def ofSecs (secs : Nat) : Duration :=
  ofNanos (secs * nanosPerSecond)

/-- `ms` milliseconds. -/
def ofMillis (ms : Nat) : Duration :=
  ofNanos (ms * nanosPerMilli)

/-- The whole seconds. -/
def secs (d : Duration) : Nat :=
  d.nanos / nanosPerSecond

/-- The nanoseconds beyond the whole seconds. -/
def subsecNanos (d : Duration) : Nat :=
  d.nanos % nanosPerSecond

/-- Twice the length, or the greatest one if that is too long. -/
def double (d : Duration) : Duration :=
  ofNanos (2 * d.nanos)

/-- A third of the length, cut to whole nanoseconds. -/
def third (d : Duration) : Duration :=
  ⟨d.nanos / 3, Nat.lt_of_le_of_lt (Nat.div_le_self _ _) d.bounded⟩

/-- The shorter of two. -/
def min (d e : Duration) : Duration :=
  if d.nanos ≤ e.nanos then d else e

/-- The longer of two. -/
def max (d e : Duration) : Duration :=
  if e.nanos ≤ d.nanos then d else e

end Duration

/-- A point in time, in nanoseconds from the start of 1970 in UTC. -/
structure Instant where
  nanos : Int
deriving DecidableEq, Inhabited

namespace Instant

/-- The last representable instant, the end of the year 262142. -/
def last : Instant :=
  ⟨8210266876799 * nanosPerSecond + 999999999⟩

/-- The instant `ms` milliseconds after the start of 1970. -/
def ofMillis (ms : Int) : Instant :=
  ⟨ms * nanosPerMilli⟩

/-- The whole milliseconds since the start of 1970, rounded down. -/
def millis (t : Instant) : Int :=
  t.nanos.fdiv nanosPerMilli

/-- The whole seconds since the start of 1970, rounded down. -/
def secs (t : Instant) : Int :=
  t.nanos.fdiv nanosPerSecond

/-- The nanoseconds beyond the whole seconds. -/
def subsecNanos (t : Instant) : Nat :=
  (t.nanos.fmod nanosPerSecond).toNat

/-- The instant `d` after `t`, without regard to the last one. -/
def add (t : Instant) (d : Duration) : Instant :=
  ⟨t.nanos + d.nanos⟩

/-- The nanoseconds from `s` to `t`, none if `t` is earlier. -/
def since (t s : Instant) : Nat :=
  (t.nanos - s.nanos).toNat

/-- The longest wait that can be added to an instant: `2^63 - 1` milliseconds. -/
def longestWait : Nat :=
  Bound.int64 * nanosPerMilli

/-- The instant `wait` after `now`. A wait too long to be added, and a sum past the last instant,
both give the last instant. -/
def deadline (now : Instant) (wait : Duration) : Instant :=
  if longestWait < wait.nanos then last
  else if last.nanos < (now.add wait).nanos then last
  else now.add wait

end Instant
end Chronicle
