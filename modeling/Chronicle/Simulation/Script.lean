import Chronicle.Event.Basic
import Chronicle.Error
/-!
# Stand-ins

Plain stand-ins for parts of the system: a lease table that answers from a script and, once that is
used up, always alike; an event log that refuses every call; and ready-made events.

* `Script`, `Script.renew`;
* `refusedCall`;
* `Event.sample`.
-/

namespace Chronicle

/-- Answers to renewals, and the renewals asked for. -/
structure Script where
  /-- The answers to come; none is success. -/
  answers : List (Option Error) := []
  /-- Behind the script, every lease is held elsewhere. -/
  held : Bool := false
  /-- The renewals asked for, as holder and view. -/
  calls : List (String × String) := []

namespace Script

/-- The answer to a renewal, and the script behind it. -/
def renew (s : Script) (holder view : String) : Except Error Unit × Script :=
  let s := { s with calls := s.calls ++ [(holder, view)] }
  match s.answers with
  | none :: rest => (.ok (), { s with answers := rest })
  | some e :: rest => (.error e, { s with answers := rest })
  | [] => (if s.held then .error (.lockHeld view) else .ok (), s)

end Script

/-- The answer of an event log that refuses every call. -/
def refusedCall {α : Type} : Except Error α :=
  .error (.infrastructure .connectionRefused)

/-- An event of an organization that owns itself, as many seconds after ten o'clock on the
fifteenth of January 2026 as its position says. -/
def Event.sample (position : Int) (id : String) (sequence : Int) (tag : String) (payload : Json) :
    Event where
  position := position
  uuid := Uuid.nil
  stream := { kind := "org", id := id, owner := id }
  sequence := sequence
  tag := tag
  payload := payload
  editor := "tester"
  time := ⟨(1768471200 + position) * nanosPerSecond⟩

end Chronicle
