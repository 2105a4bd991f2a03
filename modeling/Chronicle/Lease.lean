import Chronicle.Error
import Chronicle.Index.Basic
import Chronicle.Time.Basic
/-!
# Leases

A view is maintained by whoever holds its lease. A lease is live up to its expiry. Renewing takes a
lease that nobody holds, prolongs one's own, and takes over an expired one; a live lease of another
holder is refused, and a refusal changes nothing.

* `Lease`, `LeaseTable`, `LeaseTable.holder?`;
* **`LeaseTable.renew`**.
-/

namespace Chronicle

/-- Who holds a view, and up to when. -/
structure Lease where
  holder : String
  expiry : Instant
deriving DecidableEq

/-- The lease is live at `now`. -/
def Lease.live (l : Lease) (now : Instant) : Bool :=
  now.nanos < l.expiry.nanos

/-- The last lease of every view. -/
abbrev LeaseTable := Index String Lease

namespace LeaseTable

/-- The holder of the live lease on a view. -/
def holder? (t : LeaseTable) (now : Instant) (view : String) : Option String :=
  match t.get? view with
  | none => none
  | some l => if l.live now then some l.holder else none

/-- Takes or prolongs the lease on `view` for `wait` from now. The clock is read once. A call that
reads it again for the end of the new lease, and not an earlier time, comes to this one at a reading
of its own: the first if it is refused, the second if it is granted. -/
def renew (t : LeaseTable) (now : Instant) (holder view : String) (wait : Duration) :
    Except Error LeaseTable :=
  match t.get? view with
  | some l =>
    if l.holder ≠ holder ∧ l.live now = true then .error (.lockHeld view)
    else .ok (t.insert view ⟨holder, now.deadline wait⟩)
  | none => .ok (t.insert view ⟨holder, now.deadline wait⟩)

end LeaseTable
end Chronicle
