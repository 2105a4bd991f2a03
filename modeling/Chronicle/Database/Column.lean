import Chronicle.View.Policy
/-!
# Rows of a relational database

A relational database holds the limit of a lockout policy in a column of 64 signed bits, and the
lifecycle of a policy as text. A limit that does not fit is refused before anything is written.

* `LockoutColumns`: a lockout row as columns;
* **`LockoutColumns.ofRow`**, **`LockoutColumns.row`**: the two conversions.
-/

namespace Chronicle

/-- A lockout row as the columns of a table. -/
structure LockoutColumns where
  id : String
  sequence : Int
  createdAt : Instant
  changedAt : Instant
  owner : String
  lifecycle : String
  isDefault : Bool
  /-- The limit, in 64 signed bits. -/
  maxAttempts : Int64
  showFailures : Bool

namespace LockoutColumns

/-- The limit as a column. -/
def limit (settings : LockoutSettings) : Except Error Int64 :=
  if settings.maxAttempts.toNat ≤ Bound.int64 then
    .ok (Int64.ofNat settings.maxAttempts.toNat)
  else .error (.violation (.attemptsOutOfRange settings.maxAttempts.toNat))

/-- The columns of a row. -/
def ofRow (row : PolicyRow LockoutSettings) : Except Error LockoutColumns :=
  (limit row.settings).map fun limit =>
    ⟨row.id, row.sequence, row.createdAt, row.changedAt, row.owner, row.lifecycle.text,
      row.isDefault, limit, row.settings.showFailures⟩

/-- The row of columns. A negative limit is damage, and behind it so is an unknown lifecycle. -/
def row (c : LockoutColumns) : Except Error (PolicyRow LockoutSettings) :=
  if c.maxAttempts.toInt < 0 then .error (.infrastructure (.negativeAttempts c.id))
  else
    match Lifecycle.parse? c.lifecycle with
    | none => .error (.infrastructure (.unknownLifecycle c.lifecycle))
    | some lifecycle =>
      .ok ⟨c.id, c.sequence, c.createdAt, c.changedAt, c.owner, lifecycle, c.isDefault,
        ⟨UInt64.ofNat c.maxAttempts.toInt.toNat, c.showFailures⟩⟩

end LockoutColumns
end Chronicle
