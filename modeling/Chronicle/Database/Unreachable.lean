import Chronicle.Database.Column
import Chronicle.View.MailText
import Chronicle.View.Member
/-!
# A database that cannot be reached

Over a closed connection every statement fails. What is decided before a statement is decided as
ever: appends are validated, events are decoded, and a limit that no column holds is refused.

* `Unreachable.closed`: the failure of every statement;
* `Unreachable.append`, `Unreachable.process`, `Unreachable.processLockout`.
-/

namespace Chronicle.Unreachable

/-- The failure of a statement over a closed connection. -/
def closed : Error := .infrastructure (.database .poolClosed)

/-- A statement over a closed connection. -/
def statement {α : Type} : Except Error α := .error closed

/-- Appends: the validation comes first, and nothing is left to do for no drafts. -/
def append (schemas : Option SchemaSet) (stream : Stream) (drafts : List Draft) :
    Except Error (List Event) :=
  match validate schemas stream drafts with
  | .error e => .error e
  | .ok () => if drafts.isEmpty then .ok [] else statement

/-- Folds an event whose rows are written without a check. -/
def process {κ ρ : Type} (p : Projection κ ρ) (e : Event) : Except Error Unit :=
  match p.instruction e with
  | .error err => .error err
  | .ok _ => statement

/-- Folds an event of lockout policies, whose rows have a column to fit in. -/
def processLockout (e : Event) : Except Error Unit :=
  match lockoutProjection.instruction e with
  | .error err => .error err
  | .ok (.put row) =>
    match LockoutColumns.ofRow row with
    | .error err => .error err
    | .ok _ => statement
  | .ok _ => statement

end Chronicle.Unreachable
