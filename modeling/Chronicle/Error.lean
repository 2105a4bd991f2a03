import Chronicle.Uuid
/-!
# Errors

Every refusal is one of five kinds, and each kind names its cause. Texts are made from causes in one
place, so a cause can be compared without reading its wording.

* `Absence`, `Violation`, `Outage`: the causes of the three kinds that carry one;
* `Error`: the five kinds;
* `Error.message`: the wording;
* `Error.isTransient`: the kind that goes away when the same call is made again later.
-/

namespace Chronicle

/-- What a look-up did not find. -/
inductive Absence where
  /-- A policy or mail text that its owner does not have. -/
  | policy (what owner : String)
  /-- A policy without a row of the organization and without a default. -/
  | effective (what org : String)
  /-- A default policy without a row. -/
  | default (what : String)
  /-- A user that is not a member of an instance. -/
  | member (user iam : String)
  /-- A mail text that an instance has no row of. -/
  | mailText (key iam : String)
  /-- A view that no loop maintains. -/
  | view (name : String)
  /-- Any other absence, in its own words. -/
  | stated (text : String)
deriving DecidableEq, Repr

/-- The wording of an absence. -/
def Absence.message : Absence → String
  | .policy what owner => what ++ " on " ++ owner
  | .effective what org => what ++ " for " ++ org
  | .default what => "default " ++ what
  | .member user iam => "member " ++ user ++ " of " ++ iam
  | .mailText key iam => "mail text " ++ key ++ " of " ++ iam
  | .view name => "view " ++ name
  | .stated text => text

/-- A rule that a request or an event breaks. -/
inductive Violation where
  /-- A field that holds blanks only. -/
  | blank (field : String)
  /-- An event type that no schema knows. -/
  | unknownEventType (eventType : String)
  /-- A payload that does not decode as its event type. -/
  | invalidPayload (eventType : String)
  /-- A policy or mail text that is set already. -/
  | alreadyExists (what owner : String)
  /-- A change that changes nothing. -/
  | unchanged (what owner : String)
  /-- A removal of an instance default. -/
  | defaultKept (what : String)
  /-- A membership without a role. -/
  | noRoles (user iam : String)
  /-- A user that is a member already. -/
  | alreadyMember (user iam : String)
  /-- A change of roles to the roles held. -/
  | unchangedRoles (user : String)
  /-- An event that changes a row the view does not have. -/
  | missingRow (view subject : String) (sequence : Int)
  /-- An event that the view does not follow. -/
  | foreignEvent (view eventType : String)
  /-- A limit above what a column of 64 signed bits holds. -/
  | attemptsOutOfRange (attempts : Nat)
  /-- A fold that was set up to fail once. -/
  | refused (position : Int)
  /-- A counter event without its step. -/
  | missingStep
  /-- Any other violation, in its own words. -/
  | stated (text : String)
deriving DecidableEq, Repr

/-- The wording of a violation. -/
def Violation.message : Violation → String
  | .blank field => field ++ " must not be empty"
  | .unknownEventType t => "unknown event type " ++ t
  | .invalidPayload t => "invalid payload for " ++ t
  | .alreadyExists what owner => what ++ " already exists on " ++ owner
  | .unchanged what owner => what ++ " on " ++ owner ++ " is unchanged"
  | .defaultKept what => "the default " ++ what ++ " cannot be removed"
  | .noRoles user iam => "member " ++ user ++ " of " ++ iam ++ " needs at least one role"
  | .alreadyMember user iam => user ++ " is already a member of " ++ iam
  | .unchangedRoles user => "roles of " ++ user ++ " are unchanged"
  | .missingRow view subject sequence =>
    view ++ " has no row for " ++ subject ++ " to apply sequence " ++ toString sequence
  | .foreignEvent view t => view ++ " does not fold " ++ t
  | .attemptsOutOfRange n => "max_password_attempts " ++ toString n ++ " out of range"
  | .refused position => "refusing event at position " ++ toString position
  | .missingStep => "missing by"
  | .stated text => text

/-- What a relational database reports. -/
inductive DatabaseFailure where
  | rowNotFound
  | poolTimedOut
  | poolClosed
  /-- A unique constraint that a statement violates. -/
  | uniqueViolation (text : String)
  /-- Any other error that the database itself raised. -/
  | raised (text : String)
deriving DecidableEq, Repr

/-- The wording of a database failure. -/
def DatabaseFailure.message : DatabaseFailure → String
  | .rowNotFound => "no rows returned by a query that expected to return at least one row"
  | .poolTimedOut => "pool timed out while waiting for an open connection"
  | .poolClosed => "attempted to acquire a connection on a closed pool"
  | .uniqueViolation text => "error returned from database: " ++ text
  | .raised text => "error returned from database: " ++ text

/-- A failure of storage, or of what storage holds. -/
inductive Outage where
  /-- An event in the history of an aggregate that it does not belong to. -/
  | strayEvent (event : Uuid) (found own : String)
  /-- A history whose sequences are not consecutive. -/
  | sequenceGap (aggregate : String) (expected found : Int)
  /-- A failure of the database. -/
  | database (failure : DatabaseFailure)
  /-- A column with no known lifecycle in it. -/
  | unknownLifecycle (text : String)
  /-- A lockout row with a negative limit. -/
  | negativeAttempts (row : String)
  /-- An event log that cannot be reached. -/
  | connectionRefused
  /-- A view whose rows cannot be reached. -/
  | viewUnavailable
  /-- Any other failure, in its own words. -/
  | stated (text : String)
deriving DecidableEq

/-- The wording of an outage. -/
def Outage.message : Outage → String
  | .strayEvent event found own =>
    "event " ++ event.text ++ " belongs to aggregate " ++ found ++ ", not " ++ own
  | .sequenceGap aggregate expected found =>
    "sequence gap in aggregate " ++ aggregate ++ ": expected " ++ toString expected ++ ", found "
      ++ toString found
  | .database failure => "database error: " ++ failure.message
  | .unknownLifecycle text => "unknown policy state " ++ text
  | .negativeAttempts row => "negative max_password_attempts on lockout policy " ++ row
  | .connectionRefused => "connection refused"
  | .viewUnavailable => "view storage unavailable"
  | .stated text => text

/-- Why a call is refused. -/
inductive Error where
  | notFound (what : Absence)
  /-- The stream of an aggregate moved on from the sequence the caller had seen. -/
  | conflict (aggregate : String) (expected actual : Int)
  | violation (rule : Violation)
  /-- Another holder has a live lease on the view. -/
  | lockHeld (view : String)
  | infrastructure (outage : Outage)
deriving DecidableEq

namespace Error

/-- The wording of an error. -/
def message : Error → String
  | .notFound what => "not found: " ++ what.message
  | .conflict aggregate expected actual =>
    "concurrency conflict on aggregate " ++ aggregate ++ ": expected sequence "
      ++ toString expected ++ ", found " ++ toString actual
  | .violation rule => "constraint violation: " ++ rule.message
  | .lockHeld view => "lock on " ++ view ++ " held by another instance"
  | .infrastructure outage => "infrastructure error: " ++ outage.message

/-- The error says that something is absent. -/
def isNotFound : Error → Bool
  | .notFound _ => true
  | _ => false

/-- The error says that a lease is held by another holder. -/
def isLockHeld : Error → Bool
  | .lockHeld _ => true
  | _ => false

/-- The same call may succeed later without being changed. -/
def isTransient : Error → Bool
  | .infrastructure _ => true
  | _ => false

end Error
end Chronicle
