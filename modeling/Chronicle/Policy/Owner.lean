import Chronicle.Event.Basic
/-!
# Owners of policies

A policy belongs to an instance, where it is the default of every organization, or to one
organization, where it takes the place of the default.

* `Owner`, `Owner.stream`, `Owner.isDefault`, `Owner.text`;
* `Lifecycle`: where a policy of an owner stands.
-/

namespace Chronicle

/-- The type of the aggregate of an instance. -/
def iamKind : String := "iam"

/-- The type of the aggregate of an organization. -/
def orgKind : String := "org"

/-- Whose policy it is. -/
inductive Owner where
  /-- The instance. -/
  | iam (id : String)
  /-- An organization. -/
  | org (id : String)
deriving DecidableEq, Repr

namespace Owner

/-- The stream that the owner's events are appended to. -/
def stream : Owner → Stream
  | .iam id => { kind := iamKind, id := id, owner := id }
  | .org id => { kind := orgKind, id := id, owner := id }

/-- The identifier. -/
def id : Owner → String
  | .iam id => id
  | .org id => id

/-- The owner is an instance. -/
def isDefault : Owner → Bool
  | .iam _ => true
  | .org _ => false

/-- Type and identifier. -/
def text : Owner → String
  | .iam id => iamKind ++ "/" ++ id
  | .org id => orgKind ++ "/" ++ id

end Owner

/-- Where a policy of an owner stands. -/
inductive Lifecycle where
  /-- Never added. -/
  | unspecified
  /-- In effect. -/
  | active
  /-- Removed, so that the default is in effect again. -/
  | removed
deriving DecidableEq, Repr, Inhabited

namespace Lifecycle

/-- The text of a lifecycle in rows and answers. -/
def text : Lifecycle → String
  | .unspecified => "unspecified"
  | .active => "active"
  | .removed => "removed"

/-- The lifecycle that a text stands for. -/
def parse? (s : String) : Option Lifecycle :=
  if s = "unspecified" then some .unspecified
  else if s = "active" then some .active
  else if s = "removed" then some .removed
  else none

end Lifecycle
end Chronicle
