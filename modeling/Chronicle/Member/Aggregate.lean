import Chronicle.Member.Event
import Chronicle.Member.Roles
import Chronicle.Policy.Owner
/-!
# Members of an instance

The members of an instance are one aggregate on the instance's stream, next to its policies.

* `MemberState`: the roles of every member;
* **`Members.decider`**.
-/

namespace Chronicle

/-- What is asked of the members of an instance. -/
inductive MemberCommand where
  | add (user : String) (roles : List String)
  | change (user : String) (roles : List String)
  | remove (user : String)
deriving DecidableEq

/-- The roles of every member, by user. -/
abbrev MemberState := Index String (List String)

namespace Members

/-- The state after an event. -/
def apply : MemberEvent → MemberState → MemberState
  | .added user roles, m => m.insert user roles
  | .changed user roles, m => m.insert user roles
  | .removed user, m => m.erase user

/-- The normalized roles of a request, which must not be empty. -/
def requireRoles (iam user : String) (roles : List String) : Except Error (List String) :=
  let roles := Roles.normalize roles
  if roles.isEmpty then .error (.violation (.noRoles user iam)) else .ok roles

/-- The event that answers a command. Roles come first for a new member, membership comes first for
a change. -/
def answer (iam : String) (command : MemberCommand) (m : MemberState) :
    Except Error MemberEvent :=
  match command with
  | .add user roles =>
    match requireRoles iam user roles with
    | .error e => .error e
    | .ok roles =>
      if m.contains user then .error (.violation (.alreadyMember user iam))
      else .ok (.added user roles)
  | .change user roles =>
    match m.get? user with
    | none => .error (.notFound (.member user iam))
    | some held =>
      match requireRoles iam user roles with
      | .error e => .error e
      | .ok roles =>
        if held = roles then .error (.violation (.unchangedRoles user))
        else .ok (.changed user roles)
  | .remove user =>
    if m.contains user then .ok (.removed user) else .error (.notFound (.member user iam))

/-- The rules of the members of the instance `iam`. -/
def decider (iam : String) : Decider MemberCommand MemberState MemberEvent where
  stream := (Owner.iam iam).stream
  codec := MemberEvent.codec
  initial := Index.empty
  follows tag := MemberEvent.tags.contains tag
  apply := apply
  answer := answer iam

end Members
end Chronicle
