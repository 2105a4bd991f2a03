import Chronicle.View.MailText
import Chronicle.View.Member
import Chronicle.View.Policy
/-!
# The views and what is asked of them

Queries read the rows as they are. The policy in effect for an organization is the row under its
identifier, or else the default of the instance it is asked for.

* `Views`: the four tables;
* `default?`, `effective?`: a default, and the policy in effect for an organization;
* `Views.lockout`, `Views.mailText?`, `Views.mailTexts`, `Views.member?`, `Views.members`.
-/

namespace Chronicle

/-- The tables of the four views. -/
structure Views where
  lockout : Table String (PolicyRow LockoutSettings) := Index.empty
  orgIam : Table String (PolicyRow OrgIamSettings) := Index.empty
  mailText : Table (String × MailTextKey) MailTextRow := Index.empty
  member : Table (String × String) MemberRow := Index.empty

namespace PolicyRow

variable {S : Type} (t : Table String (PolicyRow S))

/-- The row of an instance, if it is flagged as a default. -/
def default? (iam : String) : Option (PolicyRow S) :=
  match t.get? iam with
  | none => none
  | some row => if row.isDefault then some row else none

/-- The default policy of an instance. -/
def default (what iam : String) : Except Error (PolicyRow S) :=
  match default? t iam with
  | none => .error (.notFound (.default what))
  | some row => .ok row

/-- The policy in effect for an organization: the row under its identifier, or the default of the
instance. -/
def effective (what iam org : String) : Except Error (PolicyRow S) :=
  match t.get? org with
  | some row => .ok row
  | none =>
    match default? t iam with
    | none => .error (.notFound (.effective what org))
    | some row => .ok row

end PolicyRow

namespace Views

variable (v : Views)

/-- One mail text of an instance. -/
def findMailText (iam : String) (key : MailTextKey) : Except Error MailTextRow :=
  match v.mailText.get? (iam, key) with
  | none => .error (.notFound (.mailText key.text iam))
  | some row => .ok row

/-- The mail texts of an instance, by template and language. -/
def mailTexts (iam : String) : List MailTextRow :=
  v.mailText.select fun row => row.iam == iam

/-- One member of an instance. -/
def findMember (iam user : String) : Except Error MemberRow :=
  match v.member.get? (iam, user) with
  | none => .error (.notFound (.member user iam))
  | some row => .ok row

/-- The members of an instance, by user. -/
def members (iam : String) : List MemberRow :=
  v.member.select fun row => row.iam == iam

end Views
end Chronicle
