import Chronicle.Json.Record
/-!
# Policy settings and their changes

A policy is a record of settings. A change carries the settings that differ and keeps the others; a
change in which nothing differs does not exist.

* `Settings`: settings with their changes, how they are found and applied, and their payloads;
* `LockoutSettings`, `OrgIamSettings`: the two kinds of policy;
* `SettingsEvent`: what happens to the policy of an owner.
-/

namespace Chronicle

/-- The value `next` if it differs from `current`. -/
def differing {α : Type} [DecidableEq α] (current next : α) : Option α :=
  if current = next then none else some next

/-- Settings `S` whose changes are `C`. -/
class Settings (S : Type) (C : outParam Type) where
  /-- The settings of a policy that was never set or was removed. -/
  initial : S
  /-- What has to change to get from one record to another. -/
  between : S → S → Option C
  /-- The settings after a change. -/
  apply : C → S → S
  write : S → Json
  read? : Json → Option S
  writeChange : C → Json
  readChange? : Json → Option C

/-! ## Lockout -/

/-- How failed logins lock an account. -/
structure LockoutSettings where
  /-- Failed attempts before the account locks; zero never locks. -/
  maxAttempts : UInt64 := 0
  /-- Whether the login page shows the number of failures. -/
  showFailures : Bool := false
deriving DecidableEq

/-- The lockout settings that a change carries. -/
structure LockoutChange where
  maxAttempts : Option UInt64 := none
  showFailures : Option Bool := none
deriving DecidableEq

namespace LockoutSettings

/-- The names of the two settings in payloads. -/
def fieldNames : List String := ["max_password_attempts", "show_failures"]

/-- The settings that differ. -/
def between (current next : LockoutSettings) : Option LockoutChange :=
  let change : LockoutChange :=
    ⟨differing current.maxAttempts next.maxAttempts,
      differing current.showFailures next.showFailures⟩
  if change = {} then none else some change

/-- The settings after a change. -/
def apply (change : LockoutChange) (s : LockoutSettings) : LockoutSettings :=
  ⟨change.maxAttempts.getD s.maxAttempts, change.showFailures.getD s.showFailures⟩

/-- The fields of the settings, for payloads and rows. -/
def fields (s : LockoutSettings) : List (String × Json) :=
  [("max_password_attempts", .ofNat s.maxAttempts.toNat), ("show_failures", .bool s.showFailures)]

/-- Reads settings. -/
def read? (v : Json) : Option LockoutSettings := do
  match ← Json.components? fieldNames v with
  | [attempts, failures] =>
    let attempts ← Json.required Json.asUInt64? attempts
    let failures ← Json.required Json.asBool? failures
    some ⟨attempts, failures⟩
  | _ => none

/-- Writes a change. -/
def writeChange (c : LockoutChange) : Json :=
  Json.present [("max_password_attempts", c.maxAttempts.map fun n => .ofNat n.toNat),
    ("show_failures", c.showFailures.map .bool)]

/-- Reads a change. -/
def readChange? (v : Json) : Option LockoutChange := do
  match ← Json.components? fieldNames v with
  | [attempts, failures] =>
    let attempts ← Json.optional Json.asUInt64? attempts
    let failures ← Json.optional Json.asBool? failures
    some ⟨attempts, failures⟩
  | _ => none

end LockoutSettings

instance : Settings LockoutSettings LockoutChange where
  initial := {}
  between := LockoutSettings.between
  apply := LockoutSettings.apply
  write s := .obj s.fields
  read? := LockoutSettings.read?
  writeChange := LockoutSettings.writeChange
  readChange? := LockoutSettings.readChange?

/-! ## Logins of an organization -/

/-- How the users of an organization are named at login. -/
structure OrgIamSettings where
  /-- Whether a login name has to end in the domain of the organization. -/
  loginMustBeDomain : Bool := false
deriving DecidableEq

/-- The login settings that a change carries. -/
structure OrgIamChange where
  loginMustBeDomain : Option Bool := none
deriving DecidableEq

namespace OrgIamSettings

/-- The name of the setting in payloads. -/
def fieldNames : List String := ["user_login_must_be_domain"]

/-- The setting, if it differs. -/
def between (current next : OrgIamSettings) : Option OrgIamChange :=
  (differing current.loginMustBeDomain next.loginMustBeDomain).map fun b => ⟨some b⟩

/-- The settings after a change. -/
def apply (change : OrgIamChange) (s : OrgIamSettings) : OrgIamSettings :=
  ⟨change.loginMustBeDomain.getD s.loginMustBeDomain⟩

/-- The field of the setting, for payloads and rows. -/
def fields (s : OrgIamSettings) : List (String × Json) :=
  [("user_login_must_be_domain", .bool s.loginMustBeDomain)]

/-- Reads settings. -/
def read? (v : Json) : Option OrgIamSettings := do
  match ← Json.components? fieldNames v with
  | [mustBe] =>
    let mustBe ← Json.required Json.asBool? mustBe
    some ⟨mustBe⟩
  | _ => none

/-- Writes a change. -/
def writeChange (c : OrgIamChange) : Json :=
  Json.present [("user_login_must_be_domain", c.loginMustBeDomain.map .bool)]

/-- Reads a change. -/
def readChange? (v : Json) : Option OrgIamChange := do
  match ← Json.components? fieldNames v with
  | [mustBe] =>
    let mustBe ← Json.optional Json.asBool? mustBe
    some ⟨mustBe⟩
  | _ => none

end OrgIamSettings

instance : Settings OrgIamSettings OrgIamChange where
  initial := {}
  between := OrgIamSettings.between
  apply := OrgIamSettings.apply
  write s := .obj s.fields
  read? := OrgIamSettings.read?
  writeChange := OrgIamSettings.writeChange
  readChange? := OrgIamSettings.readChange?

/-! ## Events -/

/-- What happens to the policy of an owner. -/
inductive SettingsEvent (S C : Type) where
  | added (settings : S)
  | changed (change : C)
  | removed
deriving DecidableEq

namespace SettingsEvent

/-- The payload of a removal, which carries nothing. -/
def readRemoval? (v : Json) : Option Unit :=
  (Json.components? [] v).map fun _ => ()

/-- The payload of an event. -/
def write {S C : Type} [Settings S C] : SettingsEvent S C → Json
  | .added s => Settings.write s
  | .changed c => Settings.writeChange S c
  | .removed => .obj []

end SettingsEvent
end Chronicle
