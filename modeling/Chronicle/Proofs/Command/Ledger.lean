import Mathlib.Logic.Function.Basic
import Chronicle.Proofs.Command.Land
import Chronicle.Proofs.Member.Roles
/-!
# The ledger

What commands are about can be written down without events: for every owner a lockout and a login
policy, for every instance and key a mail text, for every instance and user the roles. A **ledger**
holds a value in each of these slots, or nothing, and a command sets or clears one of them.

* `Slot`, `Ledger`: what can be held, and what is;
* `Ledger.policy`, `Ledger.mailText`, `Ledger.member`: what a request makes of a slot;
* **`Ledger.handle`**: a command on a ledger;
* `Command.Allowed`, **`Ledger.handle_ok_iff`**: which commands are carried out.
-/

namespace Chronicle

/-- What a command adds, changes or removes. -/
inductive Slot where
  | lockout (owner : Owner)
  | orgIam (owner : Owner)
  | mailText (iam : String) (key : MailTextKey)
  | member (iam user : String)
deriving DecidableEq, Repr

namespace Slot

/-- What a slot can hold. -/
@[reducible] def Value : Slot → Type
  | lockout _ => LockoutSettings
  | orgIam _ => OrgIamSettings
  | mailText _ _ => MailTextContent
  | member _ _ => Finset String

/-- The subject that decides on a slot. -/
def subject : Slot → Subject
  | lockout owner => .lockout owner
  | orgIam owner => .orgIam owner
  | mailText iam key => .mailText iam key
  | member iam _ => .members iam

end Slot

/-- What every slot holds, if anything. -/
abbrev Ledger : Type := (x : Slot) → Option x.Value

/-- The user that a request to the members is about. -/
def MemberCommand.user : MemberCommand → String
  | add user _ => user
  | change user _ => user
  | remove user => user

/-- The slot that a command is about. -/
def Command.slot : Command → Slot
  | ⟨.lockout owner, _⟩ => .lockout owner
  | ⟨.orgIam owner, _⟩ => .orgIam owner
  | ⟨.mailText iam key, _⟩ => .mailText iam key
  | ⟨.members iam, r⟩ => .member iam r.user

namespace Ledger

/-- The ledger that holds nothing. -/
def empty : Ledger := fun _ => none

/-! ## What a request makes of a slot -/

/-- The policy of an owner. Only the policy of an organization is ever removed. -/
def policy {S : Type} [DecidableEq S] (what : String) (owner : Owner) (held : Option S) :
    PolicyCommand S → Except Error (Option S)
  | .add s =>
    if held.isSome then .error (.violation (.alreadyExists what owner.id))
    else if Text.allBlank owner.id then .error (.violation (.blank "aggregate id"))
    else .ok (some s)
  | .change s =>
    match held with
    | none => .error (.notFound (.policy what owner.id))
    | some current =>
      if current = s then .error (.violation (.unchanged what owner.id)) else .ok (some s)
  | .remove =>
    if owner.isDefault then .error (.violation (.defaultKept what))
    else if held.isSome then .ok none
    else .error (.notFound (.policy what owner.id))

/-- A mail text of an instance, which is never removed. -/
def mailText (iam : String) (key : MailTextKey) (held : Option MailTextContent) :
    MailTextCommand → Except Error (Option MailTextContent)
  | .add content =>
    if Text.allBlank key.template then .error (.violation (.blank "mail text type"))
    else if Text.allBlank key.language then .error (.violation (.blank "mail text language"))
    else if held.isSome then .error (.violation (.alreadyExists (MailText.what key) iam))
    else if Text.allBlank iam then .error (.violation (.blank "aggregate id"))
    else .ok (some content)
  | .change content =>
    match held with
    | none => .error (.notFound (.policy (MailText.what key) iam))
    | some current =>
      if current = content then .error (.violation (.unchanged (MailText.what key) iam))
      else .ok (some content)

/-- The roles of a user. -/
def member (iam : String) (held : Option (Finset String)) :
    MemberCommand → Except Error (Option (Finset String))
  | .add user roles =>
    if Roles.granted roles = ∅ then .error (.violation (.noRoles user iam))
    else if held.isSome then .error (.violation (.alreadyMember user iam))
    else if Text.allBlank iam then .error (.violation (.blank "aggregate id"))
    else .ok (some (Roles.granted roles))
  | .change user roles =>
    match held with
    | none => .error (.notFound (.member user iam))
    | some current =>
      if Roles.granted roles = ∅ then .error (.violation (.noRoles user iam))
      else if current = Roles.granted roles then .error (.violation (.unchangedRoles user))
      else .ok (some (Roles.granted roles))
  | .remove user =>
    if held.isSome then .ok none else .error (.notFound (.member user iam))

end Ledger

/-- What a command makes of its slot. -/
def Command.settle : (c : Command) → Option c.slot.Value → Except Error (Option c.slot.Value)
  | ⟨.lockout owner, r⟩, held => Ledger.policy (S := LockoutSettings) "lockout policy" owner held r
  | ⟨.orgIam owner, r⟩, held => Ledger.policy (S := OrgIamSettings) "org iam policy" owner held r
  | ⟨.mailText iam key, r⟩, held => Ledger.mailText iam key held r
  | ⟨.members iam, r⟩, held => Ledger.member iam held r

namespace Ledger

/-- The ledger with another value in one slot. -/
def set (l : Ledger) (x : Slot) (v : Option x.Value) : Ledger := Function.update l x v

/-- **A command on a ledger**: its slot is settled, and no other changes. -/
def handle (l : Ledger) (c : Command) : Except Error Ledger :=
  (c.settle (l c.slot)).map (l.set c.slot)

/-- The ledger once a command was handled; a refusal leaves it as it is. -/
def land (l : Ledger) (c : Command) : Ledger :=
  match l.handle c with
  | .ok l => l
  | .error _ => l

/-- The ledger once commands were handled, one after the other. -/
def after (l : Ledger) (errands : List Errand) : Ledger :=
  errands.foldl (fun l x => l.land x.command) l

end Ledger

/-! ## Which commands are carried out -/

namespace Ledger

/-- Which requests to the policy of an owner are carried out. -/
def PolicyAllowed {S : Type} (owner : Owner) (held : Option S) : PolicyCommand S → Prop
  | .add _ => held = none ∧ Text.allBlank owner.id = false
  | .change s => ∃ current, held = some current ∧ current ≠ s
  | .remove => held ≠ none ∧ ∃ id, owner = .org id

/-- Which requests to a mail text are carried out. -/
def MailTextAllowed (iam : String) (key : MailTextKey) (held : Option MailTextContent) :
    MailTextCommand → Prop
  | .add _ => held = none ∧ Text.allBlank iam = false ∧ Text.allBlank key.template = false ∧
      Text.allBlank key.language = false
  | .change content => ∃ current, held = some current ∧ current ≠ content

/-- Which requests to the members are carried out. -/
def MemberAllowed (iam : String) (held : Option (Finset String)) : MemberCommand → Prop
  | .add _ roles => held = none ∧ Text.allBlank iam = false ∧ ∃ r ∈ roles, Text.allBlank r = false
  | .change _ roles => (∃ current, held = some current ∧ current ≠ Roles.granted roles) ∧
      ∃ r ∈ roles, Text.allBlank r = false
  | .remove _ => held ≠ none

end Ledger

/-- Whether a command is carried out on a ledger. -/
def Command.Allowed (c : Command) (l : Ledger) : Prop :=
  match c with
  | ⟨.lockout owner, r⟩ => Ledger.PolicyAllowed owner (l (.lockout owner)) r
  | ⟨.orgIam owner, r⟩ => Ledger.PolicyAllowed owner (l (.orgIam owner)) r
  | ⟨.mailText iam key, r⟩ => Ledger.MailTextAllowed iam key (l (.mailText iam key)) r
  | ⟨.members iam, r⟩ => Ledger.MemberAllowed iam (l (.member iam r.user)) r

namespace Ledger

theorem policy_ok_iff {S : Type} [DecidableEq S] {what : String} {owner : Owner}
    {held : Option S} {r : PolicyCommand S} :
    (∃ v, policy what owner held r = .ok v) ↔ PolicyAllowed owner held r := by
  cases r with
  | add s =>
    dsimp only [policy, PolicyAllowed]
    cases held <;> cases Text.allBlank owner.id <;> simp
  | change s =>
    dsimp only [policy, PolicyAllowed]
    cases held with
    | none => simp
    | some current => by_cases hs : current = s <;> simp [hs]
  | remove =>
    dsimp only [policy, PolicyAllowed]
    cases owner <;> cases held <;> simp [Owner.isDefault]

theorem mailText_ok_iff {iam : String} {key : MailTextKey} {held : Option MailTextContent}
    {r : MailTextCommand} :
    (∃ v, mailText iam key held r = .ok v) ↔ MailTextAllowed iam key held r := by
  cases r with
  | add content =>
    dsimp only [mailText, MailTextAllowed]
    cases held <;> cases Text.allBlank iam <;> cases Text.allBlank key.template <;>
      cases Text.allBlank key.language <;> simp
  | change content =>
    dsimp only [mailText, MailTextAllowed]
    cases held with
    | none => simp
    | some current => by_cases hs : current = content <;> simp [hs]

theorem member_ok_iff {iam : String} {held : Option (Finset String)} {r : MemberCommand} :
    (∃ v, member iam held r = .ok v) ↔ MemberAllowed iam held r := by
  cases r with
  | add user roles =>
    dsimp only [member, MemberAllowed]
    rw [← Roles.granted_nonempty_iff]
    by_cases hr : Roles.granted roles = ∅ <;> cases held <;> cases Text.allBlank iam <;> simp [hr]
  | change user roles =>
    dsimp only [member, MemberAllowed]
    rw [← Roles.granted_nonempty_iff]
    cases held with
    | none => simp
    | some current =>
      by_cases hr : Roles.granted roles = ∅ <;>
        by_cases hs : current = Roles.granted roles <;> simp [hr, hs]
  | remove user =>
    dsimp only [member, MemberAllowed]
    cases held <;> simp

/-- **Success.** A command is carried out on a ledger exactly if it is allowed. -/
theorem handle_ok_iff {l : Ledger} {c : Command} : (∃ l', l.handle c = .ok l') ↔ c.Allowed l := by
  have hsettle : (∃ l', l.handle c = .ok l') ↔ ∃ v, c.settle (l c.slot) = .ok v := by
    unfold handle
    cases c.settle (l c.slot) <;> simp [Except.map]
  rw [hsettle]
  obtain ⟨subject, r⟩ := c
  cases subject with
  | lockout owner => exact policy_ok_iff (S := LockoutSettings)
  | orgIam owner => exact policy_ok_iff (S := OrgIamSettings)
  | mailText iam key => exact mailText_ok_iff
  | members iam => exact member_ok_iff

end Ledger
end Chronicle
