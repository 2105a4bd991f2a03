import Chronicle.Policy.Event
import Chronicle.Policy.Owner
/-!
# Policy aggregates

The policies of an owner live on the owner's stream. Lockout and login policies obey one set of
rules over different settings; a mail text obeys its own, and of the mail text events on its stream
keeps only those that carry its key.

* `PolicyKind`: what tells the two policies with settings apart;
* **`PolicyKind.decider`**, **`MailText.decider`**.
-/

namespace Chronicle

/-! ## Policies with settings -/

/-- A kind of policy with settings `S` and changes `C`. -/
structure PolicyKind (S C : Type) where
  /-- What the policy is called in errors. -/
  what : String
  tags : SettingsTags
  /-- The event of this kind as an event of the context. -/
  wrap : SettingsEvent S C → PolicyEvent
  /-- The event of this kind that an event of the context is, if it is one. -/
  unwrap? : PolicyEvent → Option (SettingsEvent S C)

/-- The policy on failed logins. -/
def lockoutKind : PolicyKind LockoutSettings LockoutChange where
  what := "lockout policy"
  tags := PolicyEvent.lockoutTags
  wrap := .lockout
  unwrap?
    | .lockout e => some e
    | _ => none

/-- The policy on login names. -/
def orgIamKind : PolicyKind OrgIamSettings OrgIamChange where
  what := "org iam policy"
  tags := PolicyEvent.orgIamTags
  wrap := .orgIam
  unwrap?
    | .orgIam e => some e
    | _ => none

/-- What is asked of the policy of an owner. -/
inductive PolicyCommand (S : Type) where
  | add (settings : S)
  | change (settings : S)
  | remove
deriving DecidableEq

/-- Where the policy of an owner stands, and with which settings. -/
structure PolicyState (S : Type) where
  lifecycle : Lifecycle
  settings : S
deriving DecidableEq

namespace PolicyState

variable {S C : Type} [Settings S C]

/-- The state of a policy that was never added. -/
def initial : PolicyState S := ⟨.unspecified, Settings.initial⟩

/-- The state after an event. -/
def apply : SettingsEvent S C → PolicyState S → PolicyState S
  | .added s, _ => ⟨.active, s⟩
  | .changed c, p => { p with settings := Settings.apply c p.settings }
  | .removed, _ => ⟨.removed, Settings.initial⟩

end PolicyState

namespace PolicyKind

variable {S C : Type} [Settings S C] (k : PolicyKind S C)

/-- The event that answers a command. A default is never removed, whatever its state. -/
def answer (owner : Owner) (command : PolicyCommand S) (p : PolicyState S) :
    Except Error (SettingsEvent S C) :=
  match command with
  | .add s =>
    if p.lifecycle = .active then .error (.violation (.alreadyExists k.what owner.id))
    else .ok (.added s)
  | .change s =>
    if p.lifecycle = .active then
      match Settings.between p.settings s with
      | none => .error (.violation (.unchanged k.what owner.id))
      | some c => .ok (.changed c)
    else .error (.notFound (.policy k.what owner.id))
  | .remove =>
    if owner.isDefault then .error (.violation (.defaultKept k.what))
    else if p.lifecycle = .active then .ok .removed
    else .error (.notFound (.policy k.what owner.id))

/-- The rules of the policy of `owner`. -/
def decider (owner : Owner) : Decider (PolicyCommand S) (PolicyState S) PolicyEvent where
  stream := owner.stream
  codec := PolicyEvent.codec
  initial := PolicyState.initial
  follows tag := k.tags.all.contains tag
  apply e p :=
    match k.unwrap? e with
    | some e => PolicyState.apply e p
    | none => p
  answer command p := (k.answer owner command p).map k.wrap

end PolicyKind

/-! ## Mail texts -/

/-- What is asked of a mail text. -/
inductive MailTextCommand where
  | add (content : MailTextContent)
  | change (content : MailTextContent)
deriving DecidableEq

/-- Where a mail text stands, and with which blocks. -/
structure MailTextState where
  lifecycle : Lifecycle := .unspecified
  content : MailTextContent := {}
deriving DecidableEq

namespace MailText

/-- What the mail text of a key is called in errors. -/
def what (key : MailTextKey) : String := "mail text " ++ key.text

/-- The state after an event; an event with another key changes nothing. -/
def apply (key : MailTextKey) (e : PolicyEvent) (m : MailTextState) : MailTextState :=
  match e with
  | .mailTextAdded k content => if k = key then ⟨.active, content⟩ else m
  | .mailTextChanged k change =>
    if k = key then { m with content := MailTextContent.apply change m.content } else m
  | _ => m

/-- The event that answers a command. -/
def answer (iam : String) (key : MailTextKey) (command : MailTextCommand) (m : MailTextState) :
    Except Error PolicyEvent :=
  match command with
  | .add content =>
    match key.validate with
    | .error e => .error e
    | .ok () =>
      if m.lifecycle = .active then .error (.violation (.alreadyExists (what key) iam))
      else .ok (.mailTextAdded key content)
  | .change content =>
    if m.lifecycle = .active then
      match MailTextContent.between m.content content with
      | none => .error (.violation (.unchanged (what key) iam))
      | some change => .ok (.mailTextChanged key change)
    else .error (.notFound (.policy (what key) iam))

/-- The rules of the mail text `key` of the instance `iam`. -/
def decider (iam : String) (key : MailTextKey) :
    Decider MailTextCommand MailTextState PolicyEvent where
  stream := (Owner.iam iam).stream
  codec := PolicyEvent.codec
  initial := {}
  follows tag := PolicyEvent.mailTextTags.contains tag
  apply := apply key
  answer := answer iam key

end MailText
end Chronicle
