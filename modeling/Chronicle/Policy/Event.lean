import Chronicle.Aggregate.Basic
import Chronicle.Policy.MailText
/-!
# Policy events

The events of the policy context: lockout and login policies of any owner, and mail texts of an
instance.

* `PolicyEvent`, `PolicyEvent.tag`, `PolicyEvent.payload`;
* `PolicyEvent.codec`: reading them back by event type.
-/

namespace Chronicle

/-- An event of the policy context. -/
inductive PolicyEvent where
  | lockout (e : SettingsEvent LockoutSettings LockoutChange)
  | orgIam (e : SettingsEvent OrgIamSettings OrgIamChange)
  | mailTextAdded (key : MailTextKey) (content : MailTextContent)
  | mailTextChanged (key : MailTextKey) (change : MailTextChange)
deriving DecidableEq

/-- The event types of a policy with settings. -/
structure SettingsTags where
  added : String
  changed : String
  removed : String

namespace SettingsTags

/-- The three event types. -/
def all (t : SettingsTags) : List String := [t.added, t.changed, t.removed]

/-- The event type of an event. -/
def of {S C : Type} (t : SettingsTags) : SettingsEvent S C → String
  | .added _ => t.added
  | .changed _ => t.changed
  | .removed => t.removed

/-- The readers of the three event types. -/
def readers {S C ε : Type} [Settings S C] (t : SettingsTags) (wrap : SettingsEvent S C → ε) :
    List (String × (Json → Option ε)) :=
  [(t.added, fun v => (Settings.read? v).map fun s => wrap (.added s)),
    (t.changed, fun v => (Settings.readChange? S v).map fun c => wrap (.changed c)),
    (t.removed, fun v => (SettingsEvent.readRemoval? v).map fun _ => wrap .removed)]

end SettingsTags

namespace PolicyEvent

/-- The event types of lockout policies. -/
def lockoutTags : SettingsTags :=
  ⟨"policy.lockout.added", "policy.lockout.changed", "policy.lockout.removed"⟩

/-- The event types of login policies. -/
def orgIamTags : SettingsTags :=
  ⟨"policy.org_iam.added", "policy.org_iam.changed", "policy.org_iam.removed"⟩

/-- The event type of a mail text being set. -/
def mailTextAddedTag : String := "iam.policy.mail.text.added"

/-- The event type of a change of a mail text. -/
def mailTextChangedTag : String := "iam.policy.mail.text.changed"

/-- The event types of mail texts. -/
def mailTextTags : List String := [mailTextAddedTag, mailTextChangedTag]

/-- Whether `tag` is an event type of this context. -/
def isPolicyTag (tag : String) : Bool :=
  lockoutTags.all.contains tag || orgIamTags.all.contains tag || mailTextTags.contains tag

/-- The event type of an event. -/
def tag : PolicyEvent → String
  | .lockout e => lockoutTags.of e
  | .orgIam e => orgIamTags.of e
  | .mailTextAdded _ _ => mailTextAddedTag
  | .mailTextChanged _ _ => mailTextChangedTag

/-- The payload of an event. -/
def payload : PolicyEvent → Json
  | .lockout e => e.write
  | .orgIam e => e.write
  | .mailTextAdded key content => .obj (key.fields ++ content.fields)
  | .mailTextChanged key change =>
    Json.present (key.fields.map (fun f => (f.1, some f.2)) ++ change.fields)

/-- Reads the payload of a mail text being set. -/
def readMailTextAdded? (v : Json) : Option PolicyEvent := do
  let key ← MailTextKey.read? v
  let content ← MailTextContent.read? v
  some (.mailTextAdded key content)

/-- Reads the payload of a change of a mail text. -/
def readMailTextChanged? (v : Json) : Option PolicyEvent := do
  let key ← MailTextKey.read? v
  let change ← MailTextChange.read? v
  some (.mailTextChanged key change)

/-- The readers of every event type of this context. -/
def registry : Registry PolicyEvent :=
  Registry.ofTable
    (lockoutTags.readers .lockout ++ orgIamTags.readers .orgIam
      ++ [(mailTextAddedTag, readMailTextAdded?), (mailTextChangedTag, readMailTextChanged?)])

/-- How events of this context are written and read. -/
def codec : Codec PolicyEvent where
  read := registry.decode
  tag := tag
  payload := payload

end PolicyEvent
end Chronicle
