import Chronicle.Policy.Aggregate
import Chronicle.Time.Rfc3339
import Chronicle.View.Table
/-!
# Mail text rows

One row per instance, template and language.

* `MailTextRow`, `MailTextRow.json`;
* **`mailTextProjection`**.
-/

namespace Chronicle

/-- A mail text of an instance. -/
structure MailTextRow where
  iam : String
  key : MailTextKey
  sequence : Int
  createdAt : Instant
  changedAt : Instant
  owner : String
  lifecycle : Lifecycle
  /-- The mail text belongs to an instance. -/
  isDefault : Bool
  content : MailTextContent
deriving DecidableEq

namespace MailTextRow

instance : Row MailTextRow (String × MailTextKey) where
  key row := (row.iam, row.key)
  sequence := sequence

/-- The row of a mail text that an event sets. -/
def ofEvent (e : Event) (key : MailTextKey) (content : MailTextContent) : MailTextRow where
  iam := e.stream.id
  key := key
  sequence := e.sequence
  createdAt := e.time
  changedAt := e.time
  owner := e.stream.owner
  lifecycle := .active
  isDefault := e.stream.kind == iamKind
  content := content

/-- The row after an event that changes the mail text. -/
def revise (e : Event) (change : MailTextChange) (row : MailTextRow) : MailTextRow :=
  { row with
    content := MailTextContent.apply change row.content, sequence := e.sequence,
    changedAt := e.time }

/-- The row as an object. -/
def json (row : MailTextRow) : Json :=
  .obj ([("aggregate_id", .str row.iam)] ++ row.key.fields ++ [("sequence", .int row.sequence),
    ("creation_date", .str row.createdAt.rfc3339), ("change_date", .str row.changedAt.rfc3339),
    ("resource_owner", .str row.owner), ("state", .str row.lifecycle.text),
    ("is_default", .bool row.isDefault)] ++ row.content.fields)

end MailTextRow

namespace MailText

/-- The name of the view of mail texts. -/
def view : String := "projections.mail_texts"

/-- What an event of the policy context asks of the mail text rows. -/
def instruction (e : Event) : Except Error (Instruction (String × MailTextKey) MailTextRow) :=
  match PolicyEvent.codec.decode e with
  | .error err => .error err
  | .ok (.mailTextAdded key content) => .ok (.put (MailTextRow.ofEvent e key content))
  | .ok (.mailTextChanged key change) =>
    .ok (.revise (e.stream.id, key) (.violation (.missingRow view e.stream.id e.sequence))
      e.sequence (MailTextRow.revise e change))
  | .ok _ => .error (.violation (.foreignEvent view e.tag))

end MailText

/-- The view of mail texts. -/
def mailTextProjection : Projection (String × MailTextKey) MailTextRow where
  view := MailText.view
  query := (Filter.all.ofKinds [iamKind]).ofTags PolicyEvent.mailTextTags
  instruction := MailText.instruction
  reached := .policyRowReached

end Chronicle
