import Chronicle.Error
import Chronicle.Index.Basic
import Chronicle.Json.Record
import Chronicle.Policy.Settings
import Chronicle.Text.Blank
/-!
# Mail texts

A mail text belongs to an instance and is named by the template it fills and a language. It has six
blocks; a change carries the blocks that differ.

* `MailTextKey`: template and language, in this order of comparison;
* `MailTextContent`: the six blocks;
* `MailTextChange`: the blocks that differ.

In payloads the fields of the key stand next to the blocks, and only objects are read.
-/

namespace Chronicle

/-- Names one mail text of an instance. -/
structure MailTextKey where
  /-- The template. -/
  template : String
  /-- The language tag. -/
  language : String
deriving DecidableEq, Repr

namespace MailTextKey

/-- Keys are ordered by template, then by language. -/
instance : SortKey MailTextKey where
  before a b := SortKey.before (a.template, a.language) (b.template, b.language)
  irrefl _ := SortKey.irrefl _
  trans := SortKey.trans
  connected {a b} h k := by
    cases a; cases b
    simpa using SortKey.connected h k

/-- Template and language. -/
def text (k : MailTextKey) : String :=
  k.template ++ "/" ++ k.language

/-- Neither part may be blank. -/
def validate (k : MailTextKey) : Except Error Unit :=
  if Text.allBlank k.template then .error (.violation (.blank "mail text type"))
  else if Text.allBlank k.language then .error (.violation (.blank "mail text language"))
  else .ok ()

/-- How two keys compare. -/
def compare (a b : MailTextKey) : Ordering :=
  if SortKey.before a b then .lt else if SortKey.before b a then .gt else .eq

/-- The fields of a key in payloads. -/
def fields (k : MailTextKey) : List (String × Json) :=
  [("mail_text_type", .str k.template), ("language", .str k.language)]

/-- Reads the key from the fields of an object. -/
def read? (v : Json) : Option MailTextKey := do
  let template ← Json.required Json.asString? (v.field? "mail_text_type")
  let language ← Json.required Json.asString? (v.field? "language")
  some ⟨template, language⟩

end MailTextKey

/-- The six blocks of a mail text. -/
structure MailTextContent where
  title : String := ""
  preHeader : String := ""
  subject : String := ""
  greeting : String := ""
  body : String := ""
  buttonText : String := ""
deriving DecidableEq, Repr

/-- The blocks that a change carries. -/
structure MailTextChange where
  title : Option String := none
  preHeader : Option String := none
  subject : Option String := none
  greeting : Option String := none
  body : Option String := none
  buttonText : Option String := none
deriving DecidableEq, Repr

namespace MailTextContent

/-- The blocks that differ. -/
def between (current next : MailTextContent) : Option MailTextChange :=
  let change : MailTextChange :=
    ⟨differing current.title next.title, differing current.preHeader next.preHeader,
      differing current.subject next.subject, differing current.greeting next.greeting,
      differing current.body next.body, differing current.buttonText next.buttonText⟩
  if change = {} then none else some change

/-- The blocks after a change. -/
def apply (c : MailTextChange) (m : MailTextContent) : MailTextContent :=
  ⟨c.title.getD m.title, c.preHeader.getD m.preHeader, c.subject.getD m.subject,
    c.greeting.getD m.greeting, c.body.getD m.body, c.buttonText.getD m.buttonText⟩

/-- The fields of the blocks, for payloads and rows. -/
def fields (m : MailTextContent) : List (String × Json) :=
  [("title", .str m.title), ("pre_header", .str m.preHeader), ("subject", .str m.subject),
    ("greeting", .str m.greeting), ("text", .str m.body), ("button_text", .str m.buttonText)]

/-- Reads all blocks from the fields of an object. -/
def read? (v : Json) : Option MailTextContent := do
  let title ← Json.required Json.asString? (v.field? "title")
  let preHeader ← Json.required Json.asString? (v.field? "pre_header")
  let subject ← Json.required Json.asString? (v.field? "subject")
  let greeting ← Json.required Json.asString? (v.field? "greeting")
  let body ← Json.required Json.asString? (v.field? "text")
  let buttonText ← Json.required Json.asString? (v.field? "button_text")
  some ⟨title, preHeader, subject, greeting, body, buttonText⟩

end MailTextContent

namespace MailTextChange

/-- The fields of the blocks, absent for those that are kept. -/
def fields (c : MailTextChange) : List (String × Option Json) :=
  [("title", c.title.map .str), ("pre_header", c.preHeader.map .str),
    ("subject", c.subject.map .str), ("greeting", c.greeting.map .str),
    ("text", c.body.map .str), ("button_text", c.buttonText.map .str)]

/-- Reads the blocks that an object carries. -/
def read? (v : Json) : Option MailTextChange := do
  let title ← Json.optional Json.asString? (v.field? "title")
  let preHeader ← Json.optional Json.asString? (v.field? "pre_header")
  let subject ← Json.optional Json.asString? (v.field? "subject")
  let greeting ← Json.optional Json.asString? (v.field? "greeting")
  let body ← Json.optional Json.asString? (v.field? "text")
  let buttonText ← Json.optional Json.asString? (v.field? "button_text")
  some ⟨title, preHeader, subject, greeting, body, buttonText⟩

end MailTextChange
end Chronicle
