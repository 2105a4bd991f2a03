import Chronicle.Http.Resource
import Chronicle.Http.Response
import Chronicle.Simulation.World
/-!
# The HTTP service

The service answers requests from the views, the watermarks and the board of one spooler, on behalf
of one instance.

* `Service.read`: resources that are read from the views;
* **`Service.answer`**: a request line in its surroundings.
-/

namespace Chronicle

/-- The version that the service reports. -/
def serviceVersion : String := "0.1.0"

namespace Service

/-- The body of a health report. -/
def health (b : Board) : Json :=
  .obj [("status", .str "ok"), ("version", .str serviceVersion), ("views", .ofNat b.size)]

/-- A named parameter as text. -/
def withText (parameter : String) (segment : List Char) (f : String → Request Response) :
    Request Response :=
  match Path.decode? segment with
  | none => pure (.notText parameter)
  | some s => f s

/-- The answer that a result read from the views gives. -/
def answerWith {α : Type} (json : α → Json) (read : Views → Except Error α) : Request Response :=
  fun s => ((read s.shared.views.views).map fun a => .ok (json a), s)

/-- The body of a lockout policy. -/
def lockoutJson (row : PolicyRow LockoutSettings) : Json := row.json LockoutSettings.fields

/-- The body of a login policy. -/
def orgIamJson (row : PolicyRow OrgIamSettings) : Json := row.json OrgIamSettings.fields

/-- What the two kinds of policy are called. -/
def lockoutName : String := lockoutKind.what

/-- What the login policy is called. -/
def orgIamName : String := orgIamKind.what

/-- The answer of a resource, before errors become responses. -/
def respond (iam : String) (sp : Spooler Stores) : Resource → Request Response
  | .health => pure (.ok (health sp.board))
  | .views => do pure (.ok (sp.board.report (← Request.allMarks)))
  | .reset view => withText "view" view fun view => do
    Request.resetView sp view
    pure .accepted
  | .defaultLockout =>
    answerWith lockoutJson fun v => PolicyRow.default v.lockout lockoutName iam
  | .lockout org => withText "org_id" org fun org =>
    answerWith lockoutJson fun v => PolicyRow.effective v.lockout lockoutName iam org
  | .defaultOrgIam =>
    answerWith orgIamJson fun v => PolicyRow.default v.orgIam orgIamName iam
  | .orgIam org => withText "org_id" org fun org =>
    answerWith orgIamJson fun v => PolicyRow.effective v.orgIam orgIamName iam org
  | .mailTexts =>
    answerWith (fun rows => .arr (rows.map MailTextRow.json)) fun v => .ok (v.mailTexts iam)
  | .mailText template language => withText "mail_text_type" template fun template =>
    withText "language" language fun language =>
      answerWith MailTextRow.json fun v => v.findMailText iam ⟨template, language⟩
  | .members iam => withText "iam_id" iam fun iam =>
    answerWith (fun rows => .arr (rows.map MemberRow.json)) fun v => .ok (v.members iam)
  | .member iam user => withText "iam_id" iam fun iam =>
    withText "user_id" user fun user => answerWith MemberRow.json fun v => v.findMember iam user

/-- The answer to a request line. -/
def answer (iam : String) (sp : Spooler Stores) (method target : String) : Request Response := do
  match Route.of method target with
  | .nowhere => pure .nowhere
  | .methodNotAllowed => pure .methodNotAllowed
  | .resource r =>
    let response ← match ← Request.attempt (respond iam sp r) with
      | .ok response => pure response
      | .error e => do
        Request.tell e.httpNotices
        pure (.ofError e)
    pure (if method == "HEAD" then response.head else response)

end Service
end Chronicle
