import Chronicle.Http.Path
/-!
# Resources

What can be requested over HTTP. A resource is found by its path, whatever the method; each resource
answers one method, and a resource that answers `GET` also answers `HEAD`.

* `Resource`, `Resource.ofSegments?`, `Resource.ofTarget?`;
* `Resource.allows`: the methods that a resource answers;
* **`Route.of`**: what becomes of a request line.
-/

namespace Chronicle

/-- What can be requested. Parameters are raw segments. -/
inductive Resource where
  | health
  | views
  | reset (view : List Char)
  | defaultLockout
  | lockout (org : List Char)
  | defaultOrgIam
  | orgIam (org : List Char)
  | mailTexts
  | mailText (template language : List Char)
  | members (iam : List Char)
  | member (iam user : List Char)
deriving DecidableEq, Repr

namespace Resource

/-- A segment as text, for comparison with the fixed parts of paths. -/
def fixed (segment : List Char) : String := String.ofList segment

/-- The resource of a path. A parameter at the end of a path is never empty; one in front of a
further segment may be. -/
def ofSegments? (segments : List (List Char)) : Option Resource :=
  match segments with
  | [a] =>
    if fixed a = "health" then some .health
    else if fixed a = "views" then some .views
    else none
  | [a, view, b] =>
    if fixed a = "views" ∧ fixed b = "reset" then some (.reset view) else none
  | a :: b :: c :: rest =>
    if fixed a = "api" ∧ fixed b = "v1" then
      if fixed c = "policies" then
        match rest with
        | [d] => if fixed d = "mail-texts" then some .mailTexts else none
        | [d, e] =>
          if fixed e = "default" ∧ fixed d = "lockout" then some .defaultLockout
          else if fixed e = "default" ∧ fixed d = "org-iam" then some .defaultOrgIam
          else none
        | [d, e, f] =>
          if fixed d = "lockout" ∧ fixed e = "orgs" ∧ f ≠ [] then some (.lockout f)
          else if fixed d = "org-iam" ∧ fixed e = "orgs" ∧ f ≠ [] then some (.orgIam f)
          else if fixed d = "mail-texts" ∧ f ≠ [] then some (.mailText e f)
          else none
        | _ => none
      else if fixed c = "iam" then
        match rest with
        | [iam, d] => if fixed d = "members" then some (.members iam) else none
        | [iam, d, user] =>
          if fixed d = "members" ∧ user ≠ [] then some (.member iam user) else none
        | _ => none
      else none
    else none
  | _ => none

/-- The resource of a request target. -/
def ofTarget? (target : String) : Option Resource :=
  Path.segments? target >>= ofSegments?

/-- Whether a resource is written to rather than read. -/
def isWrite : Resource → Bool
  | .reset _ => true
  | _ => false

/-- Whether a resource answers a method. -/
def allows (r : Resource) (method : String) : Bool :=
  if r.isWrite then method == "POST" else method == "GET" || method == "HEAD"

end Resource

/-- What becomes of a request line. -/
inductive Route where
  /-- There is nothing at the path. -/
  | nowhere
  /-- The resource at the path does not answer the method. -/
  | methodNotAllowed
  /-- The resource answers. -/
  | resource (r : Resource)
deriving DecidableEq, Repr

/-- The route of a method and a target. -/
def Route.of (method target : String) : Route :=
  match Resource.ofTarget? target with
  | none => .nowhere
  | some r => if r.allows method then .resource r else .methodNotAllowed

end Chronicle
