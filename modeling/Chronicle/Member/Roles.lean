import Chronicle.Text.Blank
/-!
# Role lists

Roles are granted as sets. A role list stands for the set of its trimmed entries that are not blank,
and the set is kept as the ascending list of these.

* `Roles.place`: puts a role into an ascending list, once;
* **`Roles.normalize`**: the ascending list that a role list stands for.
-/

namespace Chronicle.Roles

/-- Puts `role` into an ascending list, which stays as it is if the role is in it. -/
def place (role : String) : List String → List String
  | [] => [role]
  | r :: rest =>
    if role < r then role :: r :: rest
    else if role = r then r :: rest
    else r :: place role rest

/-- The trimmed entries that are not blank, ascending and each once. -/
def normalize (roles : List String) : List String :=
  ((roles.map Text.trim).filter (· ≠ "")).foldr place []

end Chronicle.Roles
