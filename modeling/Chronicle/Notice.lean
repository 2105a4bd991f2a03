import Chronicle.Error
/-!
# Notices

What the parts of the system tell an operator while they work. A notice is told where it arises;
its severity, its component, its message and its fields follow from what it says.

* `Notice`: everything that is told;
* `Notice.severity`, `Notice.component`, `Notice.message`, `Notice.fields`.
-/

namespace Chronicle

/-- How grave a notice is. -/
inductive Severity where
  | error
  | warn
  | info
  | debug
deriving DecidableEq, Repr

/-- The name of a severity. -/
def Severity.text : Severity → String
  | .error => "ERROR"
  | .warn => "WARN"
  | .info => "INFO"
  | .debug => "DEBUG"

/-- The parts of the system that tell notices. -/
inductive Component where
  | policies
  | members
  | spooler
  | server
deriving DecidableEq, Repr

/-- The name of a component. -/
def Component.text : Component → String
  | .policies => "warden_policy"
  | .members => "warden_iam"
  | .spooler => "warden_spooler"
  | .server => "warden_server"

/-- Something told to an operator. -/
inductive Notice where
  /-- A command on a policy was carried out. -/
  | policyApplied (command id : String) (sequence : Int)
  /-- A command on the members of an instance was carried out. -/
  | memberApplied (command iam : String) (sequence : Int)
  /-- Seeding found a default in place. -/
  | defaultPresent (policy : String)
  /-- Seeding lost a race and tries again. -/
  | seedingConflict (policy : String) (attempt : Nat) (actual : Int)
  /-- Seeding added defaults. -/
  | defaultsSeeded (added : Nat)
  /-- A row of a policy view had reached the event already. -/
  | policyRowReached (row : Int)
  /-- A row of the member view had reached the event already. -/
  | memberRowReached (row : Int)
  /-- A loop is about to run. -/
  | loopStarting (view holder : String)
  /-- A loop came to its end. -/
  | loopStopped (view : String)
  /-- A loop broke down. -/
  | loopCrashed
  /-- Another holder has the lease at the start of a cycle. -/
  | standingBy
  /-- Another holder took the lease during a cycle. -/
  | leaseLost
  /-- A cycle met a failure that may go away. -/
  | backingOff (error : Error)
  /-- An event could not be folded. -/
  | foldFailed (position : Int) (tag : String) (error : Error)
  /-- A cycle folded events. -/
  | batchFolded (processed : Nat) (mark : Int)
  /-- A view was emptied to be built again. -/
  | viewCleared
  /-- A view is to be built again. -/
  | resetRequested (view : String)
  /-- A request was answered with a failure of the server. -/
  | requestFailed (error : Error)

namespace Notice

/-- How grave it is. -/
def severity : Notice → Severity
  | .policyApplied .. => .info
  | .memberApplied .. => .info
  | .defaultPresent .. => .debug
  | .seedingConflict .. => .debug
  | .defaultsSeeded .. => .info
  | .policyRowReached .. => .debug
  | .memberRowReached .. => .debug
  | .loopStarting .. => .info
  | .loopStopped .. => .info
  | .loopCrashed => .error
  | .standingBy => .debug
  | .leaseLost => .debug
  | .backingOff .. => .warn
  | .foldFailed .. => .error
  | .batchFolded .. => .debug
  | .viewCleared => .info
  | .resetRequested .. => .info
  | .requestFailed .. => .error

/-- Who tells it. -/
def component : Notice → Component
  | .policyApplied .. => .policies
  | .memberApplied .. => .members
  | .defaultPresent .. => .server
  | .seedingConflict .. => .server
  | .defaultsSeeded .. => .server
  | .policyRowReached .. => .policies
  | .memberRowReached .. => .members
  | .requestFailed .. => .server
  | _ => .spooler

/-- What it says. -/
def message : Notice → String
  | .policyApplied .. => "policy command applied"
  | .memberApplied .. => "member command applied"
  | .defaultPresent .. => "default already present"
  | .seedingConflict .. => "stream moved during seeding, reloading"
  | .defaultsSeeded .. => "default policies seeded"
  | .policyRowReached .. => "already folded"
  | .memberRowReached .. => "already folded"
  | .loopStarting .. => "starting view loop"
  | .loopStopped .. => "view loop stopped"
  | .loopCrashed => "view loop terminated abnormally"
  | .standingBy => "lease held elsewhere, standing by"
  | .leaseLost => "lease lost mid-batch"
  | .backingOff .. => "transient failure, backing off"
  | .foldFailed .. => "fold failed, halting batch"
  | .batchFolded .. => "batch folded"
  | .viewCleared => "view cleared for re-projection"
  | .resetRequested .. => "re-projection requested"
  | .requestFailed .. => "request failed"

/-- The particulars, by name. -/
def fields : Notice → List (String × String)
  | .policyApplied command id sequence =>
    [("command", command), ("aggregate_id", id), ("sequence", toString sequence)]
  | .memberApplied command iam sequence =>
    [("command", command), ("iam_id", iam), ("sequence", toString sequence)]
  | .defaultPresent policy => [("policy", policy)]
  | .seedingConflict policy attempt actual =>
    [("policy", policy), ("attempt", toString attempt), ("actual", toString actual)]
  | .defaultsSeeded added => [("added", toString added)]
  | .policyRowReached row => [("row_sequence", toString row)]
  | .memberRowReached row => [("row_sequence", toString row)]
  | .loopStarting view holder => [("view", view), ("holder", holder)]
  | .loopStopped view => [("view", view)]
  | .loopCrashed => []
  | .standingBy => []
  | .leaseLost => []
  | .backingOff error => [("error", error.message)]
  | .foldFailed position tag error =>
    [("position", toString position), ("event_type", tag), ("error", error.message)]
  | .batchFolded processed mark =>
    [("processed", toString processed), ("watermark", toString mark)]
  | .viewCleared => []
  | .resetRequested view => [("view", view)]
  | .requestFailed error => [("error", error.message)]

end Notice
end Chronicle
