import Chronicle.Bound
import Chronicle.Error
import Chronicle.Text.Blank
import Chronicle.Text.Numeral
import Chronicle.Time.Basic
/-!
# Settings of the server

The settings of a server are read from named variables. Numbers are trimmed and read within the
bound of their width. Variables are looked at in a fixed order, and the first that is missing or not
in order is reported.

* `StartError`: why a server does not start;
* `ServerConfig`, **`ServerConfig.ofLookup`**.
-/

namespace Chronicle

/-- Why a variable is not accepted. -/
inductive ConfigFlaw where
  /-- The variable is not set. -/
  | unset (name : String)
  /-- The variable is zero. -/
  | zero (name : String)
  /-- The variable is not a number within its bound. -/
  | invalid (name : String) (flaw : Text.Numeral.Flaw)
  /-- Any other flaw, in its own words. -/
  | stated (text : String)
deriving DecidableEq, Repr

/-- The wording of a flaw. -/
def ConfigFlaw.message : ConfigFlaw → String
  | .unset name => name ++ " environment variable must be set"
  | .zero name => name ++ " must be at least 1"
  | .invalid name flaw => name ++ " is invalid: " ++ flaw.message
  | .stated text => text

/-- Why a server does not start. -/
inductive StartError where
  /-- The settings are not in order. -/
  | config (flaw : ConfigFlaw)
  /-- Seeding the defaults failed. -/
  | setup (e : Error)
deriving DecidableEq

/-- The wording of a start error. -/
def StartError.message : StartError → String
  | .config flaw => "configuration error: " ++ flaw.message
  | .setup e => "setup error: " ++ e.message

/-- The settings of a server. -/
structure ServerConfig where
  databaseUrl : String
  host : String
  port : Nat
  maxConnections : Nat
  /-- The holder of the server's leases; a fresh identifier is made if there is none. -/
  instanceId : Option String
  lockWait : Duration
  batchSize : Nat
  /-- The instance that the server works for. -/
  iamId : String
deriving DecidableEq

namespace ServerConfig

/-- The number in a variable, or `default` if the variable is not set. -/
def numberOr (lookup : String → Option String) (name : String) (bound default : Nat) :
    Except StartError Nat :=
  match lookup name with
  | none => .ok default
  | some raw =>
    match Text.Numeral.read bound (Text.trim raw) with
    | .error flaw => .error (.config (.invalid name flaw))
    | .ok n => .ok n

/-- The number in a variable, which must not be zero. -/
def positiveOr (lookup : String → Option String) (name : String) (bound default : Nat) :
    Except StartError Nat :=
  match numberOr lookup name bound default with
  | .error e => .error e
  | .ok n => if n = 0 then .error (.config (.zero name)) else .ok n

/-- Reads the settings. -/
def ofLookup (lookup : String → Option String) : Except StartError ServerConfig :=
  match lookup "DATABASE_URL" with
  | none => .error (.config (.unset "DATABASE_URL"))
  | some databaseUrl => do
    let lockWait ← positiveOr lookup "WARDEN_LOCK_WAIT_SECS" Bound.uint64 30
    let batchSize ← positiveOr lookup "WARDEN_BATCH_SIZE" Bound.uint64 100
    let port ← numberOr lookup "PORT" Bound.uint16 3000
    let maxConnections ← numberOr lookup "DATABASE_MAX_CONNECTIONS" Bound.uint32 10
    pure {
      databaseUrl := databaseUrl
      host := (lookup "HOST").getD "0.0.0.0"
      port := port
      maxConnections := maxConnections
      instanceId := lookup "WARDEN_INSTANCE_ID"
      lockWait := Duration.ofSecs lockWait
      batchSize := batchSize
      iamId := (lookup "WARDEN_IAM_ID").getD "iam" }

/-- Host and port, as a server binds them. -/
def bindAddress (c : ServerConfig) : String :=
  c.host ++ ":" ++ toString c.port

end ServerConfig
end Chronicle
