import Chronicle.Loop.Spooler
/-!
# Surroundings with planned faults

The surroundings of loops and requests in a run under virtual time: the instant, the shared storage,
a plan of faults, and what was told so far. Each call takes the next planned fault of its kind; a
call without one is carried out.

* `Stores`: the storage of the views, and of handlers that only record;
* `Fault`, `FaultPlan`, `FaultPlan.take`;
* `Surroundings`, `Surroundings.verdict`;
* **`Runner.advance`**, **`Runner.settle`**: a loop in its surroundings.
-/

namespace Chronicle

/-- The storage of the views, and of handlers that only record. -/
structure Stores where
  views : Views := {}
  recordings : List Recording := []

namespace Stores

/-- The lockout rows. -/
def lockout : Part Stores (Table String (PolicyRow LockoutSettings)) where
  get s := s.views.lockout
  set t s := { s with views := { s.views with lockout := t } }

/-- The rows of login policies. -/
def orgIam : Part Stores (Table String (PolicyRow OrgIamSettings)) where
  get s := s.views.orgIam
  set t s := { s with views := { s.views with orgIam := t } }

/-- The mail text rows. -/
def mailText : Part Stores (Table (String × MailTextKey) MailTextRow) where
  get s := s.views.mailText
  set t s := { s with views := { s.views with mailText := t } }

/-- The member rows. -/
def member : Part Stores (Table (String × String) MemberRow) where
  get s := s.views.member
  set t s := { s with views := { s.views with member := t } }

/-- The `i`-th recording. -/
def recording (i : Nat) : Part Stores Recording where
  get s := (s.recordings[i]?).getD {}
  set r s := { s with recordings := s.recordings.set i r }

/-- The handler of the lockout view. -/
def lockoutHandler (cycle : Duration) : Handler Stores :=
  lockoutProjection.handler lockout cycle

/-- The handler of the view of login policies. -/
def orgIamHandler (cycle : Duration) : Handler Stores :=
  orgIamProjection.handler orgIam cycle

/-- The handler of the view of mail texts. -/
def mailTextHandler (cycle : Duration) : Handler Stores :=
  mailTextProjection.handler mailText cycle

/-- The handler of the view of members. -/
def memberHandler (cycle : Duration) : Handler Stores :=
  memberProjection.handler member cycle

end Stores

/-! ## Faults -/

/-- What is planned for one call. -/
inductive Fault where
  /-- The call is carried out. -/
  | pass
  /-- The call fails and has no effect. -/
  | fail (e : Error)
  /-- The caller is cut off. -/
  | crash
  /-- Another writer appends at the head of a stream, and then the call is carried out, unless the
  other writer is refused. -/
  | race (stream : Stream) (drafts : List Draft)

/-- What a fault makes of a call. -/
def Fault.verdict : Fault → Verdict
  | .pass => .pass
  | .fail e => .fail e
  | .crash => .crash
  | .race _ _ => .pass

/-- Planned faults, in order, each for the next call of its kind. -/
abbrev FaultPlan := List (Call × Fault)

/-- Takes the next fault for a call out of the plan. -/
def FaultPlan.take (c : Call) : FaultPlan → Fault × FaultPlan
  | [] => (.pass, [])
  | (d, f) :: rest =>
    if d = c then (f, rest)
    else
      let (g, rest) := take c rest
      (g, (d, f) :: rest)

/-! ## Surroundings -/

/-- The surroundings of loops and requests. -/
structure Surroundings where
  now : Instant
  shared : Shared Stores
  faults : FaultPlan := []
  /-- What was told, the latest first. -/
  told : List Notice := []

namespace Surroundings

/-- Takes the fault that is planned for a call. -/
def take (s : Surroundings) (c : Call) : Fault × Surroundings :=
  let (f, faults) := FaultPlan.take c s.faults
  (f, { s with faults := faults })

/-- Adds to what was told. -/
def tell (s : Surroundings) (notices : List Notice) : Surroundings :=
  { s with told := notices.reverseAux s.told }

/-- What was told, in order. -/
def notices (s : Surroundings) : List Notice :=
  s.told.reverse

/-- The surroundings with nothing told. -/
def hush (s : Surroundings) : Surroundings :=
  { s with told := [] }

end Surroundings

/-! ## A loop in its surroundings -/

/-- The board after a loop leaves its phase: the end of a cycle is published. -/
def Phase.publish {σ : Type} (phase : Phase σ) (now : Instant) (view : String) (b : Board) :
    Board :=
  match phase with
  | .ended o => b.publish now view o
  | _ => b

namespace Runner

/-- One step of the loop under a verdict. -/
def stepWith (r : Runner Stores) (signals : Signals) (v : Verdict) (b : Board)
    (s : Surroundings) : Runner Stores × Board × Surroundings :=
  let out := r.loop.step s.now signals.stop v s.shared
  let board := r.loop.phase.publish s.now r.loop.handler.view b
  ({ r with loop := out.loop }, board, { s with shared := out.shared }.tell out.notices)

/-- The next move of the loop, if it makes one. -/
def advance (signals : Signals) (r : Runner Stores) (b : Board) (s : Surroundings) :
    Option (Runner Stores × Board × Surroundings) :=
  match r.move signals s.now with
  | .idle => none
  | .call c =>
    let (f, s) := s.take c
    some (r.stepWith signals f.verdict b s)
  | .step => some (r.stepWith signals .pass b s)
  | .rouse =>
    some ({ loop := { r.loop with phase := .ready }, signalled := false }, b, s)
  | .leave =>
    some ({ r with loop := { r.loop with phase := .stopped } }, b,
      s.tell [.loopStopped r.loop.handler.view])

/-- Moves of the loop until it makes none, or until the budget is spent. -/
def settle (signals : Signals) : Nat → Runner Stores → Board → Surroundings →
    Runner Stores × Board × Surroundings
  | 0, r, b, s => (r, b, s)
  | budget + 1, r, b, s =>
    match r.advance signals b s with
    | none => (r, b, s)
    | some (r, b, s) => settle signals budget r b s

end Runner

/-- A budget that no loop spends before it rests. A cycle makes eight steps around its pages, two
steps for a page and six for an event; there is at most one page more than there are events, and a
signal can have one cycle follow another. -/
def Surroundings.budget (s : Surroundings) : Nat :=
  2 * (16 + 8 * (s.shared.log.events.length + 1))

namespace Spooler

/-- Lets every loop move until it rests, one loop after the other. -/
def settleRunners (signals : Signals) : List (Runner Stores) → Board → Surroundings →
    List (Runner Stores) × Board × Surroundings
  | [], b, s => ([], b, s)
  | r :: rest, b, s =>
    let (r, b, s) := r.settle signals s.budget b s
    let (rest, b, s) := settleRunners signals rest b s
    (r :: rest, b, s)

/-- Lets the loops of a spooler move until they rest. -/
def settle (sp : Spooler Stores) (s : Surroundings) : Spooler Stores × Surroundings :=
  let (runners, board, s) := settleRunners sp.signals sp.runners sp.board s
  ({ sp with runners := runners, board := board }, s)

end Spooler
end Chronicle
