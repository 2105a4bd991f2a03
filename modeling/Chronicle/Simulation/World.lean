import Chronicle.Simulation.Request
/-!
# Spoolers under virtual time

A world is a set of spoolers in common surroundings. Time stands still while anything can move, and
then passes to the next instant that a loop waits for. Loops that move at the same instant do so one
after the other, in the order they were started.

* `World`, `World.settle`, `World.nextWake`;
* **`World.advance`**: lets time pass;
* `World.start`, `World.wake`, **`World.dismiss`**: stopping or abandoning a spooler and waiting for
  its loops.
-/

namespace Chronicle

/-- Spoolers in common surroundings, in the order they were started. -/
structure World where
  around : Surroundings
  /-- The spoolers with their names; one whose name was given to another has none. -/
  spoolers : List (Option String × Spooler Stores) := []

namespace World

/-! ## Movement at an instant -/

/-- Lets the loops of every spooler move until they rest. -/
def settleAll : List (Option String × Spooler Stores) → Surroundings →
    List (Option String × Spooler Stores) × Surroundings
  | [], s => ([], s)
  | (name, sp) :: rest, s =>
    let (sp, s) := sp.settle s
    let (rest, s) := settleAll rest s
    ((name, sp) :: rest, s)

/-- Lets every loop move until it rests. -/
def settle (w : World) : World :=
  let (spoolers, around) := settleAll w.spoolers w.around
  ⟨around, spoolers⟩

/-- Carries out a request. -/
def request {α : Type} (r : Request α) (w : World) : Except Error α × World :=
  let (result, around) := r w.around
  (result, { w with around := around })

/-- Tells notices. -/
def tell (w : World) (notices : List Notice) : World :=
  { w with around := w.around.tell notices }

/-! ## The passage of time -/

/-- The earlier of two instants, either of which may be missing. -/
def earlier : Option Instant → Option Instant → Option Instant
  | none, b => b
  | a, none => a
  | some a, some b => if b.nanos < a.nanos then some b else some a

/-- The earliest instant that a loop of a spooler waits for. -/
def spoolerWake (sp : Spooler Stores) : Option Instant :=
  sp.runners.foldl (fun t r => earlier t r.loop.phase.wake?) none

/-- The earliest instant that a loop waits for. -/
def nextWake (w : World) : Option Instant :=
  w.spoolers.foldl (fun t sp => earlier t (spoolerWake sp.2)) none

/-- The world at a later instant, with nothing moved yet. -/
def moveTo (w : World) (t : Instant) : World :=
  { w with around := { w.around with now := t } }

/-- Passes to every instant up to `target` that a loop waits for, and lets the loops move there. -/
def passTo (target : Instant) : Nat → World → World
  | 0, w => w
  | budget + 1, w =>
    match w.nextWake with
    | none => w
    | some t => if target.nanos < t.nanos then w else passTo target budget (w.moveTo t).settle

/-- Passes `wait` of time. Loops wait for whole milliseconds, so there are no more instants to pass
to than there are milliseconds. -/
def advance (w : World) (wait : Duration) : World :=
  let target := w.around.now.add wait
  (passTo target (wait.nanos / nanosPerMilli + 1) w).moveTo target

/-! ## Spoolers by name -/

/-- The spooler of a name. -/
def find? (w : World) (name : String) : Option (Spooler Stores) :=
  (w.spoolers.find? fun s => s.1 == some name).map (·.2)

/-- The statuses of a spooler's views. -/
def board (w : World) (name : String) : Board :=
  match w.find? name with
  | none => Index.empty
  | some sp => sp.board

/-- Changes the spooler of a name. -/
def update (w : World) (name : String) (f : Spooler Stores → Spooler Stores) : World :=
  { w with spoolers := w.spoolers.map fun s => if s.1 == some name then (s.1, f s.2) else s }

/-- Takes a name from the spooler that has it, which nobody can tell anything from then on. -/
def release (w : World) (name : String) : World :=
  { w with
    spoolers := w.spoolers.map fun s => if s.1 == some name then (none, s.2.abandon) else s }

/-- Adds a spooler whose loops have not run yet. -/
def start (w : World) (name : String) (config : LoopConfig) (handlers : List (Handler Stores)) :
    World :=
  let w := (w.release name).tell (Spooler.startNotices config handlers)
  { w with spoolers := w.spoolers ++ [(some name, Spooler.start config handlers)] }

/-- Wakes the loops of a spooler. -/
def wake (w : World) (name : String) : World :=
  (w.update name Spooler.wake).settle

/-! ## The end of a spooler -/

/-- Lets time pass until the loop at `i` of a spooler has ended. -/
def awaitRunner (name : String) (i : Nat) : Nat → World → World
  | 0, w => w
  | budget + 1, w =>
    match w.find? name >>= fun sp => sp.runners[i]? with
    | none => w
    | some r =>
      if r.isOver then w
      else
        let w := w.settle
        match w.find? name >>= fun sp => sp.runners[i]? with
        | none => w
        | some r =>
          if r.isOver then w
          else
            match w.nextWake with
            | none => w
            | some t => awaitRunner name i budget (w.moveTo t)

/-- What is told of a loop that has ended, once somebody looks. -/
def runnerNotices (w : World) (name : String) (i : Nat) : List Notice :=
  match w.find? name >>= fun sp => sp.runners[i]? with
  | none => []
  | some r =>
    match r.loop.phase with
    | .crashed => [.loopCrashed]
    | _ => []

/-- A budget for waiting on a spooler: the milliseconds that its slowest loop can take for the cycle
under way and one more. -/
def waitBudget (w : World) (sp : Spooler Stores) : Nat :=
  let slowest := sp.runners.foldl (fun n r => Nat.max n r.loop.handler.delay.nanos) 0
  2 * (w.around.shared.log.events.length + 1) * (slowest / nanosPerMilli + 1) + 1

/-- Waits for the loops of a spooler, one after the other, and tells of those that broke down. -/
def join (name : String) (budget : Nat) : List Nat → World → World
  | [], w => w
  | i :: rest, w =>
    let w := awaitRunner name i budget w
    join name budget rest (w.tell (w.runnerNotices name i))

/-- Dismisses a spooler in one of two ways and waits for its loops, unless it has been dismissed
before. -/
def dismiss (w : World) (name : String) (how : Spooler Stores → Spooler Stores) : World :=
  match w.find? name with
  | none => w
  | some sp =>
    if sp.dismissed then w
    else
      let w := w.update name how
      (join name (w.waitBudget sp) (List.range sp.runners.length) w).settle

end World
end Chronicle
