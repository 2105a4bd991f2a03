import Chronicle.Event.Filter
import Chronicle.Error
import Chronicle.Index.Basic
import Chronicle.Notice
/-!
# Tables of a view

A view holds rows that are folded from events. Every row knows its key and the sequence of the last
event folded into it, and a table never takes a row in the place of one that has reached its
sequence, so a fold that is repeated changes nothing.

* `Row`, `Table`, `Table.put`, `Table.drop`;
* `Instruction`: what an event asks of a table, before the table is read;
* `Edit`: what is written after it was read;
* `Projection`: how a view follows the log.
-/

namespace Chronicle

/-- Rows with keys. -/
class Row (ρ : Type) (κ : outParam Type) where
  key : ρ → κ
  /-- The sequence of the last event folded into the row. -/
  sequence : ρ → Int

/-- Rows by key. -/
abbrev Table (κ ρ : Type) [SortKey κ] := Index κ ρ

namespace Table

variable {κ ρ : Type} [SortKey κ] [Row ρ κ]

/-- Puts a row in, unless the row of its key has reached its sequence. -/
def put (t : Table κ ρ) (row : ρ) : Table κ ρ :=
  match t.get? (Row.key row) with
  | some held => if Row.sequence row ≤ Row.sequence held then t else t.insert (Row.key row) row
  | none => t.insert (Row.key row) row

/-- Takes the row of `key` out, if there is one. -/
def drop (t : Table κ ρ) (key : κ) : Table κ ρ :=
  t.erase key

/-- The rows that meet `p`, in ascending order of their keys. -/
def select (t : Table κ ρ) (p : ρ → Bool) : List ρ :=
  t.values.filter p

end Table

/-! ## From an event to a write -/

/-- What an event asks of a table. -/
inductive Instruction (κ ρ : Type) where
  /-- A new row. -/
  | put (row : ρ)
  /-- A change of the row of `key`, which has to be there, by the event with `sequence`. -/
  | revise (key : κ) (missing : Error) (sequence : Int) (change : ρ → ρ)
  /-- The end of the row of `key`. -/
  | drop (key : κ)

/-- A write to a table. -/
inductive Edit (κ ρ : Type) where
  | put (row : ρ)
  | drop (key : κ)
  /-- Nothing, because the row has reached a sequence that covers the event. -/
  | keep (reached : Int)

/-- The write that an instruction comes to, given a way to read rows. -/
def Instruction.edit {κ ρ : Type} [Row ρ κ] (find : κ → Option ρ) :
    Instruction κ ρ → Except Error (Edit κ ρ)
  | .put row => .ok (.put row)
  | .revise key missing sequence change =>
    match find key with
    | none => .error missing
    | some row =>
      if sequence ≤ Row.sequence row then .ok (.keep (Row.sequence row))
      else .ok (.put (change row))
  | .drop key => .ok (.drop key)

/-- The table after a write. -/
def Edit.apply {κ ρ : Type} [SortKey κ] [Row ρ κ] (t : Table κ ρ) : Edit κ ρ → Table κ ρ
  | .put row => t.put row
  | .drop key => t.drop key
  | .keep _ => t

/-- How a view follows the log. -/
structure Projection (κ ρ : Type) where
  /-- The name of the view, which is also the name of its lease and watermark. -/
  view : String
  /-- The events that the view follows. -/
  query : Filter
  /-- What an event asks of the table. -/
  instruction : Event → Except Error (Instruction κ ρ)
  /-- What is told when a row had reached an event already. -/
  reached : Int → Notice

namespace Projection

variable {κ ρ : Type} [SortKey κ] [Row ρ κ] (p : Projection κ ρ)

/-- The write that an event comes to on a table. -/
def edit (t : Table κ ρ) (e : Event) : Except Error (Edit κ ρ) :=
  match p.instruction e with
  | .error err => .error err
  | .ok i => i.edit t.get?

/-- The table after an event. -/
def fold (t : Table κ ρ) (e : Event) : Except Error (Table κ ρ) :=
  (p.edit t e).map (Edit.apply t)

end Projection
end Chronicle
