import Chronicle.View.Views
/-!
# Handlers

A handler maintains one view: it says which events it follows, folds them one at a time into
storage, and clears its view when it is to be built again. A fold first reads the storage and then
makes one write; between the two, another loop may write.

* `Fold`: what a handler makes of an event;
* `Handler`, `Handler.process`;
* `Part`: a part of a larger storage;
* `Projection.handler`: the handler of a projection;
* `Recording`, `failingHandler`: handlers that only watch, and that always fail.
-/

namespace Chronicle

/-- What a handler makes of an event on the storage it has read. -/
structure Fold (σ : Type) where
  /-- The write. -/
  write : σ → σ
  /-- The error that the fold ends with, after its write. -/
  error : Option Error := none
  notices : List Notice := []

/-- A fold that writes nothing and ends with an error. -/
def Fold.refuse {σ : Type} (e : Error) : Fold σ where
  write := id
  error := some e

/-- What maintains a view in storage `σ`. -/
structure Handler (σ : Type) where
  /-- The name of the view, which is also the name of its lease and watermark. -/
  view : String
  /-- The events that the view follows. -/
  query : Filter
  /-- The least time between the ends of two cycles. -/
  cycle : Duration
  /-- The time that a fold takes before it reads. -/
  delay : Duration := Duration.zero
  fold : σ → Event → Fold σ
  clear : σ → σ

/-- Folds an event with nothing in between. -/
def Handler.process {σ : Type} (h : Handler σ) (s : σ) (e : Event) : σ × Option Error :=
  let f := h.fold s e
  (f.write s, f.error)

/-- A part `τ` of a storage `σ`. -/
structure Part (σ τ : Type) where
  get : σ → τ
  set : τ → σ → σ

/-- The storage with its part changed. -/
def Part.modify {σ τ : Type} (p : Part σ τ) (f : τ → τ) (s : σ) : σ :=
  p.set (f (p.get s)) s

/-! ## Projections as handlers -/

namespace Projection

variable {κ ρ σ : Type} [SortKey κ] [Row ρ κ]

/-- What a projection tells of a write. -/
def noticesOf (p : Projection κ ρ) : Edit κ ρ → List Notice
  | .keep reached => [p.reached reached]
  | _ => []

/-- The handler of a projection whose table is a part of the storage. -/
def handler (p : Projection κ ρ) (part : Part σ (Table κ ρ)) (cycle : Duration) : Handler σ where
  view := p.view
  query := p.query
  cycle := cycle
  fold s e :=
    match p.edit (part.get s) e with
    | .error err => Fold.refuse err
    | .ok edit =>
      { write := part.modify fun t => Edit.apply t edit, notices := p.noticesOf edit }
  clear := part.set Index.empty

end Projection

/-! ## Handlers without rows -/

/-- What a recording handler has seen since its view was last cleared. -/
structure Recording where
  events : List Event := []
  /-- How often the view was cleared. -/
  clears : Nat := 0
  /-- The position that is still to be refused once. -/
  refuseAt : Option Int := none

namespace Recording

/-- The write and the error of recording an event. -/
def fold (r : Recording) (e : Event) : Fold Recording :=
  if r.refuseAt = some e.position then
    { write := fun r => { r with refuseAt := none },
      error := some (.violation (.refused e.position)) }
  else { write := fun r => { r with events := r.events ++ [e] } }

/-- The recording after its view is cleared. -/
def clear (r : Recording) : Recording :=
  { r with events := [], clears := r.clears + 1 }

/-- The handler that records the events of a filter in a part of the storage. -/
def handler {σ : Type} (view : String) (query : Filter) (part : Part σ Recording)
    (cycle : Duration) : Handler σ where
  view := view
  query := query
  cycle := cycle
  fold s e :=
    let f := (part.get s).fold e
    { write := part.modify f.write, error := f.error, notices := f.notices }
  clear := part.modify clear

end Recording

/-- The handler that follows every event and folds none, once a second. -/
def failingHandler {σ : Type} (view : String) : Handler σ where
  view := view
  query := Filter.all
  cycle := Duration.ofSecs 1
  fold _ _ := Fold.refuse (.infrastructure .viewUnavailable)
  clear := id

end Chronicle
