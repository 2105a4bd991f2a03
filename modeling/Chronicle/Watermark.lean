import Chronicle.Index.Basic
import Chronicle.Time.Basic
/-!
# Watermarks

The watermark of a view is the position of the last event folded into it. It only moves up, until it
is dropped because the view is built again from the start. The request to do so is kept next to the
position, so whoever holds the lease finds it.

* `Watermark`, `WatermarkTable`;
* `WatermarkTable.current`, `advance`, `drop`, `requestReset`, `resetRequested`.
-/

namespace Chronicle

/-- The watermark of a view. -/
structure Watermark where
  position : Int
  /-- When the position last moved. -/
  movedAt : Instant
  /-- The view is to be built again. -/
  resetRequested : Bool
deriving DecidableEq

/-- The watermarks of all views that have one. -/
abbrev WatermarkTable := Index String Watermark

namespace WatermarkTable

/-- The watermark of a view, or the one it starts with. -/
def getOrStart (t : WatermarkTable) (now : Instant) (view : String) : Watermark :=
  (t.get? view).getD ⟨0, now, false⟩

/-- The position of a view, zero if it has no watermark. -/
def current (t : WatermarkTable) (view : String) : Int :=
  match t.get? view with
  | none => 0
  | some w => w.position

/-- Moves a view up to `position`; a lower position moves nothing. -/
def advance (t : WatermarkTable) (now : Instant) (view : String) (position : Int) :
    WatermarkTable :=
  let w := getOrStart t now view
  t.insert view
    (if w.position < position then { w with position := position, movedAt := now } else w)

/-- Drops the watermark of a view, and a request with it. -/
def drop (t : WatermarkTable) (view : String) : WatermarkTable :=
  t.erase view

/-- Asks for a view to be built again. -/
def requestReset (t : WatermarkTable) (now : Instant) (view : String) : WatermarkTable :=
  t.insert view { getOrStart t now view with resetRequested := true }

/-- Whether a view is to be built again. -/
def resetRequested (t : WatermarkTable) (view : String) : Bool :=
  match t.get? view with
  | none => false
  | some w => w.resetRequested

end WatermarkTable
end Chronicle
