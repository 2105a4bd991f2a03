import Chronicle.Event.Basic
/-!
# Filters

A filter selects events of the log by aggregate type, event type, aggregate, tenant and position.
Its lower bound is exclusive, so the position of the last event of a page is the bound of the next
page.

* `Filter`, built by `ofStream`, `ofKinds`, `ofTags`, `ofId`, `ofOwner`, `startingAfter`, `capped`;
* `Filter.admits`: every criterion but the cap;
* `Filter.page`: the admitted events of a list, up to the cap.
-/

namespace Chronicle

/-- Criteria on events. An empty list of types admits every type. -/
structure Filter where
  /-- Aggregate types. -/
  kinds : List String := []
  /-- Event types. -/
  tags : List String := []
  /-- The one aggregate identifier, if restricted. -/
  id : Option String := none
  /-- The one tenant, if restricted. -/
  owner : Option String := none
  /-- Admitted positions are greater than this. -/
  after : Int := 0
  /-- The greatest number of events in a page, if capped. -/
  cap : Option Nat := none
deriving DecidableEq, Repr

namespace Filter

/-- The filter that admits the whole log. -/
def all : Filter := {}

/-- Restricts the aggregate types. -/
def ofKinds (f : Filter) (kinds : List String) : Filter := { f with kinds := kinds }

/-- Restricts the event types. -/
def ofTags (f : Filter) (tags : List String) : Filter := { f with tags := tags }

/-- Restricts to one aggregate identifier. -/
def ofId (f : Filter) (id : String) : Filter := { f with id := some id }

/-- Restricts to one tenant. -/
def ofOwner (f : Filter) (owner : String) : Filter := { f with owner := some owner }

/-- Raises the lower bound to `position`; a lower one stays without effect. -/
def startingAfter (f : Filter) (position : Int) : Filter :=
  { f with after := if f.after < position then position else f.after }

/-- Caps the number of events in a page. -/
def capped (f : Filter) (cap : Nat) : Filter := { f with cap := some cap }

/-- The filter of the stream of the aggregate `id` of type `kind`. -/
def ofStream (kind id : String) : Filter :=
  (all.ofKinds [kind]).ofId id

/-- Whether a list of types, empty for every type, has `t` in it. -/
def listed (types : List String) (t : String) : Bool :=
  types.isEmpty || types.contains t

/-- Whether a restriction, absent for none, is met by `s`. -/
def met (restriction : Option String) (s : String) : Bool :=
  match restriction with
  | none => true
  | some r => r == s

/-- Whether `e` meets every criterion but the cap. -/
def admits (f : Filter) (e : Event) : Bool :=
  decide (f.after < e.position) && listed f.kinds e.stream.kind && listed f.tags e.tag
    && met f.id e.stream.id && met f.owner e.stream.owner

/-- The admitted events of `es` in their order, up to the cap. -/
def page (f : Filter) (es : List Event) : List Event :=
  let admitted := es.filter f.admits
  match f.cap with
  | none => admitted
  | some n => admitted.take n

end Filter
end Chronicle
