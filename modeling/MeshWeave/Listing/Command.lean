import MeshWeave.Listing.Basic

set_option autoImplicit false

/-! # Writing a listing step by step

A listing is written by commands, which open and close elements and append indices. Where each
command is allowed depends only on which elements are open. There are six such places, and
`Place.step` is the protocol that every writer follows. -/

namespace MeshWeave

/-- One step of writing. -/
inductive Command where
  | openPrimitive (header : Header)
  | openElement (tag : IndexTag)
  | index (i : UInt32)
  | closeElement
  | closePrimitive
  deriving DecidableEq, Repr

/-- A command that is not allowed where it was given. -/
inductive Misuse where
  | noPrimitive
  | primitiveOpen
  | misplaced (tag : IndexTag)
  | indexOutsideElement
  | noElement
  | unclosedElements
  deriving DecidableEq, Repr

/-- The wording of a misuse. -/
def Misuse.message : Misuse → String
  | noPrimitive => "No primitive is open"
  | primitiveOpen => "A primitive is already open"
  | misplaced tag => s!"<{tag.name}> is not allowed here"
  | indexOutsideElement => "Index written outside of <p> or <h>"
  | noElement => "No element is open"
  | unclosedElements => "Primitive closed with open elements"

/-- Why a command had no effect, or only a part of it. -/
inductive Failure where
  | misuse (m : Misuse)
  /-- The output took only a part of the text. -/
  | outputFull
  deriving DecidableEq, Repr

/-- The wording of a failure. -/
def Failure.message : Failure → String
  | misuse m => m.message
  | outputFull => "failed to write whole buffer"

/-! ## The protocol -/

/-- Which elements are open. -/
inductive Place where
  | outside
  /-- Inside a primitive element. -/
  | primitive
  /-- Inside a polygon of a primitive element. -/
  | polygon
  /-- Inside an element for a polygon with holes. -/
  | holed
  /-- Inside the polygon of such an element. -/
  | holedPolygon
  /-- Inside a hole of such an element. -/
  | hole
  deriving DecidableEq, Repr, Inhabited

namespace Place

/-- What is wrong with a command that is not allowed at a place. -/
def misuse (p : Place) : Command → Misuse
  | .openPrimitive _ => .primitiveOpen
  | .openElement tag => if p = outside then .noPrimitive else .misplaced tag
  | .index _ => .indexOutsideElement
  | .closeElement => .noElement
  | .closePrimitive => if p = outside then .noPrimitive else .unclosedElements

/-- The place that a command leads to. -/
def step : Place → Command → Except Misuse Place
  | outside, .openPrimitive _ => .ok primitive
  | primitive, .openElement .p => .ok polygon
  | primitive, .openElement .ph => .ok holed
  | primitive, .closePrimitive => .ok outside
  | polygon, .index _ => .ok polygon
  | polygon, .closeElement => .ok primitive
  | holed, .openElement .p => .ok holedPolygon
  | holed, .openElement .h => .ok hole
  | holed, .closeElement => .ok primitive
  | holedPolygon, .index _ => .ok holedPolygon
  | holedPolygon, .closeElement => .ok holed
  | hole, .index _ => .ok hole
  | hole, .closeElement => .ok holed
  | p, c => .error (p.misuse c)

end Place

/-! ## Writers -/

/-- Something that performs commands. A command that fails may still leave a trace. -/
class Writer (σ : Type) where
  perform : σ → Command → σ × Option Failure

namespace Writer

variable {σ : Type} [Writer σ]

/-- Perform commands in order, up to the first one that fails. -/
def performAll : σ → List Command → σ × Option Failure
  | w, [] => (w, none)
  | w, c :: cs =>
      match perform w c with
      | (w, none) => performAll w cs
      | (w, some failure) => (w, some failure)

end Writer

/-! ## The commands of a listing -/

/-- The commands that write a run of indices in an element. -/
def Command.run (tag : IndexTag) (indices : Array UInt32) : List Command :=
  .openElement tag :: (indices.toList.map .index ++ [.closeElement])

/-- The commands that write an index element. -/
def Group.commands : Group → List Command
  | polygon indices => Command.run .p indices
  | holed outer holes =>
      .openElement .ph :: (Command.run .p outer ++ holes.toList.flatMap (Command.run .h)
        ++ [.closeElement])

/-- The commands that write a listing. -/
def Listing.commands (l : Listing) : List Command :=
  .openPrimitive l.header :: (l.groups.toList.flatMap Group.commands ++ [.closePrimitive])

end MeshWeave
