import MeshWeave.Listing.Recorder
import MeshWeave.Listing.TextWriter

set_option autoImplicit false

/-! # Writers with a stack of open elements

The writers of this library know which of six places they are at, and a recorder has the open
elements in its draft. A writer that is driven by calls may keep a stack of the open elements
instead, and beside it what it needs on its own: `ListingRegisters` a listing that may be missing,
`TextRegisters` a level and the shape of the open primitive element. Nothing in their types keeps
the stack and the rest together. Every call asks the stack first; where `ListingRegisters` then
misses what it is to change, the call is lost. -/

namespace MeshWeave

/-! ## The stack -/

/-- Whether a primitive element is open, and which elements are open inside, innermost first. -/
structure OpenElements where
  inPrimitive : Bool
  tags : List IndexTag
  deriving DecidableEq, Repr

namespace OpenElements

/-- Nothing is open. -/
def none : OpenElements := ⟨false, []⟩

instance : Inhabited OpenElements := ⟨none⟩

/-- Open a primitive element. -/
def openPrimitive (s : OpenElements) : Except Misuse OpenElements :=
  if s.inPrimitive then .error .primitiveOpen else .ok { s with inPrimitive := true }

/-- Whether an element may stand directly inside of another one, or of the primitive element. -/
def allows (parent : Option IndexTag) : IndexTag → Bool
  | .p => parent == .none || parent == some .ph
  | .ph => parent == .none
  | .h => parent == some .ph

/-- Open an element. -/
def openElement (s : OpenElements) (tag : IndexTag) : Except Misuse OpenElements :=
  if !s.inPrimitive then .error .noPrimitive
  else if !allows s.tags.head? tag then .error (.misplaced tag)
  else .ok { s with tags := tag :: s.tags }

/-- Whether the innermost element takes indices. -/
def checkIndex (s : OpenElements) : Except Misuse Unit :=
  match s.tags.head? with
  | some .p | some .h => .ok ()
  | _ => .error .indexOutsideElement

/-- Close the innermost element. -/
def closeElement (s : OpenElements) : Except Misuse (IndexTag × OpenElements) :=
  match s.tags with
  | [] => .error .noElement
  | tag :: tags => .ok (tag, { s with tags })

/-- Close the primitive element. -/
def closePrimitive (s : OpenElements) : Except Misuse OpenElements :=
  if !s.inPrimitive then .error .noPrimitive
  else if !s.tags.isEmpty then .error .unclosedElements
  else .ok { s with inPrimitive := false }

end OpenElements

/-! ## Calls -/

/-- A call of a writer. -/
inductive Call where
  | command (c : Command)
  /-- Append indices one after the other. -/
  | indices (indices : List UInt32)
  deriving DecidableEq, Repr

/-- The commands that a call gives, up to the first one that is refused. -/
def Call.commands : Call → List Command
  | command c => [c]
  | indices is => is.map .index

/-- How a call ends. -/
inductive Answer where
  | done
  | refused (m : Misuse)
  /-- The stack allows the call, but the listing that it is to change is missing. -/
  | lost (m : Misuse)
  deriving DecidableEq, Repr, Inhabited

/-- Something that performs commands, and may find that it is not prepared for one. -/
class CallWriter (σ : Type) where
  answer : σ → Command → Answer × σ

namespace CallWriter

variable {σ : Type} [CallWriter σ]

/-- Perform commands in order, up to the first one that is not done. -/
def answerAll : σ → List Command → Answer × σ
  | w, [] => (.done, w)
  | w, c :: cs =>
      match answer w c with
      | (.done, w) => answerAll w cs
      | (a, w) => (a, w)

/-- A writer after calls, whatever the answers. -/
def afterCalls (w : σ) (calls : List Call) : σ :=
  calls.foldl (fun w call => (answerAll w call.commands).2) w

end CallWriter

/-! ## Keeping listings -/

/-- A writer that keeps listings. -/
structure ListingRegisters where
  listings : Array Listing
  /-- The listing of the open primitive element. -/
  current : Option Listing
  elements : OpenElements
  deriving DecidableEq, Repr

/-- Append an index to the run of an index element that an open element stands for. -/
def Group.append? (tag : Option IndexTag) (i : UInt32) : Group → Option Group
  | polygon indices => if tag = some .p then some (.polygon (indices.push i)) else none
  | holed outer holes =>
      match tag with
      | some .p => some (.holed (outer.push i) holes)
      | some .h => holes.back?.map fun hole => .holed outer (holes.pop.push (hole.push i))
      | _ => none

/-- Begin a hole. -/
def Group.beginHole : Group → Group
  | polygon indices => .polygon indices
  | holed outer holes => .holed outer (holes.push #[])

namespace Listing

/-- Change the last index element, if there is one and it can be changed. -/
def changeLast? (f : Group → Option Group) (l : Listing) : Option Listing := do
  let g ← f (← l.groups.back?)
  return { l with groups := l.groups.pop.push g }

/-- Make room for the indices of an element. A polygon of an element for a polygon with holes has
    it already. -/
def begin (l : Listing) (inHoled : Bool) : IndexTag → Listing
  | .p => if inHoled then l else l.push (.polygon #[])
  | .ph => l.push (.holed #[] #[])
  | .h => (l.changeLast? fun g => some g.beginHole).getD l

end Listing

namespace ListingRegisters

/-- Nothing was written. -/
def fresh : ListingRegisters := ⟨#[], none, .none⟩

instance : Inhabited ListingRegisters := ⟨fresh⟩

variable (r : ListingRegisters)

/-- Open an element. -/
def openElement (tag : IndexTag) : Answer × ListingRegisters :=
  let inHoled := r.elements.tags.head? == some .ph
  match r.elements.openElement tag with
  | .error m => (.refused m, r)
  | .ok elements =>
      match r.current with
      | none => (.lost .noPrimitive, { r with elements })
      | some l => (.done, { r with elements, current := some (l.begin inHoled tag) })

/-- Append an index. -/
def index (i : UInt32) : Answer × ListingRegisters :=
  match r.elements.checkIndex with
  | .error m => (.refused m, r)
  | .ok () =>
      match r.current.bind (·.changeLast? (Group.append? r.elements.tags.head? i)) with
      | none => (.lost .indexOutsideElement, r)
      | some l => (.done, { r with current := some l })

/-- What a command does. -/
def perform : Command → Answer × ListingRegisters
  | .openPrimitive h =>
      match r.elements.openPrimitive with
      | .error m => (.refused m, r)
      | .ok elements => (.done, { r with elements, current := some ⟨h, #[]⟩ })
  | .openElement tag => r.openElement tag
  | .index i => r.index i
  | .closeElement =>
      match r.elements.closeElement with
      | .error m => (.refused m, r)
      | .ok (_, elements) => (.done, { r with elements })
  | .closePrimitive =>
      match r.elements.closePrimitive with
      | .error m => (.refused m, r)
      | .ok elements =>
          (.done, ⟨(r.current.map r.listings.push).getD r.listings, none, elements⟩)

instance : CallWriter ListingRegisters := ⟨perform⟩

end ListingRegisters

/-! ## Writing text -/

/-- A writer of text over an output that takes everything. -/
structure TextRegisters where
  bytes : ByteArray
  /-- The text of one step of indentation. -/
  unit : String
  /-- The steps before the next line. -/
  level : Nat
  elements : OpenElements
  /-- Whether the open run has no index yet. -/
  empty : Bool
  /-- The shape of the open primitive element. -/
  shape : Option Shape

namespace TextRegisters

/-- A writer that has written nothing. -/
def fresh (indentation : Indentation) : TextRegisters :=
  { bytes := .empty, unit := indentation.unit, level := indentation.base, elements := .none,
    empty := true, shape := none }

instance : Inhabited TextRegisters := ⟨fresh (.spaces 0)⟩

variable (r : TextRegisters)

/-- Write pieces of text. -/
def emit (pieces : List String) : TextRegisters :=
  { r with bytes := pieces.foldl (fun bytes piece => bytes ++ piece.toUTF8) r.bytes }

/-- The steps of indentation before a line. -/
def indent : List String := List.replicate r.level r.unit

/-- The pieces of an input behind its indentation. -/
def inputPieces (i : ListedInput) : List String :=
  ["<input semantic=\"", i.semantic.name, "\" source=\"", Text.escape i.source, "\" offset=\"",
    toString i.offset, "\""]
  ++ (match i.set with
    | some set => [" set=\"", toString set, "\""]
    | none => [])
  ++ ["/>\n"]

/-- Numbers with a blank before each but the first. -/
def countPieces : List Nat → List String
  | [] => []
  | n :: ns => toString n :: ns.flatMap fun n => [" ", toString n]

/-- The pieces of a begin tag behind its indentation. -/
def tagPieces (h : Header) : List String :=
  ["<", h.shape.name, " count=\"", toString h.count, "\""]
  ++ (match h.material with
    | some material => [" material=\"", Text.escape material, "\""]
    | none => [])
  ++ [">\n"]

/-- Write the line of an input. -/
def emitInput (i : ListedInput) : TextRegisters := r.emit (r.indent ++ inputPieces i)

/-- Write the line of the vertex counts, if the primitive element has one. -/
def emitCounts (h : Header) : TextRegisters :=
  if h.shape = .polylist then
    r.emit (r.indent ++ ["<vcount>"] ++ countPieces h.counts ++ ["</vcount>\n"])
  else r

/-- Write what stands before the first index element. -/
def emitHeader (h : Header) : TextRegisters :=
  let r := r.emit (r.indent ++ tagPieces h)
  (h.inputs.foldl emitInput { r with level := r.level + 1 }).emitCounts h

/-- Write the begin tag of an index element. The elements inside of an element for a polygon with
    holes stand on lines of their own. -/
def emitBegin (tag : IndexTag) : TextRegisters :=
  let r := r.emit (r.indent ++ ["<", tag.name, ">"])
  let r := if tag = .ph then { r.emit ["\n"] with level := r.level + 1 } else r
  { r with empty := true }

/-- Write an index. -/
def emitIndex (i : UInt32) : TextRegisters :=
  let r := if r.empty then r else r.emit [" "]
  { r.emit [toString i.toNat] with empty := false }

/-- Write the end tag of an index element. -/
def emitEnd (tag : IndexTag) : TextRegisters :=
  let r :=
    if tag = .ph then
      let r := { r with level := r.level - 1 }
      r.emit r.indent
    else r
  r.emit ["</", tag.name, ">\n"]

/-- Write the end tag of the primitive element. -/
def emitLast : TextRegisters :=
  let name := (r.shape.map Shape.name).getD "triangles"
  let r := { r with level := r.level - 1, shape := none }
  r.emit (r.indent ++ ["</", name, ">\n"])

/-- What a command does. -/
def perform : Command → Answer × TextRegisters
  | .openPrimitive h =>
      match r.elements.openPrimitive with
      | .error m => (.refused m, r)
      | .ok elements => (.done, { r with elements, shape := some h.shape }.emitHeader h)
  | .openElement tag =>
      match r.elements.openElement tag with
      | .error m => (.refused m, r)
      | .ok elements => (.done, { r with elements }.emitBegin tag)
  | .index i =>
      match r.elements.checkIndex with
      | .error m => (.refused m, r)
      | .ok () => (.done, r.emitIndex i)
  | .closeElement =>
      match r.elements.closeElement with
      | .error m => (.refused m, r)
      | .ok (tag, elements) => (.done, { r with elements }.emitEnd tag)
  | .closePrimitive =>
      match r.elements.closePrimitive with
      | .error m => (.refused m, r)
      | .ok elements => (.done, { r with elements }.emitLast)

instance : CallWriter TextRegisters := ⟨perform⟩

end TextRegisters

end MeshWeave
