import MeshWeave.Export.Basic

set_option autoImplicit false

/-! # Exports by buffers

The faces of an export are lists of positions, and a polygon is cut into rings by walking along its
run, so nothing there can be out of bounds. An export may as well keep numbers only: a column of
indices for each attribute, the sizes of the faces of a polygon and which of them are holes, and a
flag for each hole record that was used. It then looks elements up by their number, subtracts
sizes from each other, and finds the ends of rings by comparing positions.

Every lookup and every subtraction of such an export is checked here, and a check that fails stops
the program with a fault. -/

namespace MeshWeave

/-! ## Checked steps -/

/-- What stops a program. -/
inductive Fault where
  | outOfBounds (index length : Nat)
  | underflow (minuend subtrahend : Nat)
  deriving DecidableEq, Repr

/-- The result of steps that may stop the program. -/
abbrev Checked (α : Type) := Except Fault α

namespace Checked

variable {α : Type}

/-- Look up an element. -/
def lookup (xs : List α) (i : Nat) : Checked α :=
  match xs[i]? with
  | some x => .ok x
  | none => .error (.outOfBounds i xs.length)

/-- Replace an element. -/
def replace (xs : List α) (i : Nat) (x : α) : Checked (List α) :=
  if i < xs.length then .ok (xs.set i x) else .error (.outOfBounds i xs.length)

/-- Subtract. -/
def subtract (m n : Nat) : Checked Nat :=
  if n ≤ m then .ok (m - n) else .error (.underflow m n)

end Checked

/-! ## Inputs -/

/-- A tuple, and the offset that all normal-like inputs share once one of them has it. -/
structure InputBuffer where
  tuple : Tuple
  normalsOffset : Option Nat
  deriving DecidableEq, Repr

namespace InputBuffer

/-- No inputs. -/
def empty : InputBuffer := ⟨.empty, none⟩

instance : Inhabited InputBuffer := ⟨empty⟩

/-- The offset of an attribute that is there, or that of the normals. -/
def find? (b : InputBuffer) (a : Attribute) : Option Nat :=
  (if a.semantic.isNormalLike then b.normalsOffset else none).or
    (b.tuple.attributes.findIdx? (· == a))

/-- The offset for an attribute, and the attributes with it. -/
def place (b : InputBuffer) (a : Attribute) : Checked (Nat × List Attribute) :=
  match b.find? a with
  | some offset => return (offset, b.tuple.attributes)
  | none => do
      let attributes := b.tuple.attributes ++ [a]
      return (← Checked.subtract attributes.length 1, attributes)

/-- Add an input that refers to an element by id. -/
def add (b : InputBuffer) (s : ExportSource) (id : String) : Checked InputBuffer := do
  let (offset, attributes) ← b.place ⟨s.semantic, s.set⟩
  let set := if s.semantic.isTexCoord || s.semantic == .color then some s.set else none
  let normalsOffset :=
    if s.semantic.isNormalLike && b.normalsOffset.isNone then some offset else b.normalsOffset
  return ⟨⟨b.tuple.inputs ++ [⟨s.semantic, "#" ++ id, offset, set⟩], attributes⟩, normalsOffset⟩

/-- Add the sources that are written, in order. -/
def addAll (e : Exporter) : InputBuffer → List ExportSource → Checked InputBuffer
  | b, [] => return b
  | b, s :: ss => do
      if (s.isWritten e.host e.mesh e.sources.vertices).value then
        let id := if s.semantic == .vertex then e.options.verticesId e.mesh else s.id
        addAll e (← b.add s id) ss
      else
        addAll e b ss

end InputBuffer

/-! ## The faces of a polygon -/

/-- Change elements by those of another list. Elements without a partner stay. -/
def updateEach {α β : Type} (f : α → β → α) : List α → List β → List α
  | x :: xs, y :: ys => f x y :: updateEach f xs ys
  | xs, _ => xs

/-- The faces of a polygon before they are written. -/
structure FaceBuffer where
  /-- The indices for each attribute. -/
  columns : List (List UInt32)
  /-- The sizes of the faces. Holes follow their polygon. -/
  sizes : List Nat
  /-- The numbers of the faces that are holes. -/
  holes : List Nat
  /-- The number of vertices of each face, those of its holes included. -/
  counts : List Nat
  isHoled : Bool
  deriving DecidableEq, Repr, Inhabited

namespace FaceBuffer

/-- No faces. -/
def new (attributes : List Attribute) : FaceBuffer :=
  ⟨List.replicate attributes.length [], [], [], [], false⟩

variable (h : Host) (attributes : List Attribute) (polygon : Nat) (b : FaceBuffer)

/-- The number of vertices in the columns. -/
def vertexCount : Nat := (b.columns.head?.map List.length).getD 0

/-- The number of faces without the holes. -/
def faceCount : Checked Nat := Checked.subtract b.sizes.length b.holes.length

/-- Append the indices of a face vertex. -/
def pushVertex (position : Nat) : FaceBuffer :=
  { b with
    columns := updateEach (fun column a => column ++ [a.value h polygon position]) b.columns
      attributes }

/-- Append a triangle. -/
def pushTriangle (t : Triangle) : FaceBuffer :=
  let b := { b with sizes := b.sizes ++ [3], counts := b.counts ++ [3] }
  t.corners.foldl (fun b position => b.pushVertex h attributes polygon position) b

/-- Cut the columns to some lengths. -/
def truncate (lengths : List Nat) : FaceBuffer :=
  { b with columns := updateEach (fun column n => column.take n) b.columns lengths }

end FaceBuffer

/-- The number of the first unused record of a hole that begins at a vertex of a polygon. -/
def Host.unusedHole? (h : Host) (used : List Bool) (polygon : Nat) (vertex : UInt32) :
    Option Nat :=
  h.holes.zipIdx.findIdx? fun (r, i) => !(used[i]?).getD true && r.beginsAt polygon vertex

/-- Take a number of vertices from the last face. -/
def shrinkLast (left : Nat) (sizes : List Nat) : List Nat :=
  match sizes.getLast? with
  | some last => sizes.dropLast ++ [last - left]
  | none => sizes

namespace FaceBuffer

variable (h : Host) (attributes : List Attribute) (polygon : Nat)

/-- Begin a hole if a record says so. The hole gets what is left of the run, which the face before
    loses. -/
def startHole (run position : Nat) (vertex : UInt32) (used : List Bool) (b : FaceBuffer) :
    Checked (List Bool × FaceBuffer) :=
  if position = 0 then return (used, b)
  else
    match h.unusedHole? used polygon vertex with
    | none => return (used, b)
    | some hole => do
        let used ← Checked.replace used hole true
        let left ← Checked.subtract run position
        -- The size that the host gives is looked up for a notice only.
        let _ ← Checked.lookup h.holes hole
        return (used,
          { b with
            sizes := shrinkLast left b.sizes ++ [left]
            holes := b.holes ++ [b.sizes.length] })

/-- Append face vertices from a position of a run on. -/
def pushRun (run : Nat) : (position : Nat) → List Nat → List Bool → FaceBuffer →
    Checked (List Bool × FaceBuffer)
  | _, [], used, b => return (used, b)
  | position, i :: is, used, b => do
      let (used, b) ←
        if b.isHoled then b.startHole h polygon run position (h.vertex polygon i) used
        else pure (used, b)
      pushRun run (position + 1) is used (b.pushVertex h attributes polygon i)

/-- The one face of a run. A run of less than three vertices is taken back. -/
def ofRun (triangulated : Bool) (run : List Nat) (used : List Bool) :
    Checked (List Bool × FaceBuffer) := do
  let start := (new attributes).columns.map List.length
  let (used, b) ← pushRun h attributes polygon run.length 0 run used { new attributes with
    isHoled := h.isHoled polygon && !triangulated
    sizes := [run.length] }
  if run.length < 3 then
    return (used, { b.truncate start with sizes := [], holes := [], isHoled := false })
  else
    return (used, { b with counts := b.counts ++ [run.length] })

/-- The faces of a polygon, and the flags of the hole records behind it. -/
def ofPolygon (removeDuplicates triangulated : Bool) (used : List Bool) :
    Checked (List Bool × FaceBuffer) :=
  if triangulated && 3 < h.vertexCount polygon then
    return (used, ((h.triangles polygon).getD []).foldl (pushTriangle h attributes polygon)
      (new attributes))
  else if h.vertexCount polygon < 3 then return (used, new attributes)
  else
    ofRun h attributes polygon triangulated
      (if removeDuplicates then
        dropRepeated (h.vertex polygon) (List.range (h.vertexCount polygon)) []
      else List.range (h.vertexCount polygon)) used

end FaceBuffer

/-! ## Writing faces -/

/-- Steps of a program that writes. The first command that fails ends it, and so does a fault. -/
abbrev Writing (σ α : Type) := ExceptT Failure (StateT σ Checked) α

namespace Writing

variable {σ α : Type} [Writer σ]

/-- A step that writes nothing. -/
def check (x : Checked α) : Writing σ α := fun w => x.map fun a => (.ok a, w)

/-- Perform a command. -/
def perform (c : Command) : Writing σ Unit := fun w =>
  match Writer.perform w c with
  | (w, none) => .ok (.ok (), w)
  | (w, some failure) => .ok (.error failure, w)

/-- Take a step for each element. -/
def each {β : Type} (f : β → Writing σ Unit) : List β → Writing σ Unit
  | [] => return ()
  | x :: xs => do
      f x
      each f xs

end Writing

namespace FaceBuffer

open Writing (check perform each)

variable {σ : Type} [Writer σ] (b : FaceBuffer)

/-- Write the indices of a face vertex. -/
def writeVertex (position : Nat) : Writing σ Unit :=
  each (fun column => do perform (.index (← check (Checked.lookup column position)))) b.columns

/-- The element of a face. -/
def tag (face : Nat) : IndexTag := if b.holes.contains face then .h else .p

/-- Write vertices. A face that ends before a position is closed, and the next one begins. -/
def writeFaces : (face stop : Nat) → List Nat → Writing σ Unit
  | _, _, [] => return ()
  | face, stop, position :: positions => do
      if b.isHoled && position == stop && face + 1 < b.sizes.length then
        perform .closeElement
        let size ← check (Checked.lookup b.sizes (face + 1))
        perform (.openElement (b.tag (face + 1)))
        b.writeVertex position
        writeFaces (face + 1) (stop + size) positions
      else
        b.writeVertex position
        writeFaces face stop positions

/-- Write the faces of a polygon. -/
def writeRings : Writing σ Unit := do
  let stop ← check (Checked.lookup b.sizes 0)
  perform (.openElement (b.tag 0))
  b.writeFaces 0 stop (List.range b.vertexCount)
  perform .closeElement

/-- Write a polygon as an index element. -/
def writeGroup : Writing σ Unit :=
  if b.isHoled then do
    perform (.openElement .ph)
    b.writeRings
    perform .closeElement
  else b.writeRings

/-- Write the index elements of a listing. -/
def writeAll (shape : Shape) (bs : List FaceBuffer) : Writing σ Unit :=
  if shape = .polygons then each writeGroup bs
  else do
    perform (.openElement .p)
    each (fun b => each b.writeVertex (List.range b.vertexCount)) bs
    perform .closeElement

end FaceBuffer

/-! ## Exports -/

namespace Exporter

open Writing (check perform)

variable {σ : Type} [Writer σ] (e : Exporter) (attributes : List Attribute) (triangulated : Bool)

/-- The faces of polygons in order, those without faces left out. -/
def buffers : List Nat → List Bool → Checked (List Bool × List FaceBuffer)
  | [], used => return (used, [])
  | p :: ps, used => do
      let (used, b) ← FaceBuffer.ofPolygon e.host attributes p e.options.removeDuplicates
        triangulated used
      let count ← b.faceCount
      let (used, bs) ← buffers ps used
      return (used, if 0 < count then b :: bs else bs)

/-- The header of a slot. -/
def bufferHeader (tuple : Tuple) (slot count : Nat) (bs : List FaceBuffer) : Header :=
  let shape :=
    if bs.any (·.isHoled) && !triangulated then .polygons
    else if triangulated then .triangles
    else .polylist
  { shape
    count
    material := e.host.shaders[slot]?
    inputs := tuple.inputs
    counts := if shape = .polylist then bs.flatMap (·.counts) else [] }

/-- Write slots in order. The number of listings written so far is given, and the number in the end
    results. -/
def writeSlots (tuple : Tuple) : List Nat → List Bool → Nat → Writing σ Nat
  | [], _, written => return written
  | slot :: slots, used, written => do
      let (used, bs) ← check (e.buffers tuple.attributes triangulated (e.slotPolygons slot) used)
      let counts ← check (bs.mapM FaceBuffer.faceCount)
      if total counts == 0 then
        writeSlots tuple slots used written
      else
        let header := e.bufferHeader triangulated tuple slot (total counts) bs
        perform (.openPrimitive header)
        FaceBuffer.writeAll header.shape bs
        perform .closePrimitive
        writeSlots tuple slots used (written + 1)

/-- Export to a writer. The result is the number of listings written. -/
def writeBuffered : Writing σ Nat := do
  let inputs ← check (InputBuffer.addAll e .empty e.sources.faces)
  e.writeSlots e.decideTriangles.value inputs.tuple e.slots
    (List.replicate e.host.holes.length false) 0

end Exporter

end MeshWeave
