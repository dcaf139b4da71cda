import MeshWeave.Element
import MeshWeave.Mesh.Refusal
import MeshWeave.Reader.Stage

set_option autoImplicit false

/-! # Notices

Reading and writing go on after most faults. What was left out or ignored is told in notices,
which accompany the result and never change it. `Noted` is a result with its notices. -/

namespace MeshWeave

/-- How much a notice matters. -/
inductive Level where
  | warning
  | detail
  deriving DecidableEq, Repr

/-- Something that was noticed while one mesh was read. -/
inductive ReadingNotice where
  | ignored (call : String) (stage : Option Stage)
  | noInputs
  | unknownSource (id : String)
  | inputSkipped (semantic : Semantic) (why : Refusal)
  | normalsNotIndexed (source : String) (stride : Nat)
  | incompleteTuple
  | emptyPolygon
  | shortRun (element : Element) (vertices : Nat)
  | strayHole
  | missingVertices (supplied expected : Nat)
  | emptyPrimitive (element : Element)
  | unfinished (element : Element)
  deriving DecidableEq, Repr

/-- Something that was noticed while one mesh was written. -/
inductive WritingNotice where
  | notTriangulated (polygon : Nat)
  | sourceNotWritten (source : String) (semantic : Semantic)
  | noNormals (semantic : Semantic)
  | polygonTooSmall (polygon vertices : Nat)
  | polygonDegenerate (polygon : Nat)
  | holeSpan (polygon spanned reported : Nat)
  | writing (element : Element) (faces : Nat)
  deriving DecidableEq, Repr

/-- Something that was noticed. -/
inductive Notice where
  | duplicateSource (id : String)
  | semanticNotMerged (source : String) (semantic : Semantic)
  | typeNotMerged (source : String) (type : ScalarType)
  | strideNotMerged (source : String) (stride : Nat) (semantic : Semantic) (range : StrideRange)
  | normalStride (source : String) (stride : Nat)
  | verticesWithoutInputs (source : String)
  | reading (mesh : String) (about : ReadingNotice)
  | writing (mesh : String) (about : WritingNotice)
  | replayRefused (element : Element)
  deriving DecidableEq, Repr

/-! ## Wording -/

namespace ReadingNotice

/-- Details tell what was cut or dropped from the indices, warnings all else. -/
def level : ReadingNotice → Level
  | normalsNotIndexed .. | incompleteTuple | emptyPolygon | shortRun .. | strayHole
  | missingVertices .. | emptyPrimitive .. => .detail
  | _ => .warning

/-- The wording of a notice, behind the name of the mesh. -/
def message : ReadingNotice → String
  | ignored call stage => s!"{call} ignored in state {Stage.phase stage}"
  | noInputs => "primitive without inputs"
  | unknownSource id => s!"Unknown source: {id}"
  | inputSkipped semantic why => s!"input {semantic} skipped: {why}"
  | normalsNotIndexed source stride =>
      s!"normal source '{source}' with stride {stride} not indexed"
  | incompleteTuple => "dropping incomplete index tuple"
  | emptyPolygon => "empty polygon ignored"
  | shortRun element vertices => s!"{element} run of {vertices} vertices erased"
  | strayHole => "hole without enclosing polygon ignored"
  | missingVertices supplied expected =>
      s!"polylist supplies {supplied} of {expected} vertices"
  | emptyPrimitive element => s!"discarding empty <{element}>"
  | unfinished element => s!"unfinished <{element}> dropped"

end ReadingNotice

namespace WritingNotice

/-- Warnings tell that the export differs from what was asked for. -/
def level : WritingNotice → Level
  | notTriangulated .. | sourceNotWritten .. | noNormals .. => .warning
  | _ => .detail

/-- The wording of a notice, behind the name of the mesh. -/
def message : WritingNotice → String
  | notTriangulated polygon =>
      s!"polygon {polygon} has no valid triangulation, exporting polygons"
  | sourceNotWritten source semantic =>
      s!"source '{source}' with semantic {semantic} is not exported"
  | noNormals semantic => s!"no face vertex normals, {semantic} input dropped"
  | polygonTooSmall polygon vertices => s!"polygon {polygon} with {vertices} vertices skipped"
  | polygonDegenerate polygon => s!"polygon {polygon} degenerate after duplicate removal"
  | holeSpan polygon spanned reported =>
      s!"hole of polygon {polygon} spans {spanned} vertices, host reports {reported}"
  | writing element faces => s!"writing <{element}> with {faces} faces"

end WritingNotice

namespace Notice

/-- How much the notice matters. -/
def level : Notice → Level
  | normalStride .. => .detail
  | reading _ about => about.level
  | writing _ about => about.level
  | _ => .warning

/-- The wording of a notice. -/
def message : Notice → String
  | duplicateSource id => s!"Duplicate source id '{id}', later definition ignored"
  | semanticNotMerged source semantic =>
      s!"Source '{source}' has unsupported semantic {semantic}"
  | typeNotMerged source type =>
      s!"Source '{source}' has data type {type}, only float and double arrays are merged"
  | strideNotMerged source stride semantic range =>
      s!"Source '{source}' has stride {stride} for {semantic}, expected {range}"
  | normalStride source stride =>
      s!"Normal source '{source}' has stride {stride}, its indices will be ignored"
  | verticesWithoutInputs source =>
      s!"VERTEX input '{source}' references a <vertices> element without inputs"
  | reading mesh about => s!"Mesh '{mesh}': {about.message}"
  | writing mesh about => s!"Mesh '{mesh}': {about.message}"
  | replayRefused element => s!"Replay of <{element}> was not accepted"

end Notice

/-! ## Results with notices -/

/-- A result, and what was noticed on the way to it. -/
structure Noted (α : Type) where
  value : α
  notices : List Notice
  deriving Repr

namespace Noted

variable {α β : Type}

instance : Monad Noted where
  pure a := ⟨a, []⟩
  bind x f := ⟨(f x.value).value, x.notices ++ (f x.value).notices⟩

/-- Take notice of something. -/
def note (n : Notice) : Noted Unit := ⟨(), [n]⟩

/-- Take notice of something if it happened. -/
def noteIf (happened : Bool) (n : Notice) : Noted Unit := ⟨(), if happened then [n] else []⟩

@[simp] theorem value_pure (a : α) : (pure a : Noted α).value = a := rfl

@[simp] theorem value_bind (x : Noted α) (f : α → Noted β) :
    (x >>= f).value = (f x.value).value := rfl

@[simp] theorem value_map (f : α → β) (x : Noted α) : (f <$> x).value = f x.value := rfl

@[simp] theorem notices_pure (a : α) : (pure a : Noted α).notices = [] := rfl

@[simp] theorem notices_bind (x : Noted α) (f : α → Noted β) :
    (x >>= f).notices = x.notices ++ (f x.value).notices := rfl

instance : LawfulMonad Noted :=
  LawfulMonad.mk' Noted
    (fun x => by cases x; simp [Functor.map])
    (fun _ _ => rfl)
    (fun _ _ _ => by simp [bind, List.append_assoc])

end Noted

end MeshWeave
