import MeshWeave.Notice
import MeshWeave.Source.Basic
import MeshWeave.Text.Reference

set_option autoImplicit false

/-! # Source tables

The sources of one mesh in order of declaration. A source is looked up by a reference to it. The
id of a source that is added is itself read as a reference: if a source is found under it the
earlier one stays and the later one is left out. -/

namespace MeshWeave

/-- The sources of a mesh. -/
structure SourceTable where
  sources : List Source
  deriving DecidableEq, Repr, Inhabited

namespace SourceTable

/-- No sources. -/
def empty : SourceTable := ⟨[]⟩

/-- The source that a reference names. -/
def find? (t : SourceTable) (uri : String) : Option Source :=
  t.sources.find? (·.id == Text.fragment uri)

/-- Add a source, unless its id already names one. -/
def add (t : SourceTable) (s : Source) : Noted SourceTable :=
  match t.find? s.id with
  | some _ => do
      Noted.note (.duplicateSource s.id)
      return t
  | none => return ⟨t.sources ++ [s]⟩

/-- Replace the first source with an id. -/
def replaceFirst (id : String) (by' : Source) : List Source → List Source
  | [] => []
  | s :: ss => if s.id == id then by' :: ss else s :: replaceFirst id by' ss

/-- Put a changed source in the place of the one that a reference names. -/
def put (t : SourceTable) (uri : String) (s : Source) : SourceTable :=
  ⟨replaceFirst (Text.fragment uri) s t.sources⟩

end SourceTable

end MeshWeave
