import Mathlib.Data.List.DropRight
import MeshWeave.Proofs.Reader.Likeness

set_option autoImplicit false

/-! # Sources that are read in parts

A source comes as a whole, or as a block of events from its begin tag to its end tag: arrays begin,
values arrive in chunks, and the accessor tells the stride. This file says which source a block
stands for. An array that begins drops the values before it, so they are those of the chunks behind
the last one, and the last accessor counts.

The source of a block is not equal to the one that is added as a whole. It has the parameters of its
accessor, and no number of scalars was noted for it. Nothing that is read of a source depends on
either, so no events tell the two readers apart. -/

namespace MeshWeave

/-- What may stand between the begin tag and the end tag of a source. -/
inductive SourcePart where
  /-- The begin tag of an array. -/
  | array (type : ArrayType)
  | floats (values : List Single)
  | doubles (values : List Double)
  | ints (values : List Int)
  | accessor (stride : Nat)
  | param (name type : String)
  deriving DecidableEq, Repr

namespace SourcePart

/-- The event of a part. -/
def event : SourcePart → Event
  | array type => .openArray type
  | floats values => .floats values.toArray
  | doubles values => .doubles values.toArray
  | ints values => .ints values.toArray
  | accessor stride => .accessor stride
  | param name type => .param name type

/-- The events of a source from its begin tag to its last part. -/
def opening (id : String) (parts : List SourcePart) : List Event :=
  .openSource id :: parts.map event

/-- The events of a source from its begin tag to its end tag. -/
def block (id : String) (parts : List SourcePart) : List Event := opening id parts ++ [.closeSource]

/-! ## The source of a block -/

/-- The type of the array that a part begins. -/
def array? : SourcePart → Option ArrayType
  | array type => some type
  | _ => none

/-- The stride that a part tells. -/
def stride? : SourcePart → Option Nat
  | accessor stride => some stride
  | _ => none

/-- The parameter that a part declares. -/
def param? : SourcePart → Option Param
  | param name type => some ⟨name, .ofParam type⟩
  | _ => none

/-- The single-precision values of a chunk. -/
def singles : SourcePart → List Single
  | floats values => values
  | _ => []

/-- The double-precision values of a chunk. -/
def doubled : SourcePart → List Double
  | doubles values => values
  | _ => []

/-- The integers of a chunk. -/
def integers : SourcePart → List Int
  | ints values => values
  | _ => []

/-- The type of the last array that begins. Without any the array of a source has single
    precision. -/
def type (parts : List SourcePart) : ArrayType := (parts.filterMap array?).getLast?.getD .float

/-- The parts behind the begin tag of the last array. -/
def behindArray (parts : List SourcePart) : List SourcePart :=
  parts.rtakeWhile fun p => p.array?.isNone

/-- The values of the chunks since the last array began. -/
def values (parts : List SourcePart) : Scalars :=
  match type parts with
  | .float => .float ((behindArray parts).flatMap singles).toArray
  | .double => .double ((behindArray parts).flatMap doubled).toArray
  | .int => .int ((behindArray parts).flatMap integers).toArray

/-- The stride that the last accessor tells, one without any. -/
def stride (parts : List SourcePart) : Nat := (parts.filterMap stride?).getLast?.getD 1

/-- The open source behind parts. -/
def openSource (id : String) (parts : List SourcePart) : Source :=
  { id, values := values parts, stride := stride parts, params := parts.filterMap param?,
    loaded := false, initial := 0, noted := 0 }

/-! ## One more part -/

variable (parts : List SourcePart)

theorem values_append_array (type : ArrayType) : values (parts ++ [array type]) = type.empty := by
  have hlast : SourcePart.type (parts ++ [array type]) = type := by simp [SourcePart.type, array?]
  have hbehind : behindArray (parts ++ [array type]) = [] := by
    rw [behindArray, List.rtakeWhile_concat, if_neg (by simp [array?])]
  rw [values, hlast, hbehind]
  cases type <;> rfl

theorem type_append_other {p : SourcePart} (hp : p.array? = none) :
    type (parts ++ [p]) = type parts := by
  simp [type, List.filterMap_append, hp]

theorem behindArray_append_other {p : SourcePart} (hp : p.array? = none) :
    behindArray (parts ++ [p]) = behindArray parts ++ [p] := by
  rw [behindArray, List.rtakeWhile_concat, if_pos (by simp [hp])]
  rfl

/-- The values of a chunk. -/
def chunk? : SourcePart → Option Scalars
  | floats values => some (.float values.toArray)
  | doubles values => some (.double values.toArray)
  | ints values => some (.int values.toArray)
  | _ => none

/-- A chunk of the type of the array is appended to its values, and any other is left out. -/
theorem values_append_chunk {p : SourcePart} {chunk : Scalars} (hp : p.chunk? = some chunk) :
    values (parts ++ [p]) = ((values parts).append? chunk).getD (values parts) := by
  cases p with
  | floats | doubles | ints =>
      obtain rfl := Option.some.inj hp
      rw [values, values, type_append_other _ rfl, behindArray_append_other _ rfl]
      cases type parts <;> simp [Scalars.append?, singles, doubled, integers]
  | _ => exact absurd hp (by simp [chunk?])

/-- Parts that are not about the array leave its values alone. -/
theorem values_append_other {p : SourcePart} (harray : p.array? = none) (hchunk : p.chunk? = none) :
    values (parts ++ [p]) = values parts := by
  rw [values, values, type_append_other _ harray, behindArray_append_other _ harray]
  cases p <;> simp_all [array?, chunk?, singles, doubled, integers]

theorem stride_append_other {p : SourcePart} (hp : p.stride? = none) :
    stride (parts ++ [p]) = stride parts := by
  simp [stride, List.filterMap_append, hp]

/-! ## What a part does to the open source -/

/-- The open source behind one more part, if its values are of the type of the array. -/
def extend (s : Source) : SourcePart → Option Source
  | array type => some { s with values := type.empty }
  | floats values => (s.values.append? (.float values.toArray)).map ({ s with values := · })
  | doubles values => (s.values.append? (.double values.toArray)).map ({ s with values := · })
  | ints values => (s.values.append? (.int values.toArray)).map ({ s with values := · })
  | accessor stride => some { s with stride }
  | param name type => some { s with params := s.params ++ [⟨name, .ofParam type⟩] }

theorem openSource_append (id : String) (p : SourcePart) :
    openSource id (parts ++ [p]) = (extend (openSource id parts) p).getD (openSource id parts) := by
  cases p with
  | array type =>
      rw [openSource, values_append_array, stride_append_other _ rfl]
      simp [extend, openSource, param?]
  | floats vs | doubles vs | ints vs =>
      rw [openSource, values_append_chunk _ rfl, stride_append_other _ rfl, extend]
      show _ = (((values parts).append? _).map _).getD _
      cases (values parts).append? _ <;> simp [openSource, param?]
  | accessor n =>
      rw [openSource, values_append_other _ rfl rfl]
      simp [extend, openSource, param?, stride, stride?]
  | param name type =>
      rw [openSource, values_append_other _ rfl rfl, stride_append_other _ rfl]
      simp [extend, openSource, param?]

/-- The whole source that a block stands for has what is read of the source of the block. -/
theorem core_openSource (id : String) :
    (openSource id parts).core = (Source.fresh id (values parts) (stride parts)).core :=
  Source.core_eq_core_iff.mpr
    ⟨rfl, rfl, rfl, rfl, rfl, by simp [Source.size, openSource, Source.fresh],
      by simp [Source.elementCount, Source.size, openSource, Source.fresh], rfl⟩

end SourcePart

/-! ## Reading a block -/

namespace Reader

open SourcePart

theorem advance_part (r : Reader) (p : SourcePart) :
    r.advance p.event = r.onSource fun s => extend s p := by
  cases p <;> rfl

theorem ready_part (r : Reader) (p : SourcePart) : r.ready p.event = r := by
  cases p <;> rfl

/-- The reader with an open source. -/
def withOpen (r : Reader) (s : Source) : Reader := { r with source := some s }

theorem onSource_withOpen (r : Reader) (s : Source) (f : Source → Option Source) :
    (r.withOpen s).onSource f = (f s).map fun s' => pure (r.withOpen s') := by
  simp only [onSource, withOpen, Option.bind_eq_bind, Option.bind_some]
  cases f s <;> rfl

/-- One more part of the open source. -/
theorem after_part (r : Reader) (id : String) (parts : List SourcePart) (p : SourcePart) :
    (r.withOpen (openSource id parts)).next p.event
      = r.withOpen (openSource id (parts ++ [p])) := by
  have hadv : ((r.withOpen (openSource id parts)).ready p.event).advance p.event
      = (extend (openSource id parts) p).map fun s => pure (r.withOpen s) := by
    rw [ready_part, advance_part, onSource_withOpen]
  rw [openSource_append]
  cases hs : extend (openSource id parts) p with
  | none =>
      rw [hs, Option.map_none] at hadv
      rw [next_of_none hadv, ready_part]
      rfl
  | some s =>
      rw [hs, Option.map_some] at hadv
      rw [next_of_some hadv]
      rfl

variable {r : Reader} (hidle : r.isIdle = true) (hsource : r.source = none)

include hidle hsource

/-- The parts of a source, behind its begin tag. -/
theorem after_opening (id : String) (parts : List SourcePart) :
    r.after (opening id parts) = r.withOpen (openSource id parts) := by
  induction parts using List.reverseRecOn with
  | nil =>
      have hplace : (r.source.isNone && r.isIdle) = true := by
        rw [hidle, hsource]
        rfl
      have hadv : (r.ready (.openSource id)).advance (.openSource id)
          = some (pure (r.withOpen (openSource id []))) := if_pos hplace
      exact next_of_some hadv
  | append_singleton parts p ih =>
      have hsnoc : opening id (parts ++ [p]) = opening id parts ++ [p.event] := by simp [opening]
      rw [hsnoc, after_append, ih]
      exact r.after_part id parts p

/-- **A block reads as the source it stands for**, which is added to the table. -/
theorem after_block (id : String) (parts : List SourcePart) :
    r.after (block id parts) = r.withSources (r.sources.add (openSource id parts)).value := by
  rw [block, after_append, after_opening hidle hsource]
  have hadv := advance_closeSource (r.withOpen (openSource id parts))
  rw [show (r.withOpen (openSource id parts)).source = some (openSource id parts) from rfl,
    Option.map_some] at hadv
  rw [after_cons, after_nil,
    next_of_some (r := r.withOpen (openSource id parts)) (e := .closeSource) hadv, withSources,
    ← hsource]
  rfl

/-- **A source that is read in parts behaves like the same source read as a whole.** After a block
    any events get the same answers and lead to the same mesh as after the source that the block
    stands for, and the sources of both readers resemble each other one by one. -/
theorem run_after_block (id : String) (parts : List SourcePart) (es : List Event) :
    let streamed := r.after (block id parts)
    let added := r.next (.addSource (.fresh id (values parts) (stride parts)))
    (streamed.run es).value.1 = (added.run es).value.1
    ∧ (streamed.after es).mesh = (added.after es).mesh
    ∧ List.Forall₂ Source.Resembles (streamed.after es).sources.sources
        (added.after es).sources.sources := by
  intro streamed added
  have halike : Alike SourceTable.SameCores streamed added := by
    have hcores : SourceTable.SameCores streamed.sources added.sources := by
      show SourceTable.SameCores (r.after (block id parts)).sources _
      rw [after_block hidle hsource]
      exact SourceTable.likeness_sameCores.add (.refl r.sources) (core_openSource parts id)
    have hadded : added = streamed.withSources added.sources := by
      show _ = (r.after (block id parts)).withSources _
      rw [after_block hidle hsource]
      rfl
    rw [hadded]
    exact .intro _ hcores
  obtain ⟨hanswers, hafter⟩ := halike.run SourceTable.likeness_sameCores es
  exact ⟨hanswers, hafter.mesh_eq, hafter.sources.forall₂⟩

end Reader

/-- Nine positions in two chunks, behind an array that was dropped and an accessor that does not
    count. -/
def SourcePart.twoChunks : List SourcePart :=
  [.floats [⟨0x40000000⟩], .array .float, .floats (.replicate 4 ⟨0⟩), .accessor 2,
    .param "X" "float", .floats (.replicate 5 ⟨0x3f800000⟩), .accessor 3]

/-- A triangle over the positions of `twoChunks`, which hands their array over to the mesh. -/
theorem Reader.run_after_twoChunks :
    let r := Reader.start "mesh" ""
    let block := SourcePart.block "p" SourcePart.twoChunks
    let whole : Source :=
      .fresh "p" (.float (.replicate 4 ⟨0⟩ ++ .replicate 5 ⟨0x3f800000⟩)) 3
    let triangle : List Event :=
      [.openPrimitive .triangles none, .input ⟨.position, "#p", 0, 0⟩, .openRun .polygon,
        .indices .polygon [0, 1, 2], .closeRun .polygon, .closePrimitive]
    r.isIdle = true ∧ r.source = none ∧ r.takes block = true
    ∧ ((r.after block).run triangle).value.1 = ((r.next (.addSource whole)).run triangle).value.1
    ∧ ((r.after block).after triangle).mesh = ((r.next (.addSource whole)).after triangle).mesh
    ∧ List.Forall₂ Source.Resembles ((r.after block).after triangle).sources.sources
        ((r.next (.addSource whole)).after triangle).sources.sources :=
  ⟨rfl, rfl, by decide +kernel,
    Reader.run_after_block (r := .start "mesh" "") rfl rfl "p" SourcePart.twoChunks _⟩

end MeshWeave
