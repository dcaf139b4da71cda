import MeshWeave.Proofs.Export.Partition

set_option autoImplicit false

/-! # Fans

A mesh in memory cuts a polygon without holes into the fan of triangles around its first vertex. An
export of such a mesh that writes triangles has the same listings as one that does not, slot by
slot, but for the faces: where one writes a polygon, the other one writes the fan of it. A polygon
with three vertices is its own fan and is written by either as it is, and one with less is written
by none. -/

namespace MeshWeave

/-! ## The fan of a list -/

/-- The corners of the triangles in the fan around the first of some vertices. -/
def fanCorners {α : Type} : List α → List α
  | [] => []
  | first :: rest => (rest.zip rest.tail).flatMap fun side => [first, side.1, side.2]

section Lists

variable {α β : Type}

theorem fanCorners_map (f : α → β) (l : List α) :
    fanCorners (l.map f) = (fanCorners l).map f := by
  cases l with
  | nil => rfl
  | cons first rest =>
      rw [List.map_cons, fanCorners, fanCorners, ← List.map_tail, List.zip_map, List.flatMap_map,
        List.map_flatMap]
      rfl

/-- There are two triangles less than vertices. -/
theorem length_fanCorners (l : List α) : (fanCorners l).length = (l.length - 2) * 3 := by
  cases l with
  | nil => rfl
  | cons first rest =>
      have hsides : (rest.zip rest.tail).length = rest.length - 1 := by
        rw [List.length_zip, List.length_tail]
        exact Nat.min_eq_right (Nat.sub_le _ _)
      have hthree (sides : List (α × α)) :
          (sides.flatMap fun side => [first, side.1, side.2]).length = sides.length * 3 := by
        simp [List.length_flatMap]
      rw [fanCorners, hthree, hsides, List.length_cons, Nat.add_sub_add_right]

/-- A triangle is its own fan. -/
theorem fanCorners_of_triangle {l : List α} (h : l.length = 3) : fanCorners l = l := by
  obtain ⟨a, b, c, rfl⟩ := List.length_eq_three.mp h
  rfl

/-- The corners of all fans. -/
theorem length_flatMap_fanCorners (f : β → List α) (bs : List β) :
    (bs.flatMap fun b => fanCorners (f b)).length
      = total (bs.map fun b => (f b).length - 2) * 3 := by
  induction bs with
  | nil => rfl
  | cons b bs ih =>
      rw [List.flatMap_cons, List.length_append, ih, length_fanCorners, List.map_cons, total_cons,
        Nat.add_mul]

end Lists

/-- The triangles of a polygon are a fan of its positions. -/
theorem Polygon.corners_fan (size : Nat) :
    (Polygon.fan size).flatMap Triangle.corners = fanCorners (List.range size) := by
  cases size with
  | zero => rfl
  | succ size =>
      rw [List.range_succ_eq_map, fanCorners, Polygon.fan, List.flatMap_map]
      cases size with
      | zero => rfl
      | succ size =>
          have hsides : ((List.range (size + 1)).map Nat.succ).zip
              ((List.range (size + 1)).map Nat.succ).tail
                = (List.range size).map fun i => (i + 1, i + 2) := by
            apply List.ext_getElem
            · simp
            · intro i hi hi'
              simp
          rw [hsides, List.flatMap_map]
          rfl

/-! ## Hosts -/

/-- A host without holes that cuts its polygons into fans. -/
structure Host.HasFans (h : Host) : Prop where
  not_holed : ∀ p, h.isHoled p = false
  triangles_eq : ∀ p, 3 < h.vertexCount p → h.triangles p = some (Polygon.fan (h.vertexCount p))

/-- A host whose vertices can be counted: those of each polygon by an entry of a primitive, and all
    of them in a machine word. -/
structure Host.IsCountable (h : Host) : Prop where
  vertexCount_lt : ∀ p, h.vertexCount p < 2 ^ 31
  total_le : total ((List.range h.polygonCount).map h.vertexCount) ≤ counterLimit

/-- What is written of a polygon as triangles is the fan of what is written of it otherwise. -/
theorem Host.HasFans.writtenRun_eq {h : Host} (hfans : h.HasFans) (p : Nat) :
    h.writtenRun false true p = fanCorners (h.writtenRun false false p) := by
  have hrun : h.run false p = List.range (h.vertexCount p) :=
    List.filter_eq_self.mpr fun _ _ => rfl
  unfold writtenRun
  rw [hrun, List.length_range, if_neg (by simp : ¬ (false = true ∧ 3 < h.vertexCount p))]
  by_cases hlarge : 3 < h.vertexCount p
  · rw [if_pos ⟨rfl, hlarge⟩, if_neg (by omega), hfans.triangles_eq p hlarge]
    exact Polygon.corners_fan (h.vertexCount p)
  · rw [if_neg (by simp [hlarge])]
    split
    · rfl
    · exact (fanCorners_of_triangle (by rw [List.length_range]; omega)).symm

theorem Host.HasFans.writtenRun_eq_nil_iff {h : Host} (hfans : h.HasFans) (p : Nat) :
    h.writtenRun false true p = [] ↔ h.writtenRun false false p = [] := by
  rw [hfans.writtenRun_eq]
  constructor
  · intro hnil
    have hlength := length_fanCorners (h.writtenRun false false p)
    rw [hnil, writtenRun, if_neg (by simp)] at hlength
    rw [writtenRun, if_neg (by simp)]
    split at hlength
    · next hshort => rw [if_pos hshort]
    · next hlong =>
        rw [List.length_nil] at hlength
        omega
  · intro hnil
    rw [hnil]
    rfl

namespace PolygonSet

variable (m : PolygonSet)

theorem vertexCount_host_of_none {p : Nat} (hp : m.polygons[p]? = none) :
    m.host.vertexCount p = 0 := by
  show ((m.polygons[p]?).map _).getD 0 = 0
  rw [hp]
  rfl

/-- The triangles of a polygon without holes. -/
theorem triangles_host {p : Nat} {q : Polygon} (hq : m.polygons[p]? = some q)
    (hholes : q.holeSizes = []) (hsize : 3 ≤ m.host.vertexCount p) :
    m.host.triangles p = some (Polygon.fan (m.host.vertexCount p)) := by
  have htriangles : m.host.triangles p = m.polygons[p]?.bind Polygon.triangles := rfl
  rw [vertexCount_host hq] at hsize ⊢
  rw [htriangles, hq, Option.bind_some, Polygon.triangles, hholes]
  exact if_pos (by simpa using hsize)

/-- A mesh in memory without holes. -/
theorem hasFans_host (hplain : ∀ q ∈ m.polygons, q.holeSizes = []) : m.host.HasFans := by
  constructor
  · intro p
    show (m.polygons[p]?).any _ = false
    cases hq : m.polygons[p]? with
    | none => rfl
    | some q => simp [hplain q (Array.mem_of_getElem? hq)]
  · intro p hlarge
    cases hq : m.polygons[p]? with
    | none =>
        rw [m.vertexCount_host_of_none hq] at hlarge
        omega
    | some q =>
        exact m.triangles_host hq (hplain q (Array.mem_of_getElem? hq)) (Nat.le_of_lt hlarge)

theorem map_vertexCount_host :
    (List.range m.host.polygonCount).map m.host.vertexCount
      = m.polygons.toList.map (·.vertices.size) := by
  apply List.ext_getElem
  · simp only [List.length_map, List.length_range, Array.length_toList]
    rfl
  · intro p hp hp'
    rw [List.length_map, Array.length_toList] at hp'
    rw [List.getElem_map, List.getElem_range, List.getElem_map, Array.getElem_toList]
    exact vertexCount_host (Array.getElem?_eq_getElem hp')

/-- A mesh whose vertices can be counted, as a host. -/
theorem isCountable_host (hsizes : ∀ q ∈ m.polygons, q.vertices.size < 2 ^ 31)
    (htotal : total (m.polygons.toList.map (·.vertices.size)) ≤ counterLimit) :
    m.host.IsCountable := by
  constructor
  · intro p
    cases hq : m.polygons[p]? with
    | none =>
        rw [m.vertexCount_host_of_none hq]
        decide
    | some q =>
        rw [vertexCount_host hq]
        exact hsizes q (Array.mem_of_getElem? hq)
  · rw [map_vertexCount_host]
    exact htotal

end PolygonSet

/-! ## Slots -/

namespace Exporter

variable (e : Exporter)

/-- The same export with triangles or without. -/
def withTriangles (triangulate : Bool) : Exporter :=
  { e with options := { e.options with triangulate } }

theorem tuple_withTriangles (triangulate : Bool) :
    (e.withTriangles triangulate).tuple.value = e.tuple.value := by
  rw [tuple, tuple, addAll_value, addAll_value]
  rfl

theorem slotListing_withTriangles (triangulate triangulated : Bool) (slot : Nat) :
    (e.withTriangles triangulate).slotListing triangulated slot
      = e.slotListing triangulated slot := by
  rw [slotListing, tuple_withTriangles]
  rfl

variable {e} (hfans : e.host.HasFans)

include hfans

theorem decideTriangles_withTriangles (triangulate : Bool) :
    (e.withTriangles triangulate).decideTriangles.value = triangulate := by
  rw [Bool.eq_iff_iff, decideTriangles_iff]
  constructor
  · rintro ⟨htriangulate, -⟩
    exact htriangulate
  · intro htriangulate
    refine ⟨htriangulate, fun p _ hlarge => ?_⟩
    have htriangles : e.host.triangles p = some (Polygon.fan (e.host.vertexCount p)) :=
      hfans.triangles_eq p hlarge
    have hlength : (Polygon.fan (e.host.vertexCount p)).length = e.host.vertexCount p - 2 := by
      rw [Polygon.fan, List.length_map, List.length_range]
    show (e.host.triangles p).getD [] ≠ []
    rw [htriangles, Option.getD_some]
    exact List.ne_nil_of_length_pos (by have : 3 < e.host.vertexCount p := hlarge; omega)

/-- Polygons are written in one run each. -/
theorem isHoled_facesAt {slot : Nat} {f : Faces} (hf : f ∈ e.facesAt false slot) :
    f.isHoled = false := by
  obtain ⟨p, -, hf⟩ := List.mem_filterMap.mp hf
  rw [← Bool.not_eq_true, e.isHoled_polygonFaces? false hf]
  rintro ⟨-, hholed⟩
  rw [hfans.not_holed] at hholed
  cases hholed

variable (hkeep : e.options.removeDuplicates = false)

include hkeep

/-- **What is written to a slot as triangles** are the fans of the polygons that are written to it
    otherwise. -/
theorem slotVertices_eq_fans (slot : Nat) :
    e.slotVertices true slot
      = (e.facesAt false slot).flatMap fun f => fanCorners f.vertices := by
  rw [slotVertices, facesAt, List.filterMap_eq_flatMap_toList, List.flatMap_assoc]
  apply List.flatMap_congr
  intro p _
  have hspec := e.polygonFaces?_spec false p
  rw [hkeep] at hspec ⊢
  rw [hfans.writtenRun_eq, ← fanCorners_map]
  cases hf : e.polygonFaces? false p with
  | none =>
      rw [hf] at hspec
      have hnil : e.host.writtenRun false false p = [] := hspec
      rw [hnil]
      rfl
  | some f =>
      rw [hf] at hspec
      obtain ⟨hpolygon, hrun, -⟩ := hspec
      rw [Option.toList_some, List.flatMap_singleton, Faces.vertices, hpolygon, hrun]

/-- The triangles that are written to a slot. -/
theorem total_count_facesAt (slot : Nat) :
    total ((e.facesAt true slot).map Faces.count)
      = total ((e.facesAt false slot).map fun f => f.vertices.length - 2) := by
  have htriangles := Faces.total_of_triangulated (e.isProper_facesAt true slot)
  rw [e.vertices_facesAt, e.slotVertices_eq_fans hfans hkeep, length_flatMap_fanCorners] at htriangles
  omega

/-- Either export has listings for the same slots. -/
theorem writtenSlots_eq : e.writtenSlots true = e.writtenSlots false := by
  apply List.filter_congr
  intro slot _
  rw [Bool.not_inj_iff, Bool.eq_iff_iff, List.isEmpty_iff, List.isEmpty_iff, slotVertices,
    slotVertices, List.flatMap_eq_nil_iff, List.flatMap_eq_nil_iff, hkeep]
  simp only [List.map_eq_nil_iff, hfans.writtenRun_eq_nil_iff]

/-- What a recorder has behind either export. -/
theorem listings_withTriangles (triangulate : Bool) :
    ((e.withTriangles triangulate).write Recorder.empty).value.2.1.listings.toList
      = (e.writtenSlots false).map (e.slotListing triangulate) := by
  have hslots : e.writtenSlots triangulate = e.writtenSlots false := by
    cases triangulate with
    | false => rfl
    | true => exact writtenSlots_eq hfans hkeep
  rw [listings_write_eq, decideTriangles_withTriangles hfans, ← hslots]
  exact List.map_congr_left fun slot _ => e.slotListing_withTriangles triangulate triangulate slot

end Exporter

end MeshWeave
