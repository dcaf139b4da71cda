import MeshWeave.Proofs.Export.Holes

set_option autoImplicit false

/-! # Polygons by themselves

An export goes over the polygons once for each slot and uses hole records up on the way. This file
shows that the order of all this does not matter: what is written of a polygon is what would be
written of it alone, with all hole records still unused. The export then has a closed form,
`Exporter.written_eq`, which knows slots and polygons but no state.

The reason is that a polygon looks only at its own hole records, and of these only at the mesh
vertices at which they begin. -/

namespace MeshWeave

/-! ## Only the first vertices of a polygon's own holes matter -/

namespace Cut

variable (h : Host) (mesh mesh' : String) (polygon : Nat)

theorem ofRun_congr (is : List Nat) {left left' : List HoleRecord}
    (hfirsts : HoleRecord.firsts polygon left = HoleRecord.firsts polygon left') :
    (ofRun h mesh polygon is left).continued = (ofRun h mesh' polygon is left').continued
      ∧ (ofRun h mesh polygon is left).rings = (ofRun h mesh' polygon is left').rings := by
  induction is generalizing left left' with
  | nil => exact ⟨rfl, rfl⟩
  | cons i is ih =>
      have hsame : left.find? (HoleRecord.beginsAt polygon (h.vertex polygon i)) = none
          ↔ left'.find? (HoleRecord.beginsAt polygon (h.vertex polygon i)) = none := by
        rw [HoleRecord.find?_eq_none_iff, HoleRecord.find?_eq_none_iff, hfirsts]
      rw [ofRun, ofRun]
      -- Either both lists have a record for the vertex, or none of them has.
      split
      · next hnone =>
          rw [hsame.mp hnone]
          obtain ⟨hcontinued, hrings⟩ := ih hfirsts
          exact ⟨congrArg (i :: ·) hcontinued, hrings⟩
      · next r hsome =>
          split
          · next hnone' =>
              rw [hsame.mpr hnone'] at hsome
              exact absurd hsome (by simp)
          · have hleft : HoleRecord.firsts polygon
                  (left.eraseP (HoleRecord.beginsAt polygon (h.vertex polygon i)))
                = HoleRecord.firsts polygon
                  (left'.eraseP (HoleRecord.beginsAt polygon (h.vertex polygon i))) := by
              rw [HoleRecord.firsts_eraseP, HoleRecord.firsts_eraseP, hfirsts]
            obtain ⟨hcontinued, hrings⟩ := ih hleft
            refine ⟨rfl, ?_⟩
            show (i :: (ofRun h mesh polygon is _).continued) :: _ = (i :: _) :: _
            rw [hcontinued, hrings]

end Cut

namespace Faces

variable (h : Host) (mesh : String) (removeDuplicates triangulated : Bool)

theorem ofRun_congr (polygon : Nat) (run : List Nat) {left left' : List HoleRecord}
    (hfirsts : HoleRecord.firsts polygon left = HoleRecord.firsts polygon left') :
    (ofRun h mesh triangulated polygon run left).1
      = (ofRun h mesh triangulated polygon run left').1 := by
  unfold ofRun
  split
  · cases run with
    | nil => rfl
    | cons i is =>
        obtain ⟨hcontinued, hrings⟩ := Cut.ofRun_congr h mesh mesh polygon is hfirsts
        show holed polygon ⟨i :: _, _⟩ = holed polygon ⟨i :: _, _⟩
        rw [hcontinued, hrings]
  · rfl

/-- The faces of a polygon follow from the host's answers about it and its own holes. -/
theorem ofPolygon_congr (polygon : Nat) {left left' : List HoleRecord}
    (hfirsts : HoleRecord.firsts polygon left = HoleRecord.firsts polygon left') :
    (ofPolygon h mesh removeDuplicates triangulated polygon left).value.1
      = (ofPolygon h mesh removeDuplicates triangulated polygon left').value.1 := by
  rw [ofPolygon_value, ofPolygon_value]
  simp only [ofRun_congr h mesh triangulated polygon (h.run removeDuplicates polygon) hfirsts]
  split
  · rfl
  · split <;> rfl

/-- The faces of polygons are those of each polygon by itself. -/
theorem ofPolygons_eq_filterMap {ps : List Nat} (hnodup : ps.Nodup)
    {left records : List HoleRecord}
    (hfirsts : ∀ p ∈ ps, HoleRecord.firsts p left = HoleRecord.firsts p records) :
    (ofPolygons h mesh removeDuplicates triangulated ps left).value.1
      = ps.filterMap fun p =>
          (ofPolygon h mesh removeDuplicates triangulated p records).value.1 := by
  induction ps generalizing left with
  | nil => rfl
  | cons p ps ih =>
      obtain ⟨hp, hnodup⟩ := List.nodup_cons.mp hnodup
      have hfirst := ofPolygon_congr h mesh removeDuplicates triangulated p
        (hfirsts p List.mem_cons_self)
      have hbehind : ∀ q ∈ ps,
          HoleRecord.firsts q (ofPolygon h mesh removeDuplicates triangulated p left).value.2
            = HoleRecord.firsts q records := by
        intro q hq
        have hne : p ≠ q := by
          rintro rfl
          exact hp hq
        rw [firsts_ofPolygon h mesh removeDuplicates triangulated hne]
        exact hfirsts q (List.mem_cons_of_mem p hq)
      have hrest := ih hnodup hbehind
      show (ofPolygon h mesh removeDuplicates triangulated p left).value.1.toList ++ _ = _
      rw [hrest, hfirst, List.filterMap_cons]
      cases (ofPolygon h mesh removeDuplicates triangulated p records).value.1 <;> rfl

end Faces

/-! ## The closed form of an export -/

namespace Exporter

variable (e : Exporter) (triangulated : Bool)

/-- What is written of a polygon by itself. -/
def polygonFaces? (p : Nat) : Option Faces :=
  (Faces.ofPolygon e.host e.mesh e.options.removeDuplicates triangulated p e.host.holes).value.1

/-- The polygons of a slot, each as it is written by itself. -/
def facesAt (slot : Nat) : List Faces :=
  (e.slotPolygons slot).filterMap (e.polygonFaces? triangulated)

theorem slotFaces_eq_facesAt {slot : Nat} {left : List HoleRecord}
    (hleft : ∀ p ∈ e.slotPolygons slot,
      HoleRecord.firsts p left = HoleRecord.firsts p e.host.holes) :
    e.slotFaces triangulated slot left = e.facesAt triangulated slot :=
  Faces.ofPolygons_eq_filterMap e.host e.mesh e.options.removeDuplicates triangulated
    (List.nodup_range.filter _) hleft

theorem vertices_facesAt (slot : Nat) :
    (e.facesAt triangulated slot).flatMap Faces.vertices = e.slotVertices triangulated slot := by
  rw [← e.slotFaces_eq_facesAt triangulated fun _ _ => rfl]
  exact e.vertices_slotFaces triangulated slot e.host.holes

theorem isProper_facesAt (slot : Nat) :
    ∀ f ∈ e.facesAt triangulated slot, f.IsProper triangulated := by
  rw [← e.slotFaces_eq_facesAt triangulated fun _ _ => rfl]
  exact e.isProper_slotFaces triangulated slot e.host.holes

/-- **An export in closed form**: a listing for each slot with face vertices, of its polygons as
    each is written by itself. -/
theorem written_eq :
    e.written = (e.writtenSlots e.decideTriangles.value).map fun slot =>
      e.listing e.tuple.value e.decideTriangles.value slot
        (e.facesAt e.decideTriangles.value slot) := by
  symm
  rw [← List.forall₂_eq_eq_eq, List.forall₂_map_left_iff]
  refine e.written_faces.imp ?_
  rintro slot l ⟨-, left, hleft, rfl⟩
  rw [e.slotFaces_eq_facesAt _ hleft]

/-- What is written of a polygon is what its host says. -/
theorem polygonFaces?_spec (p : Nat) :
    match e.polygonFaces? triangulated p with
    | some f => f.polygon = p
        ∧ f.run = e.host.writtenRun e.options.removeDuplicates triangulated p
        ∧ f.IsProper triangulated
    | none => e.host.writtenRun e.options.removeDuplicates triangulated p = [] :=
  Faces.ofPolygon_spec e.host e.mesh e.options.removeDuplicates triangulated p e.host.holes

end Exporter

/-! ## Single faces -/

/-- A face as it is written: the indices around its outline, then those around each of its holes. -/
structure Face where
  outline : List UInt32
  holes : List (List UInt32)
  deriving DecidableEq, Repr

/-- The faces of a polygon, one by one. -/
def Faces.each (t : Tuple) (h : Host) : Faces → List Face
  | triangles p ts => ts.map fun c => ⟨t.indices h p c.corners, []⟩
  | plain p run => [⟨t.indices h p run, []⟩]
  | holed p rings => [⟨t.indices h p rings.outline, rings.holes.map (t.indices h p)⟩]

theorem Faces.length_each (t : Tuple) (h : Host) (f : Faces) : (f.each t h).length = f.count := by
  cases f with
  | triangles p ts => exact List.length_map _
  | plain p run => rfl
  | holed p rings => rfl

theorem Faces.total_count (t : Tuple) (h : Host) (fs : List Faces) :
    total (fs.map count) = (fs.flatMap (each t h)).length := by
  rw [← total_map_length]
  congr 1
  exact List.map_congr_left fun f _ => (f.length_each t h).symm

/-- Elements that yield nothing can be left out. -/
theorem flatMap_filter_isEmpty {α β : Type} (f : α → List β) (l : List α) :
    (l.filter fun a => !(f a).isEmpty).flatMap f = l.flatMap f := by
  induction l with
  | nil => rfl
  | cons a l ih =>
      rw [List.flatMap_cons, ← ih]
      by_cases ha : f a = []
      · rw [List.filter_cons_of_neg (by simp [ha]), ha, List.nil_append]
      · rw [List.filter_cons_of_pos (by simp [ha]), List.flatMap_cons]

namespace Exporter

variable (e : Exporter) (triangulated : Bool)

/-- The faces that a polygon yields, exported by itself. -/
def facesOf (p : Nat) : List Face :=
  (e.polygonFaces? triangulated p).toList.flatMap (Faces.each e.tuple.value e.host)

/-- The polygons of a slot that yield faces, in the order of the host. -/
def facedPolygons (slot : Nat) : List Nat :=
  (e.slotPolygons slot).filter fun p => !(e.facesOf triangulated p).isEmpty

/-- The slots with such polygons. -/
def facedSlots : List Nat :=
  e.slots.filter fun slot => !(e.facedPolygons triangulated slot).isEmpty

variable {e triangulated}

theorem mem_slotPolygons_iff {p slot : Nat} :
    p ∈ e.slotPolygons slot ↔ p < e.host.polygonCount ∧ e.slot p = slot := by
  rw [slotPolygons, List.mem_filter, List.mem_range, beq_iff_eq]

theorem mem_facedPolygons_iff {p slot : Nat} :
    p ∈ e.facedPolygons triangulated slot
      ↔ (p < e.host.polygonCount ∧ e.slot p = slot) ∧ e.facesOf triangulated p ≠ [] := by
  rw [facedPolygons, List.mem_filter, mem_slotPolygons_iff, Bool.not_eq_true', ← Bool.not_eq_true,
    List.isEmpty_iff]

variable (e triangulated)

/-- A polygon without face vertices to write yields no faces, and no other does so. -/
theorem facesOf_eq_nil_iff (p : Nat) :
    e.facesOf triangulated p = []
      ↔ e.host.writtenRun e.options.removeDuplicates triangulated p = [] := by
  have hspec := e.polygonFaces?_spec triangulated p
  rw [facesOf]
  cases hf : e.polygonFaces? triangulated p with
  | none =>
      rw [hf] at hspec
      exact iff_of_true rfl hspec
  | some f =>
      rw [hf] at hspec
      obtain ⟨-, hrun, hproper⟩ := hspec
      have hone : ∀ g ∈ [f], g.IsProper triangulated := by simpa using hproper
      have hcount := Faces.total_count_eq_zero hone
      simp only [Faces.total_count e.tuple.value e.host, List.length_eq_zero_iff,
        List.flatMap_singleton, Faces.vertices, List.map_eq_nil_iff] at hcount
      rw [← hrun, ← hcount]
      exact Iff.of_eq (congrArg (· = []) (List.flatMap_singleton _ f))

theorem facedSlots_eq : e.facedSlots triangulated = e.writtenSlots triangulated := by
  apply List.filter_congr
  intro slot _
  rw [Bool.not_inj_iff, Bool.eq_iff_iff, List.isEmpty_iff, List.isEmpty_iff, facedPolygons,
    List.filter_eq_nil_iff, slotVertices, List.flatMap_eq_nil_iff]
  simp [facesOf_eq_nil_iff]

/-- The faces of a slot are those of its polygons in order. -/
theorem each_facesAt (slot : Nat) :
    (e.facesAt triangulated slot).flatMap (Faces.each e.tuple.value e.host)
      = (e.facedPolygons triangulated slot).flatMap (e.facesOf triangulated) := by
  rw [facedPolygons, flatMap_filter_isEmpty, facesAt, List.filterMap_eq_flatMap_toList,
    List.flatMap_assoc]
  rfl

/-- A polygon that is written is written as one with holes if it has some, unless triangles are
    written. -/
theorem isHoled_polygonFaces? {p : Nat} {f : Faces}
    (hf : e.polygonFaces? triangulated p = some f) :
    f.isHoled = true ↔ triangulated = false ∧ e.host.isHoled p = true := by
  rw [polygonFaces?, Faces.ofPolygon_value] at hf
  split at hf
  · next htriangles =>
      obtain rfl := Option.some.inj hf
      simp [Faces.isHoled, htriangles.1]
  · split at hf
    · exact absurd hf (by simp)
    · simp only [Option.ite_none_left_eq_some] at hf
      obtain ⟨-, hf⟩ := hf
      obtain rfl := Option.some.inj hf
      unfold Faces.ofRun
      split
      · next hholed => exact iff_of_true rfl hholed.symm
      · next hplain => exact iff_of_false (by simp [Faces.isHoled]) fun h => hplain h.symm

/-- A slot has faces with holes if it has a polygon with holes that is written, unless triangles
    are written. -/
theorem any_isHoled_facesAt (slot : Nat) :
    (e.facesAt triangulated slot).any Faces.isHoled = true
      ↔ triangulated = false
        ∧ ∃ p ∈ e.facedPolygons triangulated slot, e.host.isHoled p = true := by
  rw [List.any_eq_true, facesAt]
  constructor
  · rintro ⟨f, hf, hholed⟩
    obtain ⟨p, hp, hf⟩ := List.mem_filterMap.mp hf
    obtain ⟨hplain, hhost⟩ := (e.isHoled_polygonFaces? triangulated hf).mp hholed
    refine ⟨hplain, p, List.mem_filter.mpr ⟨hp, ?_⟩, hhost⟩
    rw [facesOf, hf]
    cases f with
    | triangles q ts => exact absurd hholed (by simp [Faces.isHoled])
    | plain q run => rfl
    | holed q rings => rfl
  · rintro ⟨hplain, p, hp, hhost⟩
    obtain ⟨hp, hfaces⟩ := List.mem_filter.mp hp
    cases hf : e.polygonFaces? triangulated p with
    | none => simp [facesOf, hf] at hfaces
    | some f =>
        exact ⟨f, List.mem_filterMap.mpr ⟨p, hp, hf⟩,
          (e.isHoled_polygonFaces? triangulated hf).mpr ⟨hplain, hhost⟩⟩

end Exporter

end MeshWeave
