import Mathlib.Data.List.Nodup
import Mathlib.Data.List.SplitLengths
import MeshWeave.Proofs.Export.Headers

set_option autoImplicit false

/-! # Slots partition the faces

`Listing.faces` reads the faces of a listing off its header and its index elements, as someone does
who was not there when it was written. The faces that an export records are then those that its
polygons yield by themselves, each in the listing of the slot of its polygon and nowhere else, in
the order of the host. -/

namespace MeshWeave

/-! ## The faces of a listing -/

/-- The numbers of vertices of the faces that are written as one run. -/
def Header.sizes (h : Header) : List Nat :=
  match h.shape with
  | .triangles => List.replicate h.count 3
  | _ => h.counts

/-- The face of an index element. -/
def Group.face : Group → Face
  | polygon indices => ⟨indices.toList, []⟩
  | holed outer holes => ⟨outer.toList, holes.toList.map Array.toList⟩

/-- The faces that a listing describes. -/
def Listing.faces (l : Listing) : List Face :=
  match l.header.shape with
  | .polygons => l.groups.toList.map Group.face
  | _ =>
      ((l.header.sizes.map (· * l.header.width)).splitLengths l.indices.toList).map (⟨·, []⟩)

/-- A concatenation is split at the lengths of its parts. -/
theorem splitLengths_flatten {α : Type} (parts : List (List α)) :
    (parts.map List.length).splitLengths parts.flatten = parts := by
  induction parts with
  | nil => rfl
  | cons part parts ih =>
      rw [List.map_cons, List.flatten_cons, List.splitLengths_cons, List.take_left, List.drop_left,
        ih]

namespace Faces

variable (t : Tuple) (h : Host)

/-- The faces of a polygon without holes, each by its indices. -/
def outlines (f : Faces) : List (List UInt32) := (f.each t h).map (·.outline)

variable {f : Faces} (hf : f.isHoled = false)

include hf

theorem each_of_plain : f.each t h = (f.outlines t h).map (⟨·, []⟩) := by
  cases f with
  | triangles p ts => simp [outlines, each]
  | plain p run => rfl
  | holed p rings => exact absurd hf (by simp [isHoled])

theorem indices_of_plain : f.indices t h = (f.outlines t h).flatten := by
  cases f with
  | triangles p ts =>
      simp only [outlines, each, List.map_map]
      rw [Faces.indices, Tuple.indices_eq, List.flatMap_assoc, List.flatMap_def]
      rfl
  | plain p run => exact (List.flatten_singleton).symm
  | holed p rings => exact absurd hf (by simp [isHoled])

theorem sizes_of_outlines :
    (f.outlines t h).map List.length = f.sizes.map (· * t.attributes.length) := by
  cases f with
  | triangles p ts =>
      simp [outlines, each, sizes, Tuple.length_indices, Triangle.corners, Function.comp_def]
  | plain p run => exact congrArg ([·]) (t.length_indices h p run)
  | holed p rings => exact absurd hf (by simp [isHoled])

end Faces

/-- The faces in one run are found again by their numbers of vertices. -/
theorem Faces.splitLengths_indices (t : Tuple) (h : Host) {fs : List Faces}
    (hplain : ∀ f ∈ fs, f.isHoled = false) :
    (((fs.flatMap sizes).map (· * t.attributes.length)).splitLengths
        (fs.flatMap (·.indices t h))).map (Face.mk · []) = fs.flatMap (each t h) := by
  have hindices : fs.flatMap (·.indices t h) = (fs.flatMap (outlines t h)).flatten := by
    rw [List.flatMap_def, List.flatMap_def, List.flatten_flatten, List.map_map]
    exact congrArg List.flatten (List.map_congr_left fun f hf => indices_of_plain t h (hplain f hf))
  have hlengths : (fs.flatMap sizes).map (· * t.attributes.length)
      = (fs.flatMap (outlines t h)).map List.length := by
    rw [List.map_flatMap, List.map_flatMap]
    exact List.flatMap_congr fun f hf => (sizes_of_outlines t h (hplain f hf)).symm
  rw [hlengths, hindices, splitLengths_flatten, List.map_flatMap]
  exact List.flatMap_congr fun f hf => (each_of_plain t h (hplain f hf)).symm

/-- The index element of a polygon holds its one face. -/
theorem Faces.face_group {t : Tuple} (ht : t.attributes ≠ []) (h : Host) {f : Faces}
    (hf : f.IsProper false) : f.each t h = [(f.group t h).face] := by
  cases f with
  | triangles p ts => exact absurd hf (by simp [IsProper])
  | plain p run => rfl
  | holed p rings => simp [each, group, Group.face, ht, Function.comp_def]

/-- An export that writes triangles writes no holes. -/
theorem Faces.isHoled_of_triangulated {f : Faces} (hf : f.IsProper true) : f.isHoled = false := by
  cases f with
  | triangles p ts => rfl
  | plain p run => rfl
  | holed p rings => exact absurd hf.1 (by simp)

/-- Triangles have three vertices. -/
theorem Faces.sizes_of_triangulated {fs : List Faces} (hfs : ∀ f ∈ fs, f.IsProper true) :
    fs.flatMap sizes = List.replicate (total (fs.map count)) 3 := by
  induction fs with
  | nil => rfl
  | cons f fs ih =>
      have hsizes : f.sizes = List.replicate f.count 3 := by
        have hf := hfs f List.mem_cons_self
        cases f with
        | triangles p ts => exact List.map_const'
        | plain p run => exact congrArg ([·]) (hf.2 rfl)
        | holed p rings => exact absurd hf.1 (by simp)
      rw [List.flatMap_cons, ih fun f hf => hfs f (List.mem_cons_of_mem _ hf), hsizes,
        List.map_cons, total_cons, List.replicate_add]

namespace Exporter

variable (e : Exporter)

/-- **The faces of a listing** are those that it was made of. -/
theorem faces_listing (hattributes : e.tuple.value.attributes ≠ []) (triangulated : Bool)
    (slot : Nat) {fs : List Faces} (hproper : ∀ f ∈ fs, f.IsProper triangulated) :
    (e.listing e.tuple.value triangulated slot fs).faces
      = fs.flatMap (Faces.each e.tuple.value e.host) := by
  have hwidth : (e.listing e.tuple.value triangulated slot fs).header.width
      = e.tuple.value.attributes.length := e.lists_tuple.length_offsets
  have hspec := shape_spec triangulated fs
  unfold Listing.faces
  rw [hwidth]
  unfold listing Listing.indices
  cases hshape : shape triangulated fs with
  | triangles =>
      rw [hshape] at hspec
      rw [hspec] at hproper
      have hsplit := Faces.splitLengths_indices e.tuple.value e.host
        fun f hf => Faces.isHoled_of_triangulated (hproper f hf)
      rw [Faces.sizes_of_triangulated hproper] at hsplit
      simpa [Header.sizes, Group.indices] using hsplit
  | polylist =>
      rw [hshape] at hspec
      have hsplit := Faces.splitLengths_indices e.tuple.value e.host hspec.2
      simpa [Header.sizes, Group.indices] using hsplit
  | polygons =>
      rw [hshape] at hspec
      rw [hspec] at hproper
      -- Each polygon is one face and has an index element of its own.
      have heach : fs.flatMap (Faces.each e.tuple.value e.host)
          = fs.map fun f => (f.group e.tuple.value e.host).face := by
        rw [List.map_eq_flatMap]
        exact List.flatMap_congr fun f hf => Faces.face_group hattributes e.host (hproper f hf)
      rw [heach]
      simp

/-! ## The listing of a polygon -/

variable (triangulated : Bool)

theorem nodup_facedSlots : (e.facedSlots triangulated).Nodup := List.nodup_range.filter _

/-- The slot of a polygon with faces has faces. -/
theorem slot_mem_facedSlots {p : Nat} (hp : p < e.host.polygonCount)
    (hfaces : e.facesOf triangulated p ≠ []) : e.slot p ∈ e.facedSlots triangulated := by
  have hmem : p ∈ e.facedPolygons triangulated (e.slot p) :=
    mem_facedPolygons_iff.mpr ⟨⟨hp, rfl⟩, hfaces⟩
  rw [facedSlots, List.mem_filter]
  exact ⟨e.slot_mem_slots p, by simpa using List.ne_nil_of_mem hmem⟩

/-- A polygon with faces is one of its slot, and of no other. -/
theorem mem_facedPolygons_iff_idxOf {p : Nat} (hp : p < e.host.polygonCount)
    (hfaces : e.facesOf triangulated p ≠ []) {j slot : Nat}
    (hj : (e.facedSlots triangulated)[j]? = some slot) :
    p ∈ e.facedPolygons triangulated slot ↔ j = (e.facedSlots triangulated).idxOf (e.slot p) := by
  obtain ⟨hlt, hget⟩ := List.getElem?_eq_some_iff.mp hj
  rw [mem_facedPolygons_iff]
  constructor
  · rintro ⟨⟨-, rfl⟩, -⟩
    rw [← hget, (e.nodup_facedSlots triangulated).idxOf_getElem]
  · rintro rfl
    rw [List.getElem?_idxOf (e.slot_mem_facedSlots triangulated hp hfaces)] at hj
    exact ⟨⟨hp, Option.some.inj hj⟩, hfaces⟩

/-- **Slots partition the polygons**: those of all slots are the polygons with faces. -/
theorem facedPolygons_perm :
    ((e.facedSlots triangulated).flatMap (e.facedPolygons triangulated)).Perm
      ((List.range e.host.polygonCount).filter fun p => !(e.facesOf triangulated p).isEmpty) := by
  have hdisjoint : (e.facedSlots triangulated).Pairwise
      fun slot slot' => (e.facedPolygons triangulated slot).Disjoint
        (e.facedPolygons triangulated slot') := by
    refine (e.nodup_facedSlots triangulated).imp ?_
    intro slot slot' hne p hp hp'
    exact hne ((mem_facedPolygons_iff.mp hp).1.2.symm.trans (mem_facedPolygons_iff.mp hp').1.2)
  have hnodup : ((e.facedSlots triangulated).flatMap (e.facedPolygons triangulated)).Nodup :=
    List.nodup_flatMap.mpr
      ⟨fun slot _ => (List.nodup_range.filter _).filter _, hdisjoint⟩
  rw [List.perm_ext_iff_of_nodup hnodup (List.nodup_range.filter _)]
  intro p
  rw [List.mem_flatMap, List.mem_filter, List.mem_range]
  constructor
  · rintro ⟨slot, -, hp⟩
    obtain ⟨⟨hlt, -⟩, hfaces⟩ := mem_facedPolygons_iff.mp hp
    exact ⟨hlt, by simpa using hfaces⟩
  · rintro ⟨hlt, hfaces⟩
    have hfaces : e.facesOf triangulated p ≠ [] := by simpa using hfaces
    exact ⟨e.slot p, e.slot_mem_facedSlots triangulated hlt hfaces,
      mem_facedPolygons_iff.mpr ⟨⟨hlt, rfl⟩, hfaces⟩⟩

/-- The faces of all slots are those of all polygons. -/
theorem facesOf_perm :
    ((e.facedSlots triangulated).flatMap fun slot =>
        (e.facedPolygons triangulated slot).flatMap (e.facesOf triangulated)).Perm
      ((List.range e.host.polygonCount).flatMap (e.facesOf triangulated)) := by
  rw [← List.flatMap_assoc, ← flatMap_filter_isEmpty (e.facesOf triangulated)
    (List.range e.host.polygonCount)]
  exact (e.facedPolygons_perm triangulated).flatMap_right _

/-- The slot without a shader comes last. -/
theorem idxOf_facedSlots_last (hmem : e.host.shaders.length ∈ e.facedSlots triangulated) :
    (e.facedSlots triangulated).idxOf e.host.shaders.length + 1
      = (e.facedSlots triangulated).length := by
  have hlast := (List.mem_filter.mp hmem).2
  have hsplit : e.facedSlots triangulated
      = ((List.range e.host.shaders.length).filter fun slot =>
          !(e.facedPolygons triangulated slot).isEmpty) ++ [e.host.shaders.length] := by
    rw [facedSlots, slots, List.range_succ, List.filter_append, List.filter_singleton, hlast]
    rfl
  have hbefore : e.host.shaders.length ∉ (List.range e.host.shaders.length).filter fun slot =>
      !(e.facedPolygons triangulated slot).isEmpty := by
    simp
  rw [hsplit, List.idxOf_append_of_notMem hbefore, List.idxOf_cons_self, List.length_append,
    List.length_singleton, Nat.add_zero]

/-- The slot of a polygon, by its shader. -/
theorem slot_of_shader {p s : Nat} (hshader : e.host.shader p = some s)
    (hs : s < e.host.shaders.length) : e.slot p = s := by
  simp only [slot, hshader, if_pos hs]

/-- A polygon whose shader does not exist is one without. -/
theorem slot_of_no_shader {p : Nat}
    (hnone : ∀ s < e.host.shaders.length, e.host.shader p ≠ some s) :
    e.slot p = e.host.shaders.length := by
  unfold slot
  cases hshader : e.host.shader p with
  | none => rfl
  | some s => exact if_neg fun hs => hnone s hs hshader

/-- The listing of a slot, as it is recorded. -/
def slotListing (slot : Nat) : Listing :=
  e.listing e.tuple.value triangulated slot (e.facesAt triangulated slot)

/-- What a recorder has behind an export, slot by slot. -/
theorem listings_write_eq :
    (e.write Recorder.empty).value.2.1.listings.toList
      = (e.writtenSlots e.decideTriangles.value).map (e.slotListing e.decideTriangles.value) :=
  e.listings_write.trans e.written_eq

/-- What the listing of a slot says about its faces. -/
theorem slotListing_spec (hattributes : e.tuple.value.attributes ≠ []) (slot : Nat) :
    (e.slotListing triangulated slot).faces
        = (e.facedPolygons triangulated slot).flatMap (e.facesOf triangulated)
      ∧ (e.slotListing triangulated slot).header.count
        = (e.slotListing triangulated slot).faces.length := by
  have hfaces :=
    e.faces_listing hattributes triangulated slot (e.isProper_facesAt triangulated slot)
  refine ⟨hfaces.trans (e.each_facesAt triangulated slot), ?_⟩
  rw [slotListing, hfaces]
  exact Faces.total_count e.tuple.value e.host _

/-- **An export partitions the faces.** There is a listing for each slot with faces, in slot order
    and with the material of the slot, which has the faces of the polygons of the slot in the order
    of the host. A polygon with faces stands in one listing only, that of its shader, or the last
    one, which has no material, if there is no such shader. All listings together have every face
    once. -/
theorem faces_of_write (hattributes : e.tuple.value.attributes ≠ []) :
    let result := (e.write Recorder.empty).value
    let triangulated := result.1.triangulated
    let listings := result.2.1.listings.toList
    List.Forall₂
      (fun slot l => l.header.material = e.host.shaders[slot]?
        ∧ l.faces = (e.facedPolygons triangulated slot).flatMap (e.facesOf triangulated)
        ∧ l.header.count = l.faces.length)
      (e.facedSlots triangulated) listings
    ∧ (∀ p < e.host.polygonCount, e.facesOf triangulated p ≠ [] →
      ∃ i l, listings[i]? = some l
        ∧ (∀ j slot, (e.facedSlots triangulated)[j]? = some slot →
          (p ∈ e.facedPolygons triangulated slot ↔ j = i))
        ∧ (∀ s < e.host.shaders.length, e.host.shader p = some s →
          (e.facedSlots triangulated)[i]? = some s)
        ∧ ((∀ s < e.host.shaders.length, e.host.shader p ≠ some s) →
          i + 1 = listings.length ∧ l.header.material = none))
    ∧ (listings.flatMap Listing.faces).Perm
      ((List.range e.host.polygonCount).flatMap (e.facesOf triangulated))
    ∧ total (listings.map (·.header.count))
      = total ((List.range e.host.polygonCount).map fun p =>
          (e.facesOf triangulated p).length) := by
  intro result triangulated listings
  have htriangulated : triangulated = e.decideTriangles.value := e.triangulated_write
  have hlistings : listings = (e.facedSlots triangulated).map (e.slotListing triangulated) := by
    rw [htriangulated, facedSlots_eq]
    exact e.listings_write_eq
  clear_value result triangulated listings
  have hslot := e.slotListing_spec triangulated hattributes
  have hperm : (listings.flatMap Listing.faces).Perm
      ((List.range e.host.polygonCount).flatMap (e.facesOf triangulated)) := by
    rw [hlistings, List.flatMap_map, List.flatMap_congr fun slot _ => (hslot slot).1]
    exact e.facesOf_perm triangulated
  have hcounts : listings.map (·.header.count) = listings.map fun l => l.faces.length := by
    rw [hlistings, List.map_map, List.map_map]
    exact List.map_congr_left fun slot _ => (hslot slot).2
  refine ⟨?_, ?_, hperm, ?_⟩
  · rw [hlistings, List.forall₂_map_right_iff, List.forall₂_same]
    exact fun slot _ => ⟨rfl, hslot slot⟩
  · intro p hp hfaces
    have hmem := e.slot_mem_facedSlots triangulated hp hfaces
    have hplace := List.getElem?_idxOf hmem
    refine ⟨(e.facedSlots triangulated).idxOf (e.slot p), e.slotListing triangulated (e.slot p),
      ?_, fun j slot => e.mem_facedPolygons_iff_idxOf triangulated hp hfaces, ?_, ?_⟩
    · rw [hlistings, List.getElem?_map, hplace, Option.map_some]
    · intro s hs hshader
      rw [hplace, e.slot_of_shader hshader hs]
    · intro hnone
      have hlast := e.slot_of_no_shader hnone
      rw [hlast] at hmem ⊢
      refine ⟨?_, List.getElem?_eq_none (Nat.le_refl _)⟩
      rw [hlistings, List.length_map, e.idxOf_facedSlots_last triangulated hmem]
  · rw [hcounts, total_map_length, total_map_length, hperm.length_eq]

/-- Two polygons without a shader, the second with one that does not exist and with a hole; a
    polygon of the second shader, and one of the first that is too small. -/
theorem faces_of_write_mixed :
    let polygons : List Polygon :=
      [.ofOutline #[0, 1, 2, 3], { Polygon.ofOutline #[1, 2, 5] with shader := some 1 },
        { Polygon.ofOutline #[0, 1] with shader := some 0 },
        { (Polygon.ofOutline #[0, 4, 6]).addHole #[7, 8, 9] with shader := some 9 }]
    let e := new (PolygonSet.ofPolygons ["red", "blue"] [] [] polygons).host "mesh"
      ⟨[⟨.vertex, "v", 0⟩], []⟩ .plain
    let listings := (e.write Recorder.empty).value.2.1.listings.toList
    e.tuple.value.attributes ≠ [] ∧ e.facedSlots false = [1, 2]
    ∧ listings.map Listing.faces
      = [[⟨[1, 2, 5], []⟩], [⟨[0, 1, 2, 3], []⟩, ⟨[0, 4, 6], [[7, 8, 9]]⟩]]
    ∧ listings.map (·.header.material) = [some "blue", none]
    ∧ total (listings.map (·.header.count)) = 3 := by
  intro polygons e listings
  have hattributes : e.tuple.value.attributes ≠ [] := by decide
  have hslots : e.facedSlots false = [1, 2] := by decide +kernel
  have hfaces : (List.range e.host.polygonCount).flatMap (e.facesOf false)
      = [⟨[0, 1, 2, 3], []⟩, ⟨[1, 2, 5], []⟩, ⟨[0, 4, 6], [[7, 8, 9]]⟩] := by decide +kernel
  have hlistings : listings.map Listing.faces
      = [[⟨[1, 2, 5], []⟩], [⟨[0, 1, 2, 3], []⟩, ⟨[0, 4, 6], [[7, 8, 9]]⟩]] := by decide +kernel
  have hmaterials : listings.map (·.header.material) = [some "blue", none] := by decide +kernel
  have htriangulated : (e.write Recorder.empty).value.1.triangulated = false :=
    e.triangulated_write.trans rfl
  obtain ⟨-, -, -, hcounts⟩ := faces_of_write e hattributes
  rw [htriangulated, total_map_length, hfaces] at hcounts
  exact ⟨hattributes, hslots, hlistings, hmaterials, hcounts⟩

end Exporter

end MeshWeave
