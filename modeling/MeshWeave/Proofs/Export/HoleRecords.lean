import MeshWeave.Proofs.Export.Holes

set_option autoImplicit false

/-! # What hole records tell

A polygon set records a hole with its size and the vertex that stands where the hole begins. For an
empty hole that vertex is not its own: it belongs to the next hole that has one, and without such a
hole there is none, and no record. The records therefore describe the holes just if no empty hole
stands before one that is not empty. Whatever stands where, leaving out the records of size zero
gives one record for each hole that is not empty, in order. -/

namespace MeshWeave

namespace HoleRecord

/-- The record of a hole by its own vertices, of which an empty one has none. -/
def ofHole (index : Nat) (hole : Array UInt32) : Option HoleRecord :=
  hole[0]?.map fun first => ⟨index, hole.size, first⟩

/-- Empty holes are the last ones. -/
def EmptyLast (holes : List (Array UInt32)) : Prop :=
  holes.Pairwise fun hole later => hole = #[] → later = #[]

/-- The vertex that stands where a hole begins is its own if it has one. -/
theorem ofRings_cons_of_ne (index : Nat) {hole : Array UInt32} (hhole : hole ≠ #[])
    (holes : List (Array UInt32)) :
    ∃ first, ofHole index hole = some ⟨index, hole.size, first⟩
      ∧ ofRings index (hole :: holes) = ⟨index, hole.size, first⟩ :: ofRings index holes := by
  obtain ⟨v, vs, hv⟩ : ∃ v vs, hole.toList = v :: vs :=
    List.exists_cons_of_ne_nil (by simpa using hhole)
  have hfirst : (((hole :: holes).map Array.toList).flatten).head? = some v := by
    rw [List.map_cons, List.flatten_cons, hv]
    rfl
  refine ⟨v, ?_, by rw [ofRings, hfirst]⟩
  rw [ofHole, ← Array.getElem?_toList, hv]
  rfl

/-- An empty hole has a record if another hole behind it has a vertex. -/
theorem ofRings_cons_empty (index : Nat) (holes : List (Array UInt32)) :
    ((∀ later ∈ holes, later = #[]) ∧ ofRings index (#[] :: holes) = ofRings index holes) ∨
    (¬ (∀ later ∈ holes, later = #[]) ∧ ∃ first,
      ofRings index (#[] :: holes) = ⟨index, 0, first⟩ :: ofRings index holes) := by
  have hnil : (((#[] :: holes).map Array.toList).flatten) = []
      ↔ ∀ later ∈ holes, later = #[] := by
    simp
  rw [ofRings]
  split
  · next first hfirst =>
      refine Or.inr ⟨?_, first, rfl⟩
      intro hall
      rw [hnil.mpr hall] at hfirst
      exact absurd hfirst (by simp)
  · next hnone => exact Or.inl ⟨hnil.mp (List.head?_eq_none_iff.mp hnone), rfl⟩

/-- Leaving out the records of size zero leaves those that describe a hole. -/
theorem filter_ofRings (index : Nat) (holes : List (Array UInt32)) :
    (ofRings index holes).filter (0 < ·.size) = holes.filterMap (ofHole index) := by
  induction holes with
  | nil => rfl
  | cons hole holes ih =>
      by_cases hhole : hole = #[]
      · subst hhole
        have hskip : (#[] :: holes).filterMap (ofHole index) = holes.filterMap (ofHole index) :=
          List.filterMap_cons_none rfl
        rw [hskip, ← ih]
        rcases ofRings_cons_empty index holes with ⟨-, hrecords⟩ | ⟨-, first, hrecords⟩
        · rw [hrecords]
        · rw [hrecords, List.filter_cons_of_neg]
          simp
      · obtain ⟨first, hrecord, hrecords⟩ := ofRings_cons_of_ne index hhole holes
        have hsize : 0 < hole.size := Array.size_pos_iff.mpr hhole
        rw [hrecords, List.filter_cons_of_pos (by simpa using hsize), ih,
          List.filterMap_cons_some hrecord]

/-- No record has size zero just if the empty holes are the last ones. -/
theorem forall_size_ofRings (index : Nat) (holes : List (Array UInt32)) :
    (∀ r ∈ ofRings index holes, 0 < r.size) ↔ EmptyLast holes := by
  unfold EmptyLast
  induction holes with
  | nil => exact ⟨fun _ => List.Pairwise.nil, fun _ _ hr => absurd hr List.not_mem_nil⟩
  | cons hole holes ih =>
      rw [List.pairwise_cons, ← ih]
      by_cases hhole : hole = #[]
      · subst hhole
        rcases ofRings_cons_empty index holes with ⟨hall, hrecords⟩ | ⟨hsome, first, hrecords⟩
        · rw [hrecords]
          exact ⟨fun h => ⟨fun later hlater _ => hall later hlater, h⟩, fun h => h.2⟩
        · rw [hrecords, List.forall_mem_cons]
          refine iff_of_false (fun h => Nat.lt_irrefl 0 h.1) ?_
          intro h
          exact hsome fun later hlater => h.1 later hlater rfl
      · obtain ⟨first, -, hrecords⟩ := ofRings_cons_of_ne index hhole holes
        rw [hrecords, List.forall_mem_cons]
        exact and_congr_left fun _ =>
          iff_of_true (Array.size_pos_iff.mpr hhole) fun _ _ hempty => absurd hempty hhole

end HoleRecord

/-! ## Polygon sets of rings -/

/-- The polygon with an outline and holes. -/
def Polygon.ofRings (outer : Array UInt32) (holes : List (Array UInt32)) : Polygon :=
  holes.foldl addHole (ofOutline outer)

namespace PolygonSet

/-- The records of a mesh are those of its polygons with the holes that were added to them. -/
theorem holes_ofPolygons_ofRings (shaders texCoordSets : List String) (colorSets : List ColorSet)
    (rings : List (Array UInt32 × List (Array UInt32))) :
    (ofPolygons shaders texCoordSets colorSets (rings.map fun r => .ofRings r.1 r.2)).holes
      = rings.zipIdx.flatMap fun r => HoleRecord.ofRings r.2 r.1.2 := by
  induction rings using List.reverseRec with
  | nil => rfl
  | append_singleton rings r ih =>
      have hlast := (Polygon.hasRings_addHoles r.1 r.2).holeRecords_eq rings.length
      rw [List.map_append, List.map_singleton, holes_ofPolygons_concat, ih, List.zipIdx_append,
        List.flatMap_append, List.length_map, Polygon.ofRings, hlast]
      simp

/-- **What the hole records of a mesh tell**, for polygons that are made of any rings. Every hole
    has a record with the vertex that stands where it begins, if there is one. Those records that
    are not of size zero are one for each hole that is not empty, with its own first vertex, in the
    order of polygons and of their holes. There are no others if and only if no polygon has an empty
    hole before one that is not empty. -/
theorem holeRecords_of_rings (shaders texCoordSets : List String) (colorSets : List ColorSet)
    (rings : List (Array UInt32 × List (Array UInt32))) :
    let records := (ofPolygons shaders texCoordSets colorSets
      (rings.map fun r => .ofRings r.1 r.2)).holes
    let described := rings.zipIdx.flatMap fun r => r.1.2.filterMap (HoleRecord.ofHole r.2)
    records = rings.zipIdx.flatMap (fun r => HoleRecord.ofRings r.2 r.1.2)
    ∧ records.filter (0 < ·.size) = described
    ∧ (records = described ↔ ∀ r ∈ rings, HoleRecord.EmptyLast r.2) := by
  intro records described
  have hrecords : records = rings.zipIdx.flatMap fun r => HoleRecord.ofRings r.2 r.1.2 :=
    holes_ofPolygons_ofRings shaders texCoordSets colorSets rings
  have hfilter : records.filter (0 < ·.size) = described := by
    rw [hrecords, List.filter_flatMap]
    exact List.flatMap_congr fun r _ => HoleRecord.filter_ofRings r.2 r.1.2
  refine ⟨hrecords, hfilter, ?_⟩
  rw [← hfilter, eq_comm, List.filter_eq_self, hrecords]
  simp only [decide_eq_true_eq, List.forall_mem_flatMap]
  constructor
  · intro h r hr
    obtain ⟨i, hi, rfl⟩ := List.mem_iff_getElem.mp hr
    exact (HoleRecord.forall_size_ofRings i _).mp
      (h (rings[i], i) (List.mk_mem_zipIdx_iff_getElem?.mpr (List.getElem?_eq_getElem hi)))
  · rintro h ⟨r, i⟩ hr
    exact (HoleRecord.forall_size_ofRings i r.2).mpr
      (h r (List.mem_of_getElem? (List.mk_mem_zipIdx_iff_getElem?.mp hr)))

/-- An empty hole before another one has a record of size zero, with the vertex of the other. -/
theorem not_holeRecords_of_emptyFirst :
    let rings : List (Array UInt32 × List (Array UInt32)) := [(#[0, 1, 2], [#[], #[3, 4, 5]])]
    let records := (ofPolygons [] [] [] (rings.map fun r => .ofRings r.1 r.2)).holes
    records = [⟨0, 0, 3⟩, ⟨0, 3, 3⟩]
    ∧ rings.zipIdx.flatMap (fun r => r.1.2.filterMap (HoleRecord.ofHole r.2)) = [⟨0, 3, 3⟩]
    ∧ records ≠ rings.zipIdx.flatMap fun r => r.1.2.filterMap (HoleRecord.ofHole r.2) := by
  decide

end PolygonSet

end MeshWeave
