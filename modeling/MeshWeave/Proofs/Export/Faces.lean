import MeshWeave.Export.Basic

set_option autoImplicit false

/-! # The face vertices that are written

Which face vertices of a polygon an export writes, and in which order, as a function of the host's
answers: the corners of its triangles, or its face vertices in enumeration order, without those
whose mesh vertex stands before if repeated ones are removed. Cutting a polygon into rings moves
no vertex, so `Faces.run` does not depend on the hole records. -/

namespace MeshWeave

namespace Host

/-- Whether no earlier face vertex of the polygon has the same mesh vertex. -/
def isFirst (h : Host) (polygon position : Nat) : Bool :=
  (List.range position).all fun j => h.vertex polygon j != h.vertex polygon position

/-- The face vertices of a polygon, with or without repeated ones. -/
def run (h : Host) (removeDuplicates : Bool) (polygon : Nat) : List Nat :=
  (List.range (h.vertexCount polygon)).filter fun i => !removeDuplicates || h.isFirst polygon i

/-- The face vertices that are written of a polygon. One with less than three has no face. -/
def writtenRun (h : Host) (removeDuplicates triangulated : Bool) (polygon : Nat) : List Nat :=
  if triangulated = true ∧ 3 < h.vertexCount polygon then
    ((h.triangles polygon).getD []).flatMap Triangle.corners
  else if (h.run removeDuplicates polygon).length < 3 then []
  else h.run removeDuplicates polygon

/-- Whether a polygon has faces. -/
def hasFaces (h : Host) (removeDuplicates triangulated : Bool) (polygon : Nat) : Bool :=
  (triangulated && 3 < h.vertexCount polygon) || 3 ≤ (h.run removeDuplicates polygon).length

theorem length_run_le (h : Host) (removeDuplicates : Bool) (polygon : Nat) :
    (h.run removeDuplicates polygon).length ≤ h.vertexCount polygon := by
  have hle := List.length_filter_le (fun i => !removeDuplicates || h.isFirst polygon i)
    (List.range (h.vertexCount polygon))
  rwa [List.length_range] at hle

/-- Without triangles no more is written of a polygon than it has. -/
theorem length_writtenRun_le (h : Host) (removeDuplicates : Bool) (polygon : Nat) :
    (h.writtenRun removeDuplicates false polygon).length ≤ h.vertexCount polygon := by
  rw [writtenRun, if_neg (by simp)]
  split
  · exact Nat.zero_le _
  · exact h.length_run_le removeDuplicates polygon

end Host

/-! ## Removing repeated vertices -/

/-- Of the vertices seen before only their membership matters. -/
theorem dropRepeated_congr (vertex : Nat → UInt32) (is : List Nat) {seen seen' : List UInt32}
    (h : ∀ x, x ∈ seen ↔ x ∈ seen') :
    dropRepeated vertex is seen = dropRepeated vertex is seen' := by
  induction is generalizing seen seen' with
  | nil => rfl
  | cons i is ih =>
      have hsame : seen.contains (vertex i) = seen'.contains (vertex i) := by
        rw [Bool.eq_iff_iff, List.contains_iff_mem, List.contains_iff_mem]
        exact h (vertex i)
      have hcons : ∀ x, x ∈ vertex i :: seen ↔ x ∈ vertex i :: seen' := by
        intro x
        rw [List.mem_cons, List.mem_cons, h x]
      rw [dropRepeated, dropRepeated, hsame, ih h, ih hcons]

theorem dropRepeated_append (vertex : Nat → UInt32) (is js : List Nat) (seen : List UInt32) :
    dropRepeated vertex (is ++ js) seen
      = dropRepeated vertex is seen ++ dropRepeated vertex js (is.map vertex ++ seen) := by
  induction is generalizing seen with
  | nil => rfl
  | cons i is ih =>
      rw [List.cons_append, dropRepeated, dropRepeated]
      split
      · next hmem =>
          rw [ih]
          congr 1
          apply dropRepeated_congr
          intro x
          rw [List.contains_iff_mem] at hmem
          simp only [List.map_cons, List.cons_append, List.mem_append, List.mem_cons]
          grind
      · rw [ih, List.cons_append]
        congr 2
        apply dropRepeated_congr
        intro x
        simp only [List.map_cons, List.cons_append, List.mem_append, List.mem_cons]
        grind

/-- Removing repeated vertices keeps the first face vertex of each mesh vertex. -/
theorem dropRepeated_range (h : Host) (polygon n : Nat) :
    dropRepeated (h.vertex polygon) (List.range n) []
      = (List.range n).filter (h.isFirst polygon) := by
  induction n with
  | zero => rfl
  | succ n ih =>
      rw [List.range_succ, dropRepeated_append, ih, List.filter_append, List.append_nil]
      congr 1
      have hfirst : ((List.range n).map (h.vertex polygon)).contains (h.vertex polygon n)
          = !h.isFirst polygon n := by
        rw [Bool.eq_iff_iff, List.contains_iff_mem, List.mem_map, Host.isFirst]
        simp
      rw [dropRepeated, hfirst, dropRepeated, List.filter_cons]
      cases h.isFirst polygon n <;> rfl

/-- The run that faces are made of. -/
theorem run_eq (h : Host) (removeDuplicates : Bool) (polygon : Nat) :
    (if removeDuplicates then
        dropRepeated (h.vertex polygon) (List.range (h.vertexCount polygon)) []
      else List.range (h.vertexCount polygon)) = h.run removeDuplicates polygon := by
  cases removeDuplicates with
  | false =>
      rw [if_neg (by simp), Host.run]
      exact (List.filter_eq_self.mpr fun _ _ => rfl).symm
  | true =>
      rw [if_pos rfl, dropRepeated_range, Host.run]
      simp

/-! ## Rings -/

/-- Cutting the rest of a run moves no vertex and makes no empty ring. -/
theorem Cut.ofRun_spec (h : Host) (mesh : String) (polygon : Nat) (is : List Nat)
    (records : List HoleRecord) :
    (Cut.ofRun h mesh polygon is records).continued
        ++ (Cut.ofRun h mesh polygon is records).rings.flatten = is
      ∧ ∀ ring ∈ (Cut.ofRun h mesh polygon is records).rings, ring ≠ [] := by
  induction is generalizing records with
  | nil => exact ⟨rfl, fun ring hring => absurd hring (by simp [ofRun])⟩
  | cons i is ih =>
      rw [ofRun]
      split
      · obtain ⟨hflat, hrings⟩ := ih records
        exact ⟨by rw [List.cons_append, hflat], hrings⟩
      · obtain ⟨hflat, hrings⟩ :=
          ih (records.eraseP (HoleRecord.beginsAt polygon (h.vertex polygon i)))
        refine ⟨?_, ?_⟩
        · rw [List.flatten_cons, List.nil_append, List.cons_append, hflat]
        · intro ring hring
          rcases List.mem_cons.mp hring with rfl | hring
          · simp
          · exact hrings ring hring

/-- Cutting a run moves no vertex and makes no empty ring. -/
theorem Rings.ofRun_spec (h : Host) (mesh : String) (polygon : Nat) {run : List Nat}
    (hrun : run ≠ []) (records : List HoleRecord) :
    let rings := (Rings.ofRun h mesh polygon run records).value.1
    rings.outline ++ rings.holes.flatten = run ∧ rings.outline ≠ []
      ∧ ∀ hole ∈ rings.holes, hole ≠ [] := by
  cases run with
  | nil => exact absurd rfl hrun
  | cons i is =>
      obtain ⟨hflat, hrings⟩ := Cut.ofRun_spec h mesh polygon is records
      exact ⟨congrArg (i :: ·) hflat, by simp [Rings.ofRun], hrings⟩

/-! ## Faces of polygons -/

namespace Faces

/-- The polygon that has the faces. -/
def polygon : Faces → Nat
  | triangles p _ | plain p _ | holed p _ => p

/-- The face vertices of the faces, by position. -/
def run : Faces → List Nat
  | triangles _ ts => ts.flatMap Triangle.corners
  | plain _ run => run
  | holed _ rings => rings.outline ++ rings.holes.flatten

/-- The face vertices of the faces. -/
def vertices (f : Faces) : List (Nat × Nat) := f.run.map (f.polygon, ·)

/-- What faces look like in an export that writes triangles or not. -/
def IsProper (triangulated : Bool) : Faces → Prop
  | triangles _ _ => triangulated = true
  | plain _ run => 3 ≤ run.length ∧ (triangulated = true → run.length = 3)
  | holed _ rings =>
      triangulated = false ∧ rings.outline ≠ [] ∧ ∀ hole ∈ rings.holes, hole ≠ []

variable (h : Host) (mesh : String) (removeDuplicates triangulated : Bool)

/-- The one face of a run, and the hole records that are still unused. -/
def ofRun (polygon : Nat) (run : List Nat) (records : List HoleRecord) :
    Faces × List HoleRecord :=
  if h.isHoled polygon = true ∧ triangulated = false then
    let cut := (Rings.ofRun h mesh polygon run records).value
    (holed polygon cut.1, cut.2)
  else (plain polygon run, records)

/-- The faces of a polygon by cases: triangles, too few vertices, or one face. -/
theorem ofPolygon_value (p : Nat) (records : List HoleRecord) :
    (ofPolygon h mesh removeDuplicates triangulated p records).value =
      if triangulated = true ∧ 3 < h.vertexCount p then
        (some (triangles p ((h.triangles p).getD [])), records)
      else if h.vertexCount p < 3 then (none, records)
      else
        let face := ofRun h mesh triangulated p (h.run removeDuplicates p) records
        (if (h.run removeDuplicates p).length < 3 then none else some face.1, face.2) := by
  unfold ofPolygon ofRun
  by_cases htriangles : triangulated = true ∧ 3 < h.vertexCount p
  · simp [htriangles]
  · have hno : (triangulated && decide (3 < h.vertexCount p)) = false := by
      simpa using htriangles
    simp only [hno, htriangles, Bool.false_eq_true, if_false]
    by_cases hsmall : h.vertexCount p < 3
    · simp [hsmall]
    · simp only [hsmall, if_false, run_eq]
      by_cases hholed : h.isHoled p = true ∧ triangulated = false
      · by_cases hshort : (h.run removeDuplicates p).length < 3 <;> simp [hholed, hshort]
      · have hplain : (h.isHoled p && !triangulated) = false := by
          simpa using hholed
        by_cases hshort : (h.run removeDuplicates p).length < 3 <;>
          simp [hholed, hplain, hshort]

/-- Whether a polygon has faces does not depend on the hole records. -/
theorem isSome_ofPolygon (p : Nat) (records : List HoleRecord) :
    (ofPolygon h mesh removeDuplicates triangulated p records).value.1.isSome
      = h.hasFaces removeDuplicates triangulated p := by
  have hle := h.length_run_le removeDuplicates p
  rw [ofPolygon_value, Host.hasFaces]
  by_cases htriangles : triangulated = true ∧ 3 < h.vertexCount p
  · simp [htriangles]
  · have hno : (triangulated && decide (3 < h.vertexCount p)) = false := by
      simpa using htriangles
    rw [if_neg htriangles, hno, Bool.false_or]
    by_cases hsmall : h.vertexCount p < 3
    · rw [if_pos hsmall, decide_eq_false (by omega)]
      rfl
    · rw [if_neg hsmall]
      by_cases hshort : (h.run removeDuplicates p).length < 3
      · simp [hshort]
      · simp [hshort, Nat.le_of_not_lt hshort]

/-- The face of a run has its vertices. -/
theorem ofRun_spec (p : Nat) {run : List Nat} (hrun : 3 ≤ run.length)
    (htriangulated : triangulated = true → run.length = 3) (records : List HoleRecord) :
    let f := (ofRun h mesh triangulated p run records).1
    f.polygon = p ∧ f.run = run ∧ f.IsProper triangulated := by
  intro f
  by_cases hholed : h.isHoled p = true ∧ triangulated = false
  · have hne : run ≠ [] := by
      rintro rfl
      simp at hrun
    obtain ⟨hflat, houtline, hholes⟩ := Rings.ofRun_spec h mesh p hne records
    have hf : f = holed p (Rings.ofRun h mesh p run records).value.1 := by
      simp only [f, ofRun, if_pos hholed]
    rw [hf]
    exact ⟨rfl, hflat, hholed.2, houtline, hholes⟩
  · have hf : f = plain p run := by
      simp only [f, ofRun, if_neg hholed]
    rw [hf]
    exact ⟨rfl, rfl, hrun, htriangulated⟩

/-- The faces of a polygon have the vertices that are written of it. -/
theorem ofPolygon_spec (p : Nat) (records : List HoleRecord) :
    match (ofPolygon h mesh removeDuplicates triangulated p records).value.1 with
    | some f => f.polygon = p ∧ f.run = h.writtenRun removeDuplicates triangulated p
        ∧ f.IsProper triangulated
    | none => h.writtenRun removeDuplicates triangulated p = [] := by
  have hle := h.length_run_le removeDuplicates p
  rw [ofPolygon_value, Host.writtenRun]
  -- Triangles first: then duplicates are not removed, and holes do not matter.
  by_cases htriangles : triangulated = true ∧ 3 < h.vertexCount p
  · rw [if_pos htriangles, if_pos htriangles]
    exact ⟨rfl, rfl, htriangles.1⟩
  · rw [if_neg htriangles, if_neg htriangles]
    -- A polygon can be too small from the start, or only behind the removal of duplicates.
    by_cases hsmall : h.vertexCount p < 3
    · rw [if_pos hsmall, if_pos (by omega)]
    · rw [if_neg hsmall]
      by_cases hshort : (h.run removeDuplicates p).length < 3
      · simp only [if_pos hshort]
      · simp only [if_neg hshort]
        refine ofRun_spec h mesh triangulated p (by omega) ?_ records
        -- A polygon that is not cut into triangles in spite of the option is one already.
        intro htriangulated
        have hsize : ¬ 3 < h.vertexCount p := fun hsize => htriangles ⟨htriangulated, hsize⟩
        omega

/-- **The faces of polygons have the vertices that are written of them**, in order. -/
theorem ofPolygons_spec (ps : List Nat) (records : List HoleRecord) :
    let fs := (ofPolygons h mesh removeDuplicates triangulated ps records).value.1
    fs.flatMap vertices
        = ps.flatMap (fun p => (h.writtenRun removeDuplicates triangulated p).map (p, ·))
      ∧ ∀ f ∈ fs, f.IsProper triangulated := by
  induction ps generalizing records with
  | nil => exact ⟨rfl, fun f hf => absurd hf (by simp [ofPolygons])⟩
  | cons p ps ih =>
      have hp := ofPolygon_spec h mesh removeDuplicates triangulated p records
      obtain ⟨hrest, hproper⟩ :=
        ih (ofPolygon h mesh removeDuplicates triangulated p records).value.2
      show ((ofPolygon h mesh removeDuplicates triangulated p records).value.1.toList
            ++ _).flatMap _ = _
          ∧ ∀ f ∈ ((ofPolygon h mesh removeDuplicates triangulated p records).value.1.toList ++ _),
            f.IsProper triangulated
      rw [List.flatMap_append, List.flatMap_cons, hrest]
      cases hfaces : (ofPolygon h mesh removeDuplicates triangulated p records).value.1 with
      | none =>
          rw [hfaces] at hp
          have hnil : h.writtenRun removeDuplicates triangulated p = [] := hp
          rw [hnil]
          exact ⟨rfl, hproper⟩
      | some f =>
          rw [hfaces] at hp
          obtain ⟨hpolygon, hrun, hf⟩ :
            f.polygon = p ∧ f.run = h.writtenRun removeDuplicates triangulated p
              ∧ f.IsProper triangulated := hp
          refine ⟨?_, ?_⟩
          · rw [← hrun, ← hpolygon]
            simp [vertices]
          · intro f' hf'
            rcases List.mem_cons.mp hf' with rfl | hf'
            · exact hf
            · exact hproper f' hf'

end Faces

end MeshWeave
