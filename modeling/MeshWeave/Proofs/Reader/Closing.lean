import MeshWeave.Proofs.Reader.Showing
import MeshWeave.Proofs.Reader.Tallies

set_option autoImplicit false

/-! # What the registers keep

When an index element ends, a decoder takes back what is not complete, and counts what is left. When
the primitive element ends it looks at its counters, and adds the primitive to the mesh or drops it.
Registers that show a reader before still show it afterwards, and the primitives that are kept are
the same: by then the index arrays do not differ any more. -/

namespace MeshWeave

namespace Registers

/-! ## The end of a run -/

section Ending

variable {m : Registers} {d : Layout} {p : Primitive} {a : Assembly} (hd : m.Displays d p a)
  (hstage : a.stage ≠ .declaring) {run : Run} (hrun : a.run = some run)

/-- A polygon that is read inside of one with holes becomes its face. -/
theorem stage_setFace (hd : m.Displays d p a) (face other : Option UInt32) :
    ({ m with holeFace := if m.phase = .holed then face else other } : Registers).stage
      = some (a.stage.afterPolygon face) := by
  have hstage := hd.stage_eq
  generalize a.stage = s at hstage ⊢
  unfold stage at hstage ⊢
  cases hphase : m.phase <;> simp only [hphase] at hstage ⊢ <;> cases hstage <;> rfl

include hd hstage hrun

/-- A run whose complete tuples stand behind those of earlier runs. -/
theorem displays_endRun :
    m.endRun.Displays d (m.stream.finish m.runStart p) { a with run := none } :=
  { hd with
    primitive_eq := by rw [endRun, hd.primitive_eq, Option.map_some]
    openRun_eq := rfl
    fresh := fun hfresh => absurd hfresh hstage
    rests := fun _ => (hd.runs run hrun).keep Or.inl
    runs := nofun }

/-- A run that is not a face. -/
theorem displays_skipRun (holeFace : Option UInt32) (s : Stage)
    (hs : ({ m with holeFace } : Registers).stage = some s) (hdeclaring : s ≠ .declaring) :
    Displays { m.endRun with holeFace } d (m.stream.finish m.runStart p)
      { a with run := none, stage := s } :=
  { displays_endRun hd hstage hrun with
    stage_eq := hs
    fresh := fun hfresh => absurd hfresh hdeclaring }

/-- A run of triangles or of polygons in a list. -/
theorem displays_addVertices :
    Displays { m.endRun with vertexCount := m.vertexCount + m.stream.tuples } d
      (m.stream.finish m.runStart p)
      { a with run := none, supplied := a.supplied + run.tuples } :=
  have hruns := hd.runs run hrun
  { displays_endRun hd hstage hrun with
    supplied_eq := fun h => by rw [hruns.tuples_eq, hd.supplied_eq h]
    fresh := fun hfresh => absurd hfresh hstage
    rests := fun _ => hruns.keep fun hkept => by
      unfold HasKept at hkept ⊢
      dsimp only [endRun] at hkept
      omega
    runs := nofun }

/-- A run that is a face, or some. -/
theorem displays_addFaces (helement : a.element ≠ .triangles ∧ a.element ≠ .polylist)
    (htuples : run.tuples ≠ 0) (n : Int) (faces groups : Nat) (holeFace : Option UInt32) (s : Stage)
    (hs : ({ m with holeFace } : Registers).stage = some s) (hdeclaring : s ≠ .declaring) :
    Displays
      { m.endRun with
        primitive := some ((m.stream.finish m.runStart p).pushCount n)
        holeFace
        faces := m.faces + faces
        groups
        vertexCount := m.vertexCount + m.stream.tuples } d
      ((m.stream.finish m.runStart p).pushCount n)
      { a with
        run := none
        primitive := a.primitive.pushCount n
        stage := s
        faces := a.faces + faces } :=
  have hruns := hd.runs run hrun
  { displays_endRun hd hstage hrun with
    stage_eq := hs
    primitive_eq := rfl
    supplied_eq := fun h => absurd h (not_or.mpr helement)
    faces_eq := congrArg (· + faces) hd.faces_eq
    fresh := fun hfresh => absurd hfresh hdeclaring
    rests := fun _ => (hruns.keep fun _ => Or.inr (hruns.tuples_eq ▸ htuples)).pushCount n
    runs := nofun }

/-- A run that is too short. -/
theorem displays_dropRun :
    Displays
      { m.endRun with
        primitive := some ((m.stream.finish m.runStart p).restore m.runStart) } d
      ((m.stream.finish m.runStart p).restore m.runStart)
      { a with run := none, primitive := a.primitive.restore run.start } :=
  { displays_endRun hd hstage hrun with
    primitive_eq := rfl
    fresh := fun hfresh => absurd hfresh hstage
    rests := fun _ => (hd.runs run hrun).drop
    runs := nofun }

/-- A run of polygon vertices that has ended. -/
theorem displays_addPolygonRun (mesh : String) :
    ∃ p', (m.endRun.addPolygonRun a.element (m.stream.finish m.runStart p)).Displays d p'
      (({ a with run := none } : Assembly).addPolygonRun mesh run).value := by
  have htuples : m.endRun.stream.tuples = run.tuples := (hd.runs run hrun).tuples_eq.symm
  have hset := stage_setFace (displays_endRun hd hstage hrun)
  have hafter (face : Option UInt32) : a.stage.afterPolygon face ≠ .declaring := by
    cases hs : a.stage <;> simp_all [Stage.afterPolygon]
  unfold Assembly.addPolygonRun Registers.addPolygonRun
  rw [htuples]
  obtain ⟨element, s, is, l, q, _, supplied, expected, faces⟩ := a
  obtain rfl : m.faces = faces := hd.faces_eq
  cases element with
  | triangles | polylist => exact ⟨_, htuples ▸ displays_addVertices hd hstage hrun⟩
  | polygons =>
      dsimp only
      by_cases hempty : run.tuples = 0
      · rw [if_pos hempty, if_pos (beq_iff_eq.mpr hempty)]
        exact ⟨_, displays_skipRun hd hstage hrun _ _ (hset none _) (hafter none)⟩
      · rw [if_neg hempty, if_neg (mt beq_iff_eq.mp hempty)]
        exact ⟨_, htuples ▸ displays_addFaces hd hstage hrun (by simp) hempty _ 1 m.groups _ _
          (hset (some (Index.face m.faces)) _) (hafter _)⟩
  | tristrips | trifans =>
      dsimp only
      by_cases hshort : run.tuples < 3
      · rw [if_neg (by omega), if_pos hshort]
        exact ⟨_, displays_dropRun hd hstage hrun⟩
      · rw [if_pos (by omega), if_neg hshort]
        exact ⟨_, htuples ▸ displays_addFaces hd hstage hrun (by simp) (by omega) _ _ _ _ _
          hd.stage_eq hstage⟩

/-- A run of hole vertices that has ended. -/
theorem displays_addHoleRun (hphase : m.phase = .holed) (helement : a.element = .polygons)
    (mesh : String) :
    ∃ p', m.endRun.addHoleRun.Displays d p'
      (({ a with run := none } : Assembly).addHoleRun mesh run).value := by
  have hruns := hd.runs run hrun
  have htuples : m.endRun.stream.tuples = run.tuples := hruns.tuples_eq.symm
  have hended := displays_endRun hd hstage hrun
  have hface : m.endRun.holeFace = m.holeFace := rfl
  have hholed := hd.eq_holed hphase
  unfold Registers.addHoleRun Assembly.addHoleRun
  rw [hended.primitive_eq, htuples, hface]
  obtain ⟨element, s, is, l, q, _, supplied, expected, faces⟩ := a
  cases hholes : m.holeFace with
  | none =>
      obtain rfl : s = .holed none := hholed.trans (by rw [hholes])
      exact ⟨_, hended⟩
  | some face =>
      obtain rfl : s = .holed (some face) := hholed.trans (by rw [hholes])
      dsimp only
      by_cases hempty : run.tuples = 0
      · rw [if_neg (by omega), if_pos (beq_iff_eq.mpr hempty)]
        exact ⟨_, hended⟩
      · rw [if_pos (by omega), if_neg (mt beq_iff_eq.mp hempty)]
        refine ⟨(m.stream.finish m.runStart p).pushHole face run.tuples, ?_⟩
        exact
          { hended with
            stage_eq := by
              rw [stage, show m.endRun.phase = .holed from hphase]
              rfl
            primitive_eq := rfl
            supplied_eq := fun h => absurd h (by simp [helement])
            fresh := fun hfresh => absurd hfresh hstage
            rests := fun _ =>
              (hruns.keep fun _ => Or.inr (hruns.tuples_eq ▸ hempty)).pushHole face run.tuples
            runs := nofun }

end Ending

/-! ## The end tag of a primitive element -/

/-- The number of faces does not depend on the index arrays. -/
theorem faces_trimmed (m : Registers) (element : Element) (p q : Primitive) :
    (m.trimmed element p).2 = (m.trimmed element q).2 := by
  cases element with
  | polylist =>
      unfold trimmed
      dsimp only
      split <;> rfl
  | _ => rfl

/-- Where there are faces, vertices were kept. -/
theorem hasKept_of_trimmed {m : Registers} {element : Element} {p : Primitive}
    (h : (m.trimmed element p).2 ≠ 0) : m.HasKept := by
  unfold trimmed at h
  unfold HasKept
  cases element with
  | triangles =>
      dsimp only at h
      omega
  | polylist =>
      dsimp only at h
      split at h
      · next hsupplied => exact Or.inl hsupplied.2
      · exact absurd rfl h
  | polygons | tristrips | trifans => exact Or.inr (Nat.pos_of_ne_zero h)

/-- What is kept of the primitive is what the reader keeps. -/
theorem finish_displayed {m : Registers} {d : Layout} {p : Primitive} {a : Assembly}
    (hd : m.Displays d p a) (hrun : a.run = none) (h : m.Tallied) (mesh : String) :
    (a.finish mesh).value
      = if (m.trimmed a.element p).2 = 0 then none
        else some { (m.trimmed a.element p).1 with faces := (m.trimmed a.element p).2 } := by
  have hrests := hd.rests hrun
  have hcounts := hrests.counts_eq
  have hkeep (q : Primitive) (faces : Nat) :
      (a.keep mesh q faces).value = if faces = 0 then none else some { q with faces } := by
    unfold Assembly.keep
    by_cases hfaces : faces = 0 <;> simp [hfaces]
  have hfinish : (a.finish mesh).value
      = if (m.trimmed a.element a.primitive).2 = 0 then none
        else some { (m.trimmed a.element a.primitive).1 with
          faces := (m.trimmed a.element a.primitive).2 } := by
    unfold Assembly.finish trimmed
    rw [hd.faces_eq, hd.expected_eq]
    cases helement : a.element with
    | triangles =>
        rw [hd.supplied_eq (Or.inl helement)]
        exact hkeep _ _
    | polylist =>
        have hentries := h.entries_eq (by rw [hd.element_eq, helement]) p hd.primitive_eq
        rw [hd.supplied_eq (Or.inr helement), hentries, hcounts]
        dsimp only
        split
        · exact hkeep _ _
        · exact hkeep _ _
    | polygons => exact hkeep _ _
    | tristrips =>
        rw [h.groups_eq (Or.inl (by rw [hd.element_eq, helement])) p hd.primitive_eq, hcounts]
        exact hkeep _ _
    | trifans =>
        rw [h.groups_eq (Or.inr (by rw [hd.element_eq, helement])) p hd.primitive_eq, hcounts]
        exact hkeep _ _
  by_cases hfaces : (m.trimmed a.element p).2 = 0
  · rw [hfinish, faces_trimmed m a.element a.primitive p, if_pos hfaces, if_pos hfaces]
  · rw [hfinish, hrests.eq_of_kept (hasKept_of_trimmed hfaces)]

end Registers

end MeshWeave
