import MeshWeave.Proofs.Reader.Registers

set_option autoImplicit false

/-! # The registers agree with each other

The registers of a decoder are updated one by one, and yet they never contradict each other:
`Registers.Protocol` lists what always holds of them, whatever events arrive and in whatever order.
None of its parts can be shown without the others. That an open run has an element and a primitive,
for example, follows from the phases that it is open in, and these are only known because the phase
does not change while it is open.

Behind the protocol nothing that a callback looks for is ever missing. -/

namespace MeshWeave

namespace Registers

/-- What holds of the registers between any two events. -/
structure Protocol (m : Registers) : Prop where
  /-- No element is open just if there is no primitive. -/
  idle_iff : m.phase = .idle ↔ m.primitive = none
  /-- There is a primitive just if there is an element. -/
  primitive_iff : m.primitive = none ↔ m.element = none
  /-- Inputs are only kept while an element is open. -/
  inputs_eq : m.phase = .idle → m.inputs = .empty
  /-- Polygon vertices are only read where index elements may open. -/
  polygon : m.openRun = some .polygon → m.phase = .indexing ∨ m.phase = .holed
  /-- Hole vertices are only read in polygons with holes. -/
  hole : m.openRun = some .hole → m.phase = .holed
  /-- Only a list of polygons has vertex counts. -/
  counting : m.phase = .counting → m.element = some .polylist
  /-- Only among single polygons some have holes. -/
  holed : m.phase = .holed → m.element = some .polygons
  /-- Holes belong to a face that was read. -/
  holeFace : ∀ face, m.holeFace = some face → m.phase = .holed ∧ face.toNat < m.faces
  /-- A tuple is only begun in an open run. -/
  position : m.stream.offset ≠ 0 → m.openRun ≠ none
  /-- Sources do not stand in primitive elements. -/
  source : m.source ≠ none → m.phase = .idle

namespace Protocol

variable {m : Registers} (h : m.Protocol)

include h

/-! ## What the protocol says of a state -/

theorem element_iff : m.phase = .idle ↔ m.element = none := h.idle_iff.trans h.primitive_iff

/-- While an element is open it is known, and so is its primitive. -/
theorem exists_of_ne_idle (hphase : m.phase ≠ .idle) :
    ∃ element p, m.element = some element ∧ m.primitive = some p := by
  obtain ⟨element, helement⟩ := Option.ne_none_iff_exists'.mp (mt h.element_iff.mpr hphase)
  obtain ⟨p, hp⟩ := Option.ne_none_iff_exists'.mp (mt h.idle_iff.mpr hphase)
  exact ⟨element, p, helement, hp⟩

theorem source_eq_none (hphase : m.phase ≠ .idle) : m.source = none :=
  Decidable.not_not.mp (mt h.source hphase)

theorem phase_of_run {kind : RunKind} (hrun : m.openRun = some kind) :
    m.phase = .indexing ∨ m.phase = .holed := by
  cases kind with
  | polygon => exact h.polygon hrun
  | hole => exact Or.inr (h.hole hrun)

/-- Runs are only open in elements. -/
theorem ne_idle_of_run {kind : RunKind} (hrun : m.openRun = some kind) : m.phase ≠ .idle := by
  rcases h.phase_of_run hrun with hphase | hphase <;> rw [hphase] <;> simp

/-- Outside of the places of index elements no run is open. -/
theorem openRun_eq_none (hindexing : m.phase ≠ .indexing) (hholed : m.phase ≠ .holed) :
    m.openRun = none := by
  cases hrun : m.openRun with
  | none => rfl
  | some kind =>
      rcases h.phase_of_run hrun with hphase | hphase
      · exact absurd hphase hindexing
      · exact absurd hphase hholed

theorem holeFace_eq_none (hphase : m.phase ≠ .holed) : m.holeFace = none := by
  cases hface : m.holeFace with
  | none => rfl
  | some face => exact absurd (h.holeFace face hface).1 hphase

end Protocol

/-! ## The end of the declaration of inputs -/

theorem phase_settle {m : Registers} (hphase : m.phase = .declaring) :
    m.settle.phase = .indexing := by
  rw [settle, if_pos hphase]

theorem settle_of_ne {m : Registers} (hphase : m.phase ≠ .declaring) : m.settle = m := by
  rw [settle, if_neg hphase]

theorem settle_ne_idle {m : Registers} (hphase : m.phase ≠ .idle) : m.settle.phase ≠ .idle := by
  by_cases hdeclaring : m.phase = .declaring
  · rw [phase_settle hdeclaring]
    simp
  · rwa [settle_of_ne hdeclaring]

theorem element_settle (m : Registers) : m.settle.element = m.element := by
  unfold settle
  split <;> rfl

theorem openRun_settle (m : Registers) : m.settle.openRun = m.openRun := by
  unfold settle
  split <;> rfl

/-! ## What keeps the protocol -/

theorem protocol_start (id name : String) : (start id name).Protocol where
  idle_iff := by simp [start]
  primitive_iff := by simp [start]
  inputs_eq _ := rfl
  polygon := by simp [start]
  hole := by simp [start]
  counting := by simp [start]
  holed := by simp [start]
  holeFace := by simp [start]
  position := by simp [start, Stream.unused]
  source := by simp [start]

namespace Protocol

variable {m : Registers}

/-- A new element starts with registers of its own. -/
theorem openPrimitive (element : Element) (symbol : String) (hsource : m.source = none) :
    (m.openPrimitive element symbol).Protocol where
  idle_iff := by simp [Registers.openPrimitive]
  primitive_iff := by simp [Registers.openPrimitive]
  inputs_eq _ := rfl
  polygon := by simp [Registers.openPrimitive]
  hole := by simp [Registers.openPrimitive]
  counting := by simp [Registers.openPrimitive]
  holed := by simp [Registers.openPrimitive]
  holeFace := by simp [Registers.openPrimitive]
  position := by simp [Registers.openPrimitive, Stream.unused]
  source hopen := absurd hsource hopen

variable (h : m.Protocol)

include h

theorem takeIf {place : Prop} [Decidable place] {m' : Registers} (h' : place → m'.Protocol) :
    (m.takeIf place m').2.Protocol := by
  unfold Registers.takeIf
  split
  · next hplace => exact h' hplace
  · exact h

theorem onSource (f : Source → Option Source) : (m.onSource f).2.Protocol := by
  unfold Registers.onSource
  split
  · next s hs =>
      -- A changed source was open before.
      have hopen : m.source ≠ none := by
        intro hnone
        simp [hnone] at hs
      exact { h with source := fun _ => h.source hopen }
  · exact h

theorem closeSource : m.closeSource.2.Protocol := by
  unfold Registers.closeSource
  split
  · exact { h with source := fun hopen => absurd rfl hopen }
  · exact h

/-- Inputs are declared while an element is open. -/
theorem setInputs (inputs : InputList) (hphase : m.phase ≠ .idle) :
    ({ m with inputs } : Registers).Protocol :=
  { h with inputs_eq := fun hidle => absurd hidle hphase }

/-- Between runs an open element may change to a phase that has its place there. -/
theorem setPhase {phase : Phase} (hopen : m.phase ≠ .idle) (hphase : phase ≠ .idle)
    (hrun : m.openRun = none) (hface : m.holeFace = none)
    (hcounting : phase = .counting → m.element = some .polylist)
    (hholed : phase = .holed → m.element = some .polygons) :
    ({ m with phase } : Registers).Protocol where
  idle_iff := iff_of_false hphase (mt h.idle_iff.mpr hopen)
  primitive_iff := h.primitive_iff
  inputs_eq hidle := absurd hidle hphase
  polygon hpolygon := absurd (hrun.symm.trans hpolygon) (by simp)
  hole hhole := absurd (hrun.symm.trans hhole) (by simp)
  counting := hcounting
  holed := hholed
  holeFace face hholes := absurd (hface.symm.trans hholes) (by simp)
  position := h.position
  source hsource := absurd (h.source hsource) hopen

/-- The primitive of an open element may be exchanged. -/
theorem setPrimitive (p : Primitive) (hopen : m.phase ≠ .idle) :
    ({ m with primitive := some p } : Registers).Protocol :=
  { h with
    idle_iff := iff_of_false hopen (by simp)
    primitive_iff := iff_of_false (by simp) (mt h.element_iff.mpr hopen) }

/-- Holes may stop to have a face. -/
theorem clearFace : ({ m with holeFace := none } : Registers).Protocol :=
  { h with holeFace := fun _ hface => absurd hface (by simp) }

/-- The number of faces may grow. -/
theorem addFaces (n : Nat) : ({ m with faces := m.faces + n } : Registers).Protocol :=
  { h with
    holeFace := fun face hface =>
      ⟨(h.holeFace face hface).1, Nat.lt_add_right n (h.holeFace face hface).2⟩ }

/-- An open run may be closed. -/
theorem endRun : m.endRun.Protocol :=
  { h with
    idle_iff := h.idle_iff.trans Option.map_eq_none_iff.symm
    primitive_iff := Option.map_eq_none_iff.trans h.primitive_iff
    polygon := fun hpolygon => absurd hpolygon (by simp [Registers.endRun])
    hole := fun hhole => absurd hhole (by simp [Registers.endRun])
    position := fun hne => absurd rfl hne }

theorem settle : m.settle.Protocol := by
  unfold Registers.settle
  split
  · next hphase =>
      have hopen : m.phase ≠ .idle := by simp [hphase]
      have hholed : m.phase ≠ .holed := by simp [hphase]
      have hrun := h.openRun_eq_none (by simp [hphase]) hholed
      have hindexing : ({ m with phase := .indexing } : Registers).Protocol :=
        h.setPhase hopen (by simp) hrun (h.holeFace_eq_none hholed) (by simp) (by simp)
      exact { hindexing with position := fun hne => absurd rfl hne }
  · exact h

theorem addCount (n : Nat) (hopen : m.phase ≠ .idle) : (m.addCount n).Protocol := by
  obtain ⟨element, p, -, hp⟩ := h.exists_of_ne_idle hopen
  unfold Registers.addCount
  rw [hp]
  exact { h.setPrimitive _ hopen with }

theorem addCounts (values : List Nat) : (m.addCounts values).2.Protocol := by
  have hfold : m.phase = .counting → (values.foldl Registers.addCount m).Protocol := by
    intro hphase
    induction values generalizing m with
    | nil => exact h
    | cons n ns ih => exact ih (h.addCount n (by simp [hphase])) hphase
  unfold Registers.addCounts
  split
  · next hphase =>
      split
      · exact hfold hphase
      · exact h
  · exact h

/-- A run opens where it may. -/
theorem beginRun (kind : RunKind)
    (hphase : m.phase = .holed ∨ m.phase = .indexing ∧ kind = .polygon) :
    (m.beginRun kind).Protocol :=
  { h with
    polygon := fun _ => by
      rcases hphase with hholed | ⟨hindexing, -⟩
      · exact Or.inr hholed
      · exact Or.inl hindexing
    hole := fun hhole => by
      rcases hphase with hholed | ⟨-, rfl⟩
      · exact hholed
      · exact absurd hhole (by simp [Registers.beginRun])
    position := fun hne => absurd rfl hne }

theorem addValues (kind : RunKind) (values : List Nat) : (m.addValues kind values).2.Protocol := by
  unfold Registers.addValues
  split
  · next hrun =>
      split
      · exact h
      · split
        · exact { h.setPrimitive _ (h.ne_idle_of_run hrun) with
            position := fun _ => Option.ne_none_iff_exists'.mpr ⟨kind, hrun⟩ }
        · exact h
  · exact h

/-- The polygon that was read becomes the face of the holes behind it. -/
theorem addPolygonRun (element : Element) (p : Primitive) (hopen : m.phase ≠ .idle) :
    (m.addPolygonRun element p).Protocol := by
  have hp := h.setPrimitive (p.pushCount (vertexCountEntry m.stream.tuples)) hopen
  cases element with
  | triangles => exact { h with }
  | polylist => exact { h with }
  | polygons =>
      have hcleared : (if m.phase = .holed then none else m.holeFace) = none := by
        split
        · rfl
        · next hphase => exact h.holeFace_eq_none hphase
      unfold Registers.addPolygonRun
      simp only [hcleared]
      split
      · exact h.clearFace
      · refine { hp with holeFace := ?_ }
        intro face hface
        by_cases hphase : m.phase = .holed
        · obtain rfl : Index.face m.faces = face := by simpa [hphase] using hface
          refine ⟨hphase, Nat.lt_succ_of_le ?_⟩
          exact Nat.mod_le _ _
        · exact absurd hface (by simp [hphase])
  | tristrips | trifans =>
      unfold Registers.addPolygonRun
      dsimp only
      split
      · exact { hp.addFaces (m.stream.tuples - 2) with }
      · exact h.setPrimitive _ hopen

theorem closePolygonRun : m.closePolygonRun.2.Protocol := by
  unfold Registers.closePolygonRun
  split
  · next hrun =>
      dsimp only
      split
      · exact h.endRun.addPolygonRun _ _ (h.ne_idle_of_run hrun)
      · exact h.endRun
  · exact h

theorem addHoleRun (hopen : m.phase ≠ .idle) : m.addHoleRun.Protocol := by
  unfold Registers.addHoleRun
  split
  · split
    · exact { h.setPrimitive _ hopen with }
    · exact h
  · exact h

theorem closeRun (kind : RunKind) : (m.closeRun kind).2.Protocol := by
  cases kind with
  | polygon => exact h.closePolygonRun
  | hole => exact h.takeIf fun hrun => h.endRun.addHoleRun (h.ne_idle_of_run hrun)

/-- With the element everything is over that belongs to it. -/
theorem closePrimitive : m.closePrimitive.2.Protocol := by
  unfold Registers.closePrimitive
  split
  · next hplace =>
      obtain ⟨hphase, hrun⟩ := hplace
      have hopen : m.phase ≠ .idle := by simp [hphase]
      have hclosed : ({ m with
          phase := .idle, inputs := .empty, element := none, primitive := none } :
          Registers).Protocol :=
        { h with
          idle_iff := iff_of_true rfl rfl
          primitive_iff := iff_of_true rfl rfl
          inputs_eq := fun _ => rfl
          polygon := fun hpolygon => absurd (hrun.symm.trans hpolygon) (by simp)
          hole := fun hhole => absurd (hrun.symm.trans hhole) (by simp)
          counting := fun hcounting => absurd hcounting (by simp)
          holed := fun hholed => absurd hholed (by simp)
          holeFace := fun face hface =>
            absurd ((h.holeFace_eq_none (by simp [hphase])).symm.trans hface) (by simp)
          source := fun _ => rfl }
      split
      · exact { hclosed with }
      · exact hclosed
  · exact h

/-- **Every event keeps the protocol**, whether it has its place or not. -/
theorem step (e : Event) : (m.step e).2.Protocol := by
  cases e with
  | addSource s => exact { h with }
  | openSource id =>
      exact h.takeIf fun hplace => { h with source := fun _ => hplace.2 }
  | openArray type => exact h.onSource _
  | floats values => exact h.onSource _
  | doubles values => exact h.onSource _
  | ints values => exact h.onSource _
  | accessor stride => exact h.onSource _
  | param name type => exact h.onSource _
  | closeSource => exact h.closeSource
  | openVertices id name => exact h.takeIf fun _ => { h with }
  | vertexInput semantic source => exact h.takeIf fun _ => { h with }
  | closeVertices => exact h.takeIf fun _ => { h with }
  | openPrimitive element material =>
      exact h.takeIf fun hplace => Protocol.openPrimitive element _ hplace.2
  | input i => exact h.takeIf fun hphase => h.setInputs _ (by simp [hphase])
  | openCounts =>
      refine h.takeIf fun hplace => ?_
      obtain ⟨hphase, helement⟩ := hplace
      have hsettled : m.settle.phase = .indexing := phase_settle hphase
      have hrun : m.settle.openRun = none := by
        rw [openRun_settle]
        exact h.openRun_eq_none (by simp [hphase]) (by simp [hphase])
      exact h.settle.setPhase (by simp [hsettled]) (by simp) hrun
        (h.settle.holeFace_eq_none (by simp [hsettled]))
        (fun _ => (element_settle m).trans helement) (by simp)
  | counts values => exact h.addCounts values
  | closeCounts =>
      refine h.takeIf fun hphase => ?_
      have hrun := h.openRun_eq_none (by simp [hphase]) (by simp [hphase])
      exact h.setPhase (by simp [hphase]) (by simp) hrun (h.holeFace_eq_none (by simp [hphase]))
        (by simp) (by simp)
  | openRun kind =>
      cases kind with
      | polygon =>
          refine h.settle.takeIf fun hplace => h.settle.beginRun .polygon ?_
          rcases hplace.1 with hphase | hphase
          · exact Or.inr ⟨hphase, rfl⟩
          · exact Or.inl hphase
      | hole => exact h.takeIf fun hplace => h.beginRun .hole (Or.inl hplace.1)
  | indices kind values => exact h.addValues kind values
  | closeRun kind => exact h.closeRun kind
  | openHoled =>
      refine h.settle.takeIf fun hplace => ?_
      obtain ⟨hphase, hrun, helement⟩ := hplace
      exact h.settle.clearFace.setPhase (by simp [hphase]) (by simp) hrun rfl (by simp)
        (fun _ => helement)
  | closeHoled =>
      refine h.takeIf fun hplace => ?_
      obtain ⟨hphase, hrun⟩ := hplace
      exact h.clearFace.setPhase (by simp [hphase]) (by simp) hrun rfl (by simp) (by simp)
  | closePrimitive => exact h.settle.closePrimitive

/-- The protocol holds after any events. -/
theorem after (es : List Event) : (m.after es).Protocol := by
  induction es generalizing m with
  | nil => exact h
  | cons e es ih => exact ih (h.step e)

end Protocol

/-! ## Nothing is missing -/

theorem takeIf_ne_broken (m : Registers) (place : Prop) [Decidable place] (m' : Registers) :
    (m.takeIf place m').1 ≠ .broken := by
  unfold takeIf
  split <;> simp

theorem onSource_ne_broken (m : Registers) (f : Source → Option Source) :
    (m.onSource f).1 ≠ .broken := by
  unfold onSource
  split <;> simp

namespace Protocol

variable {m : Registers} (h : m.Protocol)

include h

theorem addCounts_ne_broken (values : List Nat) : (m.addCounts values).1 ≠ .broken := by
  unfold Registers.addCounts
  split
  · next hphase =>
      obtain ⟨element, p, -, hp⟩ := h.exists_of_ne_idle (by simp [hphase])
      simp [hp]
  · simp

theorem addValues_ne_broken (kind : RunKind) (values : List Nat) :
    (m.addValues kind values).1 ≠ .broken := by
  unfold Registers.addValues
  split
  · next hrun =>
      obtain ⟨element, p, -, hp⟩ := h.exists_of_ne_idle (h.ne_idle_of_run hrun)
      split <;> simp [hp]
  · simp

theorem closePolygonRun_ne_broken : m.closePolygonRun.1 ≠ .broken := by
  unfold Registers.closePolygonRun
  split
  · next hrun =>
      have hopen : m.endRun.phase ≠ .idle := h.ne_idle_of_run hrun
      obtain ⟨element, p, helement, hp⟩ := h.endRun.exists_of_ne_idle hopen
      simp [helement, hp]
  · simp

theorem closePrimitive_ne_broken : m.closePrimitive.1 ≠ .broken := by
  unfold Registers.closePrimitive
  split
  · next hplace =>
      obtain ⟨element, p, helement, hp⟩ := h.exists_of_ne_idle (by simp [hplace.1])
      simp [helement, hp]
  · simp

/-- **No callback misses what it looks for.** -/
theorem step_ne_broken (e : Event) : (m.step e).1 ≠ .broken := by
  cases e with
  | addSource s => simp [Registers.step]
  | openArray type => exact m.onSource_ne_broken _
  | floats values => exact m.onSource_ne_broken _
  | doubles values => exact m.onSource_ne_broken _
  | ints values => exact m.onSource_ne_broken _
  | accessor stride => exact m.onSource_ne_broken _
  | param name type => exact m.onSource_ne_broken _
  | closeSource =>
      show m.closeSource.1 ≠ .broken
      unfold Registers.closeSource
      split <;> simp
  | counts values => exact h.addCounts_ne_broken values
  | openRun kind => cases kind <;> exact takeIf_ne_broken _ _ _
  | indices kind values => exact h.addValues_ne_broken kind values
  | closeRun kind =>
      cases kind with
      | polygon => exact h.closePolygonRun_ne_broken
      | hole => exact takeIf_ne_broken _ _ _
  | closePrimitive => exact h.settle.closePrimitive_ne_broken
  | _ => exact takeIf_ne_broken _ _ _

end Protocol

end Registers

end MeshWeave
