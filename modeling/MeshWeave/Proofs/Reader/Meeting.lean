import MeshWeave.Proofs.Reader.Decoding
import MeshWeave.Proofs.Reader.Independence

set_option autoImplicit false

/-! # Elements with the same inputs

The layout of a primitive element follows from its inputs and from the sources that its reader
knows. What is behind the inputs does not matter: two readers that meet lay out elements with the
same inputs alike, however different the indices are, and meet again behind the elements. -/

namespace MeshWeave

/-- The vertices element has an input for positions, whose source is known and floating-point. -/
def Reader.KnowsPositions (r : Reader) : Prop :=
  ∃ i ∈ r.vertices.inputs, i.semantic = .position
    ∧ ∃ found, r.sources.find? i.sourceId = some found ∧ found.type.isFloating = true

namespace Session

variable {s s' : Session} {r r' : Reader}

/-! ## Two readers -/

/-- Readers that meet resolve the same inputs alike. -/
theorem resolution_of_meets (h : r.Meets r') (hinputs : s.inputs = s'.inputs) :
    (s.resolution r).sources = (s'.resolution r').sources
      ∧ (s.resolution r).layout = (s'.resolution r').layout
      ∧ ∀ k, (s.resolution r).mesh.buffer k = (s'.resolution r').mesh.buffer k := by
  have hview (s : Session) (r : Reader) : (s.resolution r).view
      = ((⟨r.mesh.vertexData, r.sources, .unused (s.inputList r.vertices).width⟩ :
          Resolution).resolveAll (s.inputList r.vertices).inputs).value :=
    (Resolution.resolveAll_view ⟨r.mesh, r.sources, .unused (s.inputList r.vertices).width⟩
      (s.inputList r.vertices).inputs).symm
  have hsame : (s.resolution r).view = (s'.resolution r').view := by
    rw [hview, hview, Mesh.vertexData_eq_iff.mpr h.buffer_eq, h.sources_eq, h.vertices_eq,
      inputList, inputList, hinputs]
  obtain ⟨hmesh, hsources, hlayout⟩ := Resolution.mk.inj hsame
  exact ⟨hsources, hlayout, Mesh.vertexData_eq_iff.mp hmesh⟩

/-- **Readers meet again** behind elements with the same inputs. -/
theorem behind_of_meets (h : r.Meets r') (hinputs : s.inputs = s'.inputs) :
    (s.behind r).Meets (s'.behind r') := by
  obtain ⟨hsources, -, hbuffer⟩ := resolution_of_meets h hinputs
  constructor
  · exact s.current_behind r
  · exact s'.current_behind r'
  · rw [source_behind, h.source]
  · rw [source_behind, h.source']
  · rw [sources_behind, sources_behind, hsources]
  · rw [vertices_behind, vertices_behind, h.vertices_eq]
  · intro k
    rw [buffer_behind, buffer_behind, hbuffer]

/-! ## Positions -/

/-- Sources that are known stay known, with the type that they have. -/
theorem knowsPositions_behind (s : Session) (h : r.KnowsPositions) :
    (s.behind r).KnowsPositions := by
  obtain ⟨i, hi, hsemantic, found, hfind, hfloating⟩ := h
  obtain ⟨later, hlater, hbecomes⟩ :=
    Resolution.keeps_resolveAll ⟨r.mesh, r.sources, .unused (s.inputList r.vertices).width⟩
      (s.inputList r.vertices).inputs _ found hfind
  refine ⟨i, ?_, hsemantic, later, ?_, ?_⟩
  · rwa [vertices_behind]
  · rw [sources_behind]
    exact hlater
  · rw [hbecomes.type_eq, hfloating]

/-- An element that refers to the vertices element reads positions. -/
theorem position_of_knowsPositions (h : r.KnowsPositions)
    (hvertex : ∃ i ∈ s.inputs, i.semantic = .vertex) :
    ∃ lane, (s.resolution r).layout.position = some lane := by
  obtain ⟨u, hu, hsemantic, found, hfind, hfloating⟩ := h
  obtain ⟨i, hi, hvertex⟩ := hvertex
  let j : SharedInput := { i with semantic := u.semantic, source := u.source }
  have hj : j ∈ (s.inputList r.vertices).inputs := by
    refine List.mem_flatMap.mpr ⟨i, hi, ?_⟩
    rw [SharedInput.expand_of_vertex hvertex]
    exact List.mem_map_of_mem hu
  obtain ⟨later, hlater, hbecomes⟩ :=
    Resolution.keeps_resolveAll ⟨r.mesh, r.sources, .unused (s.inputList r.vertices).width⟩
      (s.inputList r.vertices).inputs _ found hfind
  have hindexable : later.isIndexable .position = true := by
    rw [hbecomes.isIndexable_eq, Source.isIndexable, hfloating]
    rfl
  have husable : (s.resolution r).sources.usable? .position j = some later := by
    have hkind : DataKind.ofSemantic? j.semantic = some .position := by
      rw [show j.semantic = .position from hsemantic]
      rfl
    have hfound : (s.resolution r).sources.find? j.sourceId = some later := hlater
    rw [SourceTable.usable?_of_eq _ hkind, hfound, Option.filter_some, if_pos hindexable]
  have hused : (s.resolution r).sources.used .position (s.inputList r.vertices).inputs ≠ [] := by
    refine List.ne_nil_of_mem (a := (j, later)) (List.mem_filterMap.mpr ⟨j, hj, ?_⟩)
    rw [husable, Option.map_some]
  rw [layout_resolution, Layout.ofInputs]
  dsimp only
  rw [List.head?_eq_some_head hused]
  exact ⟨_, rfl⟩

end Session

end MeshWeave
