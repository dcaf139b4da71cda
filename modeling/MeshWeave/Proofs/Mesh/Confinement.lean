import MeshWeave.Proofs.Mesh.Concatenation

set_option autoImplicit false

/-! # What an attempt to merge changes

An attempt to merge a source that fails leaves the mesh alone, and of the source it changes at most
the mark that it is loaded: a wrong type or stride sets the mark, so that the fault is noticed only
once, and `Refusal.marks` tells which refusals do. An attempt that succeeds changes one buffer of the
mesh and nothing else of it. The source then has the mark, too, and may have handed over its array,
but everything that is asked of a source later is as before, which is `Source.Retains`.

Behind the mark nothing happens any more: a source that is loaded stays as it is, and so does the
mesh when such a source is merged once more, whatever else is merged in between. -/

namespace MeshWeave

/-- Whether a source that is refused for this reason is marked as loaded. -/
def Refusal.marks : Refusal → Bool
  | unsupportedType .. | invalidStride .. => true
  | alreadyLoaded _ | unsupportedSemantic _ => false

/-- A source and what it is later, when it may have handed over its array. -/
structure Source.Retains (s later : Source) : Prop where
  id_eq : later.id = s.id
  stride_eq : later.stride = s.stride
  params_eq : later.params = s.params
  type_eq : later.type = s.type
  size_eq : later.size = s.size
  elementCount_eq : later.elementCount = s.elementCount

/-! ## One attempt -/

/-- A source that becomes part of a buffer gives away nothing but its scalars. -/
theorem Buffer.retains_merge (b : Buffer) (s : Source) : s.Retains (b.merge s).2 := by
  rcases b.merge_source s with hs | hs
  · rw [hs]
    exact ⟨rfl, rfl, rfl, rfl, rfl, rfl⟩
  · have hsize : (s.placeAt b.size).handOver.size = s.size := Source.size_handOver _
    have hcount : (s.placeAt b.size).handOver.elementCount = s.elementCount := by
      rw [Source.elementCount, hsize]
      rfl
    rw [hs]
    exact ⟨rfl, rfl, rfl, Source.type_handOver _, hsize, hcount⟩

namespace Mesh

variable (m : Mesh) (s : Source)

/-- The refusals that mark a source are those of a source that has no mark yet. -/
theorem marks_of_refusal? {s : Source} {k : DataKind} {why : Refusal}
    (h : refusal? k s = some why) : why.marks = !s.loaded := by
  by_cases hl : s.loaded = true
  · rw [refusal?_of_loaded k s hl] at h
    rw [← Option.some.inj h, hl]
    rfl
  · have hunloaded : s.loaded = false := by simpa using hl
    rw [refusal?, if_neg hl] at h
    rw [hunloaded]
    -- What is left are a fault of the type and one of the stride.
    split at h
    · rw [← Option.some.inj h]
      rfl
    · split at h
      · split at h
        · exact absurd h (by simp)
        · rw [← Option.some.inj h]
          rfl
      · exact absurd h (by simp)

/-- What a refusal leaves behind. -/
theorem merge_of_error {semantic : Semantic} {why : Refusal}
    (h : (m.merge s semantic).value.result = .error why) :
    (m.merge s semantic).value.mesh = m
    ∧ (m.merge s semantic).value.source = (if why.marks then s.refused else s)
    ∧ (why.marks = true → s.loaded = false) := by
  rcases hk : DataKind.ofSemantic? semantic with _ | k
  · rw [merge_of_none m s hk] at h ⊢
    obtain rfl : Refusal.unsupportedSemantic semantic = why := Except.error.inj h
    exact ⟨rfl, rfl, fun hmarks => absurd hmarks (by simp [Refusal.marks])⟩
  · rw [merge_of_kind m s hk] at h ⊢
    rcases hwhy : refusal? k s with _ | cause
    · rw [mergeKind_of_none m s hwhy] at h
      exact absurd h (by simp)
    · rw [mergeKind_of_refusal m s hwhy] at h ⊢
      obtain rfl : cause = why := Except.error.inj h
      rw [marks_of_refusal? hwhy]
      refine ⟨rfl, ?_, fun hmarks => by simpa using hmarks⟩
      rcases hl : s.loaded with _ | _
      · rfl
      · -- The mark was there before.
        show s.refused = s
        rw [Source.refused, ← hl]

/-- What a merge that succeeds leaves behind. -/
theorem merge_of_ok {semantic : Semantic} {place : Nat}
    (h : (m.merge s semantic).value.result = .ok place) :
    ∃ k, DataKind.ofSemantic? semantic = some k
      ∧ (m.merge s semantic).value.mesh
        = m.setBuffer k ((m.merge s semantic).value.mesh.buffer k)
      ∧ s.loaded = false ∧ (m.merge s semantic).value.source.loaded = true
      ∧ s.Retains (m.merge s semantic).value.source := by
  rcases hk : DataKind.ofSemantic? semantic with _ | k
  · rw [merge_of_none m s hk] at h
    exact absurd h (by simp)
  · rw [merge_of_kind m s hk] at h ⊢
    have hloaded := m.loaded_mergeKind s k
    rcases hwhy : refusal? k s with _ | why
    · have hretains := (m.buffer k).retains_merge s
      refine ⟨k, rfl, ?_, loaded_of_refusal?_none hwhy, hloaded, ?_⟩
      · rw [mergeKind_of_none m s hwhy]
        dsimp only
        rw [buffer_setBuffer, if_pos rfl]
      · rw [mergeKind_of_none m s hwhy]
        exact hretains
    · rw [mergeKind_of_refusal m s hwhy] at h
      exact absurd h (by simp)

/-- A source that is loaded is refused without further notice. -/
theorem merge_of_loaded {s : Source} (h : s.loaded = true) {semantic : Semantic} {k : DataKind}
    (hk : DataKind.ofSemantic? semantic = some k) :
    m.merge s semantic = ⟨⟨m, s, .error (.alreadyLoaded s.id)⟩, []⟩ := by
  have hsame : s.refused = s := by rw [Source.refused, ← h]
  rw [merge_of_kind m s hk, mergeKind, refusal?_of_loaded k s h]
  dsimp only
  rw [hsame]
  rfl

end Mesh

/-! ## Attempts in a row -/

namespace Merging

variable {ι : Type} [DecidableEq ι] (g : Merging ι)

theorem sources_call (c : MergeCall ι) (i : ι) :
    (g.call c).sources i
      = if i = c.source then (g.mesh.merge (g.sources c.source) c.semantic).value.source
        else g.sources i := by
  rw [call]
  by_cases heq : i = c.source
  · rw [heq, if_pos rfl]
    exact Function.update_self ..
  · rw [if_neg heq]
    exact Function.update_of_ne heq ..

theorem becomes_call (c : MergeCall ι) (i : ι) : (g.sources i).Becomes ((g.call c).sources i) := by
  rw [sources_call]
  split
  · next heq =>
      rw [heq]
      exact g.mesh.becomes_merge _ _
  · exact .refl _

/-- A source changes at most by being merged or refused, and only once. -/
theorem becomes_after (calls : List (MergeCall ι)) (i : ι) :
    (g.sources i).Becomes ((g.after calls).sources i) := by
  induction calls generalizing g with
  | nil => exact .refl _
  | cons c calls ih => exact (g.becomes_call c i).trans (ih (g.call c))

/-- **Merging is atomic and confined.** An attempt that fails leaves the mesh as it is and sets at
    most the mark of the source; one that succeeds changes the buffer of its kind of data and leaves
    the source as it looks from outside. Once the source has the mark, every later attempt to merge
    it is refused and changes nothing. -/
theorem call_confined (c : MergeCall ι) (later : List (MergeCall ι)) :
    let s := g.sources c.source
    let m := (g.mesh.merge s c.semantic).value
    let h := (g.call c).after later
    (∀ why, m.result = .error why →
      m.mesh = g.mesh ∧ m.source = (if why.marks then s.refused else s)
      ∧ (s.loaded = false ∧ m.source.loaded = true ↔ why.marks = true))
    ∧ (∀ place, m.result = .ok place →
      ∃ k, DataKind.ofSemantic? c.semantic = some k
        ∧ m.mesh = g.mesh.setBuffer k (m.mesh.buffer k)
        ∧ s.loaded = false ∧ m.source.loaded = true ∧ s.Retains m.source)
    ∧ (m.source.loaded = true → ∀ semantic k, DataKind.ofSemantic? semantic = some k →
      h.mesh.merge (h.sources c.source) semantic
        = ⟨⟨h.mesh, m.source, .error (.alreadyLoaded s.id)⟩, []⟩) := by
  intro s m h
  refine ⟨?_, ?_, ?_⟩
  · intro why hwhy
    obtain ⟨hmesh, hsource, hunloaded⟩ := g.mesh.merge_of_error s hwhy
    refine ⟨hmesh, hsource, ?_⟩
    have hm : m.source = if why.marks then s.refused else s := hsource
    rw [hm]
    cases hmarks : why.marks with
    | true => simp [hunloaded hmarks, Source.refused]
    | false => simp
  · intro place hplace
    exact g.mesh.merge_of_ok s hplace
  · intro hloaded semantic k hk
    have hcalled : (g.call c).sources c.source = m.source := by
      rw [sources_call, if_pos rfl]
    have hstays : h.sources c.source = m.source := by
      have hbecomes := (g.call c).becomes_after later c.source
      rw [hcalled] at hbecomes
      exact hbecomes.eq_of_loaded hloaded
    have hid : m.source.id = s.id := (g.mesh.becomes_merge s c.semantic).id_eq
    rw [hstays, h.mesh.merge_of_loaded hloaded hk, hid]

/-- Colors with two components are refused for good: after other merges the source is still no
    source of texture coordinates, although these may have two components. -/
theorem call_confined_badStride :
    let declared : Fin 2 → Source
      | 0 => .fresh "c" (.float #[⟨0⟩, ⟨1⟩]) 2
      | 1 => .fresh "p" (.double #[⟨0⟩, ⟨1⟩, ⟨2⟩]) 3
    let g := start declared
    let m := (g.mesh.merge (g.sources 0) .color).value
    let h := (g.call ⟨0, .color⟩).after [⟨1, .position⟩, ⟨1, .normal⟩]
    m.result = .error (.invalidStride "c" .color 2 .color)
    ∧ m.mesh = g.mesh ∧ m.source = (declared 0).refused
    ∧ h.mesh.positions.size = 3
    ∧ h.mesh.merge (h.sources 0) .texCoord
        = ⟨⟨h.mesh, m.source, .error (.alreadyLoaded "c")⟩, []⟩ := by
  intro declared g m h
  have hresult : m.result = .error (.invalidStride "c" .color 2 .color) := rfl
  obtain ⟨herror, -, hloaded⟩ :=
    g.call_confined ⟨0, .color⟩ [⟨1, .position⟩, ⟨1, .normal⟩]
  obtain ⟨hmesh, hsource, hmarked⟩ := herror _ hresult
  have hmark : m.source.loaded = true := (hmarked.mpr rfl).2
  exact ⟨hresult, hmesh, hsource, by decide, hloaded hmark .texCoord .texCoord rfl⟩

end Merging

end MeshWeave
