import MeshWeave.Proofs.Reader.Run
import MeshWeave.Proofs.Text.Reference

set_option autoImplicit false

/-! # References of inputs

A source is looked up by a reference, and the id that an input names is read as a reference once
more when its source is looked up. This finds the source that the reference of the input finds,
unless the reference begins with two number signs: then the second one belongs to the id, and the
look-up drops it.

An id that names itself is named by every way to write it, and the input is resolved as if it had
the bare id for its reference. -/

namespace MeshWeave

namespace SourceTable

/-- **A reference and the id that it names find the same**, unless the reference begins with two
    number signs. Then they can only both find nothing. -/
theorem find?_fragment_eq_iff (t : SourceTable) (uri : String) :
    t.find? (Text.fragment uri) = t.find? uri
      ↔ (['#', '#'] <+: Text.trim uri.toList →
        t.find? uri = none ∧ t.find? (Text.fragment uri) = none) := by
  constructor
  · intro hsame hsigns
    rw [hsame, and_self]
    rcases hfound : t.find? uri with _ | s
    · rfl
    · -- One source cannot have both ids.
      have hid : s.id = Text.fragment uri := find?_id hfound
      have hid' : s.id = Text.fragment (Text.fragment uri) := find?_id (hsame.trans hfound)
      exact absurd hsigns (Text.fragment_fragment_eq_iff.mp (hid'.symm.trans hid))
  · intro hnone
    by_cases hsigns : ['#', '#'] <+: Text.trim uri.toList
    · obtain ⟨huri, hid⟩ := hnone hsigns
      rw [hid, huri]
    · exact t.find?_congr (Text.fragment_fragment_eq_iff.mpr hsigns)

/-- What a reference finds is the first source with the id that it names. -/
theorem find?_of_fragment (t : SourceTable) {uri id : String} (h : Text.fragment uri = id) :
    t.find? uri = t.sources.find? (·.id == id) := by
  rw [find?, h]

end SourceTable

/-- An input is resolved by the id that it names, however its reference is written. -/
theorem Resolution.resolve_congr (r : Resolution) {i j : SharedInput}
    (hid : i.sourceId = j.sourceId) (hsemantic : i.semantic = j.semantic)
    (hoffset : i.offset = j.offset) (hset : i.set = j.set) : r.resolve i = r.resolve j := by
  have hindex (r' : Resolution) (s : Source) : r'.indexLoaded i s = r'.indexLoaded j s := by
    simp only [indexLoaded, index, hsemantic, hoffset, hset]
  unfold resolve
  simp only [hid, hsemantic, hindex]

namespace SourceTable

/-- **The source of an input** is the one that its reference finds, just if the reference does not
    begin with two number signs or nothing is found either way. An id without blanks and without a
    number sign in front is named by itself, with or without a number sign and with any blanks
    around: all these references find its source, and an input is resolved the same way with
    them. -/
theorem finds_by_reference (t : SourceTable) :
    (∀ i : SharedInput, t.find? i.sourceId = t.find? i.source
      ↔ (['#', '#'] <+: Text.trim i.source.toList →
        t.find? i.source = none ∧ t.find? i.sourceId = none))
    ∧ ∀ id before sign after : String,
      (∀ c ∈ id.toList, Text.isBlank c = false) → id.toList.head? ≠ some '#' →
      (∀ c ∈ before.toList, Text.isBlank c = true) → sign = "" ∨ sign = "#" →
      (∀ c ∈ after.toList, Text.isBlank c = true) →
      let uri := before ++ sign ++ id ++ after
      Text.fragment uri = id ∧ t.find? uri = t.sources.find? (·.id == id)
      ∧ ∀ i : SharedInput, i.source = uri →
        i.sourceId = id ∧ t.find? i.sourceId = t.sources.find? (·.id == id)
        ∧ ∀ r : Resolution, r.resolve i = r.resolve { i with source := id } := by
  constructor
  · intro i
    exact t.find?_fragment_eq_iff i.source
  · intro id before sign after hblank hhead hbefore hsign hafter uri
    have hid : Text.fragment id = id := Text.fragment_eq_self_iff.mpr ⟨hblank, hhead⟩
    have huri : Text.fragment uri = id := Text.fragment_padded hbefore hsign hid hafter
    refine ⟨huri, t.find?_of_fragment huri, ?_⟩
    intro i hi
    have hnamed : i.sourceId = id := by
      rw [SharedInput.sourceId, hi, huri]
    refine ⟨hnamed, ?_, ?_⟩
    · rw [hnamed]
      exact t.find?_of_fragment hid
    · intro r
      exact r.resolve_congr (hnamed.trans hid.symm) rfl rfl rfl

/-- The blanks around are not those of ASCII only, and number signs may stand inside of an id. -/
theorem finds_by_reference_padded :
    let s : Source := .fresh "uv#0" (.float #[⟨0⟩, ⟨1⟩]) 2
    let t : SourceTable := ⟨[s]⟩
    let i : SharedInput := ⟨.texCoord, "\u3000\t#uv#0 \u00a0", 1, 0⟩
    (∀ c ∈ "uv#0".toList, Text.isBlank c = false) ∧ "uv#0".toList.head? ≠ some '#'
    ∧ (∀ c ∈ "\u3000\t".toList, Text.isBlank c = true)
    ∧ (∀ c ∈ " \u00a0".toList, Text.isBlank c = true)
    ∧ t.find? i.source = some s ∧ t.find? i.sourceId = t.find? i.source
    ∧ ∀ r : Resolution, r.resolve i = r.resolve { i with source := "uv#0" } := by
  intro s t i
  have hblank : ∀ c ∈ "uv#0".toList, Text.isBlank c = false := by simp [Text.isBlank, Text.blanks]
  have hhead : "uv#0".toList.head? ≠ some '#' := by decide +kernel
  have hbefore : ∀ c ∈ "\u3000\t".toList, Text.isBlank c = true := by
    simp [Text.isBlank, Text.blanks]
  have hafter : ∀ c ∈ " \u00a0".toList, Text.isBlank c = true := by
    simp [Text.isBlank, Text.blanks]
  have hsigns : ¬ ['#', '#'] <+: Text.trim i.source.toList := by decide +kernel
  obtain ⟨hfinds, hnames⟩ := finds_by_reference t
  obtain ⟨-, hfind, hinput⟩ :=
    hnames "uv#0" "\u3000\t" "#" " \u00a0" hblank hhead hbefore (Or.inr rfl) hafter
  obtain ⟨-, -, hresolve⟩ := hinput i (by decide +kernel)
  refine ⟨hblank, hhead, hbefore, hafter, ?_, ?_, hresolve⟩
  · exact hfind
  · exact (hfinds i).mpr fun h => absurd h hsigns

end SourceTable

/-- A reference with two number signs finds a source whose id begins with one. An input with this
    reference names the id, but its source is not found, and nothing is merged. -/
theorem Reader.not_find?_sourceId_of_twoSigns :
    let s : Source := .fresh "#a" (.float #[⟨0⟩, ⟨1⟩, ⟨2⟩]) 3
    let i : SharedInput := ⟨.position, "##a", 0, 0⟩
    let r := (start "mesh" "").after
      [.addSource s, .openPrimitive .triangles none, .input i, .openRun .polygon]
    r.sources.sources = [s] ∧ i.sourceId = s.id ∧ r.sources.find? i.source = some s
    ∧ r.sources.find? i.sourceId = none ∧ r.mesh.positions = .empty := by
  decide +kernel

end MeshWeave
