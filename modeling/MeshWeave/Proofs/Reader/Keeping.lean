import Mathlib.Algebra.Group.Nat.Defs
import MeshWeave.Proofs.Reader.Decoding
import MeshWeave.Proofs.Reader.Faces
import MeshWeave.Proofs.Reader.Invariants

set_option autoImplicit false

/-! # Which primitives are kept

A primitive element becomes one primitive of the mesh, or none. Which of the two it is, and how many
faces and which vertex counts the primitive has, follows from the vertex counts that the element
lists and from the numbers of complete tuples in its runs of polygon vertices. `Element.facesOf` and
`Element.countsOf` say how, for each of the five elements, and the main statement compares them with
what a reader makes of the whole text of an element. -/

namespace MeshWeave

namespace Element

/-- The faces of an element that lists some vertex counts and has runs of some lengths. -/
def facesOf (listed runs : List Nat) : Element → Nat
  | triangles => total runs / 3
  | polylist => if total listed ≤ total runs ∧ 0 < total runs then listed.length else 0
  | polygons => (runs.filter (1 ≤ ·)).length
  | tristrips | trifans => total ((runs.filter (3 ≤ ·)).map (· - 2))

/-- The vertex counts of such an element, those of holes left out. -/
def countsOf (listed runs : List Nat) : Element → List Nat
  | triangles => []
  | polylist => listed
  | polygons => runs.filter (1 ≤ ·)
  | tristrips | trifans => runs.filter (3 ≤ ·)

theorem total_facesOfRun_polygons (runs : List Nat) :
    total (runs.map polygons.facesOfRun) = (runs.filter (1 ≤ ·)).length := by
  induction runs with
  | nil => rfl
  | cons t runs ih =>
      rw [List.map_cons, total_cons, ih, facesOfRun]
      by_cases ht : 1 ≤ t
      · rw [List.filter_cons_of_pos (by simpa using ht), List.length_cons, Nat.min_eq_right ht,
          Nat.add_comm]
      · rw [List.filter_cons_of_neg (by simpa using ht), Nat.min_eq_left (by omega)]
        omega

/-- Short strips and fans have no triangles to add. -/
theorem total_sub_two (runs : List Nat) :
    total (runs.map (· - 2)) = total ((runs.filter (3 ≤ ·)).map (· - 2)) := by
  induction runs with
  | nil => rfl
  | cons t runs ih =>
      rw [List.map_cons, total_cons, ih]
      by_cases ht : 3 ≤ t
      · rw [List.filter_cons_of_pos (by simpa using ht), List.map_cons, total_cons]
      · rw [List.filter_cons_of_neg (by simpa using ht)]
        omega

theorem flatMap_filter (p : Nat → Bool) (runs : List Nat) :
    runs.flatMap (fun t => [t].filter p) = runs.filter p := by
  rw [← List.filter_flatMap, List.flatMap_singleton']

/-- Only a list of polygons lists vertex counts; elsewhere the runs add them. -/
theorem append_countsOfRun {listed : List Nat} {e : Element}
    (hlisted : e ≠ polylist → listed = []) (runs : List Nat) :
    listed ++ runs.flatMap e.countsOfRun = e.countsOf listed runs := by
  cases e with
  | triangles => simp [hlisted, countsOfRun, countsOf]
  | polylist => simp [countsOfRun, countsOf]
  | polygons =>
      rw [hlisted (by simp), List.nil_append]
      exact flatMap_filter _ runs
  | tristrips =>
      rw [hlisted (by simp), List.nil_append]
      exact flatMap_filter _ runs
  | trifans =>
      rw [hlisted (by simp), List.nil_append]
      exact flatMap_filter _ runs

theorem mem_countsOf {e : Element} {listed runs : List Nat} {n : Nat}
    (h : n ∈ e.countsOf listed runs) : n ∈ listed ∨ n ∈ runs := by
  cases e with
  | triangles => exact absurd h (by simp [countsOf])
  | polylist => exact Or.inl h
  | polygons => exact Or.inr (List.mem_of_mem_filter h)
  | tristrips => exact Or.inr (List.mem_of_mem_filter h)
  | trifans => exact Or.inr (List.mem_of_mem_filter h)

end Element

/-- Counts below the largest entry are listed as they are. -/
theorem map_vertexCountEntry {ns : List Nat} (h : ∀ n ∈ ns, n < 2 ^ 31) :
    ns.map vertexCountEntry = ns.map Int.ofNat := by
  apply List.map_congr_left
  intro n hn
  have hlimit : n ≤ vertexCountLimit := Nat.le_of_lt_succ (h n hn)
  rw [vertexCountEntry, Nat.min_eq_left hlimit]
  rfl

/-- Not too many counts that are not too large stay below the limit of counters. -/
theorem total_le_counterLimit {ns : List Nat} (hlength : ns.length < 2 ^ 31)
    (h : ∀ n ∈ ns, n < 2 ^ 31) : total ns ≤ counterLimit := by
  have htotal := total_le_mul fun n hn => Nat.le_of_lt (h n hn)
  rw [counterLimit]
  omega

namespace Session

/-- The events of a session up to the end tag. -/
def opening (s : Session) : List Event :=
  .openPrimitive s.element s.material ::
    (s.inputs.map .input ++ (s.countEvents ++ s.nodes.flatMap IndexNode.events))

theorem events_eq (s : Session) : s.events = s.opening ++ [.closePrimitive] := by
  simp only [events, opening, bodyEvents, List.cons_append, List.append_assoc]

/-- The end tag is the last event of a session only. -/
theorem closePrimitive_not_mem_opening (s : Session) : .closePrimitive ∉ s.opening := by
  have hpieces (kind : RunKind) (pieces : List (List Nat)) :
      .closePrimitive ∉ Event.pieces kind pieces := by simp [Event.pieces]
  have hnode (n : IndexNode) : .closePrimitive ∉ n.events := by
    cases n with
    | run kind pieces => exact hpieces kind pieces
    | holed runs =>
        simp only [IndexNode.events, List.mem_cons, reduceCtorEq, List.mem_append, List.mem_flatMap,
          List.not_mem_nil, or_false, false_or, not_exists, not_and]
        exact fun u _ => hpieces u.1 u.2
  have hcounts : .closePrimitive ∉ s.countEvents := by
    rw [countEvents]
    split <;> simp
  simp only [opening, List.mem_cons, reduceCtorEq, List.mem_append, List.mem_map, List.mem_flatMap,
    hcounts, false_or, and_false, exists_false, not_exists, not_and]
  exact fun n _ => hnode n

variable (s : Session) (r : Reader)

theorem supplied_assembly_eq :
    (s.assembly r).supplied = total ((s.tupleCounts (s.inputList r.vertices).width).map
      s.element.suppliedByRun) := by
  have hsupplied : (s.opened r).supplied = 0 := by
    rw [opened_eq]
    rfl
  rw [(s.adds_assembly r).supplied_eq, hsupplied, element_opened, Nat.zero_add]

theorem vertexCounts_of_ne (helement : s.element ≠ .polylist) : s.vertexCounts = [] := by
  rw [vertexCounts, if_neg helement]

/-- The vertex counts of anything but single polygons. -/
theorem counts_assembly_of_ne (helement : s.element ≠ .polygons) :
    (s.assembly r).primitive.counts = ((s.element.countsOf s.vertexCounts
      (s.tupleCounts (s.inputList r.vertices).width)).map vertexCountEntry).toArray := by
  rw [s.counts_assembly_eq r helement, Element.append_countsOfRun s.vertexCounts_of_ne]

/-- Each strip or fan is a group of its own. -/
theorem groupCount_assembly (hstrip : s.element = .tristrips ∨ s.element = .trifans) :
    (s.assembly r).groupCount = (s.element.countsOf s.vertexCounts
      (s.tupleCounts (s.inputList r.vertices).width)).length := by
  have hne : s.element ≠ .polygons := by
    rintro h
    simp [h] at hstrip
  have hgrouping : (s.assembly r).element.grouping.isStripOrFan = true := by
    rw [element_assembly]
    rcases hstrip with h | h <;> rw [h] <;> rfl
  rw [Assembly.groupCount, if_pos hgrouping, s.counts_assembly_of_ne r hne, List.size_toArray,
    List.length_map]

/-- **The faces of a primitive element**, if its counter of vertices does not stop at its limit. -/
theorem faceCount_assembly (hlimit : total s.vertexCounts ≤ counterLimit) :
    (s.assembly r).faceCount
      = s.element.facesOf s.vertexCounts (s.tupleCounts (s.inputList r.vertices).width) := by
  have helement := s.element_assembly r
  have hsupplied := s.supplied_assembly_eq r
  have hfaces := s.faces_assembly_eq r
  have hall (runs : List Nat) : runs.map Element.triangles.suppliedByRun = runs
      ∧ runs.map Element.polylist.suppliedByRun = runs := ⟨List.map_id' _, List.map_id' _⟩
  rw [Assembly.faceCount, helement]
  cases he : s.element with
  | triangles =>
      rw [he, (hall _).1] at hsupplied
      simp only [hsupplied, Element.facesOf]
  | polylist =>
      have hcounts := s.counts_assembly r he
      have hexpected := s.expected_assembly r
      rw [he, (hall _).2] at hsupplied
      rw [Nat.min_eq_left hlimit] at hexpected
      simp only [hsupplied, hexpected, hcounts, Element.facesOf, List.size_toArray,
        List.length_map]
  | polygons =>
      rw [he, Element.total_facesOfRun_polygons] at hfaces
      exact hfaces
  | tristrips =>
      rw [he] at hfaces
      exact hfaces.trans (Element.total_sub_two _)
  | trifans =>
      rw [he] at hfaces
      exact hfaces.trans (Element.total_sub_two _)

end Session

/-- **Which primitives are kept, and with which faces.** An idle reader that reads a primitive
    element adds nothing to its mesh before the end tag, and then one primitive if the element has
    faces. An element that comes while a source is open does not even begin. -/
theorem Reader.primitives_after_session (r : Reader) (hidle : r.isIdle = true) (s : Session)
    (hlisted : ∀ n ∈ s.vertexCounts, n < 2 ^ 31) (hlength : s.vertexCounts.length < 2 ^ 31)
    (htuples : ∀ t ∈ s.tupleCounts ((s.inputList r.vertices).maxOffset + 1), t < 2 ^ 31) :
    let runs := s.tupleCounts ((s.inputList r.vertices).maxOffset + 1)
    let faces := s.element.facesOf s.vertexCounts runs
    let counts := s.element.countsOf s.vertexCounts runs
    (r.after s.opening).mesh.primitives = r.mesh.primitives
    ∧ ∃ kept : Option Primitive,
      (r.after s.events).mesh.primitives = r.mesh.primitives ++ kept.toArray
      ∧ (kept.isSome = true ↔ r.source = none ∧ 0 < faces)
      ∧ ∀ p, kept = some p →
        p.faces = faces
        ∧ (s.element ≠ .polygons → p.counts = (counts.map Int.ofNat).toArray)
        ∧ (s.element = .tristrips ∨ s.element = .trifans → p.groups = counts.length) := by
  intro runs faces counts
  have hcurrent : r.current = none := by simpa [Reader.isIdle] using hidle
  refine ⟨primitives_after_of_not_mem s.closePrimitive_not_mem_opening, ?_⟩
  by_cases hsource : r.source = none
  · have hfaces : (s.assembly r).faceCount = faces :=
      s.faceCount_assembly r (total_le_counterLimit hlength hlisted)
    have hsmall : ∀ n ∈ counts, n < 2 ^ 31 := fun n hn =>
      (Element.mem_countsOf hn).elim (hlisted n) (htuples n)
    obtain ⟨q, hq, hfinished⟩ := (s.assembly r).finished_eq
    rw [hfaces] at hfinished
    refine ⟨(s.assembly r).finished, ?_, ?_, ?_⟩
    · rw [s.after_session r hcurrent hsource, s.primitives_behind]
      cases (s.assembly r).finished <;> rfl
    · rw [hfinished]
      by_cases hzero : faces = 0
      · simp [hzero]
      · simp [hzero, hsource]
        omega
    · intro p hp
      rw [hfinished] at hp
      obtain ⟨-, hp⟩ := Option.ite_none_left_eq_some.mp hp
      obtain rfl := Option.some.inj hp
      refine ⟨hq.faces_eq.trans hfaces, fun hne => ?_, fun hstrip => ?_⟩
      · have hcounts : (s.assembly r).primitive.counts = (counts.map vertexCountEntry).toArray :=
          s.counts_assembly_of_ne r hne
        rw [hq.counts_eq, hcounts, map_vertexCountEntry hsmall]
      · exact hq.groups_eq.trans (s.groupCount_assembly r hstrip)
  · refine ⟨none, ?_, ?_, ?_⟩
    · rw [s.after_session_of_source r hcurrent hsource]
      exact (Array.append_empty).symm
    · simp [hsource]
    · exact fun p hp => absurd hp (by simp)

/-- A list of three polygons, one of them without vertices. More vertices than they need come in two
    runs. -/
theorem Reader.primitives_after_session_polylist :
    let r := Reader.start "mesh" ""
    let s : Session :=
      { element := .polylist, material := none, inputs := [⟨.position, "#p", 0, 0⟩]
        counts := some [[3, 0], [], [4]]
        nodes := [.run .polygon [[0, 1], [2, 3, 4]], .run .hole [[7]], .run .polygon [[5, 6, 7]]] }
    r.isIdle = true
    ∧ s.vertexCounts = [3, 0, 4] ∧ s.tupleCounts ((s.inputList r.vertices).maxOffset + 1) = [5, 3]
    ∧ ∃ p, (r.after s.events).mesh.primitives = #[p] ∧ p.faces = 3 ∧ p.counts = #[3, 0, 4] := by
  intro r s
  have hlisted : s.vertexCounts = [3, 0, 4] := by decide
  have hruns : s.tupleCounts ((s.inputList r.vertices).maxOffset + 1) = [5, 3] := by decide
  obtain ⟨-, kept, hafter, hkept, hall⟩ := Reader.primitives_after_session r (by decide) s
    (by rw [hlisted]; decide) (by rw [hlisted]; decide) (by rw [hruns]; decide)
  rw [hlisted, hruns] at hkept hall
  obtain ⟨p, rfl⟩ := Option.isSome_iff_exists.mp (hkept.mpr ⟨rfl, by decide⟩)
  obtain ⟨hfaces, hcounts, -⟩ := hall p rfl
  exact ⟨by decide, hlisted, hruns, p, hafter, hfaces, hcounts (by decide)⟩

/-- Of three fans two are too short. -/
example :
    Element.trifans.facesOf [] [2, 4, 0] = 2 ∧ Element.trifans.countsOf [] [2, 4, 0] = [4] := by
  decide

end MeshWeave
