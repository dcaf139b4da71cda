import MeshWeave.Proofs.Reader.Counting
import MeshWeave.Proofs.Reader.Session

set_option autoImplicit false

/-! # Faces of finished primitives

When a primitive element is kept, and as how many faces. Triangles are kept by threes, a list of
polygons as one face for each vertex count if there are vertices for all of them, single polygons
as one face for each run with a complete tuple, and strips and fans as the triangles of their runs
of at least three vertices.

All of this is decided by the numbers of complete tuples in the runs of polygon vertices.
`Assembly.Adds` says what such runs add to the counters of a primitive under construction, whatever
the element; runs of hole vertices add nothing to them. `Assembly.faceCount` is what the end tag
makes of the counters. -/

namespace MeshWeave

/-! ## What a run adds -/

namespace Element

/-- The face vertices that a run of polygon vertices supplies where they are counted as a whole. -/
def suppliedByRun : Element → Nat → Nat
  | triangles, t | polylist, t => t
  | polygons, _ | tristrips, _ | trifans, _ => 0

/-- The faces that a run of polygon vertices adds where each run has its own. -/
def facesOfRun : Element → Nat → Nat
  | triangles, _ | polylist, _ => 0
  | polygons, t => min t 1
  | tristrips, t | trifans, t => t - 2

/-- The vertex counts that a run of polygon vertices adds. Lists of polygons have theirs already. -/
def countsOfRun : Element → Nat → List Nat
  | triangles, _ | polylist, _ => []
  | polygons, t => [t].filter (1 ≤ ·)
  | tristrips, t | trifans, t => [t].filter (3 ≤ ·)

end Element

namespace IndexNode

/-- The faces of single polygons in an index element. -/
def faces (width : Nat) : IndexNode → Nat
  | run .polygon pieces => min (pieces.flatten.length / width) 1
  | run .hole _ => 0
  | holed runs =>
      total ((runs.filter (·.1 == .polygon)).map fun u => min (u.2.flatten.length / width) 1)

/-- The numbers of complete tuples in the runs of polygon vertices of an index element. -/
def tupleCounts (width : Nat) : IndexNode → List Nat
  | run .polygon pieces => [pieces.flatten.length / width]
  | run .hole _ => []
  | holed runs => (runs.filter (·.1 == .polygon)).map (·.2.flatten.length / width)

theorem faces_eq_total (width : Nat) (n : IndexNode) :
    n.faces width = total ((n.tupleCounts width).map Element.polygons.facesOfRun) := by
  cases n with
  | run kind pieces => cases kind <;> rfl
  | holed runs =>
      rw [faces, tupleCounts, List.map_map]
      rfl

end IndexNode

namespace Assembly

/-- What runs of some numbers of complete tuples add to the counters of a primitive under
    construction. The vertex counts of single polygons are left out, as holes stand among them. -/
structure Adds (a b : Assembly) (ts : List Nat) : Prop where
  element_eq : b.element = a.element
  supplied_eq : b.supplied = a.supplied + total (ts.map a.element.suppliedByRun)
  faces_eq : b.faces = a.faces + total (ts.map a.element.facesOfRun)
  counts_eq : a.element ≠ .polygons → b.primitive.counts
    = a.primitive.counts ++ ((ts.flatMap a.element.countsOfRun).map vertexCountEntry).toArray

theorem Adds.nil (a : Assembly) : a.Adds a [] :=
  ⟨rfl, rfl, rfl, fun _ => by simp⟩

theorem Adds.append {a b c : Assembly} {ts us : List Nat} (h : a.Adds b ts) (h' : b.Adds c us) :
    a.Adds c (ts ++ us) := by
  obtain ⟨helement, hsupplied, hfaces, hcounts⟩ := h
  obtain ⟨helement', hsupplied', hfaces', hcounts'⟩ := h'
  rw [helement] at hsupplied' hfaces' hcounts'
  refine ⟨helement'.trans helement, ?_, ?_, fun hne => ?_⟩
  · rw [hsupplied', hsupplied, List.map_append, total_append, Nat.add_assoc]
  · rw [hfaces', hfaces, List.map_append, total_append, Nat.add_assoc]
  · simp [hcounts' hne, hcounts hne]

/-- A strip or fan adds the triangles between its vertices, if there are any. -/
theorem adds_takeGroup (a : Assembly) (us : List (Array Nat))
    (hstrip : a.element = .tristrips ∨ a.element = .trifans) :
    a.Adds (a.takeGroup us) [us.length] := by
  have hsupplied : a.element.suppliedByRun us.length = 0 := by
    rcases hstrip with h | h <;> rw [h] <;> rfl
  have hfaces : a.element.facesOfRun us.length = us.length - 2 := by
    rcases hstrip with h | h <;> rw [h] <;> rfl
  have hcounts : a.element.countsOfRun us.length = [us.length].filter (3 ≤ ·) := by
    rcases hstrip with h | h <;> rw [h] <;> rfl
  unfold takeGroup
  by_cases hlen : us.length < 3
  · have hnone : us.length - 2 = 0 := by omega
    have hshort : [us.length].filter (3 ≤ ·) = [] := by simp; omega
    dsimp only
    rw [if_pos hlen]
    refine ⟨rfl, ?_, ?_, fun _ => ?_⟩
    · simp [hsupplied]
    · simp [hfaces, hnone]
    · simp [hcounts, hshort]
  · have hlong : [us.length].filter (3 ≤ ·) = [us.length] := by simp; omega
    dsimp only
    rw [if_neg hlen]
    refine ⟨rfl, ?_, ?_, fun _ => ?_⟩
    · simp [hsupplied]
    · simp [hfaces]
    · simp [hcounts, hlong, Primitive.pushCount]

/-- **A run of polygon vertices adds to the counters what its element says.** -/
theorem adds_takeRun_polygon (a : Assembly) (us : List (Array Nat)) :
    a.Adds (a.takeRun .polygon us) [us.length] := by
  rw [takeRun_polygon]
  dsimp only
  split
  · next he =>
      refine ⟨rfl, ?_, ?_, fun _ => ?_⟩
      · simp [he, Element.suppliedByRun]
      · simp [he, Element.facesOfRun]
      · simp [he, Element.countsOfRun]
  · next he =>
      refine ⟨rfl, ?_, ?_, fun _ => ?_⟩
      · simp [he, Element.suppliedByRun]
      · simp [he, Element.facesOfRun]
      · simp [he, Element.countsOfRun]
  · next he =>
      split
      · next hnil =>
          refine ⟨rfl, ?_, ?_, fun hne => absurd he hne⟩
          · simp [he, Element.suppliedByRun]
          · simp [he, hnil, Element.facesOfRun]
      · next hne =>
          have hone : min us.length 1 = 1 := by
            have hpos := List.length_pos_iff.mpr hne
            omega
          refine ⟨rfl, ?_, ?_, fun hne => absurd he hne⟩
          · simp [he, Element.suppliedByRun]
          · simp [he, Element.facesOfRun, hone]
  · next he => exact a.adds_takeGroup us (Or.inl he)
  · next he => exact a.adds_takeGroup us (Or.inr he)

/-- A run of hole vertices adds nothing to the counters. -/
theorem adds_takeRun_hole (a : Assembly) (us : List (Array Nat))
    (helement : a.element = .polygons) : a.Adds (a.takeRun .hole us) [] := by
  have hsame (b : Assembly) (hb : b.element = a.element) (hsupplied : b.supplied = a.supplied)
      (hfaces : b.faces = a.faces) : a.Adds b [] :=
    ⟨hb, hsupplied, hfaces, fun hne => absurd helement hne⟩
  unfold takeRun during closeRun addHoleRun
  simp only [Noted.value_bind]
  split
  · split <;> exact hsame _ rfl rfl rfl
  · exact hsame _ rfl rfl rfl

theorem adds_readRun_polygon (a : Assembly) (raw : List Nat) :
    a.Adds (a.readRun .polygon raw) [raw.length / a.layout.width] := by
  rw [readRun_polygon, ← length_tuples]
  exact a.adds_takeRun_polygon _

/-- Runs of polygon vertices that follow each other. -/
theorem adds_readPolygons (a : Assembly) (us : List (RunKind × List (List Nat))) :
    a.Adds ((us.filter (·.1 == .polygon)).foldl (fun a u => a.readRun u.1 u.2.flatten) a)
      ((us.filter (·.1 == .polygon)).map (·.2.flatten.length / a.layout.width)) := by
  induction us generalizing a with
  | nil => exact .nil a
  | cons u us ih =>
      obtain ⟨kind, pieces⟩ := u
      cases kind with
      | polygon =>
          have hf := a.follows_readRun .polygon pieces.flatten
          have hrest := ih (a.readRun .polygon pieces.flatten)
          rw [hf.layout_eq] at hrest
          rw [List.filter_cons_of_pos (by rfl), List.foldl_cons, List.map_cons,
            ← List.singleton_append]
          exact (a.adds_readRun_polygon pieces.flatten).append hrest
      | hole => exact ih a

/-- The runs inside an element for a polygon with holes. -/
theorem adds_readRuns {a : Assembly} (helement : a.element = .polygons)
    (us : List (RunKind × List (List Nat))) :
    a.Adds (us.foldl (fun a u => a.readRun u.1 u.2.flatten) a)
      ((us.filter (·.1 == .polygon)).map (·.2.flatten.length / a.layout.width)) := by
  induction us generalizing a with
  | nil => exact .nil a
  | cons u us ih =>
      obtain ⟨kind, pieces⟩ := u
      have hf := a.follows_readRun kind pieces.flatten
      have hrest := ih (hf.element_eq.trans helement)
      rw [hf.layout_eq] at hrest
      cases kind with
      | polygon =>
          rw [List.filter_cons_of_pos (by rfl), List.map_cons, ← List.singleton_append]
          exact (a.adds_readRun_polygon pieces.flatten).append hrest
      | hole =>
          have hhole := a.adds_takeRun_hole (a.tuplesOf .hole pieces.flatten) helement
          exact hhole.append hrest

theorem adds_readNode (a : Assembly) (n : IndexNode) :
    a.Adds (a.readNode n) (n.tupleCounts a.layout.width) := by
  cases n with
  | run kind pieces =>
      cases kind with
      | polygon => exact a.adds_readRun_polygon pieces.flatten
      | hole => exact .nil a
  | holed runs =>
      rw [readNode]
      split
      · next helement =>
          have hruns := adds_readRuns (a := { a with stage := .holed none }) helement runs
          exact ⟨hruns.element_eq, hruns.supplied_eq, hruns.faces_eq, hruns.counts_eq⟩
      · exact a.adds_readPolygons runs

/-- **Index elements add to the counters what their runs of polygon vertices add.** -/
theorem adds_readNodes {a : Assembly} (hrun : a.run = none) (hstage : a.stage = .indexing)
    (ns : List IndexNode) :
    a.Adds (ns.foldl readNode a) (ns.flatMap (·.tupleCounts a.layout.width)) := by
  induction ns generalizing a with
  | nil => exact .nil a
  | cons n ns ih =>
      have hf := follows_readNode hrun hstage n
      have hrest := ih hf.run_eq (hf.indexing hstage)
      rw [hf.layout_eq] at hrest
      exact (a.adds_readNode n).append hrest

/-! ## Finishing -/

/-- A primitive with faces is kept, with all but its number of faces as it is. -/
theorem value_keep (a : Assembly) (mesh : String) (q : Primitive) {faces : Nat} (h : 0 < faces) :
    (a.keep mesh q faces).value = some { q with faces } := by
  rw [keep, if_neg (by simp; omega)]
  rfl

/-- The number of faces that a primitive under construction would be kept with. -/
def faceCount (a : Assembly) : Nat :=
  match a.element with
  | .triangles => a.supplied / 3
  | .polylist => if a.expected ≤ a.supplied ∧ 0 < a.supplied then a.primitive.counts.size else 0
  | .polygons | .tristrips | .trifans => a.faces

/-- The number of strips or fans that it would be kept with. -/
def groupCount (a : Assembly) : Nat :=
  if a.element.grouping.isStripOrFan then a.primitive.counts.size else a.primitive.groups

/-- What the end tag keeps of a primitive has the faces that were counted, and all vertex counts
    and holes. -/
structure Keeps (a : Assembly) (p : Primitive) : Prop where
  faces_eq : p.faces = a.faceCount
  counts_eq : p.counts = a.primitive.counts
  holes_eq : p.holes = a.primitive.holes
  groups_eq : p.groups = a.groupCount
  material_eq : p.material = a.primitive.material

/-- **A primitive is kept just if it has faces.** -/
theorem finished_eq (a : Assembly) :
    ∃ q, a.Keeps q ∧ a.finished = if a.faceCount = 0 then none else some q := by
  have hkeep (q : Primitive) (faces : Nat) (hq : a.Keeps { q with faces })
      (hfinished : a.finished = (a.keep "" q faces).value) :
      ∃ q, a.Keeps q ∧ a.finished = if a.faceCount = 0 then none else some q := by
    have hfaces : faces = a.faceCount := hq.faces_eq
    refine ⟨{ q with faces }, hq, ?_⟩
    rw [hfinished]
    split
    · next hzero => rw [hfaces, hzero]; rfl
    · next hne => exact a.value_keep "" q (by omega)
  cases he : a.element with
  | triangles =>
      refine hkeep (a.primitive.take (a.supplied / 3 * 3)) (a.supplied / 3)
        ⟨?_, rfl, rfl, ?_, rfl⟩ ?_
      · simp [faceCount, he]
      · simp [groupCount, he, Element.grouping, Grouping.isStripOrFan, Primitive.take]
      · rw [finished, finish, he]
  | polylist =>
      by_cases hsupplied : a.expected ≤ a.supplied ∧ 0 < a.supplied
      · refine hkeep (a.primitive.take a.expected) a.primitive.counts.size
          ⟨?_, rfl, rfl, ?_, rfl⟩ ?_
        · simp [faceCount, he, hsupplied]
        · simp [groupCount, he, Element.grouping, Grouping.isStripOrFan, Primitive.take]
        · rw [finished, finish, he]
          dsimp only
          rw [if_pos hsupplied]
      · refine hkeep a.primitive 0 ⟨?_, rfl, rfl, ?_, rfl⟩ ?_
        · simp [faceCount, he, hsupplied]
        · simp [groupCount, he, Element.grouping, Grouping.isStripOrFan]
        · rw [finished, finish, he]
          dsimp only
          rw [if_neg hsupplied]
          rfl
  | polygons =>
      refine hkeep a.primitive a.faces ⟨?_, rfl, rfl, ?_, rfl⟩ ?_
      · simp [faceCount, he]
      · simp [groupCount, he, Element.grouping, Grouping.isStripOrFan]
      · rw [finished, finish, he]
  | tristrips =>
      refine hkeep { a.primitive with groups := a.primitive.counts.size } a.faces
        ⟨?_, rfl, rfl, ?_, rfl⟩ ?_
      · simp [faceCount, he]
      · simp [groupCount, he, Element.grouping, Grouping.isStripOrFan]
      · rw [finished, finish, he]
  | trifans =>
      refine hkeep { a.primitive with groups := a.primitive.counts.size } a.faces
        ⟨?_, rfl, rfl, ?_, rfl⟩ ?_
      · simp [faceCount, he]
      · simp [groupCount, he, Element.grouping, Grouping.isStripOrFan]
      · rw [finished, finish, he]

theorem keeps_of_finished {a : Assembly} {p : Primitive} (h : a.finished = some p) :
    a.Keeps p := by
  obtain ⟨q, hq, hfinished⟩ := a.finished_eq
  rw [hfinished] at h
  obtain ⟨-, hsome⟩ := Option.ite_none_left_eq_some.mp h
  exact Option.some.inj hsome ▸ hq

theorem exists_finished {a : Assembly} (h : 0 < a.faceCount) :
    ∃ p, a.finished = some p ∧ a.Keeps p := by
  obtain ⟨p, hp, hfinished⟩ := a.finished_eq
  exact ⟨p, by rw [hfinished, if_neg (by omega)], hp⟩

theorem finished_of_triangles {a : Assembly} (helement : a.element = .triangles) {n : Nat}
    (hn : 0 < n) (hsupplied : a.supplied = n * 3) :
    ∃ p, a.finished = some p ∧ p.faces = n ∧ p.material = a.primitive.material := by
  have hcount : a.faceCount = n := by
    simp only [faceCount, helement]
    omega
  obtain ⟨p, hp, hkeeps⟩ := exists_finished (hcount ▸ hn)
  exact ⟨p, hp, hkeeps.faces_eq.trans hcount, hkeeps.material_eq⟩

theorem finished_of_polylist {a : Assembly} (helement : a.element = .polylist)
    (hcounts : 0 < a.primitive.counts.size) (hsupplied : 0 < a.supplied)
    (hexpected : a.expected ≤ a.supplied) :
    ∃ p, a.finished = some p ∧ p.faces = a.primitive.counts.size
      ∧ p.material = a.primitive.material := by
  have hcount : a.faceCount = a.primitive.counts.size := by
    simp only [faceCount, helement, hexpected, hsupplied, and_self, if_true]
  obtain ⟨p, hp, hkeeps⟩ := exists_finished (hcount ▸ hcounts)
  exact ⟨p, hp, hkeeps.faces_eq.trans hcount, hkeeps.material_eq⟩

theorem finished_of_polygons {a : Assembly} (helement : a.element = .polygons)
    (hfaces : 0 < a.faces) :
    ∃ p, a.finished = some p ∧ p.faces = a.faces ∧ p.material = a.primitive.material := by
  have hcount : a.faceCount = a.faces := by simp only [faceCount, helement]
  obtain ⟨p, hp, hkeeps⟩ := exists_finished (hcount ▸ hfaces)
  exact ⟨p, hp, hkeeps.faces_eq.trans hcount, hkeeps.material_eq⟩

end Assembly

namespace Session

variable (s : Session) (r : Reader)

/-- The numbers of complete tuples in the runs of polygon vertices, in document order. -/
def tupleCounts (s : Session) (width : Nat) : List Nat := s.nodes.flatMap (·.tupleCounts width)

/-- What the index elements of a session add to the counters. -/
theorem adds_assembly :
    (s.opened r).Adds (s.assembly r) (s.tupleCounts (s.inputList r.vertices).width) := by
  have hlayout : (s.opened r).layout = (s.resolution r).layout := by
    rw [opened_eq]
    rfl
  have hadds := Assembly.adds_readNodes (s.run_opened r) (s.stage_opened r) s.nodes
  rw [hlayout, width_layout] at hadds
  exact hadds

theorem element_opened : (s.opened r).element = s.element := by
  rw [opened_eq]
  rfl

/-- The faces that the runs of a session add. -/
theorem faces_assembly_eq :
    (s.assembly r).faces = total ((s.tupleCounts (s.inputList r.vertices).width).map
      s.element.facesOfRun) := by
  have hfaces : (s.opened r).faces = 0 := by
    rw [opened_eq]
    rfl
  rw [(s.adds_assembly r).faces_eq, hfaces, element_opened, Nat.zero_add]

/-- The faces of single polygons. -/
theorem faces_assembly (helement : s.element = .polygons) :
    (s.assembly r).faces
      = total (s.nodes.map (·.faces (s.inputList r.vertices).width)) := by
  rw [faces_assembly_eq, helement, tupleCounts]
  induction s.nodes with
  | nil => rfl
  | cons n ns ih =>
      rw [List.flatMap_cons, List.map_append, total_append, ih, List.map_cons, total_cons,
        IndexNode.faces_eq_total]

/-- The vertex counts that a session lists or adds. -/
theorem counts_assembly_eq (helement : s.element ≠ .polygons) :
    (s.assembly r).primitive.counts
      = ((s.vertexCounts ++ (s.tupleCounts (s.inputList r.vertices).width).flatMap
          s.element.countsOfRun).map vertexCountEntry).toArray := by
  have hcounts : (s.opened r).primitive.counts
      = (s.vertexCounts.map vertexCountEntry).toArray := by
    rw [opened_eq]
  rw [(s.adds_assembly r).counts_eq (by rw [element_opened]; exact helement), hcounts,
    element_opened]
  simp

/-- The vertex counts of a list of polygons. -/
theorem counts_assembly (helement : s.element = .polylist) :
    (s.assembly r).primitive.counts = (s.vertexCounts.map vertexCountEntry).toArray := by
  have hnone (ts : List Nat) : ts.flatMap Element.polylist.countsOfRun = [] := by
    simp [Element.countsOfRun]
  rw [s.counts_assembly_eq r (by simp [helement]), helement, hnone, List.append_nil]

end Session

/-! ## Grouping -/

namespace Assembly

variable (a : Assembly)

theorem grouping_closeRun (mesh : String) (run : Run) :
    (a.closeRun mesh run).value.primitive.grouping = a.primitive.grouping := by
  rw [closeRun, Noted.value_bind]
  dsimp only
  split
  · rw [addPolygonRun]
    split
    · rfl
    · rfl
    · split <;> rfl
    · split <;> rfl
    · split <;> rfl
  · rw [addHoleRun]
    split
    · split <;> rfl
    · rfl

theorem grouping_readRun (kind : RunKind) (values : List Nat) :
    (a.readRun kind values).primitive.grouping = a.primitive.grouping :=
  (grouping_closeRun _ _ _).trans (a.layout.grouping_pushTuples _ a.primitive)

theorem grouping_readRuns (us : List (RunKind × List (List Nat))) :
    (us.foldl (fun a u => a.readRun u.1 u.2.flatten) a).primitive.grouping
      = a.primitive.grouping := by
  induction us generalizing a with
  | nil => rfl
  | cons u us ih => exact (ih _).trans (a.grouping_readRun u.1 u.2.flatten)

theorem grouping_readNodes (ns : List IndexNode) :
    (ns.foldl readNode a).primitive.grouping = a.primitive.grouping := by
  have hnode (a : Assembly) (n : IndexNode) :
      (a.readNode n).primitive.grouping = a.primitive.grouping := by
    cases n with
    | run kind pieces =>
        cases kind with
        | polygon => exact a.grouping_readRun .polygon pieces.flatten
        | hole => rfl
    | holed runs =>
        rw [readNode]
        split
        · exact grouping_readRuns { a with stage := .holed none } runs
        · exact a.grouping_readRuns _
  induction ns generalizing a with
  | nil => rfl
  | cons n ns ih => exact (ih _).trans (hnode a n)

theorem grouping_of_finished {a : Assembly} {p : Primitive} (h : a.finished = some p) :
    p.grouping = a.primitive.grouping := by
  have hkeep (q : Primitive) (faces : Nat) (h : (a.keep "" q faces).value = some p)
      (hq : q.grouping = a.primitive.grouping) : p.grouping = a.primitive.grouping := by
    rw [eq_of_keep h]
    exact hq
  rw [finished, finish] at h
  cases he : a.element with
  | triangles =>
      rw [he] at h
      exact hkeep (a.primitive.take _) _ h rfl
  | polylist =>
      rw [he] at h
      dsimp only at h
      split at h
      · exact hkeep (a.primitive.take _) _ h rfl
      · exact hkeep a.primitive 0 h rfl
  | polygons =>
      rw [he] at h
      exact hkeep a.primitive _ h rfl
  | tristrips | trifans =>
      rw [he] at h
      exact hkeep { a.primitive with groups := _ } _ h rfl

end Assembly

/-- **The faces of a primitive are grouped** as its element says. -/
theorem Session.grouping_of_finished (s : Session) (r : Reader) {p : Primitive}
    (h : (s.assembly r).finished = some p) : p.grouping = s.element.grouping := by
  have hopened : (s.opened r).primitive.grouping = s.element.grouping := by
    rw [opened_eq]
    rfl
  rw [Assembly.grouping_of_finished h, assembly, Assembly.grouping_readNodes, hopened]

end MeshWeave
