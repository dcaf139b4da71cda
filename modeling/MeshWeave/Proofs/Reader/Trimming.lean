import MeshWeave.Proofs.Reader.Decoding
import MeshWeave.Proofs.Reader.Refinement

set_option autoImplicit false

/-! # Incomplete contents leave no trace

Values behind the last complete tuple of a run are read, and so are strips and fans of less than
three vertices; some of them reach the index arrays before it turns out that they do not count. Here
they are cut out of the text beforehand. A reader cannot tell the two texts apart: it ends up the
same in every part, not only in the mesh. A decoder with registers has written the values to its
index arrays, and made channels for them, before it takes them back; it ends up the same none the
less.

How a text is divided into pieces does not matter either, so the main statement is about any two
texts that agree once their contents are in one piece. -/

namespace MeshWeave

/-! ## Texts without incomplete contents -/

/-- The longest part of a run, from its begin, that consists of complete tuples. -/
def wholeTuples (width : Nat) (values : List Nat) : List Nat :=
  values.take (values.length / width * width)

theorem length_wholeTuples (width : Nat) (values : List Nat) :
    (wholeTuples width values).length = values.length / width * width := by
  rw [wholeTuples, List.length_take]
  exact Nat.min_eq_left (Nat.div_mul_le_self _ _)

/-- Cutting a run to complete tuples keeps its tuples. -/
theorem tuples_wholeTuples (width : Nat) (hw : 0 < width) (values : List Nat) :
    tuples width (wholeTuples width values) = tuples width values := by
  rw [tuples, tuples, length_wholeTuples, Nat.mul_div_cancel _ hw]
  apply List.map_congr_left
  intro t ht
  have hfits : t * width + width ≤ values.length / width * width := by
    rw [← Nat.succ_mul]
    exact Nat.mul_le_mul_right width (List.mem_range.mp ht)
  rw [wholeTuples, List.drop_take, List.take_take, Nat.min_eq_left (by omega)]

namespace IndexNode

/-- Runs without incomplete contents: what does not complete a tuple is cut off, and runs of polygon
    vertices that do not count are left out. -/
def trimRuns (element : Element) (width : Nat) (runs : List (RunKind × List (List Nat))) :
    List (RunKind × List (List Nat)) :=
  (runs.filter fun u => u.1 == .hole || element.takes width u.2.flatten).map fun u =>
    (u.1, [wholeTuples width u.2.flatten])

/-- An index element without incomplete contents. -/
def trim (element : Element) (width : Nat) : IndexNode → List IndexNode
  | run kind pieces => (trimRuns element width [(kind, pieces)]).map fun u => run u.1 u.2
  | holed runs => [holed (trimRuns element width runs)]

/-- An index element with its contents in one piece. -/
def inOnePiece : IndexNode → IndexNode
  | run kind pieces => run kind [pieces.flatten]
  | holed runs => holed (runs.map fun u => (u.1, [u.2.flatten]))

end IndexNode

namespace Session

/-- A session without incomplete contents. -/
def trimmed (s : Session) (width : Nat) : Session :=
  { s with nodes := s.nodes.flatMap (IndexNode.trim s.element width) }

/-- A session with all contents in one piece. -/
def inOnePiece (s : Session) : Session :=
  { s with
    counts := s.counts.map fun pieces => [pieces.flatten]
    nodes := s.nodes.map IndexNode.inOnePiece }

end Session

/-! ## Runs -/

namespace Assembly

variable {a : Assembly}

theorem readRun_wholeTuples (hw : 0 < a.layout.width) (kind : RunKind) (values : List Nat) :
    a.readRun kind (wholeTuples a.layout.width values) = a.readRun kind values := by
  rw [readRun, readRun, tuplesOf, tuplesOf, tuples_wholeTuples _ hw]

/-- A run that does not count leaves everything as it was. -/
theorem readRun_of_not_takes (hrun : a.run = none) {ts : List (Array Nat)} (h : a.Gathers ts)
    {values : List Nat} (hshort : a.element.takes a.layout.width values = false) :
    a.readRun .polygon values = a := by
  have hcounts : a.element.counts (tuples a.layout.width values).length = false := by
    rw [length_tuples]
    exact hshort
  have hless : (tuples a.layout.width values).length < 3 := by
    rw [Element.counts, Bool.or_eq_false_iff, decide_eq_false_iff_not] at hcounts
    omega
  have hback : a.takeGroup (tuples a.layout.width values) = a := by
    rw [takeGroup, if_pos hless, h.restore, ← hrun]
  rw [readRun_polygon, takeRun_polygon]
  cases he : a.element with
  | triangles => simp [he, Element.counts, Element.grouping, Grouping.isStripOrFan] at hcounts
  | polylist => simp [he, Element.counts, Element.grouping, Grouping.isStripOrFan] at hcounts
  | polygons => simp [he, Element.counts, Element.grouping, Grouping.isStripOrFan] at hcounts
  | tristrips => exact hback
  | trifans => exact hback

/-- Runs of polygon vertices in an element that has no holes. -/
theorem readPolygons_trimRuns (hrun : a.run = none) (hw : 0 < a.layout.width)
    {ts : List (Array Nat)} (h : a.Gathers ts) (runs : List (RunKind × List (List Nat))) :
    ((IndexNode.trimRuns a.element a.layout.width runs).filter (·.1 == .polygon)).foldl
        (fun a u => a.readRun u.1 u.2.flatten) a
      = (runs.filter (·.1 == .polygon)).foldl (fun a u => a.readRun u.1 u.2.flatten) a := by
  induction runs generalizing a ts with
  | nil => rfl
  | cons u runs ih =>
      obtain ⟨kind, pieces⟩ := u
      cases kind with
      | hole => exact ih hrun hw h
      | polygon =>
          have hf := a.follows_readRun .polygon pieces.flatten
          have hrest := ih hf.run_eq (hf.layout_eq ▸ hw) (gathers_readRun_polygon h pieces.flatten)
          rw [hf.element_eq, hf.layout_eq] at hrest
          rw [List.filter_cons_of_pos (by rfl), List.foldl_cons, ← hrest]
          unfold IndexNode.trimRuns
          by_cases htakes : a.element.takes a.layout.width pieces.flatten = true
          · rw [List.filter_cons_of_pos (by simp [htakes]), List.map_cons,
              List.filter_cons_of_pos (by rfl), List.foldl_cons, List.flatten_singleton,
              readRun_wholeTuples hw]
          · rw [Bool.not_eq_true] at htakes
            rw [List.filter_cons_of_neg (by simp [htakes]), readRun_of_not_takes hrun h htakes]

/-- Runs inside a polygon with holes all count. -/
theorem readRuns_trimRuns (hw : 0 < a.layout.width) (runs : List (RunKind × List (List Nat))) :
    (IndexNode.trimRuns .polygons a.layout.width runs).foldl
        (fun a u => a.readRun u.1 u.2.flatten) a
      = runs.foldl (fun a u => a.readRun u.1 u.2.flatten) a := by
  have hall (runs : List (RunKind × List (List Nat))) :
      (runs.filter fun u => u.1 == .hole || Element.polygons.takes a.layout.width u.2.flatten)
        = runs := List.filter_eq_self.mpr fun u _ => Bool.or_eq_true_iff.mpr (Or.inr rfl)
  rw [IndexNode.trimRuns, hall]
  clear hall
  induction runs generalizing a with
  | nil => rfl
  | cons u runs ih =>
      have hf := a.follows_readRun u.1 u.2.flatten
      have hrest := ih (hf.layout_eq ▸ hw)
      rw [hf.layout_eq] at hrest
      rw [List.map_cons, List.foldl_cons, List.foldl_cons, ← hrest, List.flatten_singleton,
        readRun_wholeTuples hw]

/-! ## Index elements -/

/-- An index element is read like what is left of it. -/
theorem readNode_trim (hrun : a.run = none) (hw : 0 < a.layout.width) {ts : List (Array Nat)}
    (h : a.Gathers ts) (n : IndexNode) :
    (n.trim a.element a.layout.width).foldl readNode a = a.readNode n := by
  cases n with
  | run kind pieces =>
      cases kind with
      | hole => rfl
      | polygon =>
          rw [IndexNode.trim, IndexNode.trimRuns]
          by_cases htakes : a.element.takes a.layout.width pieces.flatten = true
          · rw [List.filter_cons_of_pos (by simp [htakes])]
            show a.readRun .polygon [wholeTuples _ _].flatten = a.readRun .polygon _
            rw [List.flatten_singleton, readRun_wholeTuples hw]
          · rw [Bool.not_eq_true] at htakes
            rw [List.filter_cons_of_neg (by simp [htakes])]
            exact (readRun_of_not_takes hrun h htakes).symm
  | holed runs =>
      show a.readNode (.holed _) = a.readNode (.holed runs)
      rw [readNode, readNode]
      split
      · next helement =>
          have hruns : IndexNode.trimRuns a.element a.layout.width runs
              = IndexNode.trimRuns .polygons a.layout.width runs := by rw [helement]
          rw [hruns]
          exact congrArg (fun b : Assembly => { b with stage := .indexing })
            (readRuns_trimRuns (a := { a with stage := .holed none }) hw runs)
      · exact readPolygons_trimRuns hrun hw h runs

theorem readNodes_trim (hrun : a.run = none) (hstage : a.stage = .indexing)
    (hw : 0 < a.layout.width) {ts : List (Array Nat)} (h : a.Gathers ts) (ns : List IndexNode) :
    (ns.flatMap (IndexNode.trim a.element a.layout.width)).foldl readNode a
      = ns.foldl readNode a := by
  induction ns generalizing a ts with
  | nil => rfl
  | cons n ns ih =>
      have hf := follows_readNode hrun hstage n
      have hrest := ih hf.run_eq (hf.indexing hstage) (hf.layout_eq ▸ hw) (gathers_readNode h n)
      rw [hf.element_eq, hf.layout_eq] at hrest
      rw [List.flatMap_cons, List.foldl_append, readNode_trim hrun hw h, List.foldl_cons, hrest]

theorem readNode_inOnePiece (a : Assembly) (n : IndexNode) :
    a.readNode n.inOnePiece = a.readNode n := by
  have hfoldl (a : Assembly) (runs : List (RunKind × List (List Nat))) :
      (runs.map fun u => (u.1, [u.2.flatten])).foldl (fun a u => a.readRun u.1 u.2.flatten) a
        = runs.foldl (fun a u => a.readRun u.1 u.2.flatten) a := by
    rw [List.foldl_map]
    simp only [List.flatten_singleton]
  cases n with
  | run kind pieces =>
      cases kind with
      | hole => rfl
      | polygon => exact congrArg (a.readRun .polygon) (List.flatten_singleton)
  | holed runs =>
      rw [IndexNode.inOnePiece, readNode, readNode, hfoldl, List.filter_map, hfoldl]
      rfl

end Assembly

/-! ## Sessions -/

namespace Session

variable (s : Session) (r : Reader)

/-- The reader behind a session does not depend on the pieces. -/
theorem behind_inOnePiece : s.inOnePiece.behind r = s.behind r := by
  have hcounts : s.inOnePiece.vertexCounts = s.vertexCounts := by
    unfold vertexCounts inOnePiece
    cases s.counts <;> simp
  have hopened : s.inOnePiece.opened r = s.opened r := by
    rw [opened, hcounts]
    rfl
  have hassembly : s.inOnePiece.assembly r = s.assembly r := by
    rw [assembly, hopened, inOnePiece, List.foldl_map]
    simp only [Assembly.readNode_inOnePiece]
    rfl
  rw [behind, hassembly]
  rfl

/-- Nor does it depend on incomplete contents. -/
theorem behind_trimmed : (s.trimmed (s.inputList r.vertices).width).behind r = s.behind r := by
  have helement : (s.opened r).element = s.element := by
    rw [opened_eq]
    rfl
  have hwidth : (s.opened r).layout.width = (s.inputList r.vertices).width := by
    rw [opened_eq]
    exact s.width_layout r
  have hassembly : (s.trimmed (s.inputList r.vertices).width).assembly r = s.assembly r := by
    have hnodes := Assembly.readNodes_trim (s.run_opened r) (s.stage_opened r)
      (s.width_opened_pos r) (s.gathers_opened r) s.nodes
    rw [helement, hwidth] at hnodes
    exact hnodes
  rw [behind, hassembly]
  rfl

end Session

/-- **Incomplete contents leave no trace.** Let the runs of a primitive element be cut to their
    complete tuples, and those strips and fans be left out that have less than three. A reader that
    is at no primitive element ends up the same behind both elements, with the same mesh, sources
    and material ids, in whatever pieces their contents come. So does a decoder whose registers show
    the reader. -/
theorem Reader.after_trimmed (r : Reader) (hidle : r.isIdle = true) (s s' : Session)
    (hs' : s'.inOnePiece = (s.trimmed ((s.inputList r.vertices).maxOffset + 1)).inOnePiece) :
    r.after s'.events = r.after s.events
    ∧ ∀ m : Registers, m.Protocol → m.Shows r →
      (m.after s'.events).mesh = (m.after s.events).mesh
      ∧ (m.after s'.events).sources = (m.after s.events).sources
      ∧ (m.after s'.events).materials = (m.after s.events).materials := by
  have hcurrent : r.current = none := by simpa [Reader.isIdle] using hidle
  have hafter : r.after s'.events = r.after s.events := by
    by_cases hsource : r.source = none
    · rw [s'.after_session r hcurrent hsource, s.after_session r hcurrent hsource,
        ← s'.behind_inOnePiece, hs', Session.behind_inOnePiece]
      exact s.behind_trimmed r
    · rw [s'.after_session_of_source r hcurrent hsource,
        s.after_session_of_source r hcurrent hsource]
  refine ⟨hafter, fun m hm hshows => ?_⟩
  have htallied : m.Tallied := .of_none (hm.element_iff.mp (hshows.isIdle_iff.mp hidle))
  obtain ⟨-, hmirrors, -, -⟩ := Registers.agrees_run hshows hm htallied s.events
  obtain ⟨-, hmirrors', -, -⟩ := Registers.agrees_run hshows hm htallied s'.events
  rw [hmirrors.mesh_eq, hmirrors'.mesh_eq, hmirrors.sources_eq, hmirrors'.sources_eq,
    hmirrors.materials_eq, hmirrors'.materials_eq, hafter]
  exact ⟨rfl, rfl, rfl⟩

/-- The first strip is too short and ends inside a tuple whose texture coordinate is not reached,
    the second one loses its last value, and nothing remains of the hole. -/
theorem Reader.after_trimmed_strips :
    let sources : SourceTable :=
      ⟨[.fresh "p" (.float (.replicate 12 ⟨0⟩)) 3, .fresh "t" (.float (.replicate 8 ⟨0⟩)) 2]⟩
    let r : Reader := { Reader.start "mesh" "" with sources }
    let s : Session :=
      { element := .tristrips, material := some "red", counts := none
        inputs := [⟨.position, "#p", 0, 0⟩, ⟨.texCoord, "#t", 1, 0⟩]
        nodes :=
          [.run .polygon [[3, 3, 2], [2, 1]], .run .polygon [[0], [3, 1, 2, 2, 1], [3]],
            .holed [(.polygon, [[0, 0]]), (.hole, [[1]])]] }
    let s' : Session :=
      { s with nodes := [.run .polygon [[0, 3, 1, 2], [], [2, 1]], .holed [(.hole, [])]] }
    let m : Registers := { Registers.start "mesh" "" with sources }
    r.isIdle = true
    ∧ s'.inOnePiece = (s.trimmed ((s.inputList r.vertices).maxOffset + 1)).inOnePiece
    ∧ m.Protocol ∧ m.Shows r
    ∧ r.after s'.events = r.after s.events ∧ (m.after s'.events).mesh = (m.after s.events).mesh
    ∧ (m.after s.events).mesh.primitives.map (·.texCoords)
      = #[[⟨"t", 0, 2, 0, #[3, 2, 1]⟩]] := by
  intro sources r s s' m
  have hidle : r.isIdle = true := by decide
  have hs' : s'.inOnePiece = (s.trimmed ((s.inputList r.vertices).maxOffset + 1)).inOnePiece := by
    with_unfolding_all rfl
  have hm : m.Protocol := { Registers.protocol_start "mesh" "" with }
  have hshows : m.Shows r := Registers.shows_idle ⟨rfl, rfl, rfl, rfl, rfl, rfl⟩ rfl rfl
  obtain ⟨hafter, hregisters⟩ := Reader.after_trimmed r hidle s s' hs'
  exact ⟨hidle, hs', hm, hshows, hafter, (hregisters m hm hshows).1, by decide +kernel⟩

end MeshWeave
