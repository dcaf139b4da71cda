import MeshWeave.Proofs.Reader.Run
import MeshWeave.Proofs.Reader.Runs

set_option autoImplicit false

/-! # Index elements

The index elements of a primitive element hold its runs; one that groups a polygon with its holes
holds several. This file says what a reader makes of such an element as a whole, from its begin tag
to its end tag and with contents in pieces of any size.

`Assembly.readRun` is what a run of values does to a primitive under construction. It is a function
of all values of the run, so the pieces do not matter. `Assembly.readNode` is the same for an
element with all runs inside, and `after_node` says that a reader behind the element stands
there. -/

namespace MeshWeave

/-! ## The text of index elements -/

/-- An index element, or an element that groups them, with contents in pieces. -/
inductive IndexNode where
  | run (kind : RunKind) (pieces : List (List Nat))
  | holed (runs : List (RunKind × List (List Nat)))
  deriving Repr

/-- The events of an index element whose values come in pieces. -/
def Event.pieces (kind : RunKind) (pieces : List (List Nat)) : List Event :=
  .openRun kind :: (pieces.map (.indices kind) ++ [.closeRun kind])

/-- The events of a node. -/
def IndexNode.events : IndexNode → List Event
  | run kind pieces => Event.pieces kind pieces
  | holed runs => .openHoled :: (runs.flatMap (fun u => Event.pieces u.1 u.2) ++ [.closeHoled])

/-- Whether an index element has its place in a primitive element, with all it holds. -/
def IndexNode.fits (element : Element) : IndexNode → Bool
  | run kind _ => kind == .polygon
  | holed _ => element == .polygons

/-! ## What an index element does -/

namespace Assembly

/-- The tuples that a run reads. A hole without a polygon before it is not read. -/
def tuplesOf (a : Assembly) (kind : RunKind) (values : List Nat) : List (Array Nat) :=
  if kind = .hole ∧ a.stage = .holed none then [] else tuples a.layout.width values

/-- The primitive under construction after a run of values. -/
def readRun (a : Assembly) (kind : RunKind) (values : List Nat) : Assembly :=
  a.takeRun kind (a.tuplesOf kind values)

/-- The primitive under construction after a node. Only single polygons have holes; elsewhere the
    element around them, and the holes themselves, are ignored. -/
def readNode (a : Assembly) : IndexNode → Assembly
  | .run .polygon pieces => a.readRun .polygon pieces.flatten
  | .run .hole _ => a
  | .holed runs =>
      if a.element = .polygons then
        { (runs.foldl (fun a u => a.readRun u.1 u.2.flatten) { a with stage := .holed none }) with
          stage := .indexing }
      else
        (runs.filter (·.1 == .polygon)).foldl (fun a u => a.readRun u.1 u.2.flatten) a

theorem readRun_polygon (a : Assembly) (values : List Nat) :
    a.readRun .polygon values = a.takeRun .polygon (tuples a.layout.width values) := by
  rw [readRun, tuplesOf, if_neg (by simp)]

theorem readRun_hole_of_some (a : Assembly) (values : List Nat) {face : UInt32}
    (hstage : a.stage = .holed (some face)) :
    a.readRun .hole values = a.takeRun .hole (tuples a.layout.width values) := by
  rw [readRun, tuplesOf, if_neg (by simp [hstage])]

theorem readRun_hole_of_none (a : Assembly) (values : List Nat) (hstage : a.stage = .holed none) :
    a.readRun .hole values = { a with run := none } := by
  rw [readRun, tuplesOf, if_pos ⟨rfl, hstage⟩, takeRun_hole_nil]

theorem follows_readRun (a : Assembly) (kind : RunKind) (values : List Nat) :
    a.Follows (a.readRun kind values) := a.follows_takeRun kind _

/-- Runs that follow each other. -/
theorem follows_readRuns {a : Assembly} (hrun : a.run = none)
    (runs : List (RunKind × List (List Nat))) :
    a.Follows (runs.foldl (fun a u => a.readRun u.1 u.2.flatten) a) := by
  induction runs generalizing a with
  | nil => exact .refl hrun
  | cons u runs ih =>
      have hf := a.follows_readRun u.1 u.2.flatten
      exact hf.trans (ih hf.run_eq)

/-- What an index element leaves alone. -/
theorem follows_readNode {a : Assembly} (hrun : a.run = none) (hstage : a.stage = .indexing)
    (n : IndexNode) : a.Follows (a.readNode n) := by
  cases n with
  | run kind pieces =>
      cases kind with
      | polygon => exact a.follows_readRun .polygon pieces.flatten
      | hole => exact .refl hrun
  | holed runs =>
      rw [readNode]
      split
      · have hf := follows_readRuns (a := { a with stage := .holed none }) hrun runs
        exact ⟨hf.element_eq, hf.layout_eq, hf.inputs_eq, hf.expected_eq, hf.material_eq, hf.run_eq,
          by rw [hstage], fun _ => hstage.symm⟩
      · exact follows_readRuns hrun _

/-- Index elements that follow each other. -/
theorem follows_readNodes {a : Assembly} (hrun : a.run = none) (hstage : a.stage = .indexing)
    (ns : List IndexNode) : a.Follows (ns.foldl readNode a) := by
  induction ns generalizing a with
  | nil => exact .refl hrun
  | cons n ns ih =>
      have hf := follows_readNode hrun hstage n
      exact hf.trans (ih hf.run_eq (hf.indexing hstage))

end Assembly

namespace Reader

section Runs

variable {r : Reader} {a : Assembly} (h : r.current = some a)

include h

/-- Pieces of a run are read like one piece. -/
theorem reads_indices {base : Assembly} {kind : RunKind} {us : List (Array Nat)}
    {pending : Array Nat} (hbase : a = base.during kind us pending)
    (hread : ¬ (kind = .hole ∧ base.stage = .holed none)) (pieces : List (List Nat)) :
    r.Reads (pieces.map (.indices kind))
      (r.setCurrent (base.during kind
        (us ++ (cutTuples base.layout.width pending pieces.flatten).1)
        (cutTuples base.layout.width pending pieces.flatten).2)) := by
  subst hbase
  induction pieces generalizing r us pending with
  | nil =>
      rw [List.flatten_nil, cutTuples, List.append_nil]
      exact Reads.of_current h
  | cons xs pieces ih =>
      -- What a piece leaves of a tuple is completed by the next one.
      let more := base.during kind (us ++ (cutTuples base.layout.width pending xs).1)
        (cutTuples base.layout.width pending xs).2
      have hreads : ¬ (kind = .hole ∧ (base.during kind us pending).stage = .holed none) := hread
      have hadv : (r.ready (.indices kind xs)).advance (.indices kind xs)
          = some (pure (r.setCurrent more)) := by
        rw [ready, if_neg (by simp [Event.settles]), advance_indices h kind xs rfl rfl,
          if_neg hreads, Assembly.readValues_during]
      have hrest := ih (r := r.setCurrent more) rfl
      rw [List.append_assoc, ← fst_cutTuples_append, ← snd_cutTuples_append] at hrest
      exact (Reads.of_advance hadv).cons hrest

/-- Values of a hole without a polygon around it change nothing. -/
theorem reads_stray (kind : RunKind) {run : Run} (hrun : a.run = some run)
    (hkind : run.kind = kind) (hstray : kind = .hole ∧ a.stage = .holed none)
    (pieces : List (List Nat)) : r.Reads (pieces.map (.indices kind)) r := by
  induction pieces with
  | nil => exact Reads.nil r
  | cons xs pieces ih =>
      have hadv : (r.ready (.indices kind xs)).advance (.indices kind xs) = some (pure r) := by
        rw [ready, if_neg (by simp [Event.settles]), advance_indices h kind xs hrun hkind,
          if_pos hstray]
      exact (Reads.of_advance hadv).cons ih

/-- The end of a run. -/
theorem reads_closeRun {base : Assembly} {kind : RunKind} {us : List (Array Nat)}
    {pending : Array Nat} (hbase : a = base.during kind us pending)
    (hstage : base.stage ≠ .declaring) :
    r.Reads [.closeRun kind] (r.setCurrent (base.takeRun kind us)) := by
  subst hbase
  have hadv : (r.ready (.closeRun kind)).advance (.closeRun kind)
      = some do return r.setCurrent (← (base.during kind us pending).closeRun r.mesh.id
          ⟨kind, base.primitive.lengths, pending, us.length⟩) := by
    rw [advance_ready h _ hstage, advance_closeRun h kind rfl rfl]
  have hreads := Reads.of_advance hadv
  rwa [Noted.value_bind, base.closeRun_during] at hreads

/-- An index element is read as a whole. -/
theorem reads_pieces (kind : RunKind) (hrun : a.run = none)
    (hstage : a.stage.takesRuns kind = true) (hw : 0 < a.layout.width)
    (pieces : List (List Nat)) :
    r.Reads (Event.pieces kind pieces) (r.setCurrent (a.readRun kind pieces.flatten)) := by
  have hne : a.stage ≠ .declaring := by
    intro hd
    rw [hd] at hstage
    exact absurd hstage (by simp)
  have hadv : (r.ready (.openRun kind)).advance (.openRun kind)
      = some (pure (r.setCurrent (a.during kind [] #[]))) := by
    rw [advance_ready h _ hne, advance_openRun h, if_pos ⟨by simp [hrun], hstage⟩,
      Assembly.openRun_eq]
  have hopen : (r.setCurrent (a.during kind [] #[])).current = some (a.during kind [] #[]) := rfl
  refine (Reads.of_advance hadv).cons ?_
  rw [Assembly.readRun, Assembly.tuplesOf]
  -- A hole behind no polygon is opened and closed all the same, but its values are not read.
  by_cases hstray : kind = .hole ∧ a.stage = .holed none
  · rw [if_pos hstray]
    exact (reads_stray hopen kind rfl rfl hstray pieces).append (reads_closeRun hopen rfl hne)
  · rw [if_neg hstray, ← cutTuples_fst a.layout.width hw]
    exact (reads_indices hopen rfl hstray pieces).append (reads_closeRun rfl rfl hne)

/-- An event of an index element has no place behind the inputs unless it is the next one. -/
theorem next_of_advance_none (e : Event) (hstage : a.stage ≠ .declaring)
    (hadv : r.advance e = none) : r.next e = r := by
  rw [next_of_none (by rw [advance_ready h e hstage, hadv]), ready_of_ne e h hstage]

/-- A hole outside of a polygon with holes is ignored, tag by tag. -/
theorem after_hole_of_not_holed (hrun : a.run = none) (hstage : a.stage.isHoled = false)
    (pieces : List (List Nat)) : r.after (Event.pieces .hole pieces) = r := by
  have htakes : a.stage.takesRuns .hole = false := by
    cases hs : a.stage <;> simp_all [Stage.isHoled]
  have hopen : r.next (.openRun .hole) = r :=
    next_eq_self rfl (by rw [advance_openRun h]; simp [htakes])
  have hvalues (xs : List Nat) : r.next (.indices .hole xs) = r :=
    next_eq_self rfl (advance_of_run_none h hrun .hole xs).1
  have hclose : r.next (.closeRun .hole) = r :=
    next_eq_self rfl (advance_of_run_none h hrun .hole []).2
  apply after_of_ignored
  intro e he
  simp only [Event.pieces, List.mem_cons, List.mem_append, List.mem_map, List.not_mem_nil,
    or_false] at he
  rcases he with rfl | ⟨xs, _, rfl⟩ | rfl
  · exact hopen
  · exact hvalues xs
  · exact hclose

end Runs

/-- Runs inside an element for a polygon with holes. -/
theorem reads_holedRuns {r : Reader} {a : Assembly} (h : r.current = some a) (hrun : a.run = none)
    (hstage : a.stage.isHoled = true) (hw : 0 < a.layout.width)
    (runs : List (RunKind × List (List Nat))) :
    r.Reads (runs.flatMap fun u => Event.pieces u.1 u.2)
      (r.setCurrent (runs.foldl (fun a u => a.readRun u.1 u.2.flatten) a)) := by
  induction runs generalizing r a with
  | nil => exact Reads.of_current h
  | cons u runs ih =>
      have hf := a.follows_readRun u.1 u.2.flatten
      have htakes : a.stage.takesRuns u.1 = true := by
        cases hs : a.stage <;> simp_all [Stage.isHoled]
      exact (reads_pieces h u.1 hrun htakes hw u.2).append
        (ih (r := r.setCurrent (a.readRun u.1 u.2.flatten)) rfl hf.run_eq
          (hf.isHoled_eq.trans hstage) (hf.layout_eq ▸ hw))

/-- Runs inside such an element of another primitive element, where only polygons count. -/
theorem after_plainRuns {r : Reader} {a : Assembly} (h : r.current = some a) (hrun : a.run = none)
    (hstage : a.stage = .indexing) (hw : 0 < a.layout.width)
    (runs : List (RunKind × List (List Nat))) :
    r.after (runs.flatMap fun u => Event.pieces u.1 u.2)
      = r.setCurrent ((runs.filter (·.1 == .polygon)).foldl
          (fun a u => a.readRun u.1 u.2.flatten) a) := by
  induction runs generalizing r a with
  | nil => exact (setCurrent_self h).symm
  | cons u runs ih =>
      obtain ⟨kind, pieces⟩ := u
      rw [List.flatMap_cons, after_append]
      cases kind with
      | polygon =>
          have hf := a.follows_readRun .polygon pieces.flatten
          rw [(reads_pieces h .polygon hrun (by rw [hstage]; rfl) hw pieces).1]
          exact ih (r := r.setCurrent (a.readRun .polygon pieces.flatten)) rfl hf.run_eq
            (hf.indexing hstage) (hf.layout_eq ▸ hw)
      | hole =>
          rw [after_hole_of_not_holed h hrun (by rw [hstage]; rfl) pieces]
          exact ih h hrun hstage hw

/-! ## Whole elements -/

section Nodes

variable {r : Reader} {a : Assembly} (h : r.current = some a) (hrun : a.run = none)
  (hstage : a.stage = .indexing) (hw : 0 < a.layout.width)

include h hrun hstage hw

/-- An index element that has its place is read with all it holds. -/
theorem reads_node (n : IndexNode) (hfits : n.fits a.element = true) :
    r.Reads n.events (r.setCurrent (a.readNode n)) := by
  have hne : a.stage ≠ .declaring := by simp [hstage]
  cases n with
  | run kind pieces =>
      obtain rfl : kind = .polygon := by simpa [IndexNode.fits] using hfits
      exact reads_pieces h .polygon hrun (by rw [hstage]; rfl) hw pieces
  | holed runs =>
      have helement : a.element = .polygons := by simpa [IndexNode.fits] using hfits
      let inside : Assembly := { a with stage := .holed none }
      let behind : Assembly := runs.foldl (fun a u => a.readRun u.1 u.2.flatten) inside
      have hf : inside.Follows behind := Assembly.follows_readRuns (a := inside) hrun runs
      -- The begin tag, the runs, and the end tag, which goes back to where the begin tag was.
      have hopen : (r.ready .openHoled).advance .openHoled = some (pure (r.setCurrent inside)) := by
        rw [advance_ready h _ hne, advance_openHoled h,
          if_pos ⟨hstage, by rw [hrun]; rfl, helement⟩]
      have hruns := reads_holedRuns (r := r.setCurrent inside) (a := inside) rfl hrun rfl hw runs
      have hholed : behind.stage.isHoled = true := hf.isHoled_eq
      have hbehind : behind.stage ≠ .declaring := by
        intro hd
        rw [hd] at hholed
        exact absurd hholed (by simp [Stage.isHoled])
      have hclose : ((r.setCurrent behind).ready .closeHoled).advance .closeHoled
          = some (pure (r.setCurrent { behind with stage := .indexing })) := by
        rw [advance_ready (a := behind) rfl _ hbehind, advance_closeHoled (a := behind) rfl,
          if_pos ⟨hholed, by rw [hf.run_eq]; rfl⟩]
        rfl
      rw [Assembly.readNode, if_pos helement]
      exact (Reads.of_advance hopen).cons (hruns.append (Reads.of_advance hclose))

/-- Whether or not an index element has its place, a reader behind it stands where `readNode`
    says. -/
theorem after_node (n : IndexNode) : r.after n.events = r.setCurrent (a.readNode n) := by
  by_cases hfits : n.fits a.element = true
  · exact (reads_node h hrun hstage hw n hfits).1
  have hne : a.stage ≠ .declaring := by simp [hstage]
  -- Tags out of place are ignored one by one, but the runs between them may have their places.
  cases n with
  | run kind pieces =>
      cases kind with
      | polygon => exact absurd rfl hfits
      | hole =>
          rw [Assembly.readNode, setCurrent_self h]
          exact after_hole_of_not_holed h hrun (by rw [hstage]; rfl) pieces
  | holed runs =>
      have helement : a.element ≠ .polygons := by simpa [IndexNode.fits] using hfits
      let behind : Assembly :=
        (runs.filter (·.1 == .polygon)).foldl (fun a u => a.readRun u.1 u.2.flatten) a
      have hf : a.Follows behind := Assembly.follows_readRuns hrun _
      have hbehind : behind.stage = .indexing := hf.indexing hstage
      have hopen : r.next .openHoled = r :=
        next_of_advance_none h _ hne (by rw [advance_openHoled h, if_neg (by simp [helement])])
      have hclose : (r.setCurrent behind).next .closeHoled = r.setCurrent behind :=
        next_of_advance_none (a := behind) rfl _ (by simp [hbehind])
          (by
            rw [advance_closeHoled (a := behind) rfl,
              if_neg (by simp [hbehind, Stage.isHoled])])
      rw [Assembly.readNode, if_neg helement, IndexNode.events, after_cons, hopen, after_append,
        after_plainRuns h hrun hstage hw runs, after_cons, after_nil]
      exact hclose

end Nodes

/-- Index elements one after the other. -/
theorem after_nodes {r : Reader} {a : Assembly} (h : r.current = some a) (hrun : a.run = none)
    (hstage : a.stage = .indexing) (hw : 0 < a.layout.width) (ns : List IndexNode) :
    r.after (ns.flatMap IndexNode.events) = r.setCurrent (ns.foldl Assembly.readNode a) := by
  induction ns generalizing r a with
  | nil => exact (setCurrent_self h).symm
  | cons n ns ih =>
      have hf := Assembly.follows_readNode hrun hstage n
      rw [List.flatMap_cons, after_append, after_node h hrun hstage hw n]
      exact ih (r := r.setCurrent (a.readNode n)) rfl hf.run_eq
        (hf.indexing hstage) (hf.layout_eq ▸ hw)

/-- Index elements that all have their places. -/
theorem reads_nodes {r : Reader} {a : Assembly} (h : r.current = some a) (hrun : a.run = none)
    (hstage : a.stage = .indexing) (hw : 0 < a.layout.width) (ns : List IndexNode)
    (hfits : ∀ n ∈ ns, n.fits a.element = true) :
    r.Reads (ns.flatMap IndexNode.events) (r.setCurrent (ns.foldl Assembly.readNode a)) := by
  induction ns generalizing r a with
  | nil => exact Reads.of_current h
  | cons n ns ih =>
      have hf := Assembly.follows_readNode hrun hstage n
      exact (reads_node h hrun hstage hw n (hfits n (by simp))).append
        (ih (r := r.setCurrent (a.readNode n)) rfl hf.run_eq
          (hf.indexing hstage) (hf.layout_eq ▸ hw)
          (fun m hm => by rw [hf.element_eq]; exact hfits m (by simp [hm])))

end Reader

end MeshWeave
