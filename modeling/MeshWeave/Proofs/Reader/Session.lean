import MeshWeave.Proofs.Reader.Counting
import MeshWeave.Proofs.Reader.Elements

set_option autoImplicit false

/-! # Whole primitive elements

A session is a primitive element from its begin tag to its end tag, well nested, with all contents
in pieces of any size. This file says what a reader that is at no primitive element makes of a
session as a whole, without the steps in between.

`Session.assembly` applies the index elements in document order to a primitive that knows its layout
and its vertex counts, and `after_session` says that a reader ends up with the primitive that this
assembly finishes to. It does not matter when the declaration of inputs ends: at the vertex counts,
at the first index element, or at the end tag. -/

namespace MeshWeave

/-! ## The text of a primitive element -/

/-- A primitive element with its inputs, its vertex counts if it lists any, and its index
    elements. -/
structure Session where
  element : Element
  material : Option String
  inputs : List SharedInput
  counts : Option (List (List Nat))
  nodes : List IndexNode
  deriving Repr

namespace Session

/-- The events of the vertex counts. -/
def countEvents (s : Session) : List Event :=
  match s.counts with
  | some pieces => .openCounts :: (pieces.map .counts ++ [.closeCounts])
  | none => []

/-- The events of the index elements and of the end tag. -/
def bodyEvents (s : Session) : List Event := s.nodes.flatMap IndexNode.events ++ [.closePrimitive]

/-- The events of a session. -/
def events (s : Session) : List Event :=
  .openPrimitive s.element s.material :: (s.inputs.map .input ++ (s.countEvents ++ s.bodyEvents))

/-- The vertex counts that are read. Only a list of polygons has any. -/
def vertexCounts (s : Session) : List Nat :=
  if s.element = .polylist then (s.counts.getD []).flatten else []

/-- The inputs that the declared ones stand for. -/
def inputList (s : Session) (v : Vertices) : InputList := ⟨s.inputs.flatMap (·.expand v)⟩

/-! ## What a session reads as -/

/-- The primitive under construction when all inputs are declared. -/
def declared (s : Session) (r : Reader) : Assembly :=
  { Assembly.start s.element (s.material.getD "") (r.materials.intern (s.material.getD "")).1 with
    inputs := s.inputList r.vertices }

/-- The sources, the mesh and the layout behind the declaration of inputs. -/
def resolution (s : Session) (r : Reader) : Resolution := r.resolution (s.declared r)

/-- The primitive under construction with its layout. -/
def laidOut (s : Session) (r : Reader) : Assembly :=
  { s.declared r with
    stage := .indexing
    layout := (s.resolution r).layout
    primitive := (s.resolution r).layout.prepare (s.declared r).primitive }

/-- The primitive under construction before the first index element. -/
def opened (s : Session) (r : Reader) : Assembly :=
  s.vertexCounts.foldl Assembly.addCount (s.laidOut r)

/-- The primitive under construction behind the last index element. -/
def assembly (s : Session) (r : Reader) : Assembly :=
  s.nodes.foldl Assembly.readNode (s.opened r)

/-- The reader while the session is read, with a primitive under construction. -/
def inside (s : Session) (r : Reader) (a : Assembly) : Reader :=
  { r with
    mesh := (s.resolution r).mesh
    sources := (s.resolution r).sources
    materials := (r.materials.intern (s.material.getD "")).2
    current := some a }

end Session

/-- The reader behind a session. -/
def Session.behind (s : Session) (r : Reader) : Reader :=
  (s.inside r (s.assembly r)).closed (s.assembly r).finished

theorem Event.isInner_of_settles {e : Event} (h : e.settles = true) : e.isInner = true := by
  cases e <;> first | rfl | exact absurd h (by simp [settles])

namespace Reader

/-! ## The parts of a session -/

/-- Outside of primitive elements an event without a place changes nothing. -/
theorem next_of_idle {r : Reader} {e : Event} (h : r.current = none) (hadv : r.advance e = none) :
    r.next e = r := by
  have hready : r.ready e = r := ready_of_none e h
  rw [next_of_none (by rw [hready, hadv]), hready]

/-- An event that ends the declaration of inputs does so first. -/
theorem step_settled (r : Reader) {e : Event} (he : e.settles = true) :
    (r.step e).value = (r.settled.step e).value := by
  have hready : r.ready e = r.settled.ready e := by
    rw [ready, ready, if_pos he, if_pos he, settled_settled]
  rw [step_value, step_value, hready]

/-- Reading inputs while they are declared. -/
theorem reads_inputs {r : Reader} {a : Assembly} (h : r.current = some a)
    (hstage : a.stage = .declaring) (is : List SharedInput) :
    r.Reads (is.map .input)
      (r.setCurrent { a with
        inputs := ⟨a.inputs.inputs ++ is.flatMap (·.expand r.vertices)⟩ }) := by
  induction is generalizing r a with
  | nil =>
      rw [List.flatMap_nil, List.append_nil]
      exact Reads.of_current h
  | cons i is ih =>
      let more : Assembly := { a with inputs := ⟨a.inputs.inputs ++ i.expand r.vertices⟩ }
      have hadv : (r.ready (.input i)).advance (.input i)
          = some do return r.setCurrent { a with inputs := ← a.inputs.add i r.vertices } := by
        rw [ready, if_neg (by simp [Event.settles]), advance_input h, if_pos hstage]
      have hrest := ih (r := r.setCurrent more) (a := more) rfl hstage
      simp only [more, List.append_assoc] at hrest
      exact (Reads.of_advance hadv).cons hrest

/-- Reading vertex counts. -/
theorem reads_countPieces {r : Reader} {a : Assembly} (h : r.current = some a)
    (hstage : a.stage = .counting) (pieces : List (List Nat)) :
    r.Reads (pieces.map .counts) (r.setCurrent (pieces.flatten.foldl Assembly.addCount a)) := by
  induction pieces generalizing r a with
  | nil => exact Reads.of_current h
  | cons counts pieces ih =>
      have hadv : (r.ready (.counts counts)).advance (.counts counts)
          = some (pure (r.setCurrent (counts.foldl Assembly.addCount a))) := by
        rw [ready, if_neg (by simp [Event.settles]), advance_counts h, if_pos hstage]
      have hrest := ih (r := r.setCurrent (counts.foldl Assembly.addCount a)) rfl
        ((a.stage_addCounts counts).trans hstage)
      rw [← List.foldl_append] at hrest
      exact (Reads.of_advance hadv).cons hrest

/-- Reading the vertex counts of a list of polygons, which end the declaration of inputs. -/
theorem reads_counts {r : Reader} {a : Assembly} (h : r.current = some a)
    (hstage : a.stage = .declaring) (helement : a.element = .polylist) {b : Assembly}
    (hb : r.settled.current = some b) (hindexing : b.stage = .indexing)
    (pieces : List (List Nat)) :
    r.Reads (.openCounts :: (pieces.map .counts ++ [.closeCounts]))
      (r.settled.setCurrent (pieces.flatten.foldl Assembly.addCount b)) := by
  have hmove (counts : List Nat) (b : Assembly) (s : Stage) :
      counts.foldl Assembly.addCount { b with stage := s }
        = { counts.foldl Assembly.addCount b with stage := s } := by
    induction counts generalizing b with
    | nil => rfl
    | cons n ns ih => exact ih (b.addCount n)
  -- Counts only add to the primitive, so the stage can be changed before or after them.
  let counting : Assembly := { b with stage := .counting }
  have hopen : r.Reads [.openCounts] (r.settled.setCurrent counting) := by
    have hadv : (r.ready .openCounts).advance .openCounts = some do
        let r ← r.settle
        return { r with current := r.current.map ({ · with stage := .counting }) } := by
      rw [ready, if_neg (by simp [Event.settles]), advance_openCounts h,
        if_pos ⟨hstage, helement⟩]
    have hvalue : r.settled.setCurrent counting
        = { r.settled with current := r.settled.current.map ({ · with stage := .counting }) } := by
      rw [hb]
      rfl
    exact hvalue ▸ Reads.of_advance hadv
  have hpieces := reads_countPieces (r := r.settled.setCurrent counting) rfl rfl pieces
  rw [hmove] at hpieces
  have hclose : (((r.settled.setCurrent counting).setCurrent
        { pieces.flatten.foldl Assembly.addCount b with stage := .counting }).ready
          .closeCounts).advance .closeCounts
      = some (pure (r.settled.setCurrent (pieces.flatten.foldl Assembly.addCount b))) := by
    have hback := hmove pieces.flatten b .indexing
    rw [← hindexing] at hback
    simp [ready, Event.settles, advance, setCurrent, ← hindexing, ← hback]
  exact hopen.cons (hpieces.append (Reads.of_advance hclose))

/-- If an event ends the declaration of inputs, so does everything that begins with it. -/
theorem Reads.of_settled {r r' : Reader} {e : Event} {es : List Event} (he : e.settles = true)
    (h : r.settled.Reads (e :: es) r') : r.Reads (e :: es) r' := by
  obtain ⟨hafter, htakes⟩ := h
  have hstep := step_settled r he
  have hnext : r.next e = r.settled.next e := congrArg Prod.snd hstep
  rw [takes_cons] at htakes
  exact ⟨by rw [after_cons, hnext]; exact hafter, by rw [takes_cons, hstep, hnext]; exact htakes⟩

/-- The declaration of inputs ends at the first index element with a place, or else at the end
    tag. -/
theorem after_body_settled (s : Session) {r : Reader} {a b : Assembly} (h : r.current = some a)
    (hrun : a.run = none) (hstage : a.stage = .declaring) (hb : r.settled.current = some b)
    (hbrun : b.run = none) (hindexing : b.stage = .indexing) :
    r.after s.bodyEvents = r.settled.after s.bodyEvents := by
  have hfirst (e : Event) (es : List Event) (he : e.settles = true) :
      r.after (e :: es) = r.settled.after (e :: es) :=
    congrArg (fun x => Reader.after x.2 es) (step_settled r he)
  -- Only holes outside of polygons do not end the declaration, and they do nothing else either.
  rw [Session.bodyEvents]
  generalize s.nodes = nodes
  induction nodes with
  | nil => exact hfirst .closePrimitive [] rfl
  | cons n ns ih =>
      rw [List.flatMap_cons]
      cases n with
      | run kind pieces =>
          cases kind with
          | polygon => exact hfirst (.openRun .polygon) _ rfl
          | hole =>
              rw [List.append_assoc, IndexNode.events, after_append r,
                after_hole_of_not_holed h hrun (by rw [hstage]; rfl), after_append r.settled,
                after_hole_of_not_holed hb hbrun (by rw [hindexing]; rfl)]
              exact ih
      | holed runs => exact hfirst .openHoled _ rfl

end Reader

/-! ## Sessions -/

namespace Session

variable (s : Session) (r : Reader)

/-- The layout is that of the inputs, with the sources as they are when all are resolved. -/
theorem layout_resolution : (s.resolution r).layout = .ofInputs (s.resolution r).sources
    (s.inputList r.vertices).width (s.inputList r.vertices).inputs :=
  Layout.resolveAll_eq_ofInputs r.mesh r.sources (s.inputList r.vertices)

theorem width_layout : (s.resolution r).layout.width = (s.inputList r.vertices).width :=
  congrArg Layout.width (s.layout_resolution r)

theorem opened_eq : s.opened r =
    { s.laidOut r with
      primitive :=
        { (s.laidOut r).primitive with counts := (s.vertexCounts.map vertexCountEntry).toArray }
      expected := min (total s.vertexCounts) counterLimit } := by
  rw [opened, Assembly.addCounts_eq _ _ (Nat.zero_le _)]
  have hcounts : (s.laidOut r).primitive.counts = #[] := rfl
  have hexpected : (s.laidOut r).expected = 0 := rfl
  simp only [hcounts, hexpected, Array.empty_append, Nat.zero_add]

theorem follows_opened : (s.opened r).Follows (s.assembly r) :=
  Assembly.follows_readNodes (by rw [opened_eq]; rfl) (by rw [opened_eq]; rfl) s.nodes

theorem element_assembly : (s.assembly r).element = s.element := by
  rw [(s.follows_opened r).element_eq, opened_eq]
  rfl

theorem material_assembly : (s.assembly r).primitive.material = s.material.getD "" := by
  rw [(s.follows_opened r).material_eq, opened_eq]
  rfl

theorem expected_assembly :
    (s.assembly r).expected = min (total s.vertexCounts) counterLimit := by
  rw [(s.follows_opened r).expected_eq, opened_eq]

/-- The reader with all inputs declared. -/
def begun (s : Session) (r : Reader) : Reader :=
  { r with
    materials := (r.materials.intern (s.material.getD "")).2
    current := some (s.declared r) }

theorem settled_begun : (s.begun r).settled = s.inside r (s.laidOut r) :=
  Reader.settled_of_declaring (r := s.begun r) (a := s.declared r) rfl rfl

theorem reads_begun (hidle : r.current = none) (hsource : r.source = none) :
    r.Reads (.openPrimitive s.element s.material :: s.inputs.map .input) (s.begun r) := by
  let first : Assembly :=
    .start s.element (s.material.getD "") (r.materials.intern (s.material.getD "")).1
  let opened : Reader :=
    { r with materials := (r.materials.intern (s.material.getD "")).2, current := some first }
  have hadv : (r.ready (.openPrimitive s.element s.material)).advance
      (.openPrimitive s.element s.material) = some (pure opened) := by
    simp [Reader.ready, Event.settles, Reader.advance, Reader.isIdle, hidle, hsource, opened, first]
  exact (Reader.Reads.of_advance hadv).cons
    (Reader.reads_inputs (r := opened) (a := first) rfl rfl s.inputs)

theorem stage_opened : (s.opened r).stage = .indexing := by rw [opened_eq]; rfl

theorem run_opened : (s.opened r).run = none := by rw [opened_eq]; rfl

theorem width_opened_pos : 0 < (s.opened r).layout.width := by
  have hlayout : (s.opened r).layout = (s.resolution r).layout := by rw [opened_eq]; rfl
  rw [hlayout, width_layout]
  exact Nat.succ_pos _

/-- The end tag. -/
theorem reads_close : (s.inside r (s.assembly r)).Reads [.closePrimitive] (s.behind r) := by
  have hf := s.follows_opened r
  have hstage : (s.assembly r).stage = .indexing :=
    hf.indexing (s.stage_opened r)
  have hclose := Reader.advance_closePrimitive (r := s.inside r (s.assembly r)) rfl
  rw [if_pos ⟨hstage, by rw [hf.run_eq]; rfl⟩, Assembly.finish_value,
    Option.map_eq_some_iff] at hclose
  obtain ⟨n, hadv, hvalue⟩ := hclose
  rw [← Reader.advance_ready (r := s.inside r (s.assembly r)) rfl .closePrimitive
    (by rw [hstage]; simp)] at hadv
  have hreads := Reader.Reads.of_advance hadv
  rw [hvalue] at hreads
  exact hreads

/-- From the first index element to the end tag. -/
theorem after_body : (s.inside r (s.opened r)).after s.bodyEvents = s.behind r := by
  rw [bodyEvents, Reader.after_append,
    Reader.after_nodes (a := s.opened r) rfl (s.run_opened r) (s.stage_opened r)
      (s.width_opened_pos r) s.nodes]
  exact (s.reads_close r).1

/-- From the first index element to the end tag, if all index elements have their places. -/
theorem reads_body (hfits : ∀ n ∈ s.nodes, n.fits s.element = true) :
    (s.inside r (s.opened r)).Reads s.bodyEvents (s.behind r) := by
  have helement : (s.opened r).element = s.element := by rw [opened_eq]; rfl
  exact (Reader.reads_nodes (a := s.opened r) rfl (s.run_opened r) (s.stage_opened r)
    (s.width_opened_pos r) s.nodes (by rw [helement]; exact hfits)).append (s.reads_close r)

/-- The vertex counts of a list of polygons. -/
theorem reads_countEvents {pieces : List (List Nat)} (hcounts : s.counts = some pieces)
    (helement : s.element = .polylist) :
    (s.begun r).Reads s.countEvents (s.inside r (s.opened r)) := by
  have hreads := Reader.reads_counts (r := s.begun r) (a := s.declared r) rfl rfl helement
    (b := s.laidOut r) (by rw [settled_begun]; rfl) rfl pieces
  rw [settled_begun] at hreads
  have hopened : s.opened r = pieces.flatten.foldl Assembly.addCount (s.laidOut r) := by
    rw [opened, vertexCounts, if_pos helement, hcounts]
    rfl
  rw [countEvents, hcounts, hopened]
  exact hreads

/-- Vertex counts elsewhere are ignored. -/
theorem after_countEvents (helement : s.element ≠ .polylist) :
    (s.begun r).after s.countEvents = s.begun r := by
  have hcurrent : (s.begun r).current = some (s.declared r) := rfl
  have hno : (s.declared r).element ≠ .polylist := helement
  have hstage : (s.declared r).stage = .declaring := rfl
  apply Reader.after_of_ignored
  intro e he
  cases hcounts : s.counts with
  | none => simp [countEvents, hcounts] at he
  | some pieces =>
      simp only [countEvents, hcounts, List.mem_cons, List.mem_append, List.mem_map,
        List.not_mem_nil, or_false] at he
      rcases he with rfl | ⟨xs, _, rfl⟩ | rfl
      · exact Reader.next_eq_self rfl
          (by rw [Reader.advance_openCounts hcurrent, if_neg (by simp [hno])])
      · exact Reader.next_eq_self rfl
          (by rw [Reader.advance_counts hcurrent, if_neg (by simp [hstage])])
      · exact Reader.next_eq_self rfl
          (by rw [Reader.advance_closeCounts hcurrent, if_neg (by simp [hstage])])

/-- Without vertex counts the layout is all that index elements need. -/
theorem opened_of_vertexCounts_nil (h : s.vertexCounts = []) : s.opened r = s.laidOut r := by
  rw [opened, h, List.foldl_nil]

/-- **A primitive element as a whole**, read by a reader that is at no element. -/
theorem after_session (hidle : r.current = none) (hsource : r.source = none) :
    r.after s.events = s.behind r := by
  -- If no vertex counts are read, the declaration ends somewhere in the body.
  have hsettled (h : s.vertexCounts = []) :
      (s.begun r).after s.bodyEvents = s.behind r := by
    rw [Reader.after_body_settled s (r := s.begun r) (a := s.declared r) (b := s.laidOut r) rfl
      rfl rfl (by rw [settled_begun]; rfl) rfl rfl, settled_begun,
      ← s.opened_of_vertexCounts_nil r h]
    exact s.after_body r
  rw [events, ← List.cons_append, Reader.after_append, (s.reads_begun r hidle hsource).1,
    Reader.after_append]
  by_cases helement : s.element = .polylist
  · cases hcounts : s.counts with
    | none =>
        have hnil : s.vertexCounts = [] := by simp [vertexCounts, hcounts]
        have hnone : s.countEvents = [] := by rw [countEvents, hcounts]
        rw [hnone, Reader.after_nil, hsettled hnil]
    | some pieces => rw [(s.reads_countEvents r hcounts helement).1, after_body]
  · rw [s.after_countEvents r helement, hsettled (by rw [vertexCounts, if_neg helement])]

/-- A primitive element that has all its parts in their places is read without fault. -/
theorem reads_session (hidle : r.current = none) (hsource : r.source = none)
    (hcounts : s.counts.isSome → s.element = .polylist)
    (hfits : ∀ n ∈ s.nodes, n.fits s.element = true) : r.Reads s.events (s.behind r) := by
  rw [events, ← List.cons_append]
  refine (s.reads_begun r hidle hsource).append ?_
  cases h : s.counts with
  | some pieces =>
      exact (s.reads_countEvents r h (hcounts (by simp [h]))).append (s.reads_body r hfits)
  | none =>
      have hnil : s.vertexCounts = [] := by simp [vertexCounts, h]
      have hnone : s.countEvents = [] := by rw [countEvents, h]
      have hbody := s.reads_body r hfits
      rw [s.opened_of_vertexCounts_nil r hnil, ← settled_begun] at hbody
      rw [hnone, List.nil_append]
      -- The first event of the body ends the declaration, whichever it is.
      cases hnodes : s.nodes with
      | nil =>
          rw [bodyEvents, hnodes] at hbody ⊢
          exact Reader.Reads.of_settled rfl hbody
      | cons n ns =>
          have hn := hfits n (by simp [hnodes])
          rw [bodyEvents, hnodes, List.flatMap_cons] at hbody ⊢
          cases n with
          | run kind pieces =>
              obtain rfl : kind = .polygon := by simpa [IndexNode.fits] using hn
              exact Reader.Reads.of_settled (e := .openRun .polygon) rfl hbody
          | holed runs => exact Reader.Reads.of_settled (e := .openHoled) rfl hbody

/-- A primitive element cannot begin while a source is open, and is ignored then. -/
theorem after_session_of_source (hidle : r.current = none) (hsource : r.source ≠ none) :
    r.after s.events = r := by
  have hopen : r.advance (.openPrimitive s.element s.material) = none := by
    simp [Reader.advance, hsource]
  have hinner (e : Event) (he : e.isInner = true) : r.next e = r :=
    Reader.next_of_idle hidle (Reader.advance_of_idle hidle he)
  have hpieces (kind : RunKind) (pieces : List (List Nat)) :
      ∀ e ∈ Event.pieces kind pieces, e.isInner = true := by
    intro e he
    simp only [Event.pieces, List.mem_cons, List.mem_append, List.mem_map, List.not_mem_nil,
      or_false] at he
    rcases he with rfl | ⟨xs, _, rfl⟩ | rfl <;> rfl
  have hnode (n : IndexNode) : ∀ e ∈ n.events, e.isInner = true := by
    intro e he
    cases n with
    | run kind pieces => exact hpieces kind pieces e he
    | holed runs =>
        simp only [IndexNode.events, List.mem_cons, List.mem_append, List.mem_flatMap,
          List.not_mem_nil, or_false] at he
        rcases he with rfl | ⟨u, _, hu⟩ | rfl
        · rfl
        · exact hpieces u.1 u.2 e hu
        · rfl
  have hcounts : ∀ e ∈ s.countEvents, e.isInner = true := by
    intro e he
    rw [countEvents] at he
    split at he
    · simp only [List.mem_cons, List.mem_append, List.mem_map, List.not_mem_nil, or_false] at he
      rcases he with rfl | ⟨xs, _, rfl⟩ | rfl <;> rfl
    · exact absurd he (by simp)
  -- The begin tag has no place, and the events behind it have theirs only inside an element.
  apply Reader.after_of_ignored
  intro e he
  simp only [events, bodyEvents, List.mem_cons, List.mem_append, List.mem_map, List.mem_flatMap,
    List.not_mem_nil, or_false] at he
  rcases he with rfl | ⟨i, _, rfl⟩ | he | ⟨n, _, he⟩ | rfl
  · exact Reader.next_of_idle hidle hopen
  · exact hinner _ rfl
  · exact hinner e (hcounts e he)
  · exact hinner e (hnode n e he)
  · exact hinner _ rfl

end Session

end MeshWeave
