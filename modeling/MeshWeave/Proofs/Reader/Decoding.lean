import MeshWeave.Proofs.Reader.Session

set_option autoImplicit false

/-! # Decoding is de-interleaving

What a primitive element says, as a function of its whole text: the runs that count, in document
order, are cut into tuples, and every index array is one place of all tuples, plus a correction.
`deinterleave` reads such a place directly off the values. Runs that do not count are short strips
and fans, holes outside of a polygon with holes, and holes there behind no polygon.

Every index element gathers the tuples of its runs that count. The main statement compares all index
arrays of a primitive that is kept with the text of its element. -/

namespace MeshWeave

/-! ## The runs that count -/

/-- One place of each complete tuple of some runs, and a correction added to the values there. -/
def deinterleave (width : Nat) (runs : List (List Nat)) (offset correction : Nat) : List UInt32 :=
  runs.flatMap fun raw =>
    (List.range (raw.length / width)).map fun t =>
      Index.saturate (raw.getD (t * width + offset) 0 + correction)

/-- Whether a run of polygon vertices counts in tuples of a width. -/
def Element.takes (e : Element) (width : Nat) (raw : List Nat) : Bool :=
  e.counts (raw.length / width)

namespace IndexNode

/-- The runs that count inside an element for a polygon with holes. A hole counts if the polygon
    before it has vertices. -/
def ringRuns (width : Nat) : (enclosed : Bool) → List (RunKind × List (List Nat)) → List (List Nat)
  | _, [] => []
  | _, (.polygon, pieces) :: us =>
      pieces.flatten :: ringRuns width (decide (0 < pieces.flatten.length / width)) us
  | enclosed, (.hole, pieces) :: us =>
      if enclosed then pieces.flatten :: ringRuns width enclosed us
      else ringRuns width enclosed us

/-- The runs of an index element that count. -/
def runsIn (element : Element) (width : Nat) : IndexNode → List (List Nat)
  | run .polygon pieces => [pieces.flatten].filter (element.takes width)
  | run .hole _ => []
  | holed runs =>
      if element = .polygons then ringRuns width false runs
      else ((runs.filter (·.1 == .polygon)).map (·.2.flatten)).filter (element.takes width)

end IndexNode

namespace Session

/-- The runs of a session that count, in document order. -/
def runs (s : Session) (width : Nat) : List (List Nat) := s.nodes.flatMap (·.runsIn s.element width)

/-- The number of face vertices that are kept: those of whole triangles, for a list of polygons
    those that its vertex counts ask for, and all of them elsewhere. -/
def kept (s : Session) (width : Nat) : Nat :=
  let supplied := total ((s.runs width).map (·.length / width))
  match s.element with
  | .triangles => supplied / 3 * 3
  | .polylist => min (total s.vertexCounts) counterLimit
  | _ => supplied

/-- The indices that an input reads from its source: one place of each tuple that is kept. -/
def indices (s : Session) (width : Nat) (u : SharedInput × Source) : Array UInt32 :=
  ((deinterleave width (s.runs width) u.1.offset u.2.correction).take (s.kept width)).toArray

/-- The channel of an input, with its indices. -/
def channel (s : Session) (width : Nat) (u : SharedInput × Source) : Channel :=
  ⟨u.2.id, u.1.set, u.2.stride, u.2.initial, s.indices width u⟩

end Session

/-! ## What index elements gather -/

namespace Assembly

theorem gathers_readRun_polygon {a : Assembly} {ts : List (Array Nat)} (h : a.Gathers ts)
    (raw : List Nat) :
    (a.readRun .polygon raw).Gathers
      (ts ++ ([raw].filter (a.element.takes a.layout.width)).flatMap
        (tuples a.layout.width)) := by
  have htaken := gathers_takeRun_polygon h (tuples a.layout.width raw)
  rw [length_tuples, ← Element.takes] at htaken
  rw [readRun_polygon]
  by_cases hcounts : a.element.takes a.layout.width raw = true
  · simpa [hcounts] using htaken
  · simpa [hcounts] using htaken

theorem gathers_readRun_hole {a : Assembly} {ts : List (Array Nat)} (h : a.Gathers ts)
    (raw : List Nat) {face : Option UInt32} (hstage : a.stage = .holed face)
    (helement : a.element = .polygons) :
    (a.readRun .hole raw).Gathers
      (ts ++ if face.isSome then tuples a.layout.width raw else []) := by
  cases face with
  | none =>
      rw [a.readRun_hole_of_none raw hstage, if_neg (by simp), List.append_nil]
      exact ⟨h.holds, h.supplied_eq⟩
  | some f =>
      rw [a.readRun_hole_of_some raw hstage]
      exact gathers_takeRun_hole h _ hstage helement

/-- The polygon that holes belong to after a run, by whether there is one. -/
theorem stage_readRun {a : Assembly} {face : Option UInt32} (hstage : a.stage = .holed face)
    (helement : a.element = .polygons) (kind : RunKind) (raw : List Nat) :
    ∃ face', (a.readRun kind raw).stage = .holed face' ∧
      face'.isSome
        = if kind = .polygon then decide (0 < raw.length / a.layout.width) else face.isSome := by
  cases kind with
  | polygon =>
      rw [readRun_polygon, takeRun_polygon, helement]
      dsimp only
      split
      · next hnil =>
          have hzero : raw.length / a.layout.width = 0 := by
            rw [← length_tuples, hnil, List.length_nil]
          exact ⟨none, by rw [hstage]; rfl, by simp [hzero]⟩
      · next hne =>
          have hpos : 0 < raw.length / a.layout.width := by
            rw [← length_tuples]
            exact List.length_pos_iff.mpr hne
          exact ⟨some (Index.face a.faces), by rw [hstage]; rfl, by simp only [if_true, hpos]; rfl⟩
  | hole =>
      refine ⟨face, ?_, by simp⟩
      cases face with
      | none =>
          rw [a.readRun_hole_of_none raw hstage]
          exact hstage
      | some f =>
          rw [a.readRun_hole_of_some raw hstage, a.takeRun_hole _ hstage]
          split <;> exact hstage

/-- The runs inside an element for a polygon with holes. -/
theorem gathers_readRuns {a : Assembly} {ts : List (Array Nat)} (h : a.Gathers ts)
    {face : Option UInt32} (hstage : a.stage = .holed face) (helement : a.element = .polygons)
    (us : List (RunKind × List (List Nat))) :
    (us.foldl (fun a u => a.readRun u.1 u.2.flatten) a).Gathers
      (ts ++ (IndexNode.ringRuns a.layout.width face.isSome us).flatMap
        (tuples a.layout.width)) := by
  -- Whether a hole counts depends on the polygon before it, so the face is part of the induction.
  induction us generalizing a ts face with
  | nil => simpa [IndexNode.ringRuns] using h
  | cons u us ih =>
      obtain ⟨kind, pieces⟩ := u
      have hf := a.follows_readRun kind pieces.flatten
      obtain ⟨face', hstage', hface⟩ := stage_readRun hstage helement kind pieces.flatten
      cases kind with
      | polygon =>
          have hnext := ih (gathers_readRun_polygon h pieces.flatten) hstage'
            (hf.element_eq.trans helement)
          have htakes : a.element.takes a.layout.width pieces.flatten = true := by
            rw [helement]
            rfl
          rw [hf.layout_eq, hface, if_pos rfl, List.append_assoc] at hnext
          rw [IndexNode.ringRuns]
          simpa [htakes] using hnext
      | hole =>
          have hnext := ih (gathers_readRun_hole h pieces.flatten hstage helement) hstage'
            (hf.element_eq.trans helement)
          have hface' : face'.isSome = face.isSome := hface
          rw [hf.layout_eq, hface', List.append_assoc] at hnext
          rw [IndexNode.ringRuns]
          cases face with
          | none => exact hnext
          | some f => exact hnext

/-- Polygons that follow each other. -/
theorem gathers_readPolygons {a : Assembly} {ts : List (Array Nat)} (h : a.Gathers ts)
    (us : List (RunKind × List (List Nat))) :
    ((us.filter (·.1 == .polygon)).foldl (fun a u => a.readRun u.1 u.2.flatten) a).Gathers
      (ts ++ (((us.filter (·.1 == .polygon)).map (·.2.flatten)).filter
        (a.element.takes a.layout.width)).flatMap (tuples a.layout.width)) := by
  induction us generalizing a ts with
  | nil => simpa using h
  | cons u us ih =>
      obtain ⟨kind, pieces⟩ := u
      cases kind with
      | polygon =>
          have hf := a.follows_readRun .polygon pieces.flatten
          have hnext := ih (gathers_readRun_polygon h pieces.flatten)
          rw [hf.layout_eq, hf.element_eq, List.append_assoc, ← List.flatMap_append,
            ← List.filter_append] at hnext
          exact hnext
      | hole => exact ih h

/-- **An index element gathers the tuples of its runs that count.** -/
theorem gathers_readNode {a : Assembly} {ts : List (Array Nat)} (h : a.Gathers ts)
    (n : IndexNode) :
    (a.readNode n).Gathers
      (ts ++ (n.runsIn a.element a.layout.width).flatMap (tuples a.layout.width)) := by
  cases n with
  | run kind pieces =>
      cases kind with
      | polygon => exact gathers_readRun_polygon h pieces.flatten
      | hole =>
          rw [IndexNode.runsIn, List.flatMap_nil, List.append_nil]
          exact h
  | holed runs =>
      rw [readNode, IndexNode.runsIn]
      split
      · next helement =>
          have hinside : Gathers { a with stage := .holed none } ts := ⟨h.holds, h.supplied_eq⟩
          have hbehind := gathers_readRuns hinside rfl helement runs
          exact ⟨hbehind.holds, hbehind.supplied_eq⟩
      · exact gathers_readPolygons h runs

theorem gathers_readNodes {a : Assembly} {ts : List (Array Nat)} (h : a.Gathers ts)
    (hrun : a.run = none) (hstage : a.stage = .indexing) (ns : List IndexNode) :
    (ns.foldl readNode a).Gathers
      (ts ++ (ns.flatMap (·.runsIn a.element a.layout.width)).flatMap
        (tuples a.layout.width)) := by
  induction ns generalizing a ts with
  | nil => simpa using h
  | cons n ns ih =>
      have hf := follows_readNode hrun hstage n
      have hnext := ih (gathers_readNode h n) hf.run_eq (hf.indexing hstage)
      rw [hf.layout_eq, hf.element_eq, List.append_assoc, ← List.flatMap_append] at hnext
      exact hnext

end Assembly

/-! ## Sessions -/

namespace Session

variable (s : Session) (r : Reader)

theorem gathers_opened : (s.opened r).Gathers [] := by
  have hblank : (s.resolution r).layout.IsBlank := by
    rw [layout_resolution]
    exact Layout.isBlank_ofInputs _ _ _
  have hprepare := Layout.prepare_eq_fill _ hblank (s.declared r).primitive rfl rfl
  have hlaidOut : (s.laidOut r).primitive
      = (s.resolution r).layout.fill [] (s.declared r).primitive := hprepare
  rw [opened_eq, hlaidOut]
  exact ⟨rfl, fun _ => rfl⟩

theorem gathers_assembly :
    (s.assembly r).Gathers
      ((s.runs (s.inputList r.vertices).width).flatMap
        (tuples (s.inputList r.vertices).width)) := by
  have h := Assembly.gathers_readNodes (s.gathers_opened r) (s.run_opened r) (s.stage_opened r)
    s.nodes
  have helement : (s.opened r).element = s.element := by rw [opened_eq]; rfl
  have hlayout : (s.opened r).layout = (s.resolution r).layout := by rw [opened_eq]; rfl
  rw [helement, hlayout, width_layout, List.nil_append] at h
  exact h

theorem layout_assembly : (s.assembly r).layout = (s.resolution r).layout := by
  have hopened : (s.opened r).layout = (s.resolution r).layout := by rw [opened_eq]; rfl
  exact (s.follows_opened r).layout_eq.trans hopened

theorem keeps_assembly :
    (s.assembly r).keeps (total ((s.runs (s.inputList r.vertices).width).map
        (·.length / (s.inputList r.vertices).width)))
      = s.kept (s.inputList r.vertices).width := by
  unfold Assembly.keeps kept
  rw [s.expected_assembly r]
  have helement := s.element_assembly r
  cases hs : s.element <;> simp only [helement.trans hs]

@[simp] theorem sources_behind : (s.behind r).sources = (s.resolution r).sources := by
  rw [behind]
  cases (s.assembly r).finished <;> rfl

@[simp] theorem current_behind : (s.behind r).current = none := by
  rw [behind]
  cases (s.assembly r).finished <;> rfl

@[simp] theorem source_behind : (s.behind r).source = r.source := by
  rw [behind]
  cases (s.assembly r).finished <;> rfl

@[simp] theorem vertices_behind : (s.behind r).vertices = r.vertices := by
  rw [behind]
  cases (s.assembly r).finished <;> rfl

@[simp] theorem buffer_behind (k : DataKind) :
    (s.behind r).mesh.buffer k = (s.resolution r).mesh.buffer k := by
  rw [behind]
  cases (s.assembly r).finished <;> cases k <;> rfl

theorem primitives_behind :
    (s.behind r).mesh.primitives
      = r.mesh.primitives ++ ((s.assembly r).finished.toList).toArray := by
  have hkeep : (s.resolution r).mesh.primitives = r.mesh.primitives :=
    Resolution.primitives_resolveAll _ _
  rw [behind]
  cases (s.assembly r).finished with
  | none => simpa [Reader.closed, inside] using hkeep
  | some p => simp [Reader.closed, inside, Mesh.push, hkeep]

end Session

/-- Columns of the tuples of runs are read off the values of the runs. -/
theorem Layout.column_tuples (width : Nat) (runs : List (List Nat)) (l : Lane)
    (h : l.offset < width) (n : Nat) :
    ((runs.flatMap (tuples width)).take n).map l.read
      = (deinterleave width runs l.offset l.correction).take n := by
  rw [List.map_take, List.map_flatMap, deinterleave]
  congr 2
  funext raw
  exact tuples_column width raw l h

theorem length_flatMap_tuples (width : Nat) (runs : List (List Nat)) :
    (runs.flatMap (tuples width)).length = total (runs.map (·.length / width)) := by
  induction runs with
  | nil => rfl
  | cons raw runs ih =>
      rw [List.flatMap_cons, List.length_append, ih, length_tuples, List.map_cons, total_cons]

/-! ## The inputs that are read -/

namespace SourceTable

/-- The usable inputs of a kind, ordered by offset and then by declaration. -/
def usedByOffset (t : SourceTable) (k : DataKind) (width : Nat) (is : List SharedInput) :
    List (SharedInput × Source) :=
  (List.range width).flatMap fun o => (t.used k is).filter (·.1.offset == o)

variable (t : SourceTable) (k : DataKind) (is : InputList)

theorem offset_lt_of_mem_used {u : SharedInput × Source} (h : u ∈ t.used k is.inputs) :
    u.1.offset < is.width := by
  obtain ⟨i, hi, hu⟩ := List.mem_filterMap.mp h
  obtain ⟨s, _, rfl⟩ := Option.map_eq_some_iff.mp hu
  exact is.offset_lt_width i hi

theorem mem_used_of_mem_usedByOffset {width : Nat} {inputs : List SharedInput}
    {u : SharedInput × Source} (h : u ∈ t.usedByOffset k width inputs) : u ∈ t.used k inputs := by
  obtain ⟨o, _, hu⟩ := List.mem_flatMap.mp h
  exact List.mem_of_mem_filter hu

/-- Ordering the inputs loses none of them and repeats none. -/
theorem perm_usedByOffset : (t.usedByOffset k is.width is.inputs).Perm (t.used k is.inputs) := by
  have hbelow (l : List (SharedInput × Source)) (n : Nat) :
      ((List.range n).flatMap fun o => l.filter (·.1.offset == o)).Perm
        (l.filter fun u => decide (u.1.offset < n)) := by
    induction n with
    | zero => simp
    | succ n ih =>
        -- The inputs with offsets up to `n` are those below it and those at it.
        have hsplit := List.filter_append_perm (fun u : SharedInput × Source => u.1.offset < n)
          (l.filter fun u => decide (u.1.offset < n + 1))
        have hlow : (l.filter fun u => decide (u.1.offset < n + 1)).filter
            (fun u => decide (u.1.offset < n)) = l.filter fun u => decide (u.1.offset < n) := by
          rw [List.filter_filter]
          apply List.filter_congr
          intro u _
          by_cases hu : u.1.offset < n <;> simp [hu]
          omega
        have hlast : (l.filter fun u => decide (u.1.offset < n + 1)).filter
            (fun u => !decide (u.1.offset < n)) = l.filter (·.1.offset == n) := by
          rw [List.filter_filter]
          apply List.filter_congr
          intro u _
          rw [Bool.eq_iff_iff]
          simp
          omega
        rw [hlow, hlast] at hsplit
        rw [List.range_succ, List.flatMap_append, List.flatMap_singleton]
        exact (ih.append_right _).trans hsplit
  have hall : (t.used k is.inputs).filter (fun u => decide (u.1.offset < is.width))
      = t.used k is.inputs := by
    rw [List.filter_eq_self]
    intro u hu
    exact decide_eq_true (t.offset_lt_of_mem_used k is hu)
  have hperm := hbelow (t.used k is.inputs) is.width
  rwa [hall] at hperm

/-- The channel lanes of inputs in order are those of the ordered inputs. -/
theorem byOffset_used (width : Nat) (inputs : List SharedInput) :
    ChannelLane.byOffset width ((t.used k inputs).map fun u => .ofInput u.1 u.2)
      = (t.usedByOffset k width inputs).map fun u => .ofInput u.1 u.2 := by
  rw [ChannelLane.byOffset, usedByOffset, List.map_flatMap]
  congr 1
  funext o
  rw [List.filter_map]
  rfl

end SourceTable

namespace Session

variable (s : Session) (r : Reader)

/-- What a lane reads of the tuples that are kept, directly off the text. -/
theorem column_ofInput {k : DataKind} {t : SourceTable} {u : SharedInput × Source}
    (hu : u ∈ t.used k (s.inputList r.vertices).inputs) :
    (((s.runs (s.inputList r.vertices).width).flatMap (tuples (s.inputList r.vertices).width)).take
        (s.kept (s.inputList r.vertices).width)).map (Lane.ofInput u.1 u.2).read
      = (deinterleave (s.inputList r.vertices).width (s.runs (s.inputList r.vertices).width)
          u.1.offset u.2.correction).take (s.kept (s.inputList r.vertices).width) :=
  Layout.column_tuples _ _ (Lane.ofInput u.1 u.2) (t.offset_lt_of_mem_used k _ hu) _

/-- The index arrays of a finished primitive, by the sources behind the inputs. -/
theorem arrays_of_finished {p : Primitive} (hp : (s.assembly r).finished = some p) :
    let is := s.inputList r.vertices
    let sources := (s.resolution r).sources
    p.positions = ((sources.used .position is.inputs).head?.map (s.indices is.width)).getD #[]
    ∧ p.normals = ((sources.used .normal is.inputs).head?.map (s.indices is.width)).getD #[]
    ∧ p.texCoords
      = (sources.usedByOffset .texCoord is.width is.inputs).map (s.channel is.width)
    ∧ p.colors = (sources.usedByOffset .color is.width is.inputs).map (s.channel is.width) := by
  intro is sources
  have hfill := Assembly.fill_of_finished (s.gathers_assembly r) hp
  have hlayout : (s.resolution r).layout = Layout.ofInputs sources is.width is.inputs :=
    s.layout_resolution r
  rw [length_flatMap_tuples, keeps_assembly, layout_assembly, hlayout] at hfill
  -- All arrays are columns of the same tuples, and each column can be read off the text.
  have hlane (k : DataKind) (u : SharedInput × Source) (hu : u ∈ sources.used k is.inputs) :=
    congrArg List.toArray (s.column_ofInput r hu)
  have hcolumn (k : DataKind) :
      Layout.column ((sources.used k is.inputs).head?.map fun u => .ofInput u.1 u.2)
          (((s.runs is.width).flatMap (tuples is.width)).take (s.kept is.width))
        = ((sources.used k is.inputs).head?.map (s.indices is.width)).getD #[] := by
    rcases hhead : (sources.used k is.inputs).head? with _ | u
    · rfl
    · exact hlane k u (List.mem_of_head? hhead)
  have hchannels (k : DataKind) :
      (ChannelLane.byOffset is.width ((sources.used k is.inputs).map fun u => .ofInput u.1 u.2)).map
          (·.fill (((s.runs is.width).flatMap (tuples is.width)).take (s.kept is.width)))
        = (sources.usedByOffset k is.width is.inputs).map (s.channel is.width) := by
    rw [SourceTable.byOffset_used, List.map_map]
    apply List.map_congr_left
    intro u hu
    have hread := hlane k u (sources.mem_used_of_mem_usedByOffset k hu)
    simp only [Function.comp_apply, ChannelLane.fill, ChannelLane.ofInput, channel, indices]
    rw [← hread]
  exact ⟨(congrArg Primitive.positions hfill).symm.trans (hcolumn .position),
    (congrArg Primitive.normals hfill).symm.trans (hcolumn .normal),
    (congrArg Primitive.texCoords hfill).symm.trans (hchannels .texCoord),
    (congrArg Primitive.colors hfill).symm.trans (hchannels .color)⟩

/-- A primitive is kept only of a session that began with no source open. -/
theorem finished_of_kept (hidle : r.current = none) {p : Primitive}
    (hkept : (r.after s.events).mesh.primitives = r.mesh.primitives.push p) :
    r.source = none ∧ (s.assembly r).finished = some p := by
  have hsource : r.source = none := by
    by_contra hopen
    rw [s.after_session_of_source r hidle hopen] at hkept
    have hsize := congrArg Array.size hkept
    rw [Array.size_push] at hsize
    omega
  rw [s.after_session r hidle hsource, primitives_behind] at hkept
  refine ⟨hsource, ?_⟩
  cases h : (s.assembly r).finished with
  | none =>
      have hsize := congrArg Array.size hkept
      rw [h, Array.size_push] at hsize
      simp at hsize
  | some q =>
      rw [h] at hkept
      have hlast := congrArg Array.back? hkept
      simpa using hlast

end Session

/-- **Decoding is de-interleaving.** Of a primitive element that an idle reader reads and keeps,
    every index array is one place of the tuples of the runs that count, cut to whole faces. The
    first usable input makes the positions, and the first one the normals, while each usable
    channel input makes a channel of its own, ordered by offset and then by declaration. -/
theorem Reader.arrays_of_kept_primitive (r : Reader) (hidle : r.isIdle = true) (s : Session)
    (p : Primitive) (hkept : (r.after s.events).mesh.primitives = r.mesh.primitives.push p) :
    let is := s.inputList r.vertices
    let width := is.maxOffset + 1
    let sources := (r.after s.events).sources
    p.positions = ((sources.used .position is.inputs).head?.map (s.indices width)).getD #[]
    ∧ p.normals = ((sources.used .normal is.inputs).head?.map (s.indices width)).getD #[]
    ∧ p.texCoords = (sources.usedByOffset .texCoord width is.inputs).map (s.channel width)
    ∧ (sources.usedByOffset .texCoord width is.inputs).Perm (sources.used .texCoord is.inputs)
    ∧ p.colors = (sources.usedByOffset .color width is.inputs).map (s.channel width)
    ∧ (sources.usedByOffset .color width is.inputs).Perm (sources.used .color is.inputs) := by
  intro is width sources
  have hcurrent : r.current = none := by simpa [Reader.isIdle] using hidle
  obtain ⟨hsource, hp⟩ := s.finished_of_kept r hcurrent hkept
  have hsources : sources = (s.resolution r).sources := by
    rw [← Session.sources_behind, ← s.after_session r hcurrent hsource]
  obtain ⟨hpositions, hnormals, htexCoords, hcolors⟩ := s.arrays_of_finished r hp
  rw [← hsources] at hpositions hnormals htexCoords hcolors
  exact ⟨hpositions, hnormals, htexCoords, sources.perm_usedByOffset .texCoord is, hcolors,
    sources.perm_usedByOffset .color is⟩

/-- A polygon with a hole, in pieces that cut tuples, behind a stray hole. The second channel has
    the smaller offset, and its source lies behind the other one in the buffer. -/
theorem Reader.arrays_of_kept_primitive_holed :
    let sources : SourceTable :=
      ⟨[.fresh "p" (.float (.replicate 12 ⟨0⟩)) 3, .fresh "t" (.float (.replicate 4 ⟨0⟩)) 2,
        .fresh "u" (.float (.replicate 8 ⟨0⟩)) 2]⟩
    let r : Reader := { Reader.start "mesh" "" with sources }
    let s : Session :=
      { element := .polygons, material := none, counts := none
        inputs := [⟨.position, "#p", 0, 0⟩, ⟨.texCoord, "#t", 2, 0⟩, ⟨.uv, "#u", 1, 1⟩]
        nodes :=
          [.run .hole [[7, 7, 7]],
            .holed [(.hole, [[9, 9, 9]]), (.polygon, [[0, 3], [0, 1, 2], [1, 2, 1, 0, 5]]),
              (.hole, [[3, 0, 1]])]] }
    let p : Primitive :=
      { Primitive.empty .polygons with
        positions := #[0, 1, 2, 3]
        texCoords := [⟨"u", 1, 2, 4, #[5, 4, 3, 2]⟩, ⟨"t", 0, 2, 0, #[0, 1, 0, 1]⟩]
        counts := #[3, -1]
        holes := #[⟨1, 0⟩]
        faces := 1 }
    r.isIdle = true ∧ (r.after s.events).mesh.primitives = r.mesh.primitives.push p
    ∧ p.texCoords
      = ((r.after s.events).sources.usedByOffset .texCoord 3 s.inputs).map (s.channel 3) := by
  intro sources r s p
  have hidle : r.isIdle = true := by decide
  have hkept : (r.after s.events).mesh.primitives = r.mesh.primitives.push p := by
    decide +kernel
  exact ⟨hidle, hkept, (Reader.arrays_of_kept_primitive r hidle s p hkept).2.2.1⟩

end MeshWeave
