import MeshWeave.Proofs.Reader.Chunking
import MeshWeave.Proofs.Reader.Closing
import MeshWeave.Proofs.Reader.Session

set_option autoImplicit false

/-! # Registers and readers answer alike

Every event is answered alike by a reader and by registers that show it, and leads to registers that
show the next reader. There is one lemma for each event, by the tag or the contents that it reports.
Most of them compare two conditions, that for the event to have its place in the reader and that in
the registers. -/

namespace MeshWeave

/-- What the protocol leaves to say of a reader, whose parts of an open element come and go
    together. -/
structure Reader.Protocol (r : Reader) : Prop where
  /-- Sources do not stand in primitive elements. -/
  source : ∀ a, r.current = some a → r.source = none
  /-- A run is only open at a stage that takes it. -/
  run : ∀ a, r.current = some a → ∀ run, a.run = some run → a.stage.takesRuns run.kind = true
  /-- Only a list of polygons has vertex counts. -/
  counting : ∀ a, r.current = some a → a.stage = .counting → a.element = .polylist
  /-- Only among single polygons some have holes. -/
  holed : ∀ a, r.current = some a → a.stage.isHoled = true → a.element = .polygons
  /-- Holes belong to a face that was read. -/
  holeFace : ∀ a, r.current = some a → ∀ face, a.stage = .holed (some face) → face.toNat < a.faces

namespace Registers

namespace Shows

variable {m : Registers} {r : Reader} (h : m.Shows r)

include h

/-! ## Events of sources -/

theorem agrees_onSource {e : Event} {f : Source → Option Source}
    (hadv : r.advance e = r.onSource f) : Agrees (m.onSource f) (r.answer e) := by
  have hbind : r.onSource f = (m.source.bind f).map fun s => pure { r with source := some s } := by
    rw [h.source_eq, Reader.onSource]
    cases r.source with
    | none => rfl
    | some s => cases hs : f s <;> simp [hs]
  unfold onSource
  cases hs : m.source.bind f with
  | none => exact h.agrees_refused (by rw [hadv, hbind, hs, Option.map_none])
  | some s =>
      rw [hbind, hs, Option.map_some] at hadv
      rw [Reader.answer_of_some hadv]
      exact ⟨rfl, h.change { h with source_eq := rfl } rfl rfl fun _ _ _ hd => { hd with }⟩

theorem agrees_closeSource : Agrees m.closeSource (r.answer .closeSource) := by
  unfold closeSource Reader.answer Reader.advance
  rw [← h.source_eq]
  cases m.source with
  | none => exact ⟨rfl, h⟩
  | some s =>
      refine ⟨rfl, h.change ?_ rfl rfl fun _ _ _ hd => { hd with }⟩
      exact
        { h with
          source_eq := rfl
          sources_eq := congrArg (fun t : SourceTable => (t.add s).value) h.sources_eq }

end Shows

/-! ## Events inside of primitive elements -/

/-- Outside of primitive elements they have no place. -/
theorem step_of_idle {m : Registers} (h : m.Protocol) (hphase : m.phase = .idle) {e : Event}
    (he : e.isInner = true) : m.step e = (.refused, m) := by
  have hsettle : m.settle = m := settle_of_ne (by simp [hphase])
  have hrun : m.openRun = none := h.openRun_eq_none (by simp [hphase]) (by simp [hphase])
  cases e with
  | input i => simp [step, takeIf, hphase]
  | openCounts => simp [step, takeIf, hphase]
  | counts values => simp [step, addCounts, hphase]
  | closeCounts => simp [step, takeIf, hphase]
  | openRun kind => cases kind <;> simp [step, takeIf, hsettle, hphase]
  | indices kind values => simp [step, addValues, hrun]
  | closeRun kind => cases kind <;> simp [step, closeRun, closePolygonRun, takeIf, hrun]
  | openHoled => simp [step, takeIf, hsettle, hphase]
  | closeHoled => simp [step, takeIf, hphase]
  | closePrimitive => simp [step, closePrimitive, hsettle, hphase]
  | _ => exact absurd he (by simp [Event.isInner])

section Inner

variable {m : Registers} {r : Reader} {d : Layout} {p : Primitive} {a : Assembly}
  (h : m.Shows r) (hr : r.current = some a) (hd : m.Displays d p a)

include h hr hd

theorem agrees_input (i : SharedInput) :
    Agrees (m.step (.input i)) (r.answer (.input i)) := by
  refine h.agrees_takeIf (Reader.advance_input hr i) hd.declaring_iff fun _ => ?_
  have hdeclared : Displays { m with inputs := (m.inputs.add i m.vertices).value } d p
      { a with inputs := (a.inputs.add i r.vertices).value } :=
    { hd with inputs_eq := by rw [hd.inputs_eq, h.vertices_eq] }
  exact hdeclared.shows { h with }

theorem agrees_closeCounts : Agrees (m.step .closeCounts) (r.answer .closeCounts) := by
  refine h.agrees_takeIf (Reader.advance_closeCounts hr) hd.counting_iff fun _ => ?_
  have hindexing : Displays { m with phase := .indexing } d p { a with stage := .indexing } :=
    { hd with stage_eq := rfl, fresh := nofun }
  exact hindexing.shows { h with }

/-- The begin tag of a run, behind the declaration of inputs. -/
theorem agrees_openRun (kind : RunKind) {place : Prop} [Decidable place]
    (hplace : a.stage.takesRuns kind = true ↔ place) :
    Agrees (m.takeIf (place ∧ m.openRun = none) (m.beginRun kind)) (r.answer (.openRun kind)) := by
  refine h.agrees_takeIf (Reader.advance_openRun hr kind) ?_ fun hopens => ?_
  · rw [and_comm, hd.isNone_run_iff]
    exact and_congr hplace Iff.rfl
  · have hstart : (m.beginRun kind).runStart = p.lengths := by
      simp [beginRun, hd.primitive_eq]
    have hruns := (hd.rests (hd.run_eq_none hopens.2)).begin kind
    have hbegun : (m.beginRun kind).Displays d p (a.openRun kind) :=
      { hd with
        openRun_eq := rfl
        rests := fun hrest => absurd hrest (by simp [Assembly.openRun])
        runs := fun run hrun => by
          obtain rfl := Option.some.inj hrun
          rw [hstart]
          exact hruns }
    exact hbegun.shows { h with }

theorem agrees_openHoled :
    Agrees (m.takeIf (m.phase = .indexing ∧ m.openRun = none ∧ m.element = some .polygons)
      { m with phase := .holed, holeFace := none }) (r.answer .openHoled) := by
  refine h.agrees_takeIf (Reader.advance_openHoled hr) ?_ fun _ => ?_
  · rw [hd.isNone_run_iff, hd.element_eq, Option.some.injEq]
    exact and_congr hd.indexing_iff Iff.rfl
  · have hholed : Displays { m with phase := .holed, holeFace := none } d p
        { a with stage := .holed none } := { hd with stage_eq := rfl, fresh := nofun }
    exact hholed.shows { h with }

theorem agrees_closeHoled : Agrees (m.step .closeHoled) (r.answer .closeHoled) := by
  refine h.agrees_takeIf (Reader.advance_closeHoled hr) ?_ fun _ => ?_
  · rw [hd.isNone_run_iff]
    exact and_congr hd.isHoled_iff Iff.rfl
  · have hindexing : Displays { m with phase := .indexing, holeFace := none } d p
        { a with stage := .indexing } := { hd with stage_eq := rfl, fresh := nofun }
    exact hindexing.shows { h with }

/-- The begin tag of the vertex counts, which ends the declaration of inputs. -/
theorem agrees_openCounts (hm : m.Protocol) :
    Agrees (m.step .openCounts) (r.answer .openCounts) := by
  refine h.agrees_takeIf (Reader.advance_openCounts hr) ?_ fun hplace => ?_
  · rw [hd.element_eq, Option.some.injEq]
    exact and_congr hd.declaring_iff Iff.rfl
  · have hsettled := h.settle hm
    obtain ⟨-, a', d', p', hcurrent, hd'⟩ :=
      hsettled.idle_or_displays.resolve_left (by simp [phase_settle hplace.1])
    have hcounting : Displays { m.settle with phase := .counting } d' p'
        { a' with stage := .counting } := { hd' with stage_eq := rfl, fresh := nofun }
    show Registers.Shows _ { r.settled with
      current := r.settled.current.map fun (a : Assembly) => { a with stage := .counting } }
    rw [hcurrent]
    exact hcounting.shows { hsettled with }

omit h hr in
theorem shows_addCounts (hmirrors : m.Mirrors r) (hrun : a.run = none) (values : List Nat) :
    (values.foldl addCount m).Shows (r.setCurrent (values.foldl Assembly.addCount a)) := by
  induction values generalizing m p a with
  | nil => exact hd.shows hmirrors
  | cons n ns ih =>
      have hcounted : (m.addCount n).Displays d (p.pushCount (vertexCountEntry n)) (a.addCount n) :=
        { hd with
          primitive_eq := congrArg (Option.map _) hd.primitive_eq
          expected_eq := by rw [addCount, hd.expected_eq]; rfl
          rests := fun hrest => (hd.rests hrest).pushCount _
          runs := fun run hopen => absurd (hrun.symm.trans hopen) (by simp) }
      exact ih hcounted { hmirrors with } hrun

theorem agrees_counts (hm : m.Protocol) (values : List Nat) :
    Agrees (m.step (.counts values)) (r.answer (.counts values)) := by
  have hstep : m.step (.counts values)
      = m.takeIf (m.phase = .counting) (values.foldl addCount m) := by
    show m.addCounts values = _
    unfold addCounts takeIf
    rw [hd.primitive_eq]
  rw [hstep]
  refine h.agrees_takeIf (Reader.advance_counts hr values) hd.counting_iff fun hcounting => ?_
  have hrun := hm.openRun_eq_none (by simp [hcounting]) (by simp [hcounting])
  exact shows_addCounts hd h.toMirrors (hd.run_eq_none hrun) values

/-! ## Runs -/

/-- Values of a run. -/
theorem agrees_indices (hm : m.Protocol) (kind : RunKind) (values : List Nat) :
    Agrees (m.step (.indices kind values)) (r.answer (.indices kind values)) := by
  show Agrees (m.addValues kind values) _
  unfold addValues
  split
  · next hopen =>
      obtain ⟨run, hrun, rfl⟩ := hd.exists_run hopen
      have hstray : run.kind = .hole ∧ a.stage = .holed none
          ↔ run.kind = .hole ∧ m.holeFace = none := by
        refine and_congr_right fun hkind => ?_
        rw [hd.eq_holed (hm.hole (by rw [hopen, hkind]))]
        simp
      have hadv := Reader.advance_indices hr run.kind values hrun rfl
      split
      · next hskip =>
          rw [Reader.answer_of_some (hadv.trans (if_pos (hstray.mpr hskip)))]
          exact ⟨rfl, h⟩
      · next hread =>
          rw [Reader.answer_of_some (hadv.trans (if_neg (mt hstray.mp hread))), hd.primitive_eq]
          have hruns := (hd.runs run hrun).readValues hd.declared values
          rw [← hd.layout_eq] at hruns
          have hdisplays : (m.readValues p values).Displays d
              (Stream.readValues values (m.stream, p)).2 (a.readValues run values) :=
            { hd with
              primitive_eq := rfl
              openRun_eq := by
                have hkind := a.layout.kind_readValues values a.primitive run
                exact hopen.trans (congrArg some hkind.symm)
              rests := nofun
              runs := fun run' hrun' => by
                obtain rfl := Option.some.inj hrun'
                exact hruns }
          exact ⟨rfl, hdisplays.shows { h with }⟩
  · next hopen => exact h.agrees_refused (hd.advance_of_run_ne hr hopen values).1

end Inner

theorem Mirrors.addPolygonRun {m : Registers} {r : Reader} (h : m.Mirrors r) (element : Element)
    (p : Primitive) : (m.addPolygonRun element p).Mirrors r := by
  unfold Registers.addPolygonRun
  cases element with
  | triangles | polylist => exact { h with }
  | polygons | tristrips | trifans =>
      dsimp only
      split <;> exact { h with }

theorem Mirrors.addHoleRun {m : Registers} {r : Reader} (h : m.Mirrors r) :
    m.addHoleRun.Mirrors r := by
  unfold Registers.addHoleRun
  split
  · split
    · exact { h with }
    · exact h
  · exact h

/-- The end tag of a run. -/
theorem agrees_closeRun {m : Registers} {r : Reader} {d : Layout} {p : Primitive} {a : Assembly}
    (h : m.Shows r) (hr : r.current = some a) (hd : m.Displays d p a) (hm : m.Protocol)
    (kind : RunKind) : Agrees (m.step (.closeRun kind)) (r.answer (.closeRun kind)) := by
  by_cases hopen : m.openRun = some kind
  · obtain ⟨run, hrun, rfl⟩ := hd.exists_run hopen
    have hstage : a.stage ≠ .declaring := by
      rw [ne_eq, hd.declaring_iff]
      intro hdeclaring
      rcases hm.phase_of_run hopen with hphase | hphase <;>
        exact absurd (hdeclaring.symm.trans hphase) (by simp)
    rw [Reader.answer_of_some (Reader.advance_closeRun hr run.kind hrun rfl)]
    have hmirrors : m.endRun.Mirrors r := { h with }
    obtain ⟨kind, start, pending, tuples⟩ := run
    cases kind with
    | polygon =>
        obtain ⟨p', hdisplays⟩ := displays_addPolygonRun hd hstage hrun r.mesh.id
        have hstep : m.step (.closeRun .polygon)
            = (.taken, m.endRun.addPolygonRun a.element (m.stream.finish m.runStart p)) := by
          have hended := displays_endRun hd hstage hrun
          show m.closePolygonRun = _
          rw [closePolygonRun, if_pos hopen]
          dsimp only
          rw [hended.element_eq, hended.primitive_eq]
        rw [hstep]
        exact ⟨rfl, hdisplays.shows (hmirrors.addPolygonRun _ _)⟩
    | hole =>
        have hphase := hm.hole hopen
        have helement : a.element = .polygons :=
          Option.some.inj (hd.element_eq.symm.trans (hm.holed hphase))
        obtain ⟨p', hdisplays⟩ := displays_addHoleRun hd hstage hrun hphase helement r.mesh.id
        have hstep : m.step (.closeRun .hole) = (.taken, m.endRun.addHoleRun) := by
          show m.takeIf _ _ = _
          rw [takeIf, if_pos hopen]
        rw [hstep]
        exact ⟨rfl, hdisplays.shows hmirrors.addHoleRun⟩
  · have hstep : m.step (.closeRun kind) = (.refused, m) := by
      cases kind <;> simp [step, closeRun, closePolygonRun, takeIf, hopen]
    rw [hstep]
    exact h.agrees_refused (hd.advance_of_run_ne hr hopen []).2

/-- The end tag of a primitive element, behind the declaration of inputs. -/
theorem agrees_closePrimitive {m : Registers} {r : Reader} {d : Layout} {p : Primitive}
    {a : Assembly} (h : m.Shows r) (hr : r.current = some a) (hd : m.Displays d p a)
    (ht : m.Tallied) : Agrees m.closePrimitive (r.answer .closePrimitive) := by
  have hstep : m.closePrimitive = m.takeIf (m.phase = .indexing ∧ m.openRun = none)
      { m with
        mesh := m.keep (m.trimmed a.element p)
        phase := .idle, inputs := .empty, element := none, primitive := none } := by
    unfold closePrimitive takeIf
    rw [hd.element_eq, hd.primitive_eq]
  have hclose := Reader.advance_closePrimitive hr
  have hplace : a.stage = .indexing ∧ a.run.isNone = true
      ↔ m.phase = .indexing ∧ m.openRun = none := and_congr hd.indexing_iff hd.isNone_run_iff
  rw [hstep, takeIf]
  split
  · next hends =>
      rw [if_pos (hplace.mpr hends), Option.map_eq_some_iff] at hclose
      obtain ⟨n, hadv, hn⟩ := hclose
      rw [finish_displayed hd (hd.run_eq_none hends.2) ht] at hn
      rw [Reader.answer_of_some hadv, hn]
      refine ⟨rfl, shows_idle ?_ rfl ?_⟩
      · unfold keep Reader.closed
        split <;> exact { h with mesh_eq := by rw [h.mesh_eq] }
      · unfold Reader.closed
        split <;> rfl
  · next hends =>
      rw [if_neg (mt hplace.mp hends), Option.map_eq_none_iff] at hclose
      exact h.agrees_refused hclose

/-! ## Events that may stand outside of primitive elements -/

/-- The begin tag of a primitive element. -/
theorem shows_openPrimitive {m : Registers} {r : Reader} (h : m.Mirrors r) (element : Element)
    (symbol : String) :
    (m.openPrimitive element symbol).Shows
      { r with
        materials := (r.materials.intern symbol).2
        current := some (.start element symbol (r.materials.intern symbol).1) } := by
  have hdisplays : (m.openPrimitive element symbol).Displays (.unused 1)
      { Primitive.empty element.grouping with
        material := symbol, materialId := (r.materials.intern symbol).1 }
      (.start element symbol (r.materials.intern symbol).1) :=
    { stage_eq := rfl
      element_eq := rfl
      primitive_eq := by rw [openPrimitive, h.materials_eq]
      inputs_eq := rfl
      supplied_eq := fun _ => rfl
      expected_eq := rfl
      faces_eq := rfl
      openRun_eq := rfl
      layout_eq := rfl
      declared := Layout.isDeclared_unused
      fresh := fun _ => ⟨rfl, by simp [HasKept, openPrimitive]⟩
      rests := fun _ => .of_unused rfl rfl rfl rfl (by simp [HasKept, openPrimitive])
      runs := nofun }
  have hmirrors : (m.openPrimitive element symbol).Mirrors
      { r with materials := (r.materials.intern symbol).2 } :=
    { h with materials_eq := by rw [openPrimitive, h.materials_eq] }
  exact hdisplays.shows hmirrors

/-- Events that may stand outside of primitive elements. -/
theorem agrees_outer {m : Registers} {r : Reader} (h : m.Shows r) {e : Event}
    (he : e.isInner = false) : Agrees (m.step e) (r.answer e) := by
  have hidle {place place' : Prop} (hplace : place ↔ place') :
      place ∧ r.isIdle = true ↔ place' ∧ m.phase = .idle := and_congr hplace h.isIdle_iff
  have hsource : r.source.isNone = true ↔ m.source = none := by
    rw [h.source_eq, Option.isNone_iff_eq_none]
  cases e with
  | addSource s =>
      refine ⟨rfl, h.change ?_ rfl rfl fun _ _ _ hd => { hd with }⟩
      exact { h with sources_eq := congrArg (fun t : SourceTable => (t.add s).value) h.sources_eq }
  | openSource id =>
      refine h.agrees_takeIf rfl ?_ fun _ => h.change { h with source_eq := rfl } rfl rfl
        fun _ _ _ hd => { hd with }
      rw [Bool.and_eq_true]
      exact hidle hsource
  | openArray type => exact h.agrees_onSource rfl
  | floats values => exact h.agrees_onSource rfl
  | doubles values => exact h.agrees_onSource rfl
  | ints values => exact h.agrees_onSource rfl
  | accessor stride => exact h.agrees_onSource rfl
  | param name type => exact h.agrees_onSource rfl
  | closeSource => exact h.agrees_closeSource
  | openVertices id name =>
      refine h.agrees_takeIf rfl ?_ fun _ =>
        h.change { h with vertices_eq := rfl, inVertices_eq := rfl } rfl rfl
          fun _ _ _ hd => { hd with }
      rw [Bool.and_eq_true, Bool.not_eq_true', ← h.inVertices_eq]
      exact hidle Iff.rfl
  | vertexInput semantic source =>
      refine h.agrees_takeIf rfl (by rw [h.inVertices_eq]) fun _ => h.change ?_ rfl rfl
        fun _ _ _ hd => { hd with }
      exact { h with vertices_eq := by rw [h.vertices_eq]; rfl }
  | closeVertices =>
      exact h.agrees_takeIf rfl (by rw [h.inVertices_eq]) fun _ =>
        h.change { h with inVertices_eq := rfl } rfl rfl fun _ _ _ hd => { hd with }
  | openPrimitive element material =>
      refine h.agrees_takeIf rfl ?_ fun _ => shows_openPrimitive h.toMirrors element _
      rw [Bool.and_eq_true]
      exact and_congr h.isIdle_iff hsource
  | _ => exact absurd he (by simp [Event.isInner])

/-! ## Registers and readers -/

/-- Events inside of an open primitive element. -/
theorem agrees_inner {m : Registers} {r : Reader} (h : m.Shows r) (hm : m.Protocol) (ht : m.Tallied)
    (hopen : m.phase ≠ .idle) {e : Event} (he : e.isInner = true) :
    Agrees (m.step e) ((r.ready e).answer e) := by
  have hkept (hsettles : e.settles = false) : r.ready e = r := by
    rw [Reader.ready, hsettles, if_neg (by simp)]
  have hsettled (hsettles : e.settles = true) : r.ready e = r.settled := by
    rw [Reader.ready, if_pos hsettles]
  have h' := h.settle hm
  obtain ⟨-, a, d, p, hr, hd⟩ := h.idle_or_displays.resolve_left fun hidle => hopen hidle.1
  obtain ⟨-, a', d', p', hr', hd'⟩ :=
    h'.idle_or_displays.resolve_left fun hidle => settle_ne_idle hopen hidle.1
  cases e with
  | input i =>
      rw [hkept rfl]
      exact agrees_input h hr hd i
  | openCounts =>
      rw [hkept rfl]
      exact agrees_openCounts h hr hd hm
  | counts values =>
      rw [hkept rfl]
      exact agrees_counts h hr hd hm values
  | closeCounts =>
      rw [hkept rfl]
      exact agrees_closeCounts h hr hd
  | openRun kind =>
      cases kind with
      | polygon =>
          rw [hsettled rfl]
          exact agrees_openRun h' hr' hd' .polygon hd'.takesRuns_polygon_iff
      | hole =>
          rw [hkept rfl]
          exact agrees_openRun h hr hd .hole hd.takesRuns_hole_iff
  | indices kind values =>
      rw [hkept rfl]
      exact agrees_indices h hr hd hm kind values
  | closeRun kind =>
      rw [hkept rfl]
      exact agrees_closeRun h hr hd hm kind
  | openHoled =>
      rw [hsettled rfl]
      exact agrees_openHoled h' hr' hd'
  | closeHoled =>
      rw [hkept rfl]
      exact agrees_closeHoled h hr hd
  | closePrimitive =>
      rw [hsettled rfl]
      exact agrees_closePrimitive h' hr' hd' ht.settle
  | _ => exact absurd he (by simp [Event.isInner])

/-- **Registers answer an event as the reader does that they show**, and show the next reader
    afterwards. -/
theorem agrees_step {m : Registers} {r : Reader} (h : m.Shows r) (hm : m.Protocol) (ht : m.Tallied)
    (e : Event) : Agrees (m.step e) (r.step e).value := by
  rw [Reader.step_eq_answer]
  by_cases hinner : e.isInner = true
  · rcases h.idle_or_displays with ⟨hidle, hcurrent⟩ | ⟨hopen, -⟩
    · rw [step_of_idle hm hidle hinner, Reader.ready_of_none e hcurrent]
      exact h.agrees_refused (Reader.advance_of_idle hcurrent hinner)
    · exact agrees_inner h hm ht hopen hinner
  · have houter : e.isInner = false := by simpa using hinner
    have hready : r.ready e = r := by
      rw [Reader.ready, if_neg fun hsettles => hinner (Event.isInner_of_settles hsettles)]
    rw [hready]
    exact agrees_outer h houter

/-- Registers answer events one after the other as the reader does. -/
theorem agrees_run {m : Registers} {r : Reader} (h : m.Shows r) (hm : m.Protocol) (ht : m.Tallied)
    (es : List Event) :
    (m.run es).1.map Outcome.isTaken = (r.run es).value.1 ∧ (m.after es).Shows (r.after es) := by
  induction es generalizing m r with
  | nil => exact ⟨rfl, h⟩
  | cons e es ih =>
      obtain ⟨htaken, hnext⟩ := agrees_step h hm ht e
      obtain ⟨hrest, hafter⟩ := ih hnext (hm.step e) (ht.step hm e)
      exact ⟨congrArg₂ List.cons htaken hrest, hafter⟩

theorem shows_start (id name : String) : (start id name).Shows (Reader.start id name) :=
  shows_idle ⟨rfl, rfl, rfl, rfl, rfl, rfl⟩ rfl rfl

/-- What the protocol says of the reader. -/
theorem Protocol.reader {m : Registers} {r : Reader} (hm : m.Protocol) (h : m.Shows r) :
    r.Protocol := by
  constructor
  case source =>
    intro a ha
    obtain ⟨d, p, hd⟩ := h.displays a ha
    rw [← h.source_eq]
    exact hm.source_eq_none hd.ne_idle
  case run =>
    intro a ha run hrun
    obtain ⟨d, p, hd⟩ := h.displays a ha
    have hopen : m.openRun = some run.kind := by rw [hd.openRun_eq, hrun, Option.map_some]
    cases hkind : run.kind with
    | polygon => exact hd.takesRuns_polygon_iff.mpr (hm.polygon (hkind ▸ hopen))
    | hole => exact hd.takesRuns_hole_iff.mpr (hm.hole (hkind ▸ hopen))
  case counting =>
    intro a ha hcounting
    obtain ⟨d, p, hd⟩ := h.displays a ha
    exact Option.some.inj (hd.element_eq.symm.trans (hm.counting (hd.counting_iff.mp hcounting)))
  case holed =>
    intro a ha hholed
    obtain ⟨d, p, hd⟩ := h.displays a ha
    exact Option.some.inj (hd.element_eq.symm.trans (hm.holed (hd.isHoled_iff.mp hholed)))
  case holeFace =>
    intro a ha face hface
    obtain ⟨d, p, hd⟩ := h.displays a ha
    have hphase : m.phase = .holed := hd.isHoled_iff.mp (by rw [hface]; rfl)
    have hset := (hd.eq_holed hphase).symm.trans hface
    rw [← hd.faces_eq]
    exact (hm.holeFace face (Stage.holed.inj hset)).2

/-- **The registers of a decoder never contradict each other**, whatever events arrive, and no
    callback misses a part that it looks for. They show the reader of the same events, which answers
    each event alike. -/
theorem protocol_after (id name : String) (es : List Event) :
    let m := (start id name).after es
    let r := (Reader.start id name).after es
    m.Protocol ∧ (∀ e, (m.step e).1 ≠ .broken)
    ∧ m.Shows r ∧ m.stage = r.stage ∧ r.Protocol
    ∧ ((start id name).run es).1.map Outcome.isTaken
      = ((Reader.start id name).run es).value.1 := by
  intro m r
  have hm : m.Protocol := (protocol_start id name).after es
  obtain ⟨htaken, hshows⟩ : _ ∧ m.Shows r :=
    agrees_run (shows_start id name) (protocol_start id name) (tallied_start id name) es
  exact ⟨hm, hm.step_ne_broken, hshows, hshows.stage_eq, hm.reader hshows, htaken⟩

end Registers

end MeshWeave
