import MeshWeave.Proofs.Reader.Protocol
import MeshWeave.Proofs.Reader.Run

set_option autoImplicit false

/-! # Registers that show a reader

A reader cannot be in a state that contradicts itself, because the parts of an open primitive
element come and go together. The registers of a decoder have no such shape, and in the middle of a
tuple they are ahead of a reader, but they show one at any time. Outside of primitive elements the
registers are equal to the parts of the reader, `Registers.Mirrors`. Inside of one its assembly can
be told from them, `Registers.Displays`; only the index arrays are not the same, and are compared by
their streams. -/

namespace MeshWeave

/-- What a reader answers to an event behind the declaration of inputs. -/
def Reader.answer (r : Reader) (e : Event) : Bool × Reader :=
  match r.advance e with
  | some n => (true, n.value)
  | none => (false, r)

theorem Reader.step_eq_answer (r : Reader) (e : Event) :
    (r.step e).value = (r.ready e).answer e := r.step_value e

theorem Reader.answer_of_none {r : Reader} {e : Event} (h : r.advance e = none) :
    r.answer e = (false, r) := by
  rw [answer, h]

theorem Reader.answer_of_some {r : Reader} {e : Event} {n : Noted Reader}
    (h : r.advance e = some n) : r.answer e = (true, n.value) := by
  rw [answer, h]

/-- The phase of a decoder at a stage. -/
def Stage.toPhase : Stage → Phase
  | declaring => .declaring
  | counting => .counting
  | indexing => .indexing
  | holed _ => .holed

namespace Registers

/-- Vertices of some face or hole were kept. -/
def HasKept (m : Registers) : Prop := 0 < m.vertexCount ∨ 0 < m.faces

/-- The registers that are not about the open primitive element have what a reader has. -/
structure Mirrors (m : Registers) (r : Reader) : Prop where
  mesh_eq : m.mesh = r.mesh
  sources_eq : m.sources = r.sources
  source_eq : m.source = r.source
  vertices_eq : m.vertices = r.vertices
  inVertices_eq : m.inVertices = r.inVertices
  materials_eq : m.materials = r.materials

/-- The registers of an open element, with the primitive `p`, show an assembly with the layout `d`.
    Index arrays are compared by their streams. -/
structure Displays (m : Registers) (d : Layout) (p : Primitive) (a : Assembly) : Prop where
  stage_eq : m.stage = some a.stage
  element_eq : m.element = some a.element
  primitive_eq : m.primitive = some p
  inputs_eq : m.inputs = a.inputs
  supplied_eq : a.element = .triangles ∨ a.element = .polylist → m.vertexCount = a.supplied
  expected_eq : m.expected = a.expected
  faces_eq : m.faces = a.faces
  openRun_eq : m.openRun = a.run.map (·.kind)
  layout_eq : a.layout = d.ordered
  declared : d.IsDeclared
  fresh : a.stage = .declaring → d = .unused 1 ∧ ¬ m.HasKept
  rests : a.run = none → m.stream.Rests d m.HasKept p a.primitive
  runs : ∀ run, a.run = some run → m.stream.Runs d m.HasKept m.runStart run p a.primitive

/-- The registers show a reader. -/
structure Shows (m : Registers) (r : Reader) : Prop extends Mirrors m r where
  idle : r.current = none → m.phase = .idle
  displays : ∀ a, r.current = some a → ∃ d p, m.Displays d p a

/-- Two answers to an event are the same, and the registers still show the reader. -/
def Agrees (o : Outcome × Registers) (o' : Bool × Reader) : Prop :=
  o.1.isTaken = o'.1 ∧ o.2.Shows o'.2

namespace Displays

variable {m : Registers} {d : Layout} {p : Primitive} {a : Assembly} (h : m.Displays d p a)

include h

theorem phase_eq : m.phase = a.stage.toPhase := by
  have hstage := h.stage_eq
  generalize a.stage = s at hstage ⊢
  unfold stage at hstage
  cases hphase : m.phase <;> rw [hphase] at hstage <;> cases hstage <;> rfl

theorem ne_idle : m.phase ≠ .idle := by
  rw [h.phase_eq]
  cases a.stage <;> simp [Stage.toPhase]

theorem declaring_iff : a.stage = .declaring ↔ m.phase = .declaring := by
  rw [h.phase_eq]
  cases a.stage <;> simp [Stage.toPhase]

theorem counting_iff : a.stage = .counting ↔ m.phase = .counting := by
  rw [h.phase_eq]
  cases a.stage <;> simp [Stage.toPhase]

theorem indexing_iff : a.stage = .indexing ↔ m.phase = .indexing := by
  rw [h.phase_eq]
  cases a.stage <;> simp [Stage.toPhase]

theorem isHoled_iff : a.stage.isHoled = true ↔ m.phase = .holed := by
  rw [h.phase_eq]
  cases a.stage <;> simp [Stage.toPhase, Stage.isHoled]

theorem eq_holed (hphase : m.phase = .holed) : a.stage = .holed m.holeFace := by
  have hstage := h.stage_eq
  rw [stage, hphase] at hstage
  exact (Option.some.inj hstage).symm

theorem takesRuns_polygon_iff :
    a.stage.takesRuns .polygon = true ↔ m.phase = .indexing ∨ m.phase = .holed := by
  rw [h.phase_eq]
  cases a.stage <;> simp [Stage.toPhase]

theorem takesRuns_hole_iff : a.stage.takesRuns .hole = true ↔ m.phase = .holed := by
  rw [h.phase_eq]
  cases a.stage <;> simp [Stage.toPhase]

theorem run_eq_none (hrun : m.openRun = none) : a.run = none := by
  rw [h.openRun_eq, Option.map_eq_none_iff] at hrun
  exact hrun

theorem isNone_run_iff : a.run.isNone = true ↔ m.openRun = none := by
  rw [h.openRun_eq, Option.map_eq_none_iff, Option.isNone_iff_eq_none]

theorem exists_run {kind : RunKind} (hrun : m.openRun = some kind) :
    ∃ run, a.run = some run ∧ run.kind = kind := by
  rw [h.openRun_eq] at hrun
  exact Option.map_eq_some_iff.mp hrun

/-- A run that is not open has no place on either side. -/
theorem advance_of_run_ne {r : Reader} (hr : r.current = some a) {kind : RunKind}
    (hrun : m.openRun ≠ some kind) (values : List Nat) :
    r.advance (.indices kind values) = none ∧ r.advance (.closeRun kind) = none := by
  cases hother : a.run with
  | none => exact Reader.advance_of_run_none hr hother kind values
  | some run =>
      refine Reader.advance_of_kind_ne hr hother ?_ values
      rintro rfl
      exact hrun (by rw [h.openRun_eq, hother]; rfl)

end Displays

/-! ## Showing a reader -/

/-- Outside of primitive elements. -/
theorem shows_idle {m : Registers} {r : Reader} (h : m.Mirrors r) (hphase : m.phase = .idle)
    (hcurrent : r.current = none) : m.Shows r :=
  { h with
    idle := fun _ => hphase
    displays := fun a ha => absurd (hcurrent.symm.trans ha) (by simp) }

/-- Inside of one. -/
theorem Displays.shows {m : Registers} {r : Reader} {d : Layout} {p : Primitive} {a : Assembly}
    (h : m.Displays d p a) (hr : m.Mirrors r) : m.Shows (r.setCurrent a) :=
  { hr with
    idle := fun hnone => absurd hnone (by simp [Reader.setCurrent])
    displays := fun b hb => by
      obtain rfl := Option.some.inj hb
      exact ⟨d, p, h⟩ }

/-! ## The end of the declaration of inputs -/

/-- Registers resolve the same inputs as a reader. -/
theorem Mirrors.settle_eq {m : Registers} {r : Reader} {a : Assembly} (h : m.Mirrors r)
    (hinputs : m.inputs = a.inputs) (hphase : m.phase = .declaring) :
    m.settle = { m with
      mesh := (r.resolution a).mesh
      sources := (r.resolution a).sources
      phase := .indexing
      stream := .ofInputs (r.resolution a).sources m.inputs } := by
  have hresolved : ((⟨m.mesh, m.sources, .unused m.inputs.width⟩ : Resolution).resolveAll
      m.inputs.inputs).value = r.resolution a := by
    rw [h.mesh_eq, h.sources_eq, hinputs]
    rfl
  unfold settle
  rw [if_pos hphase]
  dsimp only
  rw [hresolved]

/-- The assembly gets its layout, and the stream its lanes. -/
theorem Displays.resolve {m : Registers} {d : Layout} {p : Primitive} {a : Assembly}
    (h : m.Displays d p a) (hrun : a.run = none) (hstage : a.stage = .declaring) {s : Resolution}
    (hlayout : s.layout = (Layout.declared s.sources m.inputs).ordered) :
    Displays
      { m with
        mesh := s.mesh
        sources := s.sources
        phase := .indexing
        stream := .ofInputs s.sources m.inputs }
      (.declared s.sources m.inputs) p
      { a with
        stage := .indexing
        layout := s.layout
        primitive := s.layout.prepare a.primitive } := by
  obtain ⟨rfl, hkept⟩ := h.fresh hstage
  have hrests := (h.rests hrun).ofInputs hkept s.sources m.inputs
  rw [← hlayout] at hrests
  exact
    { h with
      stage_eq := rfl
      layout_eq := hlayout
      declared := Layout.isDeclared_declared _ _
      fresh := fun hstage => absurd hstage (by simp)
      rests := fun _ => hrests
      runs := fun run hopen => absurd (hrun.symm.trans hopen) (by simp) }

namespace Shows

variable {m : Registers} {r : Reader} (h : m.Shows r)

include h

/-- Either no element is open, or the registers show all of an element. -/
theorem idle_or_displays :
    m.phase = .idle ∧ r.current = none
    ∨ m.phase ≠ .idle ∧ ∃ a d p, r.current = some a ∧ m.Displays d p a := by
  cases hcurrent : r.current with
  | none => exact Or.inl ⟨h.idle hcurrent, rfl⟩
  | some a =>
      obtain ⟨d, p, hd⟩ := h.displays a hcurrent
      exact Or.inr ⟨hd.ne_idle, a, d, p, rfl, hd⟩

theorem isIdle_iff : r.isIdle = true ↔ m.phase = .idle := by
  rcases h.idle_or_displays with ⟨hphase, hcurrent⟩ | ⟨hphase, a, d, p, hcurrent, -⟩
  · simp [Reader.isIdle, hphase, hcurrent]
  · simp [Reader.isIdle, hphase, hcurrent]

theorem stage_eq : m.stage = r.stage := by
  rcases h.idle_or_displays with ⟨hphase, hcurrent⟩ | ⟨-, a, d, p, hcurrent, hd⟩
  · rw [stage, hphase, Reader.stage, hcurrent]
    rfl
  · rw [hd.stage_eq, Reader.stage, hcurrent]
    rfl

/-- A change that leaves the open element alone. -/
theorem change {m' : Registers} {r' : Reader} (hr : m'.Mirrors r') (hphase : m'.phase = m.phase)
    (hcurrent : r'.current = r.current)
    (hd : ∀ d p a, m.Displays d p a → m'.Displays d p a) : m'.Shows r' :=
  { hr with
    idle := fun hnone => hphase.trans (h.idle (hcurrent.symm.trans hnone))
    displays := fun a ha => by
      obtain ⟨d, p, hdisplays⟩ := h.displays a (hcurrent.symm.trans ha)
      exact ⟨d, p, hd d p a hdisplays⟩ }

/-- An event that has no place on either side. -/
theorem agrees_refused {e : Event} (hadv : r.advance e = none) :
    Agrees (.refused, m) (r.answer e) := by
  rw [Reader.answer_of_none hadv]
  exact ⟨rfl, h⟩

/-- An event is answered alike if it has its place under the same conditions. -/
theorem agrees_takeIf {m' : Registers} {e : Event} {place place' : Prop} [Decidable place]
    [Decidable place'] {n : Noted Reader}
    (hadv : r.advance e = if place then some n else none) (hplace : place ↔ place')
    (hn : place' → m'.Shows n.value) : Agrees (m.takeIf place' m') (r.answer e) := by
  unfold takeIf
  split
  · next hp =>
      rw [Reader.answer_of_some (hadv.trans (if_pos (hplace.mpr hp)))]
      exact ⟨rfl, hn hp⟩
  · next hp => exact h.agrees_refused (hadv.trans (if_neg (mt hplace.mp hp)))

/-- The end of the declaration of inputs. -/
theorem settle (hm : m.Protocol) : m.settle.Shows r.settled := by
  rcases h.idle_or_displays with ⟨hphase, hcurrent⟩ | ⟨hphase, a, d, p, hcurrent, hd⟩
  · rw [settle_of_ne (by simp [hphase]), Reader.settled_of_none hcurrent]
    exact h
  · by_cases hdeclaring : m.phase = .declaring
    · have hstage := hd.declaring_iff.mpr hdeclaring
      have hrun := hm.openRun_eq_none (by simp [hdeclaring]) (by simp [hdeclaring])
      have hlayout : (r.resolution a).layout
          = (Layout.declared (r.resolution a).sources m.inputs).ordered := by
        rw [hd.inputs_eq]
        exact Layout.resolveAll_eq_ofInputs r.mesh r.sources a.inputs
      rw [Reader.settled_of_declaring hcurrent hstage, h.settle_eq hd.inputs_eq hdeclaring]
      have hmirrors : Mirrors
          { m with
            mesh := (r.resolution a).mesh
            sources := (r.resolution a).sources
            phase := .indexing
            stream := .ofInputs (r.resolution a).sources m.inputs }
          { r with
            mesh := (r.resolution a).mesh
            sources := (r.resolution a).sources } :=
        { h with mesh_eq := rfl, sources_eq := rfl }
      exact (hd.resolve (hd.run_eq_none hrun) hstage hlayout).shows hmirrors
    · rw [settle_of_ne hdeclaring,
        Reader.settled_of_ne hcurrent (mt hd.declaring_iff.mp hdeclaring)]
      exact h

end Shows

end Registers

end MeshWeave
