import MeshWeave.Proofs.Reader.Showing
import MeshWeave.Proofs.Source.Likeness

set_option autoImplicit false

/-! # Readers with sources that behave alike

A reader looks at its sources in three places only: when a source is added, when one is closed, and
when the declaration of inputs ends. Two readers that differ in nothing but tables that are alike
therefore answer alike, build equal meshes, and their tables stay alike. The relation between the
tables is a parameter: it may be any for which `SourceTable.Likeness` holds. -/

namespace MeshWeave

variable {T : SourceTable → SourceTable → Prop}

/-! ## Resolving inputs -/

theorem Layout.addInput_core (l : Layout) (k : DataKind) (i : SharedInput) (s : Source) :
    l.addInput k i s.core = l.addInput k i s := by
  cases k <;> rfl

namespace Resolution

/-- Two resolutions of one mesh and one layout, with tables that are alike. -/
structure Alike (T : SourceTable → SourceTable → Prop) (q q' : Resolution) : Prop where
  mesh_eq : q.mesh = q'.mesh
  layout_eq : q.layout = q'.layout
  sources : T q.sources q'.sources

variable {q q' : Resolution}

theorem Alike.resolve (hT : SourceTable.Likeness T) (h : Alike T q q') (i : SharedInput) :
    Alike T (q.resolve i).value (q'.resolve i).value := by
  rcases hs : q.sources.find? i.sourceId with _ | s
  · rw [resolve_of_none q i hs, resolve_of_none q' i (hT.find_eq_none h.sources _ hs)]
    exact h
  · obtain ⟨s', hs', hcore⟩ := hT.find_eq_some h.sources hs
    obtain ⟨hmesh, hsource⟩ := q.mesh.merge_alike hcore.symm i.semantic
    rw [resolve_of_some q i hs, resolve_of_some q' i hs', ← h.mesh_eq, ← h.layout_eq]
    constructor
    case mesh_eq => exact hmesh
    case layout_eq =>
      dsimp only
      split
      · next k _ =>
          rw [← Layout.addInput_core, hsource, Layout.addInput_core, ← Source.isIndexable_core s,
            ← hcore, Source.isIndexable_core]
      · rfl
    case sources =>
      have hid := (q.mesh.becomes_merge s i.semantic).id_eq
      exact hT.put h.sources hsource (hid.trans (SourceTable.find?_id hs))

theorem Alike.resolveAll (hT : SourceTable.Likeness T) (h : Alike T q q') (is : List SharedInput) :
    Alike T (q.resolveAll is).value (q'.resolveAll is).value := by
  induction is generalizing q q' with
  | nil => exact h
  | cons i is ih => exact ih (h.resolve hT i)

end Resolution

/-! ## Readers -/

namespace Reader

/-- The reader with another table of sources. -/
def withSources (r : Reader) (t : SourceTable) : Reader := { r with sources := t }

/-- Two readers that differ in nothing but tables that are alike. -/
inductive Alike (T : SourceTable → SourceTable → Prop) (r : Reader) : Reader → Prop where
  | intro (t : SourceTable) (h : T r.sources t) : Alike T r (r.withSources t)

namespace Alike

variable {r r' : Reader}

theorem mesh_eq (h : Alike T r r') : r.mesh = r'.mesh := by
  cases h
  rfl

theorem sources (h : Alike T r r') : T r.sources r'.sources := by
  cases h with
  | intro t ht => exact ht

theorem settled (hT : SourceTable.Likeness T) (h : Alike T r r') :
    Alike T r.settled r'.settled := by
  cases h with
  | intro t ht =>
      rcases hr : r.current with _ | a
      · rw [settled_of_none hr, settled_of_none (r := r.withSources t) hr]
        exact .intro t ht
      · by_cases hstage : a.stage = .declaring
        · have hbegin : Resolution.Alike T ⟨r.mesh, r.sources, .unused a.inputs.width⟩
              ⟨r.mesh, t, .unused a.inputs.width⟩ := ⟨rfl, rfl, ht⟩
          have hend : Resolution.Alike T (r.resolution a) ((r.withSources t).resolution a) :=
            hbegin.resolveAll hT a.inputs.inputs
          rw [settled_of_declaring hr hstage,
            settled_of_declaring (r := r.withSources t) hr hstage, ← hend.mesh_eq,
            ← hend.layout_eq]
          exact .intro _ hend.sources
        · rw [settled_of_ne hr hstage, settled_of_ne (r := r.withSources t) hr hstage]
          exact .intro t ht

theorem ready (hT : SourceTable.Likeness T) (h : Alike T r r') (e : Event) :
    Alike T (r.ready e) (r'.ready e) := by
  rw [Reader.ready, Reader.ready]
  split
  · exact h.settled hT
  · exact h

end Alike

/-! ## Events -/

section Advance

variable (r : Reader) (t : SourceTable)

theorem onSource_withSources (f : Source → Option Source) :
    ((r.withSources t).onSource f).map Noted.value
      = ((r.onSource f).map Noted.value).map (·.withSources t) := by
  unfold onSource withSources
  cases r.source with
  | none => rfl
  | some s => cases hs : f s <;> simp [hs]

/-- An event that has its place in both readers or in neither. -/
theorem place_withSources {place : Prop} [Decidable place] {n n' : Noted Reader}
    (h : n'.value = n.value.withSources t) :
    (if place then some n' else none).map Noted.value
      = ((if place then some n else none).map Noted.value).map (·.withSources t) := by
  split
  · exact congrArg some h
  · rfl

/-- Events inside of primitive elements, except for the begin tag of the vertex counts. -/
theorem advance_inner_withSources {e : Event} (hinner : e.isInner = true)
    (hcounts : e ≠ .openCounts) :
    ((r.withSources t).advance e).map Noted.value
      = ((r.advance e).map Noted.value).map (·.withSources t) := by
  rcases hr : r.current with _ | a
  · rw [advance_of_idle hr hinner, advance_of_idle (r := r.withSources t) hr hinner]
    rfl
  · have hr' : (r.withSources t).current = some a := hr
    cases e with
    | input i =>
        rw [advance_input hr, advance_input hr']
        exact place_withSources t rfl
    | openCounts => exact absurd rfl hcounts
    | counts values =>
        rw [advance_counts hr, advance_counts hr']
        exact place_withSources t rfl
    | closeCounts =>
        rw [advance_closeCounts hr, advance_closeCounts hr']
        exact place_withSources t rfl
    | openRun kind =>
        rw [advance_openRun hr, advance_openRun hr']
        exact place_withSources t rfl
    | indices kind values =>
        rcases hrun : a.run with _ | run
        · rw [(advance_of_run_none hr hrun kind values).1,
            (advance_of_run_none hr' hrun kind values).1]
          rfl
        · by_cases hkind : run.kind = kind
          · rw [advance_indices hr kind values hrun hkind, advance_indices hr' kind values hrun hkind]
            split <;> rfl
          · rw [(advance_of_kind_ne hr hrun hkind values).1,
              (advance_of_kind_ne hr' hrun hkind values).1]
            rfl
    | closeRun kind =>
        rcases hrun : a.run with _ | run
        · rw [(advance_of_run_none hr hrun kind []).2, (advance_of_run_none hr' hrun kind []).2]
          rfl
        · by_cases hkind : run.kind = kind
          · rw [advance_closeRun hr kind hrun hkind, advance_closeRun hr' kind hrun hkind]
            rfl
          · rw [(advance_of_kind_ne hr hrun hkind []).2, (advance_of_kind_ne hr' hrun hkind []).2]
            rfl
    | openHoled =>
        rw [advance_openHoled hr, advance_openHoled hr']
        exact place_withSources t rfl
    | closeHoled =>
        rw [advance_closeHoled hr, advance_closeHoled hr']
        exact place_withSources t rfl
    | closePrimitive =>
        rw [advance_closePrimitive hr, advance_closePrimitive hr']
        have hclosed (kept : Option Primitive) :
            (r.withSources t).closed kept = (r.closed kept).withSources t := by
          cases kept <;> rfl
        split
        · exact congrArg some (hclosed _)
        · rfl
    | _ => exact absurd hinner (by simp [Event.isInner])

/-- An event that is not about whole sources, and does not end the declaration of inputs, has its
    place whatever the sources are, and leaves them alone. -/
theorem advance_withSources {e : Event} (hadd : ∀ s, e ≠ .addSource s) (hclose : e ≠ .closeSource)
    (hcounts : e ≠ .openCounts) :
    ((r.withSources t).advance e).map Noted.value
      = ((r.advance e).map Noted.value).map (·.withSources t) := by
  cases e with
  | addSource s => exact absurd rfl (hadd s)
  | closeSource => exact absurd rfl hclose
  | openArray | floats | doubles | ints | accessor | param => exact onSource_withSources r t _
  | openSource | openVertices | vertexInput | closeVertices | openPrimitive =>
      exact place_withSources t rfl
  | _ => exact advance_inner_withSources r t rfl hcounts

/-- The sources after such an event are those before it. -/
theorem sources_of_advance {e : Event} (hadd : ∀ s, e ≠ .addSource s) (hclose : e ≠ .closeSource)
    (hcounts : e ≠ .openCounts) {n : Noted Reader} (h : r.advance e = some n) :
    n.value.sources = r.sources := by
  -- The reader with its own sources is the reader itself.
  have hsame : (r.advance e).map Noted.value
      = ((r.advance e).map Noted.value).map (·.withSources r.sources) :=
    r.advance_withSources r.sources hadd hclose hcounts
  rw [h, Option.map_some, Option.map_some, Option.some.injEq] at hsame
  rw [hsame]
  rfl

end Advance

namespace Alike

variable {r r' : Reader}

theorem mapCurrent (h : Alike T r r') (f : Assembly → Assembly) :
    Alike T { r with current := r.current.map f } { r' with current := r'.current.map f } := by
  cases h with
  | intro t ht => exact .intro t ht

/-- The end tag of a source. -/
theorem answer_closeSource (hT : SourceTable.Likeness T) (h : Alike T r r') :
    (r.answer .closeSource).1 = (r'.answer .closeSource).1
    ∧ Alike T (r.answer .closeSource).2 (r'.answer .closeSource).2 := by
  cases h with
  | intro t ht =>
      rw [Reader.answer, Reader.answer, advance_closeSource, advance_closeSource]
      rcases hs : r.source with _ | s
      · rw [show (r.withSources t).source = none from hs]
        exact ⟨rfl, .intro t ht⟩
      · rw [show (r.withSources t).source = some s from hs]
        exact ⟨rfl, .intro _ (hT.add ht (Eq.refl s.core))⟩

/-- The begin tag of the vertex counts, which ends the declaration of inputs. -/
theorem answer_openCounts (hT : SourceTable.Likeness T) (h : Alike T r r') :
    (r.answer .openCounts).1 = (r'.answer .openCounts).1
    ∧ Alike T (r.answer .openCounts).2 (r'.answer .openCounts).2 := by
  have hsettled := h.settled hT
  cases h with
  | intro t ht =>
      rcases hr : r.current with _ | a
      · rw [answer_of_none (advance_of_idle hr rfl),
          answer_of_none (advance_of_idle (r := r.withSources t) hr rfl)]
        exact ⟨rfl, .intro t ht⟩
      · rw [Reader.answer, Reader.answer, advance_openCounts hr,
          advance_openCounts (r := r.withSources t) hr]
        by_cases hplace : a.stage = .declaring ∧ a.element = .polylist
        · rw [if_pos hplace, if_pos hplace]
          exact ⟨rfl, hsettled.mapCurrent fun a => { a with stage := .counting }⟩
        · rw [if_neg hplace, if_neg hplace]
          exact ⟨rfl, .intro t ht⟩

/-- An event for which the sources do not matter. -/
theorem answer_of_others (h : Alike T r r') {e : Event} (hadd : ∀ s, e ≠ .addSource s)
    (hclose : e ≠ .closeSource) (hcounts : e ≠ .openCounts) :
    (r.answer e).1 = (r'.answer e).1 ∧ Alike T (r.answer e).2 (r'.answer e).2 := by
  cases h with
  | intro t ht =>
      have hadv := r.advance_withSources t hadd hclose hcounts
      rcases hn : r.advance e with _ | n
      · rw [hn] at hadv
        rw [answer_of_none hn, answer_of_none (Option.map_eq_none_iff.mp hadv)]
        exact ⟨rfl, .intro t ht⟩
      · rw [hn] at hadv
        obtain ⟨n', hn', hvalue⟩ := Option.map_eq_some_iff.mp hadv
        rw [answer_of_some hn, answer_of_some hn', hvalue]
        have hkept := r.sources_of_advance hadd hclose hcounts hn
        exact ⟨rfl, .intro t (by rw [hkept]; exact ht)⟩

/-- **Readers whose tables are alike answer an event alike**, and their tables stay alike. -/
theorem answer (hT : SourceTable.Likeness T) (h : Alike T r r') (e : Event) :
    (r.answer e).1 = (r'.answer e).1 ∧ Alike T (r.answer e).2 (r'.answer e).2 := by
  cases e with
  | addSource s =>
      cases h with
      | intro t ht => exact ⟨rfl, .intro _ (hT.add ht (Eq.refl s.core))⟩
  | closeSource => exact h.answer_closeSource hT
  | openCounts => exact h.answer_openCounts hT
  | _ => exact h.answer_of_others nofun nofun nofun

theorem step (hT : SourceTable.Likeness T) (h : Alike T r r') (e : Event) :
    (r.step e).value.1 = (r'.step e).value.1 ∧ Alike T (r.next e) (r'.next e) := by
  rw [next, next, step_eq_answer, step_eq_answer]
  exact (h.ready hT e).answer hT e

/-- **Readers whose tables are alike give the same answers to any events**, and differ in nothing
    but tables that are alike afterwards. -/
theorem run (hT : SourceTable.Likeness T) (h : Alike T r r') (es : List Event) :
    (r.run es).value.1 = (r'.run es).value.1 ∧ Alike T (r.after es) (r'.after es) := by
  induction es generalizing r r' with
  | nil => exact ⟨rfl, h⟩
  | cons e es ih =>
      obtain ⟨hanswer, hnext⟩ := h.step hT e
      obtain ⟨hrest, hafter⟩ := ih hnext
      exact ⟨congrArg₂ List.cons hanswer hrest, hafter⟩

end Alike

end Reader

end MeshWeave
