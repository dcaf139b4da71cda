import Mathlib.Data.Option.Basic
import MeshWeave.Proofs.Reader.Resolving
import MeshWeave.Reader.Basic

set_option autoImplicit false

/-! # Readers after events

`Reader.after` is the reader that events lead to, and `Reader.takes` tells whether all of them had
their places; both are the results of `Reader.run` without its notices. Reading two lists of events
one after the other is reading their concatenation.

What an event does is given by one lemma for each event of an index element, for a reader whose
open primitive element is known. The end of the declaration of inputs is a step of its own:
`Reader.settled` is the reader behind it, whose layout follows from the declared inputs. -/

namespace MeshWeave

namespace Stage

@[simp] theorem takesRuns_declaring (kind : RunKind) : declaring.takesRuns kind = false := by
  cases kind <;> rfl

@[simp] theorem takesRuns_counting (kind : RunKind) : counting.takesRuns kind = false := by
  cases kind <;> rfl

@[simp] theorem takesRuns_indexing (kind : RunKind) :
    indexing.takesRuns kind = decide (kind = .polygon) := by
  cases kind <;> rfl

@[simp] theorem takesRuns_holed (face : Option UInt32) (kind : RunKind) :
    (holed face).takesRuns kind = true := by
  cases kind <;> rfl

end Stage

namespace Reader

/-- The reader after one event. -/
def next (r : Reader) (e : Event) : Reader := (r.step e).value.2

/-- The reader after events. -/
def after (r : Reader) (es : List Event) : Reader := (r.run es).value.2

/-- Whether every one of the events has its place. -/
def takes (r : Reader) (es : List Event) : Bool := (r.run es).value.1.all id

/-- The reader after the declaration of inputs, if one was going on. -/
def settled (r : Reader) : Reader := r.settle.value

/-- The reader to which an event is given, behind the declaration of inputs if the event ends it. -/
def ready (r : Reader) (e : Event) : Reader := if e.settles then r.settled else r

/-- The reader behind a primitive element, with the primitive that was kept of it. -/
def closed (r : Reader) (kept : Option Primitive) : Reader :=
  match kept with
  | some p => { r with mesh := r.mesh.push p, current := none }
  | none => { r with current := none }

/-! ## Runs of events -/

@[simp] theorem after_nil (r : Reader) : r.after [] = r := rfl

@[simp] theorem after_cons (r : Reader) (e : Event) (es : List Event) :
    r.after (e :: es) = (r.next e).after es := rfl

theorem after_append (r : Reader) (es fs : List Event) :
    r.after (es ++ fs) = (r.after es).after fs := by
  induction es generalizing r with
  | nil => rfl
  | cons e es ih => exact ih (r.next e)

/-- Events that each change nothing change nothing together. -/
theorem after_of_ignored {r : Reader} {es : List Event} (h : ∀ e ∈ es, r.next e = r) :
    r.after es = r := by
  induction es with
  | nil => rfl
  | cons e es ih =>
      rw [after_cons, h e (by simp)]
      exact ih fun f hf => h f (by simp [hf])

theorem takes_cons (r : Reader) (e : Event) (es : List Event) :
    r.takes (e :: es) = ((r.step e).value.1 && (r.next e).takes es) := rfl

theorem takes_append (r : Reader) (es fs : List Event) :
    r.takes (es ++ fs) = (r.takes es && (r.after es).takes fs) := by
  induction es generalizing r with
  | nil => rfl
  | cons e es ih =>
      rw [List.cons_append, takes_cons, ih, takes_cons, Bool.and_assoc]
      rfl

/-- All events have their places and lead to another reader. -/
def Reads (r : Reader) (es : List Event) (r' : Reader) : Prop :=
  r.after es = r' ∧ r.takes es = true

theorem Reads.nil (r : Reader) : r.Reads [] r := ⟨rfl, rfl⟩

theorem Reads.append {r r' r'' : Reader} {es fs : List Event} (h : r.Reads es r')
    (h' : r'.Reads fs r'') : r.Reads (es ++ fs) r'' := by
  obtain ⟨rfl, ht⟩ := h
  obtain ⟨rfl, ht'⟩ := h'
  exact ⟨after_append r es fs, by rw [takes_append, ht, ht']; rfl⟩

theorem Reads.cons {r r' r'' : Reader} {e : Event} {fs : List Event} (h : r.Reads [e] r')
    (h' : r'.Reads fs r'') : r.Reads (e :: fs) r'' := h.append h'

theorem setCurrent_self {r : Reader} {a : Assembly} (h : r.current = some a) :
    r.setCurrent a = r := by
  rw [setCurrent, ← h]

/-- No events are read by staying at the primitive under construction. -/
theorem Reads.of_current {r : Reader} {a : Assembly} (h : r.current = some a) :
    r.Reads [] (r.setCurrent a) := by
  rw [setCurrent_self h]
  exact Reads.nil r

/-! ## Single events -/

theorem step_value (r : Reader) (e : Event) :
    (r.step e).value
      = match (r.ready e).advance e with
        | some n => (true, n.value)
        | none => (false, r.ready e) := by
  have hsettled : r.settle.value = r.settled := rfl
  by_cases he : e.settles = true
  · simp only [step, ready, he, if_true, Noted.value_bind, hsettled]
    cases r.settled.advance e <;> rfl
  · simp only [step, ready, he, Bool.false_eq_true, if_false, Noted.value_bind, Noted.value_pure]
    cases r.advance e <;> rfl

/-- An event that has its place. -/
theorem next_of_some {r : Reader} {e : Event} {n : Noted Reader}
    (h : (r.ready e).advance e = some n) : r.next e = n.value := by
  rw [next, step_value, h]

/-- An event without a place is ignored. -/
theorem next_of_none {r : Reader} {e : Event} (h : (r.ready e).advance e = none) :
    r.next e = r.ready e := by
  rw [next, step_value, h]

/-- An event without a place that ends no declaration changes nothing. -/
theorem next_eq_self {r : Reader} {e : Event} (he : e.settles = false) (h : r.advance e = none) :
    r.next e = r := by
  have hready : r.ready e = r := by rw [ready, he, if_neg (by simp)]
  rw [next_of_none (by rw [hready, h]), hready]

theorem takes_singleton (r : Reader) (e : Event) :
    r.takes [e] = ((r.ready e).advance e).isSome := by
  rw [takes_cons, step_value]
  cases (r.ready e).advance e <;> simp [takes, run]

theorem Reads.of_advance {r : Reader} {e : Event} {n : Noted Reader}
    (h : (r.ready e).advance e = some n) : r.Reads [e] n.value := by
  refine ⟨?_, ?_⟩
  · rw [after_cons, after_nil, next_of_some h]
  · rw [takes_singleton, h]
    rfl

theorem advance_closeSource (r : Reader) :
    r.advance .closeSource
      = r.source.map fun s => do return { r with source := none, sources := ← r.sources.add s } := by
  cases hs : r.source <;> simp [advance, hs]

/-! ## The end of the declaration of inputs -/

/-- The sources, the mesh and the layout behind the declaration of inputs. -/
def resolution (r : Reader) (a : Assembly) : Resolution :=
  ((⟨r.mesh, r.sources, .unused a.inputs.width⟩ : Resolution).resolveAll a.inputs.inputs).value

theorem settled_of_none {r : Reader} (h : r.current = none) : r.settled = r := by
  rw [settled, settle, h]
  rfl

theorem settled_of_ne {r : Reader} {a : Assembly} (h : r.current = some a)
    (hstage : a.stage ≠ .declaring) : r.settled = r := by
  simp [settled, settle, h, hstage]

theorem settled_of_declaring {r : Reader} {a : Assembly} (h : r.current = some a)
    (hstage : a.stage = .declaring) :
    r.settled =
      { r with
        mesh := (r.resolution a).mesh
        sources := (r.resolution a).sources
        current := some
          { a with
            stage := .indexing
            layout := (r.resolution a).layout
            primitive := (r.resolution a).layout.prepare a.primitive } } := by
  simp [settled, settle, h, hstage, resolution]

/-- Only a reader whose open primitive element is declaring inputs changes. -/
theorem settled_eq_or (r : Reader) :
    r.settled = r ∨ ∃ a, r.current = some a ∧ a.stage = .declaring := by
  rcases h : r.current with _ | a
  · exact Or.inl (settled_of_none h)
  · by_cases hstage : a.stage = .declaring
    · exact Or.inr ⟨a, rfl, hstage⟩
    · exact Or.inl (settled_of_ne h hstage)

/-- The end of the declaration of inputs comes only once. -/
theorem settled_settled (r : Reader) : r.settled.settled = r.settled := by
  rcases r.settled_eq_or with hsame | ⟨a, h, hstage⟩
  · rw [hsame, hsame]
  · rw [settled_of_declaring h hstage]
    exact settled_of_ne rfl (by simp)

/-- Outside of primitive elements there is no declaration of inputs to end. -/
theorem ready_of_none {r : Reader} (e : Event) (h : r.current = none) : r.ready e = r := by
  rw [ready, settled_of_none h, ite_self]

theorem ready_of_ne {r : Reader} {a : Assembly} (e : Event) (h : r.current = some a)
    (hstage : a.stage ≠ .declaring) : r.ready e = r := by
  rw [ready, settled_of_ne h hstage, ite_self]

/-! ## Index elements -/

/-- An event that has its place finds it. -/
theorem of_place {c : Prop} [Decidable c] {n' n : Noted Reader}
    (h : (if c then some n' else none) = some n) : c ∧ n' = n := by
  obtain ⟨hc, hn⟩ := Option.ite_none_right_eq_some.mp h
  exact ⟨hc, Option.some.inj hn⟩

section Runs

variable {r : Reader} {a : Assembly} (h : r.current = some a)

include h

theorem advance_ready (e : Event) (hstage : a.stage ≠ .declaring) :
    (r.ready e).advance e = r.advance e := by
  rw [ready_of_ne e h hstage]

theorem advance_input (i : SharedInput) :
    r.advance (.input i)
      = if a.stage = .declaring then
          some do return r.setCurrent { a with inputs := ← a.inputs.add i r.vertices }
        else none := by
  simp only [advance, h, Option.bind_eq_bind, Option.bind_some, guard]
  split <;> rfl

theorem advance_openCounts :
    r.advance .openCounts
      = if a.stage = .declaring ∧ a.element = .polylist then
          some do
            let r ← r.settle
            return { r with current := r.current.map ({ · with stage := .counting }) }
        else none := by
  simp only [advance, h, Option.bind_eq_bind, Option.bind_some, guard]
  split <;> rfl

theorem advance_counts (values : List Nat) :
    r.advance (.counts values)
      = if a.stage = .counting then
          some (pure (r.setCurrent (values.foldl Assembly.addCount a)))
        else none := by
  simp only [advance, h, Option.bind_eq_bind, Option.bind_some, guard]
  split <;> rfl

theorem advance_closeCounts :
    r.advance .closeCounts
      = if a.stage = .counting then some (pure (r.setCurrent { a with stage := .indexing }))
        else none := by
  simp only [advance, h, Option.bind_eq_bind, Option.bind_some, guard]
  split <;> rfl

theorem advance_openRun (kind : RunKind) :
    r.advance (.openRun kind)
      = if a.run.isNone ∧ a.stage.takesRuns kind then some (pure (r.setCurrent (a.openRun kind)))
        else none := by
  simp only [advance, h, Option.bind_eq_bind, Option.bind_some, guard]
  split <;> rfl

theorem advance_indices (kind : RunKind) (values : List Nat) {run : Run} (hrun : a.run = some run)
    (hkind : run.kind = kind) :
    r.advance (.indices kind values)
      = if kind = .hole ∧ a.stage = .holed none then some (pure r)
        else some (pure (r.setCurrent (a.readValues run values))) := by
  simp only [advance, h, hrun, Option.bind_eq_bind, Option.bind_some, guard, hkind, if_true]
  split <;> rfl

theorem advance_closeRun (kind : RunKind) {run : Run} (hrun : a.run = some run)
    (hkind : run.kind = kind) :
    r.advance (.closeRun kind)
      = some do return r.setCurrent (← a.closeRun r.mesh.id run) := by
  simp [advance, h, hrun, hkind]

theorem advance_openHoled :
    r.advance .openHoled
      = if a.stage = .indexing ∧ a.run.isNone ∧ a.element = .polygons then
          some (pure (r.setCurrent { a with stage := .holed none }))
        else none := by
  simp only [advance, h, Option.bind_eq_bind, Option.bind_some, guard]
  split <;> rfl

theorem advance_closeHoled :
    r.advance .closeHoled
      = if a.stage.isHoled ∧ a.run.isNone then
          some (pure (r.setCurrent { a with stage := .indexing }))
        else none := by
  simp only [advance, h, Option.bind_eq_bind, Option.bind_some, guard]
  split <;> rfl

theorem advance_closePrimitive :
    (r.advance .closePrimitive).map Noted.value
      = if a.stage = .indexing ∧ a.run.isNone then some (r.closed (a.finish r.mesh.id).value)
        else none := by
  simp only [advance, h, Option.bind_eq_bind, Option.bind_some, guard]
  split
  · simp only [Option.pure_def, Option.bind_some, Option.map_some, Noted.value_bind]
    cases (a.finish r.mesh.id).value <;> rfl
  · rfl

/-- An event of an index element that does not open one has no place outside of any. -/
theorem advance_of_run_none (hrun : a.run = none) (kind : RunKind) (values : List Nat) :
    r.advance (.indices kind values) = none ∧ r.advance (.closeRun kind) = none := by
  simp [advance, h, hrun]

/-- Nor has one of the other kind of index element. -/
theorem advance_of_kind_ne {run : Run} (hrun : a.run = some run) {kind : RunKind}
    (hkind : run.kind ≠ kind) (values : List Nat) :
    r.advance (.indices kind values) = none ∧ r.advance (.closeRun kind) = none := by
  simp only [advance, h, hrun, Option.bind_eq_bind, Option.bind_some, guard, hkind, if_false]
  exact ⟨rfl, rfl⟩

/-- Values that have a place are those of an open run of their kind. -/
theorem advance_indices_eq_some {kind : RunKind} {values : List Nat} {n : Noted Reader}
    (hadv : r.advance (.indices kind values) = some n) :
    ∃ run, a.run = some run ∧ run.kind = kind ∧ n.value =
      if kind = .hole ∧ a.stage = .holed none then r
      else r.setCurrent (a.readValues run values) := by
  rcases hrun : a.run with _ | run
  · rw [(advance_of_run_none h hrun kind values).1] at hadv
    exact absurd hadv (by simp)
  · by_cases hkind : run.kind = kind
    · rw [advance_indices h kind values hrun hkind] at hadv
      refine ⟨run, rfl, hkind, ?_⟩
      split at hadv
      · next hstray => rw [if_pos hstray, ← Option.some.inj hadv]; rfl
      · next hread => rw [if_neg hread, ← Option.some.inj hadv]; rfl
    · rw [(advance_of_kind_ne h hrun hkind values).1] at hadv
      exact absurd hadv (by simp)

/-- An end tag that has a place is that of an open run of its kind. -/
theorem advance_closeRun_eq_some {kind : RunKind} {n : Noted Reader}
    (hadv : r.advance (.closeRun kind) = some n) :
    ∃ run, a.run = some run ∧ run.kind = kind
      ∧ n.value = r.setCurrent (a.closeRun r.mesh.id run).value := by
  rcases hrun : a.run with _ | run
  · rw [(advance_of_run_none h hrun kind []).2] at hadv
    exact absurd hadv (by simp)
  · by_cases hkind : run.kind = kind
    · rw [advance_closeRun h kind hrun hkind] at hadv
      refine ⟨run, rfl, hkind, ?_⟩
      rw [← Option.some.inj hadv]
      rfl
    · rw [(advance_of_kind_ne h hrun hkind []).2] at hadv
      exact absurd hadv (by simp)

end Runs

end Reader

end MeshWeave
