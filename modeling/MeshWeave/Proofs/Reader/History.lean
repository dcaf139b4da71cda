import Mathlib.Data.List.Forall2
import MeshWeave.Proofs.Reader.Counting
import MeshWeave.Proofs.Reader.Moves

set_option autoImplicit false

/-! # Where indices come from

A history is a reader together with what it has read, which the reader itself forgets: for each
primitive that was kept the inputs it declared, the sources as they were when the declaration of
inputs ended, the vertex counts it listed and the tuples whose indices it holds. The reader of a
history takes no notice of the rest; it is the reader after the same events.

Events may come in any order. `Assembly.Stands` is the state of a primitive under construction at
any time: between runs it gathers the tuples read so far, and inside a run it also holds those of
the run, which may still be dropped. `History.Sound` is the invariant of all histories, and its
last part says of every primitive that was kept that its index arrays are columns of its tuples.
-/

namespace MeshWeave

/-- What the indices of a primitive were read from. -/
structure Origin where
  inputs : InputList
  /-- The sources when the declaration of inputs ended. -/
  sources : SourceTable
  /-- The vertex counts of a list of polygons. -/
  listed : List Nat
  /-- The tuples of all indices that the primitive holds. -/
  tuples : List (Array Nat)
  /-- The number of values in all runs that were read. -/
  values : Nat

namespace Origin

/-- The layout that the inputs resolve to. -/
def layout (o : Origin) : Layout := .ofInputs o.sources o.inputs.width o.inputs.inputs

/-- The usable inputs of a kind with their sources, in order of declaration. -/
def used (o : Origin) (k : DataKind) : List (SharedInput × Source) :=
  o.sources.used k o.inputs.inputs

/-- The origin of nothing. -/
def empty : Origin := ⟨.empty, .empty, [], [], 0⟩

instance : Inhabited Origin := ⟨empty⟩

/-- The origin of a primitive that holds no indices yet. -/
def declaredBy (r : Reader) : Origin :=
  ⟨(r.current.map (·.inputs)).getD .empty, r.sources, [], [], 0⟩

/-- The origin after an event that has its place in the primitive element. -/
def next (o : Origin) (a : Assembly) : Event → Origin
  | .counts listed => { o with listed := o.listed ++ listed }
  | .indices kind values =>
      match a.run with
      | some run =>
          if kind = .hole ∧ a.stage = .holed none then o
          else
            { o with
              tuples := o.tuples ++ (cutTuples a.layout.width run.pending values).1
              values := o.values + values.length }
      | none => o
  | .closeRun .polygon =>
      match a.run with
      | some run =>
          if a.element.counts run.tuples then o
          else { o with tuples := o.tuples.take (o.tuples.length - run.tuples) }
      | none => o
  | _ => o

/-- The origin of what is kept of a primitive. -/
def cut (o : Origin) (a : Assembly) : Origin :=
  { o with tuples := o.tuples.take (a.keeps o.tuples.length) }

end Origin

/-- A reader and what it has read. -/
structure History where
  reader : Reader
  /-- The sources as they were declared. -/
  declared : SourceTable
  /-- The origin of the primitive under construction. -/
  origin : Origin
  /-- The origins of the primitives that were kept. -/
  origins : List Origin

namespace History

/-- A reader that has read nothing. -/
def start (id name : String) : History := ⟨.start id name, .empty, .empty, []⟩

/-- The sources that are declared after an event. -/
def declaredNext (h : History) : Event → SourceTable
  | .addSource s => (h.declared.add s).value
  | .closeSource =>
      match h.reader.source with
      | some s => (h.declared.add s).value
      | none => h.declared
  | _ => h.declared

/-- The origin of the primitive under construction after an event. -/
def originNext (h : History) (e : Event) : Origin :=
  match h.reader.current with
  | some a =>
      if a.stage = .declaring then .declaredBy (h.reader.next e)
      else if h.reader.takes [e] then h.origin.next a e
      else h.origin
  | none => h.origin

/-- The origins of the primitives that were kept after an event. -/
def originsNext (h : History) (e : Event) : List Origin :=
  match h.reader.current with
  | some a =>
      if h.reader.mesh.primitives.size < (h.reader.next e).mesh.primitives.size then
        h.origins ++ [h.origin.cut a]
      else h.origins
  | none => h.origins

/-- The history after an event. -/
def next (h : History) (e : Event) : History :=
  ⟨h.reader.next e, h.declaredNext e, h.originNext e, h.originsNext e⟩

/-- The history after events. -/
def after (h : History) (es : List Event) : History := es.foldl next h

/-- The reader of a history is the reader after the same events. -/
theorem reader_after (h : History) (es : List Event) :
    (h.after es).reader = h.reader.after es := by
  induction es generalizing h with
  | nil => rfl
  | cons e es ih => exact ih (h.next e)

end History

/-! ## Primitives under construction at any time -/

namespace Assembly

/-- A primitive under construction that holds some tuples of a number of values, between runs or
    inside one. -/
inductive Stands (ts : List (Array Nat)) (listed : List Nat) (values : Nat) : Assembly → Prop where
  | between {a : Assembly} (run_eq : a.run = none) (gathers : a.Gathers ts)
      (counted : a.Counted ts.length listed) (length_le : ts.length ≤ values) :
      Stands ts listed values a
  | inside {base : Assembly} {kind : RunKind} {us before : List (Array Nat)}
      {pending : Array Nat} (gathers : base.Gathers before)
      (counted : base.Counted before.length listed) (tuples_eq : ts = before ++ us)
      (length_le : ts.length + pending.size ≤ values)
      (polygons : kind = .hole → base.element = .polygons ∧ base.stage.isHoled = true)
      (unread : kind = .hole → base.stage = .holed none → us = []) :
      Stands ts listed values (base.during kind us pending)

theorem Stands.of_run_none {a : Assembly} {ts : List (Array Nat)} {listed : List Nat}
    {read : Nat} (h : a.Stands ts listed read) (hrun : a.run = none) :
    a.Gathers ts ∧ a.Counted ts.length listed ∧ ts.length ≤ read := by
  cases h with
  | between _ gathers counted length_le => exact ⟨gathers, counted, length_le⟩
  | inside => exact absurd hrun (by simp [during])

theorem Stands.openRun {a : Assembly} {ts : List (Array Nat)} {listed : List Nat}
    {read : Nat} (h : a.Stands ts listed read) (hrun : a.run = none) (kind : RunKind)
    (hpolygons : kind = .hole → a.element = .polygons ∧ a.stage.isHoled = true) :
    (a.openRun kind).Stands ts listed read := by
  obtain ⟨gathers, counted, hle⟩ := h.of_run_none hrun
  rw [openRun_eq]
  exact .inside gathers counted (List.append_nil ts).symm hle hpolygons (fun _ _ => rfl)

theorem Stands.readValues {a : Assembly} {ts : List (Array Nat)} {listed : List Nat}
    {read : Nat} (h : a.Stands ts listed read) {run : Run} (hrun : a.run = some run)
    (hread : ¬ (run.kind = .hole ∧ a.stage = .holed none)) (values : List Nat) :
    (a.readValues run values).Stands (ts ++ (cutTuples a.layout.width run.pending values).1)
      listed (read + values.length) := by
  cases h with
  | between hnone => exact absurd hrun (by simp [hnone])
  | @inside base kind us before pending gathers counted hts hle polygons unread =>
      obtain rfl : ⟨kind, base.primitive.lengths, pending, us.length⟩ = run := Option.some.inj hrun
      have hcut := cutTuples_length_le base.layout.width pending values
      have hwidth : (base.during kind us pending).layout.width = base.layout.width := rfl
      rw [readValues_during, hwidth]
      refine .inside gathers counted (by rw [hts, List.append_assoc]) ?_ polygons
        fun hkind hstage => absurd ⟨hkind, hstage⟩ hread
      rw [List.length_append]
      dsimp only
      omega

/-- Closing a run keeps its tuples, unless it is a strip or fan that is too short. -/
theorem Stands.closeRun {a : Assembly} {ts : List (Array Nat)} {listed : List Nat}
    {read : Nat} (h : a.Stands ts listed read) {run : Run} (hrun : a.run = some run)
    (mesh : String) : (a.closeRun mesh run).value.Stands
      (if run.kind = .hole ∨ a.element.counts run.tuples then ts
        else ts.take (ts.length - run.tuples)) listed read := by
  cases h with
  | between hnone => exact absurd hrun (by simp [hnone])
  | @inside base kind us before pending gathers counted hts hle polygons unread =>
      obtain rfl : ⟨kind, base.primitive.lengths, pending, us.length⟩ = run := Option.some.inj hrun
      rw [closeRun_during]
      have hf := base.follows_takeRun kind us
      cases kind with
      | polygon =>
          have hgathers := gathers_takeRun_polygon gathers us
          have hcounted := counted_takeRun_polygon counted us
          have helement : (base.during .polygon us pending).element = base.element := rfl
          simp only [reduceCtorEq, false_or, helement]
          by_cases hcounts : base.element.counts us.length = true
          · rw [if_pos hcounts] at hgathers hcounted ⊢
            rw [← List.length_append] at hcounted
            rw [hts] at hle ⊢
            exact .between hf.run_eq hgathers hcounted (by omega)
          · -- The tuples that are taken back are those since the run opened.
            rw [if_neg hcounts] at hgathers hcounted ⊢
            have hback : ts.take (ts.length - us.length) = before := by simp [hts]
            rw [List.append_nil] at hgathers
            rw [hback]
            rw [hts, List.length_append] at hle
            exact .between hf.run_eq hgathers hcounted (by omega)
      | hole =>
          obtain ⟨helement, hholed⟩ := polygons rfl
          simp only [true_or, if_true]
          cases hstage : base.stage with
          | holed face =>
              cases face with
              | none =>
                  -- There is no face to count the vertices for, and none were read.
                  have hnil := unread rfl hstage
                  subst hnil
                  rw [List.append_nil] at hts
                  rw [hts, takeRun_hole_nil]
                  rw [hts] at hle
                  exact .between rfl ⟨gathers.holds, gathers.supplied_eq⟩
                    ⟨counted.grouping_eq, counted.expected_eq, counted.counts_eq,
                      counted.total_counts⟩ (by omega)
              | some f =>
                  have hcounted := counted_takeRun_hole counted us hstage helement
                  rw [← List.length_append] at hcounted
                  rw [hts] at hle ⊢
                  exact .between hf.run_eq (gathers_takeRun_hole gathers us hstage helement)
                    hcounted (by omega)
          | _ => rw [hstage] at hholed; exact absurd hholed (by simp [Stage.isHoled])

/-- Outside of runs, going to another stage changes nothing. -/
theorem Stands.setStage {a : Assembly} {ts : List (Array Nat)} {listed : List Nat}
    {read : Nat} (h : a.Stands ts listed read) (hrun : a.run = none) (stage : Stage) :
    Stands ts listed read { a with stage } := by
  obtain ⟨gathers, counted, hle⟩ := h.of_run_none hrun
  exact .between hrun ⟨gathers.holds, gathers.supplied_eq⟩
    ⟨counted.grouping_eq, counted.expected_eq, counted.counts_eq, counted.total_counts⟩ hle

theorem gathers_addCounts {a : Assembly} {ts : List (Array Nat)} (h : a.Gathers ts)
    (counts : List Nat) : (counts.foldl addCount a).Gathers ts := by
  induction counts generalizing a with
  | nil => exact h
  | cons n ns ih =>
      have hpush : a.layout.fill ts (a.primitive.pushCount (vertexCountEntry n))
          = a.primitive.pushCount (vertexCountEntry n) := by
        rw [← Layout.pushCount_fill, h.holds]
      exact ih (a := a.addCount n) ⟨hpush, h.supplied_eq⟩

/-- Listing vertex counts. -/
theorem Stands.addCounts {a : Assembly} {ts : List (Array Nat)} {listed : List Nat}
    {read : Nat} (h : a.Stands ts listed read) (hrun : a.run = none)
    (helement : a.element = .polylist) (counts : List Nat) :
    (counts.foldl addCount a).Stands ts (listed ++ counts) read := by
  obtain ⟨gathers, counted, hle⟩ := h.of_run_none hrun
  exact .between ((a.run_addCounts counts).trans hrun) (gathers_addCounts gathers counts)
    (counted_addCounts counted helement counts) hle

/-- A primitive under construction while its inputs are declared. -/
def IsFresh (a : Assembly) : Prop :=
  ∃ element material id inputs, a = { start element material id with inputs }

theorem IsFresh.stage_eq {a : Assembly} (h : a.IsFresh) : a.stage = .declaring := by
  obtain ⟨_, _, _, _, rfl⟩ := h
  rfl

theorem IsFresh.run_eq {a : Assembly} (h : a.IsFresh) : a.run = none := by
  obtain ⟨_, _, _, _, rfl⟩ := h
  rfl

end Assembly

namespace Reader

/-- Outside of primitive elements the mesh does not change, and one that opens is fresh. -/
theorem advance_idle {r : Reader} {e : Event} {n : Noted Reader} (h : r.current = none)
    (hadv : r.advance e = some n) :
    n.value.mesh = r.mesh ∧ ∀ a, n.value.current = some a → a.IsFresh := by
  have houter : e.isInner = false := outer_of_advance_idle h hadv
  rcases advance_outer_eq houter hadv with ⟨element, _, -, -, -, hn⟩ | ⟨-, _, _, _, _, hn⟩
  · rw [hn]
    refine ⟨rfl, ?_⟩
    intro a ha
    obtain rfl := Option.some.inj ha
    exact ⟨element, _, _, .empty, rfl⟩
  · rw [hn]
    exact ⟨rfl, fun a ha => absurd ha (by simp [h])⟩

/-- What an event does while inputs are declared, unless it ends the declaration anyway: either
    inputs are still declared afterwards, or it opens the vertex counts. -/
theorem advance_fresh {r : Reader} {a : Assembly} {e : Event} {n : Noted Reader}
    (h : r.current = some a) (hfresh : a.IsFresh) (he : e.settles = false)
    (hadv : r.advance e = some n) :
    (n.value.mesh = r.mesh ∧ ∃ b, n.value.current = some b ∧ b.IsFresh) ∨
    (a.element = .polylist ∧ n.value
      = { r.settled with current := r.settled.current.map ({ · with stage := .counting }) }) := by
  have hstage := hfresh.stage_eq
  by_cases hcounts : e = .openCounts
  · subst hcounts
    rw [advance_openCounts h] at hadv
    obtain ⟨hplace, rfl⟩ := of_place hadv
    exact Or.inr ⟨hplace.2, rfl⟩
  · rcases moves_of_advance h hcounts hadv with ⟨b, hb, hmesh, hmoves⟩ | ⟨rfl, -⟩
    · refine Or.inl ⟨hmesh, b, hb, ?_⟩
      -- Before the inputs are declared there is a place for nothing else inside the element.
      cases hmoves with
      | outer => exact hfresh
      | input i =>
          obtain ⟨element, material, id, inputs, rfl⟩ := hfresh
          exact ⟨element, material, id, _, rfl⟩
      | openCounts => exact absurd rfl hcounts
      | counts _ counting => exact absurd counting (by simp [hstage])
      | closeCounts counting => exact absurd counting (by simp [hstage])
      | openRun _ _ takes => exact absurd takes (by simp [hstage])
      | stray => exact hfresh
      | indices _ run_eq => exact absurd run_eq (by simp [hfresh.run_eq])
      | closeRun _ run_eq => exact absurd run_eq (by simp [hfresh.run_eq])
      | openHoled => exact absurd he (by simp [Event.settles])
      | closeHoled _ holed => exact absurd holed (by simp [hstage, Stage.isHoled])
    · exact absurd he (by simp [Event.settles])

/-- Events inside a primitive element touch neither sources nor buffers, except by ending the
    declaration of inputs. They add inputs to the element only by declaring them. -/
theorem advance_inner {r : Reader} {a : Assembly} {e : Event} {n : Noted Reader}
    (h : r.current = some a) (he : e.isInner = true) (hcounts : e ≠ .openCounts)
    (hadv : r.advance e = some n) :
    (n.value.sources = r.sources ∧ n.value.source = r.source ∧ n.value.vertices = r.vertices
      ∧ n.value.mesh.buffer = r.mesh.buffer) ∧
    ∀ b, n.value.current = some b →
      b.inputs.inputs = a.inputs.inputs ++ e.declaredInputs r.vertices := by
  rcases moves_of_advance_inner h he hcounts hadv with ⟨b, hn, hmoves⟩ | ⟨-, -, hn⟩
  · rw [hn]
    refine ⟨⟨rfl, rfl, rfl, rfl⟩, fun c hc => ?_⟩
    obtain rfl := Option.some.inj hc
    exact hmoves.inputs_eq
  · rw [hn]
    cases a.finished <;>
      exact ⟨⟨rfl, rfl, rfl, rfl⟩, fun b hb => absurd hb (by simp [closed])⟩

end Reader

namespace Origin

/-- The state of a primitive under construction whose inputs are declared, with its origin. -/
structure Tracks (o : Origin) (a : Assembly) : Prop where
  inputs_eq : a.inputs = o.inputs
  layout_eq : a.layout = o.layout
  declared : a.stage ≠ .declaring
  polygons : a.stage.isHoled = true → a.element = .polygons
  polylist : a.stage = .counting → a.element = .polylist ∧ a.run = none
  stands : a.Stands o.tuples o.listed o.values

theorem next_of_settles (o : Origin) (a : Assembly) {e : Event} (he : e.settles = true) :
    o.next a e = o := by
  cases e <;> first | rfl | exact absurd he (by simp [Event.settles])

/-- Outside of runs, going to another stage. -/
theorem Tracks.setStage {o : Origin} {a : Assembly} (h : o.Tracks a) (hrun : a.run = none)
    (stage : Stage) (hdeclared : stage ≠ .declaring)
    (hpolygons : stage.isHoled = true → a.element = .polygons)
    (hpolylist : stage = .counting → a.element = .polylist) :
    o.Tracks { a with stage } :=
  ⟨h.inputs_eq, h.layout_eq, hdeclared, hpolygons, fun hs => ⟨hpolylist hs, hrun⟩,
    h.stands.setStage hrun stage⟩

/-- The next origin when a run closes. -/
theorem next_closeRun (o : Origin) {a : Assembly} {run : Run} (hrun : a.run = some run) :
    o.next a (.closeRun run.kind)
      = { o with
          tuples := if run.kind = .hole ∨ a.element.counts run.tuples then o.tuples
            else o.tuples.take (o.tuples.length - run.tuples) } := by
  cases hkind : run.kind with
  | polygon =>
      simp only [next, hrun, reduceCtorEq, false_or]
      split <;> rfl
  | hole => rfl

theorem next_of_outer (o : Origin) (a : Assembly) {e : Event} (he : e.isInner = false) :
    o.next a e = o := by
  cases e <;> first | rfl | exact absurd he (by simp [Event.isInner])

/-- The next origin when values are read. -/
theorem next_indices (o : Origin) {a : Assembly} {run : Run} (hrun : a.run = some run)
    (hread : ¬ (run.kind = .hole ∧ a.stage = .holed none)) (values : List Nat) :
    o.next a (.indices run.kind values)
      = { o with
          tuples := o.tuples ++ (cutTuples a.layout.width run.pending values).1
          values := o.values + values.length } := by
  simp only [next, hrun]
  exact if_neg hread

/-- Values of a hole behind no polygon are not read. -/
theorem next_stray (o : Origin) {a : Assembly} (hstage : a.stage = .holed none)
    (values : List Nat) : o.next a (.indices .hole values) = o := by
  unfold next
  cases a.run with
  | none => rfl
  | some _ => exact if_pos ⟨rfl, hstage⟩

/-- An origin follows the primitive under construction. -/
theorem Tracks.moves {o : Origin} {v : Vertices} {a b : Assembly} {e : Event} (h : o.Tracks a)
    (he : e ≠ .openCounts) (hmoves : a.Moves v e b) : (o.next a e).Tracks b := by
  cases hmoves with
  | outer outer =>
      rw [next_of_outer o a outer]
      exact h
  | input i declaring => exact absurd declaring h.declared
  | openCounts => exact absurd rfl he
  | counts values counting =>
      obtain ⟨helement, hrun⟩ := h.polylist counting
      have hstands := h.stands.addCounts hrun helement values
      -- The counter is at its limit at most, so that counts add up to what they would at once.
      have hlimit : a.expected ≤ counterLimit := by
        rw [(h.stands.of_run_none hrun).2.1.expected_eq helement]
        exact Nat.min_le_right _ _
      rw [a.addCounts_eq values hlimit] at hstands ⊢
      exact ⟨h.inputs_eq, h.layout_eq, h.declared, h.polygons, h.polylist, hstands⟩
  | closeCounts counting =>
      exact h.setStage (h.polylist counting).2 .indexing (by simp) (by simp [Stage.isHoled])
        (by simp)
  | openRun kind run_eq takes =>
      have hhole : kind = .hole → a.stage.isHoled = true := by
        rintro rfl
        cases hs : a.stage <;> simp_all [Stage.isHoled]
      have hopen := h.stands.openRun run_eq kind fun hk => ⟨h.polygons (hhole hk), hhole hk⟩
      refine ⟨h.inputs_eq, h.layout_eq, h.declared, h.polygons, ?_, hopen⟩
      intro hs
      rw [show a.stage = .counting from hs] at takes
      exact absurd takes (by simp)
  | stray values stage_eq =>
      rw [next_stray o stage_eq values]
      exact h
  | indices values run_eq read =>
      rw [next_indices o run_eq read]
      refine ⟨h.inputs_eq, h.layout_eq, h.declared, h.polygons, ?_,
        h.stands.readValues run_eq read values⟩
      intro hs
      exact absurd (h.polylist hs).2 (by simp [run_eq])
  | @closeRun mesh run run_eq =>
      have hf := a.follows_closeRun mesh run
      have hcounting : a.stage ≠ .counting := by
        intro hs
        exact absurd (h.polylist hs).2 (by simp [run_eq])
      rw [next_closeRun o run_eq]
      refine ⟨hf.inputs_eq.trans h.inputs_eq, hf.layout_eq.trans h.layout_eq,
        hf.stage_ne rfl h.declared, ?_, ?_, h.stands.closeRun run_eq mesh⟩
      · rw [hf.isHoled_eq, hf.element_eq]
        exact h.polygons
      · intro hs
        exact absurd hs (hf.stage_ne rfl hcounting)
  | openHoled run_eq element_eq =>
      exact h.setStage run_eq (.holed none) (by simp) (fun _ => element_eq) (by simp)
  | closeHoled run_eq holed =>
      exact h.setStage run_eq .indexing (by simp) (by simp [Stage.isHoled]) (by simp)

/-- What an event that has its place does to a primitive under construction: it goes on, or it is
    closed, and then no run is open. -/
theorem Tracks.advance {o : Origin} {r : Reader} {a : Assembly} {e : Event} {n : Noted Reader}
    (h : o.Tracks a) (hcurrent : r.current = some a) (hadv : r.advance e = some n) :
    (∃ b, n.value.current = some b ∧ (o.next a e).Tracks b ∧ n.value.mesh = r.mesh) ∨
    (a.run = none ∧ n.value = r.closed a.finished) := by
  have hcounts : e ≠ .openCounts := by
    rintro rfl
    rw [Reader.advance_openCounts hcurrent, if_neg fun hs => h.declared hs.1] at hadv
    exact absurd hadv (by simp)
  rcases Reader.moves_of_advance hcurrent hcounts hadv with ⟨b, hb, hmesh, hmoves⟩ | ⟨-, hclosed⟩
  · exact Or.inl ⟨b, hb, h.moves hcounts hmoves, hmesh⟩
  · exact Or.inr hclosed

/-- A primitive whose arrays are the columns of the tuples of an origin. It has as many indices as
    there are tuples, if the counts that it lists are small enough for its entries. -/
structure Makes (o : Origin) (p : Primitive) : Prop where
  fill_eq : o.layout.fill o.tuples p = p
  indexCount_eq : (∀ n ∈ o.listed, n ≤ vertexCountLimit) → o.tuples.length ≤ vertexCountLimit →
    p.indexCount = o.tuples.length
  length_le : o.tuples.length ≤ o.values

theorem Tracks.makes {o : Origin} {a : Assembly} (h : o.Tracks a) (hrun : a.run = none)
    {p : Primitive} (hp : a.finished = some p) : (o.cut a).Makes p := by
  obtain ⟨gathers, counted, hle⟩ := h.stands.of_run_none hrun
  refine ⟨?_, fun hlisted hlen => Assembly.indexCount_of_finished gathers counted hp hlisted hlen,
    Nat.le_trans (List.length_take_le' _ _) hle⟩
  have hfill := Assembly.fill_of_finished gathers hp
  rw [h.layout_eq] at hfill
  exact hfill

end Origin

/-! ## The declaration of inputs -/

namespace Assembly

/-- An element that ends before it has read anything is not kept. -/
theorem finished_of_empty {a : Assembly} (hsupplied : a.supplied = 0) (hfaces : a.faces = 0) :
    a.finished = none := by
  rw [finished, finish]
  cases a.element <;> simp [keep, hsupplied, hfaces]

end Assembly

/-- The end of the declaration of inputs. -/
theorem Origin.tracks_settled {r : Reader} {a : Assembly} (h : r.current = some a)
    (hfresh : a.IsFresh) :
    ∃ b, r.settled.current = some b ∧ (declaredBy r.settled).Tracks b ∧ b.run = none
      ∧ b.element = a.element ∧ b.finished = none
      ∧ r.settled.mesh.primitives = r.mesh.primitives := by
  -- The lanes of resolved inputs start without indices, so the primitive holds no tuples yet.
  have hlayout := Layout.resolveAll_eq_ofInputs r.mesh r.sources a.inputs
  have hblank : (r.resolution a).layout.IsBlank := hlayout ▸ Layout.isBlank_ofInputs _ _ _
  rw [Reader.settled_of_declaring h hfresh.stage_eq]
  obtain ⟨element, material, id, inputs, rfl⟩ := hfresh
  have hprepare := Layout.prepare_eq_fill _ hblank
    { Primitive.empty element.grouping with material, materialId := id } rfl rfl
  refine ⟨_, rfl, ⟨rfl, hlayout, by simp, by simp [Stage.isHoled], by simp, ?_⟩, rfl, rfl,
    Assembly.finished_of_empty rfl rfl, Resolution.primitives_resolveAll _ _⟩
  refine .between rfl ⟨?_, fun _ => rfl⟩ ⟨rfl, fun _ => rfl, fun _ => rfl, fun _ _ _ => rfl⟩
    (Nat.le_refl 0)
  exact (congrArg _ hprepare).trans hprepare.symm

/-- What an event does while inputs are declared: it keeps no primitive, and either inputs are still
    declared behind it, or the element is behind the declaration. -/
theorem Reader.next_of_fresh {r : Reader} {a : Assembly} (h : r.current = some a)
    (hfresh : a.IsFresh) (e : Event) :
    (r.next e).mesh.primitives = r.mesh.primitives ∧
      ∀ b, (r.next e).current = some b → b.IsFresh ∨
        ((r.next e).sources = r.settled.sources ∧ b.inputs = a.inputs
          ∧ (Origin.declaredBy (r.next e)).Tracks b) := by
  obtain ⟨b, hb, htracks, hrun, helement, hfinished, hprimitives⟩ := Origin.tracks_settled h hfresh
  have hinputs : b.inputs = a.inputs := by
    rw [settled_of_declaring h hfresh.stage_eq] at hb
    rw [← Option.some.inj hb]
  -- Either the event ends the declaration, whether or not it has a place behind it; or it does so
  -- only if it has a place and opens the vertex counts.
  by_cases hsettles : e.settles = true
  · have hready : r.ready e = r.settled := by rw [ready, if_pos hsettles]
    rcases hadv : r.settled.advance e with _ | n
    · rw [next_of_none (by rw [hready, hadv]), hready]
      refine ⟨hprimitives, fun c hc => Or.inr ⟨rfl, ?_⟩⟩
      obtain rfl := Option.some.inj (hb.symm.trans hc)
      exact ⟨hinputs, htracks⟩
    · rw [next_of_some (by rw [hready, hadv])]
      have hne : e ≠ .openCounts := by
        rintro rfl
        exact absurd hsettles (by simp [Event.settles])
      have hsources := (advance_inner hb (Event.isInner_of_settles hsettles) hne hadv).1.1
      rcases htracks.advance hb hadv with ⟨c, hc, htracks', hmesh⟩ | ⟨_, hclosed⟩
      · refine ⟨by rw [hmesh, hprimitives], fun d hd => Or.inr ⟨hsources, ?_⟩⟩
        obtain rfl := Option.some.inj (hc.symm.trans hd)
        rw [Origin.next_of_settles _ b hsettles] at htracks'
        have hsame : Origin.declaredBy n.value = .declaredBy r.settled := by
          rw [Origin.declaredBy, hc, hsources]
          exact congrArg (Origin.mk · _ _ _ _) htracks'.inputs_eq
        rw [hsame]
        exact ⟨(htracks'.inputs_eq.trans htracks.inputs_eq.symm).trans hinputs, htracks'⟩
      · -- The end tag right behind the inputs: nothing was read, so nothing is kept.
        rw [hclosed, hfinished]
        exact ⟨hprimitives, fun c hc => absurd hc (by simp [closed])⟩
  · have hsettles' : e.settles = false := by simpa using hsettles
    rcases hadv : r.advance e with _ | n
    · rw [next_eq_self hsettles' hadv]
      refine ⟨rfl, fun c hc => Or.inl ?_⟩
      obtain rfl := Option.some.inj (h.symm.trans hc)
      exact hfresh
    · rw [next_of_some (by rw [ready, if_neg hsettles, hadv])]
      rcases advance_fresh h hfresh hsettles' hadv with ⟨hmesh, c, hc, hfresh'⟩ | ⟨helement', hn⟩
      · refine ⟨by rw [hmesh], fun d hd => Or.inl ?_⟩
        obtain rfl := Option.some.inj (hc.symm.trans hd)
        exact hfresh'
      · have hvalue : n.value = r.settled.setCurrent { b with stage := .counting } := by
          rw [hn, hb]
          rfl
        have hsame : Origin.declaredBy (r.settled.setCurrent { b with stage := .counting })
            = .declaredBy r.settled := by
          rw [Origin.declaredBy, Origin.declaredBy, hb]
          rfl
        rw [hvalue]
        refine ⟨hprimitives, fun c hc => Or.inr ⟨rfl, ?_⟩⟩
        obtain rfl := Option.some.inj hc
        rw [hsame]
        refine ⟨hinputs, ?_⟩
        exact htracks.setStage hrun .counting (by simp) (by simp [Stage.isHoled])
          fun _ => helement.trans helement'

/-! ## Histories -/

namespace History

/-- What a history knows about the primitive under construction and about those that were kept. -/
structure Sound (h : History) : Prop where
  current : ∀ a, h.reader.current = some a → a.IsFresh ∨ h.origin.Tracks a
  makes : List.Forall₂ Origin.Makes h.origins h.reader.mesh.primitives.toList

theorem sound_start (id name : String) : (start id name).Sound :=
  ⟨by simp [start, Reader.start], .nil⟩

variable {h : History} {e : Event}

/-- The origins of kept primitives when none is added. -/
theorem originsNext_of_eq (hsame : (h.reader.next e).mesh.primitives = h.reader.mesh.primitives) :
    h.originsNext e = h.origins := by
  rw [originsNext, hsame]
  split
  · rw [if_neg (Nat.lt_irrefl _)]
  · rfl

theorem Sound.of_same (hs : h.Sound)
    (hsame : (h.reader.next e).mesh.primitives = h.reader.mesh.primitives)
    (hcurrent : ∀ a, (h.reader.next e).current = some a → a.IsFresh ∨ (h.originNext e).Tracks a) :
    (h.next e).Sound := by
  refine ⟨hcurrent, ?_⟩
  have hmakes := hs.makes
  rw [next, originsNext_of_eq hsame]
  exact hsame ▸ hmakes

/-- Events outside of primitive elements. -/
theorem Sound.next_idle (hs : h.Sound) (hidle : h.reader.current = none) : (h.next e).Sound := by
  have hready : h.reader.ready e = h.reader := Reader.ready_of_none e hidle
  rcases hadv : h.reader.advance e with _ | n
  · have hnext : h.reader.next e = h.reader := Reader.next_of_idle hidle hadv
    apply hs.of_same
    · rw [hnext]
    · rw [hnext, hidle]
      exact fun a ha => absurd ha (by simp)
  · have hnext : h.reader.next e = n.value := Reader.next_of_some (by rw [hready, hadv])
    obtain ⟨hmesh, hfresh⟩ := Reader.advance_idle hidle hadv
    apply hs.of_same
    · rw [hnext, hmesh]
    · rw [hnext]
      exact fun a ha => Or.inl (hfresh a ha)

/-- Events inside a primitive element behind the declaration of inputs. -/
theorem Sound.next_tracks (hs : h.Sound) {a : Assembly} (hcurrent : h.reader.current = some a)
    (htracks : h.origin.Tracks a) : (h.next e).Sound := by
  have horigin : h.originNext e
      = if h.reader.takes [e] then h.origin.next a e else h.origin := by
    rw [originNext, hcurrent]
    exact if_neg htracks.declared
  have hready := Reader.ready_of_ne e hcurrent htracks.declared
  rw [Reader.takes_singleton, hready] at horigin
  rcases hadv : h.reader.advance e with _ | n
  · have hnext : h.reader.next e = h.reader := by
      rw [Reader.next_of_none (by rw [hready, hadv]), hready]
    apply hs.of_same
    · rw [hnext]
    · rw [hnext, horigin, hadv]
      intro b hb
      obtain rfl := Option.some.inj (hcurrent.symm.trans hb)
      exact Or.inr htracks
  · have hnext : h.reader.next e = n.value := Reader.next_of_some (by rw [hready, hadv])
    rw [hadv, Option.isSome_some, if_pos rfl] at horigin
    -- The element goes on, or it is closed with no primitive kept, or with one.
    rcases htracks.advance hcurrent hadv with ⟨b, hb, htracks', hmesh⟩ | ⟨hrun, hclosed⟩
    · apply hs.of_same
      · rw [hnext, hmesh]
      · rw [hnext, horigin]
        intro c hc
        obtain rfl := Option.some.inj (hb.symm.trans hc)
        exact Or.inr htracks'
    · rcases hp : a.finished with _ | p
      · rw [hp] at hclosed
        apply hs.of_same
        · rw [hnext, hclosed]
          rfl
        · rw [hnext, hclosed]
          exact fun b hb => absurd hb (by simp [Reader.closed])
      · rw [hp] at hclosed
        have horigins : h.originsNext e = h.origins ++ [h.origin.cut a] := by
          rw [originsNext, hcurrent, hnext, hclosed]
          exact if_pos (by simp [Reader.closed, Mesh.push])
        refine ⟨?_, ?_⟩
        · rw [next, hnext, hclosed]
          exact fun b hb => absurd hb (by simp [Reader.closed])
        · rw [next, hnext, hclosed, horigins]
          simp only [Reader.closed, Mesh.push, Array.toList_push]
          exact List.rel_append hs.makes (.cons (htracks.makes hrun hp) .nil)

/-- Events while inputs are declared. -/
theorem Sound.next_fresh (hs : h.Sound) {a : Assembly} (hcurrent : h.reader.current = some a)
    (hfresh : a.IsFresh) : (h.next e).Sound := by
  obtain ⟨hprimitives, hbehind⟩ := Reader.next_of_fresh hcurrent hfresh e
  have horigin : h.originNext e = .declaredBy (h.reader.next e) := by
    rw [originNext, hcurrent]
    exact if_pos hfresh.stage_eq
  apply hs.of_same hprimitives
  rw [horigin]
  exact fun b hb => (hbehind b hb).imp_right fun hb => hb.2.2

/-- **Every event keeps a history sound.** -/
theorem Sound.next (hs : h.Sound) (e : Event) : (h.next e).Sound := by
  rcases hcurrent : h.reader.current with _ | a
  · exact hs.next_idle hcurrent
  · rcases hs.current a hcurrent with hfresh | htracks
    · exact hs.next_fresh hcurrent hfresh
    · exact hs.next_tracks hcurrent htracks

/-- Every primitive that was kept has an origin. -/
theorem Sound.exists_makes (hs : h.Sound) {p : Primitive} (hp : p ∈ h.reader.mesh.primitives) :
    ∃ o ∈ h.origins, o.Makes p := by
  obtain ⟨hlength, hmakes⟩ := List.forall₂_iff_get.mp hs.makes
  obtain ⟨n, hn, rfl⟩ := List.getElem_of_mem (Array.mem_toList_iff.mpr hp)
  have hn' : n < h.origins.length := hlength ▸ hn
  exact ⟨h.origins[n], List.getElem_mem hn', hmakes n hn' hn⟩

theorem sound_after {h : History} (hs : h.Sound) (es : List Event) : (h.after es).Sound := by
  induction es generalizing h with
  | nil => exact hs
  | cons e es ih => exact ih (hs.next e)

end History

end MeshWeave
