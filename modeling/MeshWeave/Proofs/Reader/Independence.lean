import MeshWeave.Proofs.Reader.Refinement
import MeshWeave.Proofs.Reader.View

set_option autoImplicit false

/-! # Primitive elements do not leak into each other

A primitive element is read in the same way whatever elements were read before it, finished or
discarded. Two readers that stand between elements, with the same sources, vertices and buffers, give
the same answers to the events of an element, and the primitives that they keep of it differ at most
in the number of the material.

For a reader this is so because its view holds nothing of earlier elements. The registers of a
decoder do hold what earlier elements left in them, since not all are reset when an element begins.
They show the reader of the same events all the same, so nothing of it comes to light. -/

namespace MeshWeave

/-- The events of a primitive element, from its begin tag to its end tag. -/
def Event.elementOf (element : Element) (material : Option String) (inner : List Event) :
    List Event :=
  .openPrimitive element material :: inner ++ [.closePrimitive]

/-- What events do to two meshes alike: at most one primitive is added to each, the same but for the
    number of its material, and the buffers are equal afterwards. -/
structure Mesh.GainAlike (before after before' after' : Mesh) : Prop where
  kept : ∃ p p' : Option Primitive, p.map Primitive.unnumbered = p'.map Primitive.unnumbered
    ∧ after.primitives = before.primitives ++ p.toArray
    ∧ after'.primitives = before'.primitives ++ p'.toArray
  buffer_eq : ∀ k, after.buffer k = after'.buffer k

namespace Reader

/-- Two readers between primitive elements with the same sources, vertices and buffers. -/
structure Meets (r r' : Reader) : Prop where
  idle : r.current = none
  idle' : r'.current = none
  source : r.source = none
  source' : r'.source = none
  sources_eq : r.sources = r'.sources
  vertices_eq : r.vertices = r'.vertices
  buffer_eq : ∀ k, r.mesh.buffer k = r'.mesh.buffer k

theorem Meets.view_eq {r r' : Reader} (h : r.Meets r') {keeps : Bool}
    (hvertices : keeps = true → r.inVertices = r'.inVertices) :
    r.view keeps = r'.view keeps := by
  have hin : (keeps && r.inVertices) = (keeps && r'.inVertices) := by
    cases keeps with
    | false => rfl
    | true => rw [hvertices rfl]
  rw [view, view, Mesh.vertexData_eq_iff.mpr h.buffer_eq, h.sources_eq, h.vertices_eq, hin, h.idle,
    h.idle', h.source, h.source']

/-! ## Inside of an element -/

variable {r r' : Reader} {keeps : Bool}

/-- An event that leaves an element open adds no primitive. -/
theorem primitives_next_of_open {e : Event} (h : (r.next e).isIdle = false) :
    (r.next e).mesh.primitives = r.mesh.primitives := by
  rcases r.primitives_next e with ⟨hsame, -⟩ | ⟨-, a, p, ha, -, -, -⟩
  · exact hsame
  · rcases next_of_current ha with ⟨-, hnext⟩ | ⟨-, b, -, hmesh, -⟩ | ⟨-, -, hclosed⟩
    · rw [hnext, primitives_before]
    · exact hmesh
    · rw [hclosed] at h
      cases hf : a.finished <;> simp [hf, closed, isIdle] at h

theorem primitives_after_of_open {es : List Event}
    (h : ∀ fs, fs <+: es → fs ≠ [] → (r.after fs).isIdle = false) :
    (r.after es).mesh.primitives = r.mesh.primitives := by
  induction es generalizing r with
  | nil => rfl
  | cons e es ih =>
      have hnext : (r.next e).isIdle = false := h [e] (by simp) (by simp)
      have hrest := ih (r := r.next e) fun fs hfs _ => h (e :: fs) (by simpa using hfs) (by simp)
      rw [after_cons, hrest, primitives_next_of_open hnext]

/-! ## The end of an element -/

/-- The primitive that the end tag of an element keeps of it. -/
def keptAtEnd (r : Reader) : Option Primitive :=
  r.settled.current.bind fun a =>
    if a.stage = .indexing ∧ a.run.isNone = true then a.finished else none

theorem primitives_closePrimitive (r : Reader) :
    (r.next .closePrimitive).mesh.primitives = r.mesh.primitives ++ r.keptAtEnd.toArray := by
  have hready : r.ready .closePrimitive = r.settled := rfl
  rw [keptAtEnd, ← r.primitives_settled]
  rcases hr : r.settled.current with _ | a
  · rw [next_of_none (by rw [hready]; exact advance_of_idle hr rfl), hready]
    simp
  · have hclose := advance_closePrimitive hr
    rw [Assembly.finish_value] at hclose
    rw [Option.bind_some]
    by_cases hplace : a.stage = .indexing ∧ a.run.isNone = true
    · rw [if_pos hplace] at hclose ⊢
      obtain ⟨n, hn, hvalue⟩ := Option.map_eq_some_iff.mp hclose
      rw [next_of_some (by rw [hready]; exact hn), hvalue]
      cases a.finished <;> simp [closed, Mesh.push]
    · rw [if_neg hplace] at hclose ⊢
      rw [next_of_none (by rw [hready]; exact Option.map_eq_none_iff.mp hclose), hready]
      simp

/-- The primitive that is kept is the same for readers of one view, but for its number. -/
theorem keptAtEnd_of_view (h : r.view keeps = r'.view keeps) :
    r.keptAtEnd.map Primitive.unnumbered = r'.keptAtEnd.map Primitive.unnumbered := by
  have hview (q : Reader) : q.keptAtEnd.map Primitive.unnumbered
      = (q.view keeps).settled.current.bind fun a =>
          if a.stage = .indexing ∧ a.run.isNone = true then a.finished else none := by
    rw [keptAtEnd, settled_view]
    rcases hq : q.settled.current with _ | a
    · rw [view_current_of_none keeps hq]
      rfl
    · rw [view_current_of_some keeps hq, Option.bind_some, Option.bind_some,
        Assembly.finished_unnumbered]
      split
      · next hplace => exact (if_pos hplace).symm
      · next hplace => exact (if_neg hplace).symm
  rw [hview, hview, h]

theorem isIdle_of_view (h : r.view keeps = r'.view keeps) : r.isIdle = r'.isIdle := by
  have hview (q : Reader) : q.isIdle = (q.view keeps).isIdle := (Option.isNone_map ..).symm
  rw [hview r, h, ← hview r']

/-! ## Whole elements -/

/-- The element is not closed before its end tag. -/
def StaysOpen (r : Reader) (element : Element) (material : Option String) (inner : List Event) :
    Prop :=
  ∀ fs, fs <+: inner → (r.after (.openPrimitive element material :: fs)).isIdle = false

/-- Only an end tag closes an element. -/
theorem isIdle_next_of_ne {e : Event} (h : r.isIdle = false) (he : e ≠ .closePrimitive) :
    (r.next e).isIdle = false := by
  obtain ⟨c, hc⟩ : ∃ c, r.current = some c := by
    rw [isIdle, Option.isNone_eq_false_iff, Option.isSome_iff_exists] at h
    exact h
  obtain ⟨b, hb, -⟩ := exists_current_next hc he
  rw [isIdle, hb]
  rfl

theorem staysOpen_of_not_mem (hidle : r.isIdle = true) (hsource : r.source = none)
    {element : Element} {material : Option String} {inner : List Event}
    (hinner : .closePrimitive ∉ inner) : r.StaysOpen element material inner := by
  have hafter (q : Reader) (hq : q.isIdle = false) (fs : List Event)
      (hfs : .closePrimitive ∉ fs) : (q.after fs).isIdle = false := by
    induction fs generalizing q with
    | nil => exact hq
    | cons e fs ih =>
        rw [List.mem_cons, not_or] at hfs
        exact ih _ (isIdle_next_of_ne hq (Ne.symm hfs.1)) hfs.2
  intro fs hfs
  have hplace : (r.isIdle && r.source.isNone) = true := by
    rw [hidle, hsource]
    rfl
  have hopened : (r.next (.openPrimitive element material)).isIdle = false := by
    rw [next_of_some (r := r) (e := .openPrimitive element material) (if_pos hplace)]
    rfl
  exact hafter _ hopened fs fun hmem => hinner (hfs.subset hmem)

section Elements

variable {element : Element} {material : Option String} {inner : List Event}

theorem StaysOpen.primitives_eq (h : r.StaysOpen element material inner) :
    (r.after (.openPrimitive element material :: inner)).mesh.primitives = r.mesh.primitives := by
  apply primitives_after_of_open
  intro fs hfs hne
  obtain ⟨e, fs, rfl⟩ := List.exists_cons_of_ne_nil hne
  obtain ⟨rfl, hprefix⟩ := List.cons_prefix_cons.mp hfs
  exact h fs hprefix

variable (h : r.view keeps = r'.view keeps)
  (hinner : keeps = true ∨ ∀ e ∈ inner, e.isOfVertices = false)

include h hinner

theorem run_opening_of_view :
    (r.run (.openPrimitive element material :: inner)).value.1
      = (r'.run (.openPrimitive element material :: inner)).value.1
    ∧ (r.after (.openPrimitive element material :: inner)).view keeps
      = (r'.after (.openPrimitive element material :: inner)).view keeps :=
  run_of_view h (hinner.imp_right fun hinner => by simpa [Event.isOfVertices] using hinner)

theorem StaysOpen.of_view (hopen : r.StaysOpen element material inner) :
    r'.StaysOpen element material inner := by
  intro fs hfs
  have hprefix := hinner.imp_right fun hinner e he => hinner e (hfs.subset he)
  rw [← isIdle_of_view (run_opening_of_view h hprefix).2]
  exact hopen fs hfs

/-- **The events of an element do the same to readers of one view.** -/
theorem run_elementOf_of_view (hopen : r.StaysOpen element material inner) :
    let es := Event.elementOf element material inner
    (r.run es).value.1 = (r'.run es).value.1
    ∧ (r.after es).sources = (r'.after es).sources
    ∧ Mesh.GainAlike r.mesh (r.after es).mesh r'.mesh (r'.after es).mesh := by
  intro es
  have hes : keeps = true ∨ ∀ e ∈ es, e.isOfVertices = false := by
    refine hinner.imp_right fun hinner e he => ?_
    simp only [es, Event.elementOf, List.cons_append, List.mem_cons, List.mem_append,
      List.not_mem_nil, or_false] at he
    rcases he with rfl | he | rfl
    · rfl
    · exact hinner e he
    · rfl
  obtain ⟨hanswers, hafter⟩ := run_of_view h hes
  obtain ⟨hsources, hbuffer, -⟩ := eq_of_view hafter
  have hopened : (r.after (.openPrimitive element material :: inner)).view keeps
      = (r'.after (.openPrimitive element material :: inner)).view keeps :=
    (run_opening_of_view h hinner).2
  have hend (q : Reader) : q.after es
      = (q.after (.openPrimitive element material :: inner)).next .closePrimitive :=
    after_append q (.openPrimitive element material :: inner) [.closePrimitive]
  refine ⟨hanswers, hsources, ⟨_, _, keptAtEnd_of_view hopened, ?_, ?_⟩, hbuffer⟩
  · rw [hend, primitives_closePrimitive, hopen.primitives_eq]
  · rw [hend, primitives_closePrimitive, (hopen.of_view h hinner).primitives_eq]

end Elements

end Reader

/-! ## Registers -/

namespace Outcome

/-- The outcome of an event that is taken or refused. -/
def ofTaken (taken : Bool) : Outcome := if taken then .taken else .refused

theorem ofTaken_isTaken {o : Outcome} (h : o ≠ .broken) : ofTaken o.isTaken = o := by
  cases o with
  | taken | refused => rfl
  | broken => exact absurd rfl h

end Outcome

namespace Registers

/-- Where the protocol is kept, outcomes tell no more than whether events have their places. -/
theorem Protocol.outcomes_eq {m : Registers} (hm : m.Protocol) (es : List Event) :
    (m.run es).1 = ((m.run es).1.map Outcome.isTaken).map Outcome.ofTaken := by
  induction es generalizing m with
  | nil => rfl
  | cons e es ih =>
      exact congrArg₂ List.cons (Outcome.ofTaken_isTaken (hm.step_ne_broken e)).symm
        (ih (hm.step e))

/-- **Primitive elements do not leak into each other.** Two documents lead to readers between
    primitive elements that have the same sources, vertices and buffers, whatever elements were read
    before, finished or discarded. Then the events of one more element get the same answers behind
    either document, from readers and from registers. The primitive that is kept of the element is
    the same but for the number of its material, or none is kept in either case, and the sources and
    the buffers are equal afterwards. -/
theorem run_elementOf_of_meets (id name id' name' : String) (before before' : List Event)
    (hmeets : ((Reader.start id name).after before).Meets
      ((Reader.start id' name').after before'))
    (element : Element) (material : Option String) (inner : List Event)
    (hvertices : ((Reader.start id name).after before).inVertices
        = ((Reader.start id' name').after before').inVertices
      ∨ ∀ e ∈ inner, e.isOfVertices = false)
    (hopen : ((Reader.start id name).after before).StaysOpen element material inner) :
    let r := (Reader.start id name).after before
    let r' := (Reader.start id' name').after before'
    let m := (start id name).after before
    let m' := (start id' name').after before'
    let es := Event.elementOf element material inner
    ((r.run es).value.1 = (r'.run es).value.1
      ∧ (r.after es).sources = (r'.after es).sources
      ∧ Mesh.GainAlike r.mesh (r.after es).mesh r'.mesh (r'.after es).mesh)
    ∧ ((m.run es).1 = (m'.run es).1
      ∧ (m.after es).sources = (m'.after es).sources
      ∧ Mesh.GainAlike m.mesh (m.after es).mesh m'.mesh (m'.after es).mesh) := by
  intro r r' m m' es
  have hreaders : (r.run es).value.1 = (r'.run es).value.1
      ∧ (r.after es).sources = (r'.after es).sources
      ∧ Mesh.GainAlike r.mesh (r.after es).mesh r'.mesh (r'.after es).mesh := by
    rcases hvertices with hsame | hnone
    · exact Reader.run_elementOf_of_view (hmeets.view_eq fun _ => hsame) (Or.inl rfl) hopen
    · have hview : r.view false = r'.view false := hmeets.view_eq nofun
      exact Reader.run_elementOf_of_view hview (Or.inr hnone) hopen
  refine ⟨hreaders, ?_⟩
  obtain ⟨hanswers, hsources, hgain⟩ := hreaders
  -- The registers of either document show its reader, before the element and behind it.
  have hshows (id name : String) (es : List Event) :
      ((start id name).after es).Shows ((Reader.start id name).after es) :=
    (agrees_run (shows_start id name) (protocol_start id name) (tallied_start id name) es).2
  have hm : m.Protocol := (protocol_start id name).after before
  have hm' : m'.Protocol := (protocol_start id' name').after before'
  have ht : m.Tallied := (tallied_start id name).after (protocol_start id name) before
  have ht' : m'.Tallied := (tallied_start id' name').after (protocol_start id' name') before'
  obtain ⟨htaken, hend⟩ := agrees_run (hshows id name before) hm ht es
  obtain ⟨htaken', hend'⟩ := agrees_run (hshows id' name' before') hm' ht' es
  refine ⟨?_, ?_, ?_⟩
  · rw [hm.outcomes_eq, hm'.outcomes_eq, htaken, htaken']
    exact congrArg _ hanswers
  · rw [hend.sources_eq, hend'.sources_eq]
    exact hsources
  · rw [hend.mesh_eq, hend'.mesh_eq, (hshows id name before).mesh_eq,
      (hshows id' name' before').mesh_eq]
    exact hgain

end Registers

/-- A polygon that is kept, and then a strip that is too short. -/
def Event.afterStrip : List Event :=
  [.addSource (.fresh "p" (.float (.replicate 9 ⟨0⟩)) 3), .openPrimitive .polygons (some "a"),
    .input ⟨.position, "#p", 0, 0⟩, .openRun .polygon, .indices .polygon [2, 1, 0],
    .closeRun .polygon, .closePrimitive, .openPrimitive .tristrips (some "b"),
    .input ⟨.position, "#p", 0, 0⟩, .openRun .polygon, .indices .polygon [0, 1],
    .closeRun .polygon, .closePrimitive]

/-- A list of polygons that lacks vertices, over the same source. -/
def Event.afterPolylist : List Event :=
  [.addSource (.fresh "p" (.float (.replicate 9 ⟨0⟩)) 3), .openPrimitive .polylist (some "b"),
    .input ⟨.position, "#p", 1, 0⟩, .openCounts, .counts [7], .closeCounts, .openRun .polygon,
    .indices .polygon [0, 0, 1], .closeRun .polygon, .closePrimitive]

/-- A triangle is read alike behind a kept polygon and a short strip, and behind a discarded list of
    polygons. Only the numbers of its material differ. -/
theorem Registers.run_elementOf_triangle :
    let r := (Reader.start "mesh" "").after Event.afterStrip
    let r' := (Reader.start "other" "").after Event.afterPolylist
    let m := (start "mesh" "").after Event.afterStrip
    let m' := (start "other" "").after Event.afterPolylist
    let inner : List Event :=
      [.input ⟨.position, "#p", 0, 0⟩, .openRun .polygon, .indices .polygon [0, 1, 2, 0],
        .closeRun .polygon]
    let es := Event.elementOf .triangles (some "b") inner
    (r.Meets r' ∧ r.inVertices = r'.inVertices ∧ r.StaysOpen .triangles (some "b") inner)
    ∧ ((r.run es).value.1 = (r'.run es).value.1
      ∧ (r.after es).sources = (r'.after es).sources
      ∧ Mesh.GainAlike r.mesh (r.after es).mesh r'.mesh (r'.after es).mesh)
    ∧ ((m.run es).1 = (m'.run es).1
      ∧ (m.after es).sources = (m'.after es).sources
      ∧ Mesh.GainAlike m.mesh (m.after es).mesh m'.mesh (m'.after es).mesh) := by
  intro r r' m m' inner es
  have hmeets : r.Meets r' :=
    ⟨by decide +kernel, by decide +kernel, by decide +kernel, by decide +kernel, by decide +kernel,
      by decide +kernel, fun k => by cases k <;> decide +kernel⟩
  have hvertices : r.inVertices = r'.inVertices := by decide +kernel
  have hopen : r.StaysOpen .triangles (some "b") inner :=
    Reader.staysOpen_of_not_mem (by decide +kernel) (by decide +kernel) (by decide)
  exact ⟨⟨hmeets, hvertices, hopen⟩, run_elementOf_of_meets "mesh" "" "other" "" Event.afterStrip
    Event.afterPolylist hmeets .triangles (some "b") inner (Or.inl hvertices) hopen⟩

end MeshWeave
