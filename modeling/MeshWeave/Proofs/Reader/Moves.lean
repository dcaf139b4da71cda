import MeshWeave.Proofs.Reader.Session

set_option autoImplicit false

/-! # What events do to the element under construction

Inside a primitive element an event without a place is ignored. Any other event changes the
primitive under construction, or it closes the element. `Assembly.Moves` lists the changes, each
with what has to be the case for it, and `Reader.moves_of_advance` says that there are no others.
The end of the declaration of inputs is not among them, because it comes before other events. -/

namespace MeshWeave

/-- The inputs that an event declares. -/
def Event.declaredInputs (v : Vertices) : Event → List SharedInput
  | input i => i.expand v
  | _ => []

/-- The material symbol of a primitive element that an event begins. -/
def Event.symbol? : Event → Option String
  | openPrimitive _ material => some (material.getD "")
  | _ => none

/-! ## Changes -/

namespace Assembly

/-- What an event that has its place makes of a primitive under construction, unless it closes the
    element. The declaration of inputs is over if the event ends it. -/
inductive Moves (v : Vertices) (a : Assembly) : Event → Assembly → Prop where
  | outer {e : Event} (outer : e.isInner = false) : Moves v a e a
  | input (i : SharedInput) (declaring : a.stage = .declaring) :
      Moves v a (.input i) { a with inputs := ⟨a.inputs.inputs ++ i.expand v⟩ }
  | openCounts (element_eq : a.element = .polylist) :
      Moves v a .openCounts { a with stage := .counting }
  | counts (values : List Nat) (counting : a.stage = .counting) :
      Moves v a (.counts values) (values.foldl addCount a)
  | closeCounts (counting : a.stage = .counting) :
      Moves v a .closeCounts { a with stage := .indexing }
  | openRun (kind : RunKind) (run_eq : a.run = none) (takes : a.stage.takesRuns kind = true) :
      Moves v a (.openRun kind) (a.openRun kind)
  | stray (values : List Nat) (stage_eq : a.stage = .holed none) :
      Moves v a (.indices .hole values) a
  | indices (values : List Nat) {run : Run} (run_eq : a.run = some run)
      (read : ¬ (run.kind = .hole ∧ a.stage = .holed none)) :
      Moves v a (.indices run.kind values) (a.readValues run values)
  | closeRun (mesh : String) {run : Run} (run_eq : a.run = some run) :
      Moves v a (.closeRun run.kind) (a.closeRun mesh run).value
  | openHoled (run_eq : a.run = none) (element_eq : a.element = .polygons) :
      Moves v a .openHoled { a with stage := .holed none }
  | closeHoled (run_eq : a.run = none) (holed : a.stage.isHoled = true) :
      Moves v a .closeHoled { a with stage := .indexing }

/-- Only the declaration of an input adds to the inputs of an element. -/
theorem Moves.inputs_eq {v : Vertices} {a b : Assembly} {e : Event} (h : a.Moves v e b) :
    b.inputs.inputs = a.inputs.inputs ++ e.declaredInputs v := by
  cases h with
  | outer outer =>
      cases e <;>
        first | exact (List.append_nil _).symm | exact absurd outer (by simp [Event.isInner])
  | input i => rfl
  | counts values => exact (congrArg _ (a.inputs_addCounts values)).trans (List.append_nil _).symm
  | @closeRun mesh run =>
      exact (congrArg _ (a.follows_closeRun mesh run).inputs_eq).trans (List.append_nil _).symm
  | _ => exact (List.append_nil _).symm

/-- The element under construction stays what it is. -/
theorem Moves.element_eq {v : Vertices} {a b : Assembly} {e : Event} (h : a.Moves v e b) :
    b.element = a.element := by
  cases h with
  | counts values => exact apply_addCounts (·.element) (fun _ _ => rfl) a values
  | @closeRun mesh run => exact (a.follows_closeRun mesh run).element_eq
  | _ => rfl

end Assembly

namespace Reader

/-- What a change of the open source is. -/
theorem onSource_eq_some {r : Reader} {f : Source → Option Source} {n : Noted Reader}
    (h : r.onSource f = some n) :
    ∃ s s', r.source = some s ∧ f s = some s' ∧ n.value = { r with source := some s' } := by
  rw [onSource, Option.bind_eq_bind, Option.bind_eq_some_iff] at h
  obtain ⟨s, hs, h⟩ := h
  rw [Option.bind_eq_some_iff] at h
  obtain ⟨s', hs', h⟩ := h
  exact ⟨s, s', hs, hs', by rw [← Option.some.inj h]; rfl⟩

/-- **What an event does that is not about the contents of a primitive element**: it begins one, or
    it only changes what is declared outside of them. -/
theorem advance_outer_eq {r : Reader} {e : Event} {n : Noted Reader} (he : e.isInner = false)
    (hadv : r.advance e = some n) :
    (∃ element material, e = .openPrimitive element material ∧ r.current = none ∧ r.source = none
      ∧ n.value = { r with
          materials := (r.materials.intern (material.getD "")).2
          current := some (.start element (material.getD "")
            (r.materials.intern (material.getD "")).1) }) ∨
    (e.symbol? = none ∧ ∃ sources source vertices inVertices,
      n.value = { r with sources, source, vertices, inVertices }) := by
  have hsource {f : Source → Option Source} (hadv : r.onSource f = some n) :
      ∃ sources source vertices inVertices,
        n.value = { r with sources, source, vertices, inVertices } := by
    obtain ⟨_, s', _, _, hn⟩ := onSource_eq_some hadv
    exact ⟨r.sources, some s', r.vertices, r.inVertices, hn⟩
  cases e with
  | addSource s =>
      obtain rfl := Option.some.inj hadv
      exact Or.inr ⟨rfl, _, r.source, r.vertices, r.inVertices, rfl⟩
  | openSource id =>
      obtain ⟨-, rfl⟩ := of_place hadv
      exact Or.inr ⟨rfl, r.sources, _, r.vertices, r.inVertices, rfl⟩
  | openArray type => exact Or.inr ⟨rfl, hsource hadv⟩
  | floats values => exact Or.inr ⟨rfl, hsource hadv⟩
  | doubles values => exact Or.inr ⟨rfl, hsource hadv⟩
  | ints values => exact Or.inr ⟨rfl, hsource hadv⟩
  | accessor stride => exact Or.inr ⟨rfl, hsource hadv⟩
  | param name type => exact Or.inr ⟨rfl, hsource hadv⟩
  | closeSource =>
      rw [advance, Option.bind_eq_bind, Option.bind_eq_some_iff] at hadv
      obtain ⟨s, _, hn⟩ := hadv
      obtain rfl := Option.some.inj hn
      exact Or.inr ⟨rfl, _, none, r.vertices, r.inVertices, rfl⟩
  | openVertices id name =>
      obtain ⟨-, rfl⟩ := of_place hadv
      exact Or.inr ⟨rfl, r.sources, r.source, _, true, rfl⟩
  | vertexInput semantic source =>
      obtain ⟨-, rfl⟩ := of_place hadv
      exact Or.inr ⟨rfl, r.sources, r.source, _, r.inVertices, rfl⟩
  | closeVertices =>
      obtain ⟨-, rfl⟩ := of_place hadv
      exact Or.inr ⟨rfl, r.sources, r.source, r.vertices, false, rfl⟩
  | openPrimitive element material =>
      obtain ⟨hplace, rfl⟩ := of_place hadv
      rw [Bool.and_eq_true, isIdle, Option.isNone_iff_eq_none, Option.isNone_iff_eq_none] at hplace
      exact Or.inl ⟨element, material, rfl, hplace.1, hplace.2, rfl⟩
  | _ => exact absurd he (by simp [Event.isInner])

/-- Without a primitive element nothing has its place that belongs inside of one. -/
theorem outer_of_advance_idle {r : Reader} {e : Event} {n : Noted Reader} (h : r.current = none)
    (hadv : r.advance e = some n) : e.isInner = false := by
  by_contra hinner
  rw [advance_of_idle h (by simpa using hinner)] at hadv
  exact absurd hadv (by simp)

/-- Events that are not about primitive elements leave the open one alone. -/
theorem advance_outer {r : Reader} {a : Assembly} {e : Event} {n : Noted Reader}
    (h : r.current = some a) (he : e.isInner = false) (hadv : r.advance e = some n) :
    n.value.current = some a ∧ n.value.mesh = r.mesh := by
  rcases advance_outer_eq he hadv with ⟨_, _, _, hnone, _⟩ | ⟨-, _, _, _, _, hn⟩
  · exact absurd h (by simp [hnone])
  · rw [hn]
    exact ⟨h, rfl⟩

/-- What an event that has its place only inside a primitive element does to the open one. The begin
    tag of the vertex counts is left out, because it also ends the declaration of inputs. -/
theorem moves_of_advance_inner {r : Reader} {a : Assembly} {e : Event} {n : Noted Reader}
    (h : r.current = some a) (hinner : e.isInner = true) (he : e ≠ .openCounts)
    (hadv : r.advance e = some n) :
    (∃ b, n.value = r.setCurrent b ∧ a.Moves r.vertices e b) ∨
    (e = .closePrimitive ∧ a.run = none ∧ n.value = r.closed a.finished) := by
  cases e with
  | input i =>
      rw [advance_input h] at hadv
      obtain ⟨hstage, rfl⟩ := of_place hadv
      exact Or.inl ⟨_, rfl, .input i hstage⟩
  | openCounts => exact absurd rfl he
  | counts values =>
      rw [advance_counts h] at hadv
      obtain ⟨hstage, rfl⟩ := of_place hadv
      exact Or.inl ⟨_, rfl, .counts values hstage⟩
  | closeCounts =>
      rw [advance_closeCounts h] at hadv
      obtain ⟨hstage, rfl⟩ := of_place hadv
      exact Or.inl ⟨_, rfl, .closeCounts hstage⟩
  | openRun kind =>
      rw [advance_openRun h] at hadv
      obtain ⟨⟨hrun, htakes⟩, rfl⟩ := of_place hadv
      exact Or.inl ⟨_, rfl, .openRun kind (by simpa using hrun) htakes⟩
  | indices kind values =>
      obtain ⟨run, hrun, rfl, hn⟩ := advance_indices_eq_some h hadv
      rw [hn]
      by_cases hstray : run.kind = .hole ∧ a.stage = .holed none
      · rw [if_pos hstray, hstray.1]
        exact Or.inl ⟨a, (setCurrent_self h).symm, .stray values hstray.2⟩
      · rw [if_neg hstray]
        exact Or.inl ⟨_, rfl, .indices values hrun hstray⟩
  | closeRun kind =>
      obtain ⟨run, hrun, rfl, hn⟩ := advance_closeRun_eq_some h hadv
      exact Or.inl ⟨_, hn, .closeRun r.mesh.id hrun⟩
  | openHoled =>
      rw [advance_openHoled h] at hadv
      obtain ⟨⟨-, hrun, helement⟩, rfl⟩ := of_place hadv
      exact Or.inl ⟨_, rfl, .openHoled (by simpa using hrun) helement⟩
  | closeHoled =>
      rw [advance_closeHoled h] at hadv
      obtain ⟨⟨hholed, hrun⟩, rfl⟩ := of_place hadv
      exact Or.inl ⟨_, rfl, .closeHoled (by simpa using hrun) hholed⟩
  | closePrimitive =>
      have hclose := advance_closePrimitive h
      rw [hadv, Assembly.finish_value, Option.map_some] at hclose
      obtain ⟨hplace, hn⟩ := Option.ite_none_right_eq_some.mp hclose.symm
      exact Or.inr ⟨rfl, by simpa using hplace.2, (Option.some.inj hn).symm⟩
  | _ => exact absurd hinner (by simp [Event.isInner])

/-- **What an event with a place does to an open primitive element**: it changes the primitive under
    construction and leaves the mesh alone, or it closes the element. -/
theorem moves_of_advance {r : Reader} {a : Assembly} {e : Event} {n : Noted Reader}
    (h : r.current = some a) (he : e ≠ .openCounts) (hadv : r.advance e = some n) :
    (∃ b, n.value.current = some b ∧ n.value.mesh = r.mesh ∧ a.Moves r.vertices e b) ∨
    (e = .closePrimitive ∧ a.run = none ∧ n.value = r.closed a.finished) := by
  by_cases hinner : e.isInner = true
  · rcases moves_of_advance_inner h hinner he hadv with ⟨b, hn, hmoves⟩ | hclosed
    · exact Or.inl ⟨b, by rw [hn]; rfl, by rw [hn]; rfl, hmoves⟩
    · exact Or.inr hclosed
  · have houter : e.isInner = false := by simpa using hinner
    obtain ⟨hcurrent, hmesh⟩ := advance_outer h houter hadv
    exact Or.inl ⟨a, hcurrent, hmesh, .outer houter⟩

end Reader

end MeshWeave
