import Mathlib.Data.List.Forall2
import MeshWeave.Proofs.Reader.Counting
import MeshWeave.Proofs.Reader.Run

set_option autoImplicit false

/-! # Contents in pieces

Long contents come in pieces of any size, and where they are cut says nothing: not in the middle of
a tuple of indices, not between two vertex counts, and not where the contents have no place at all.
`Event.Splits` relates an event to the events that bring the same contents piece by piece.

For each kind of contents there is one step to look at. Reading a piece and then another is reading
both at once, and the second piece has its place just if the first one has. So a reader cannot tell
how contents were cut: all events get the answers that they got before, and the reader behind them
is the same. -/

namespace MeshWeave

/-! ## Pieces -/

/-- What contents are of. -/
inductive Content where
  | floats
  | doubles
  | ints
  | counts
  | indices (kind : RunKind)
  deriving DecidableEq, Repr

namespace Content

/-- The values that contents are made of. -/
abbrev Value : Content → Type
  | floats => Single
  | doubles => Double
  | ints => Int
  | counts | indices _ => Nat

/-- The event that brings some contents in one piece. -/
def event : (c : Content) → List c.Value → Event
  | floats, xs => .floats xs.toArray
  | doubles, xs => .doubles xs.toArray
  | ints, xs => .ints xs.toArray
  | counts, xs => .counts xs
  | indices kind, xs => .indices kind xs

theorem settles_event (c : Content) (xs : List c.Value) : (c.event xs).settles = false := by
  cases c <;> rfl

end Content

/-- An event and its parts: contents come in one or more pieces, which may be empty, and every
    event may stay as it is. -/
inductive Event.Splits : Event → List Event → Prop where
  | whole (e : Event) : Splits e [e]
  | pieces (c : Content) (pieces : List (List c.Value)) (nonempty : pieces ≠ []) :
      Splits (c.event pieces.flatten) (pieces.map c.event)

/-! ## One piece behind another -/

/-- Whether an array takes values depends on their type only, and taking them one after the other
    is taking them together. -/
theorem Scalars.append?_append? {xs ys zs : Scalars} (h : xs.append? ys = some zs) (s : Scalars) :
    (s.append? xs).bind (·.append? ys) = s.append? zs
    ∧ (s.append? xs).isSome = (s.append? zs).isSome := by
  cases xs <;> cases ys <;> simp only [append?, Option.some.injEq, reduceCtorEq] at h <;>
    subst h <;> cases s <;> simp [append?]

/-- A run that goes on is of the same kind. -/
theorem Layout.kind_readValues (l : Layout) (values : List Nat) (p : Primitive) (run : Run) :
    (l.readValues values (p, run)).2.kind = run.kind := by
  rw [readValues_eq]

theorem Assembly.readValues_append (a : Assembly) (run : Run) (xs ys : List Nat) :
    a.readValues run (xs ++ ys)
      = (a.readValues run xs).readValues (a.layout.readValues xs (a.primitive, run)).2 ys := by
  simp only [readValues, Layout.readValues, List.foldl_append]

namespace Reader

/-- What contents do to a reader, if they have their place. -/
def taking (r : Reader) (c : Content) (xs : List c.Value) : Option Reader :=
  (r.advance (c.event xs)).map Noted.value

variable (r : Reader)

/-- The second of two pieces of an array ends where the whole ends. -/
theorem appendValues_append {xs ys zs : Scalars} (h : xs.append? ys = some zs) :
    ((r.appendValues xs).map Noted.value).bind (fun r => (r.appendValues ys).map Noted.value)
      = (r.appendValues zs).map Noted.value
    ∧ (r.appendValues xs).isSome = (r.appendValues zs).isSome := by
  unfold appendValues onSource
  cases r.source with
  | none => exact ⟨rfl, rfl⟩
  | some s =>
      obtain ⟨hbind, hsome⟩ := Scalars.append?_append? h s.values
      rcases hxs : s.values.append? xs with _ | u
      · rw [hxs] at hbind hsome
        have hnone : s.values.append? zs = none := hbind.symm
        simp [hxs, hnone]
      · rw [hxs, Option.bind_some] at hbind
        rw [hxs, Option.isSome_some] at hsome
        obtain ⟨v, hv⟩ := Option.isSome_iff_exists.mp hsome.symm
        simp [hxs, hbind, hv]

/-- The second of two pieces of vertex counts ends where the whole ends. -/
theorem taking_counts_append (xs ys : List Nat) :
    (r.taking .counts xs).bind (·.taking .counts ys) = r.taking .counts (xs ++ ys)
    ∧ (r.taking .counts xs).isSome = (r.taking .counts (xs ++ ys)).isSome := by
  unfold taking Content.event
  rcases h : r.current with _ | a
  · simp [advance, h]
  · rw [advance_counts h, advance_counts h]
    by_cases hstage : a.stage = .counting
    · rw [if_pos hstage, if_pos hstage]
      refine ⟨?_, rfl⟩
      simp only [Option.map_some, Noted.value_pure, Option.bind_some]
      rw [advance_counts rfl, if_pos ((a.stage_addCounts xs).trans hstage), List.foldl_append]
      rfl
    · rw [if_neg hstage, if_neg hstage]
      exact ⟨rfl, rfl⟩

/-- The second of two pieces of a run ends where the whole ends, also inside a tuple. -/
theorem taking_indices_append (kind : RunKind) (xs ys : List Nat) :
    (r.taking (.indices kind) xs).bind (·.taking (.indices kind) ys)
      = r.taking (.indices kind) (xs ++ ys)
    ∧ (r.taking (.indices kind) xs).isSome = (r.taking (.indices kind) (xs ++ ys)).isSome := by
  unfold taking Content.event
  rcases h : r.current with _ | a
  · simp [advance, h]
  rcases hrun : a.run with _ | run
  · rw [(advance_of_run_none h hrun kind xs).1, (advance_of_run_none h hrun kind (xs ++ ys)).1]
    exact ⟨rfl, rfl⟩
  by_cases hkind : run.kind = kind
  · rw [advance_indices h kind xs hrun hkind, advance_indices h kind (xs ++ ys) hrun hkind]
    -- A hole behind no polygon has its place, but none of its values is read.
    by_cases hstray : kind = .hole ∧ a.stage = .holed none
    · rw [if_pos hstray, if_pos hstray]
      refine ⟨?_, rfl⟩
      simp only [Option.map_some, Noted.value_pure, Option.bind_some]
      rw [advance_indices h kind ys hrun hkind, if_pos hstray]
      rfl
    · rw [if_neg hstray, if_neg hstray]
      refine ⟨?_, rfl⟩
      simp only [Option.map_some, Noted.value_pure, Option.bind_some]
      rw [advance_indices (r := r.setCurrent (a.readValues run xs)) rfl kind ys rfl
        ((Layout.kind_readValues _ _ _ _).trans hkind), Assembly.readValues_append]
      exact congrArg (Option.map Noted.value) (if_neg hstray)
  · rw [(advance_of_kind_ne h hrun hkind xs).1, (advance_of_kind_ne h hrun hkind (xs ++ ys)).1]
    exact ⟨rfl, rfl⟩

/-- **The second of two pieces ends where the whole ends**, and a piece has its place just if the
    whole has. -/
theorem taking_append (c : Content) (xs ys : List c.Value) :
    (r.taking c xs).bind (·.taking c ys) = r.taking c (xs ++ ys)
    ∧ (r.taking c xs).isSome = (r.taking c (xs ++ ys)).isSome := by
  have harray {vs ws zs : Scalars} (h : vs.append? ws = some zs) :
      ((r.appendValues vs).map Noted.value).bind (fun r => (r.appendValues ws).map Noted.value)
        = (r.appendValues zs).map Noted.value
      ∧ ((r.appendValues vs).map Noted.value).isSome
        = ((r.appendValues zs).map Noted.value).isSome := by
    rw [Option.isSome_map, Option.isSome_map]
    exact r.appendValues_append h
  cases c with
  | floats => exact harray (by simp [Scalars.append?])
  | doubles => exact harray (by simp [Scalars.append?])
  | ints => exact harray (by simp [Scalars.append?])
  | counts => exact r.taking_counts_append xs ys
  | indices kind => exact r.taking_indices_append kind xs ys

/-! ## Answers -/

/-- Contents are answered by whether they have their place, and change nothing if they do not. -/
theorem step_event (c : Content) (xs : List c.Value) :
    (r.step (c.event xs)).value = ((r.taking c xs).isSome, (r.taking c xs).getD r) := by
  have hready : r.ready (c.event xs) = r := by
    rw [ready, c.settles_event, if_neg (by simp)]
  rw [step_value, hready, taking]
  cases r.advance (c.event xs) <;> rfl

/-- Whether contents have their place does not depend on the values. -/
theorem isSome_taking (c : Content) (xs ys : List c.Value) :
    (r.taking c xs).isSome = (r.taking c ys).isSome :=
  (r.taking_append c [] xs).2.symm.trans (r.taking_append c [] ys).2

/-- A piece is answered like the whole, and so is the piece behind it, which leads to where the
    whole leads. -/
theorem step_append (c : Content) (xs ys : List c.Value) :
    (r.step (c.event xs)).value.1 = (r.step (c.event (xs ++ ys))).value.1
    ∧ ((r.next (c.event xs)).step (c.event ys)).value = (r.step (c.event (xs ++ ys))).value := by
  have hbind := (r.taking_append c xs ys).1
  have hwhole := r.isSome_taking c (xs ++ ys) xs
  have hnext : r.next (c.event xs) = (r.taking c xs).getD r :=
    congrArg Prod.snd (r.step_event c xs)
  rw [hnext, step_event, step_event, step_event]
  refine ⟨hwhole.symm, ?_⟩
  rcases hxs : r.taking c xs with _ | r'
  · -- Contents without a place change nothing, so the second piece has no place either.
    have hrest := r.isSome_taking c ys xs
    rw [hxs, Option.isSome_none, Option.isSome_eq_false_iff, Option.isNone_iff_eq_none]
      at hwhole hrest
    simp [hwhole, hrest]
  · rw [hxs, Option.isSome_some] at hwhole
    obtain ⟨r'', hr''⟩ := Option.isSome_iff_exists.mp hwhole
    rw [hxs, Option.bind_some, hr''] at hbind
    simp [hbind, hr'']

theorem run_cons (e : Event) (es : List Event) :
    (r.run (e :: es)).value
      = ((r.step e).value.1 :: ((r.next e).run es).value.1, ((r.next e).run es).value.2) := rfl

theorem run_append (es fs : List Event) :
    (r.run (es ++ fs)).value
      = ((r.run es).value.1 ++ ((r.after es).run fs).value.1, ((r.after es).run fs).value.2) := by
  induction es generalizing r with
  | nil => rfl
  | cons e es ih => rw [List.cons_append, run_cons, ih, run_cons, after_cons, List.cons_append]

/-- All pieces are answered like the whole, and lead to where it leads. -/
theorem run_pieces (c : Content) (first : List c.Value) (pieces : List (List c.Value)) :
    (r.run ((first :: pieces).map c.event)).value
      = (List.replicate (pieces.length + 1) (r.step (c.event (first :: pieces).flatten)).value.1,
        r.next (c.event (first :: pieces).flatten)) := by
  induction pieces generalizing r first with
  | nil =>
      rw [List.flatten_cons, List.flatten_nil, List.append_nil]
      rfl
  | cons second pieces ih =>
      obtain ⟨hfirst, hrest⟩ := r.step_append c first (second :: pieces).flatten
      have hnext : (r.next (c.event first)).next (c.event (second :: pieces).flatten)
          = r.next (c.event (first :: second :: pieces).flatten) := congrArg Prod.snd hrest
      rw [List.map_cons, run_cons, ih (r.next (c.event first)) second, hrest, hnext, hfirst]
      rfl

theorem run_of_split {e : Event} {parts : List Event} (h : e.Splits parts) :
    (r.run parts).value = (List.replicate parts.length (r.step e).value.1, r.next e) := by
  cases h with
  | whole => rfl
  | pieces c pieces nonempty =>
      obtain ⟨first, rest, rfl⟩ := List.exists_cons_of_ne_nil nonempty
      rw [r.run_pieces c first rest, List.length_map, List.length_cons]

/-- **A reader cannot tell how contents were cut.** However the contents of some events are split,
    every part is answered like its event, and the reader behind all parts is the same, with its
    mesh, its sources and the primitive under construction. -/
theorem run_of_splits {es : List Event} {parts : List (List Event)}
    (h : List.Forall₂ Event.Splits es parts) :
    (r.run parts.flatten).value
      = ((List.zipWith (fun answer part => List.replicate part.length answer)
            (r.run es).value.1 parts).flatten,
        (r.run es).value.2) := by
  induction h generalizing r with
  | nil => rfl
  | @cons e part es parts hsplit _ ih =>
      have hpart := r.run_of_split hsplit
      have hafter : r.after part = r.next e := congrArg Prod.snd hpart
      rw [List.flatten_cons, run_append, hpart, hafter, ih (r.next e), run_cons,
        List.zipWith_cons_cons, List.flatten_cons]

end Reader

/-- A list of polygons whose vertex counts and tuples are cut in the middle, behind integers that
    belong to no source and before indices of a hole that was not opened. -/
theorem Reader.run_of_splits_polylist :
    let r := Reader.start "mesh" ""
    let es : List Event :=
      [.ints #[1, 2], .openSource "p", .floats #[⟨0⟩, ⟨1⟩, ⟨2⟩], .accessor 3, .closeSource,
        .openPrimitive .polylist none, .input ⟨.position, "#p", 0, 0⟩,
        .input ⟨.normal, "#n", 1, 0⟩, .openCounts, .counts [3, 4], .closeCounts,
        .openRun .polygon, .indices .polygon [0, 5, 0, 6, 0], .indices .hole [7, 7]]
    let parts : List (List Event) :=
      [[.ints #[1], .ints #[], .ints #[2]], [.openSource "p"],
        [.floats #[⟨0⟩], .floats #[⟨1⟩, ⟨2⟩]], [.accessor 3], [.closeSource],
        [.openPrimitive .polylist none], [.input ⟨.position, "#p", 0, 0⟩],
        [.input ⟨.normal, "#n", 1, 0⟩], [.openCounts],
        [.counts [3], .counts [4]], [.closeCounts], [.openRun .polygon],
        [.indices .polygon [0], .indices .polygon [], .indices .polygon [5, 0, 6],
          .indices .polygon [0]],
        [.indices .hole [7], .indices .hole [7]]]
    List.Forall₂ Event.Splits es parts
    ∧ (r.run es).value.1 = .replicate 1 false ++ .replicate 12 true ++ .replicate 1 false
    ∧ (r.run parts.flatten).value
      = (.replicate 3 false ++ .replicate 17 true ++ .replicate 2 false, (r.run es).value.2) := by
  intro r es parts
  have hsplits : List.Forall₂ Event.Splits es parts :=
    .cons (.pieces .ints [[1], [], [2]] (by simp)) <| .cons (.whole _) <|
    .cons (.pieces .floats [[⟨0⟩], [⟨1⟩, ⟨2⟩]] (by simp)) <| .cons (.whole _) <|
    .cons (.whole _) <| .cons (.whole _) <| .cons (.whole _) <| .cons (.whole _) <|
    .cons (.whole _) <| .cons (.pieces .counts [[3], [4]] (by simp)) <| .cons (.whole _) <|
    .cons (.whole _) <|
    .cons (.pieces (.indices .polygon) [[0], [], [5, 0, 6], [0]] (by simp)) <|
    .cons (.pieces (.indices .hole) [[7], [7]] (by simp)) .nil
  have hanswers : (r.run es).value.1
      = .replicate 1 false ++ .replicate 12 true ++ .replicate 1 false := by decide +kernel
  refine ⟨hsplits, hanswers, ?_⟩
  rw [Reader.run_of_splits r hsplits, hanswers]
  rfl

end MeshWeave
