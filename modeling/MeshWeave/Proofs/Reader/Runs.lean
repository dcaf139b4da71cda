import MeshWeave.Proofs.Reader.Columns

set_option autoImplicit false

/-! # What a run does to a primitive

`Assembly.takeRun` is what a whole run does to a primitive under construction, as a function of the
tuples of the run. While the run is open the primitive stands at `Assembly.during`, with the tuples
read so far and the values of the incomplete one. Opening, reading and closing a run move from one
to the other.

`Assembly.Gathers` is the invariant of all this: the index arrays of a primitive under construction
are columns of the tuples of the runs that counted so far. Runs that do not count are short strips
and fans, and holes behind no polygon. A finished primitive holds the tuples up to its cut. -/

namespace MeshWeave

/-- Whether a run of some polygon vertices counts. Strips and fans need three of them. -/
def Element.counts (e : Element) (vertices : Nat) : Bool :=
  !e.grouping.isStripOrFan || decide (3 ≤ vertices)

namespace Element

theorem counts_of_plain {e : Element} (h : e.grouping.isStripOrFan = false) (vertices : Nat) :
    e.counts vertices = true := by
  rw [counts, h]
  rfl

theorem counts_of_long (e : Element) {vertices : Nat} (h : ¬ vertices < 3) :
    e.counts vertices = true := by
  simp only [counts, Bool.or_eq_true, decide_eq_true_eq]
  omega

theorem counts_of_short {e : Element} (hstrip : e.grouping.isStripOrFan = true) {vertices : Nat}
    (h : vertices < 3) : e.counts vertices = false := by
  simp only [counts, hstrip, Bool.not_true, Bool.false_or, decide_eq_false_iff_not]
  omega

end Element

theorem Layout.material_pushTuples (l : Layout) (us : List (Array Nat)) (p : Primitive) :
    (l.pushTuples us p).material = p.material := by
  induction us generalizing p with
  | nil => rfl
  | cons u us ih => exact ih (l.pushTuple u p)

namespace Assembly

/-- The primitive under construction inside a run that has read some tuples. -/
def during (a : Assembly) (kind : RunKind) (us : List (Array Nat)) (pending : Array Nat) :
    Assembly :=
  { a with
    primitive := a.layout.pushTuples us a.primitive
    run := some ⟨kind, a.primitive.lengths, pending, us.length⟩ }

/-- The primitive under construction after a run of tuples. -/
def takeRun (a : Assembly) (kind : RunKind) (us : List (Array Nat)) : Assembly :=
  ((a.during kind us #[]).closeRun "" ⟨kind, a.primitive.lengths, #[], us.length⟩).value

/-! ## Open runs -/

theorem openRun_eq (a : Assembly) (kind : RunKind) : a.openRun kind = a.during kind [] #[] := rfl

/-- Reading values adds the tuples that they complete. -/
theorem readValues_during (a : Assembly) (kind : RunKind) (us : List (Array Nat))
    (pending : Array Nat) (values : List Nat) :
    (a.during kind us pending).readValues ⟨kind, a.primitive.lengths, pending, us.length⟩ values
      = a.during kind (us ++ (cutTuples a.layout.width pending values).1)
          (cutTuples a.layout.width pending values).2 := by
  simp only [readValues, during, Layout.readValues_eq, Layout.pushTuples_append,
    List.length_append]

/-- The values of an incomplete tuple do not matter, and the name of the mesh only for notices. -/
theorem closeRun_during (a : Assembly) (mesh : String) (kind : RunKind) (us : List (Array Nat))
    (pending : Array Nat) :
    ((a.during kind us pending).closeRun mesh
        ⟨kind, a.primitive.lengths, pending, us.length⟩).value = a.takeRun kind us := by
  rw [takeRun, during, during]
  cases kind with
  | polygon =>
      cases a.element <;> simp [closeRun, addPolygonRun] <;> split <;> rfl
  | hole =>
      simp only [closeRun, addHoleRun, Noted.value_bind]
      split
      · split <;> rfl
      · rfl

/-! ## Whole runs -/

/-- The primitive under construction after a strip or fan. -/
def takeGroup (a : Assembly) (us : List (Array Nat)) : Assembly :=
  let p := a.layout.pushTuples us a.primitive
  if us.length < 3 then { a with primitive := p.restore a.primitive.lengths, run := none }
  else
    { a with
      primitive := p.pushCount (vertexCountEntry us.length)
      run := none
      faces := a.faces + (us.length - 2) }

/-- What a run of polygon vertices does, by element. -/
theorem takeRun_polygon (a : Assembly) (us : List (Array Nat)) :
    a.takeRun .polygon us =
      let p := a.layout.pushTuples us a.primitive
      match a.element with
      | .triangles | .polylist =>
          { a with primitive := p, run := none, supplied := a.supplied + us.length }
      | .polygons =>
          if us = [] then { a with run := none, stage := a.stage.afterPolygon none }
          else
            { a with
              primitive := p.pushCount (vertexCountEntry us.length)
              run := none
              stage := a.stage.afterPolygon (some (Index.face a.faces))
              faces := a.faces + 1 }
      | .tristrips | .trifans => a.takeGroup us := by
  rw [takeRun, during]
  cases he : a.element with
  | triangles => rfl
  | polylist => rfl
  | polygons =>
      simp only [closeRun, addPolygonRun, Noted.value_bind, beq_iff_eq, List.length_eq_zero_iff]
      split
      · next hnil => simp [hnil, Layout.pushTuples]
      · rfl
  | tristrips =>
      simp only [closeRun, addPolygonRun, Noted.value_bind, takeGroup, he]
      split <;> rfl
  | trifans =>
      simp only [closeRun, addPolygonRun, Noted.value_bind, takeGroup, he]
      split <;> rfl

/-- A run of hole vertices behind the polygon that has the hole. -/
theorem takeRun_hole (a : Assembly) (us : List (Array Nat)) {face : UInt32}
    (hstage : a.stage = .holed (some face)) :
    a.takeRun .hole us =
      if us = [] then { a with run := none }
      else
        { a with
          primitive := (a.layout.pushTuples us a.primitive).pushHole face us.length
          run := none } := by
  rw [takeRun, during]
  simp only [closeRun, addHoleRun, hstage, Noted.value_bind, beq_iff_eq, List.length_eq_zero_iff]
  split
  · next hnil => simp [hnil, Layout.pushTuples]
  · rfl

/-- A run of hole vertices that reads nothing. -/
theorem takeRun_hole_nil (a : Assembly) : a.takeRun .hole [] = { a with run := none } := by
  rw [takeRun, during]
  simp only [closeRun, addHoleRun, Noted.value_bind]
  split <;> rfl

/-! ## What runs leave alone -/

/-- What runs leave alone, and that none is open behind them. -/
structure Follows (a b : Assembly) : Prop where
  element_eq : b.element = a.element
  layout_eq : b.layout = a.layout
  inputs_eq : b.inputs = a.inputs
  expected_eq : b.expected = a.expected
  material_eq : b.primitive.material = a.primitive.material
  run_eq : b.run = none
  isHoled_eq : b.stage.isHoled = a.stage.isHoled
  stage_eq : a.stage.isHoled = false → b.stage = a.stage

theorem Follows.refl {a : Assembly} (hrun : a.run = none) : a.Follows a :=
  ⟨rfl, rfl, rfl, rfl, rfl, hrun, rfl, fun _ => rfl⟩

theorem Follows.trans {a b c : Assembly} (h : a.Follows b) (h' : b.Follows c) : a.Follows c where
  element_eq := h'.element_eq.trans h.element_eq
  layout_eq := h'.layout_eq.trans h.layout_eq
  inputs_eq := h'.inputs_eq.trans h.inputs_eq
  expected_eq := h'.expected_eq.trans h.expected_eq
  material_eq := h'.material_eq.trans h.material_eq
  run_eq := h'.run_eq
  isHoled_eq := h'.isHoled_eq.trans h.isHoled_eq
  stage_eq := fun hs => (h'.stage_eq (h.isHoled_eq.trans hs)).trans (h.stage_eq hs)

/-- Runs between polygons with holes lead nowhere else. -/
theorem Follows.indexing {a b : Assembly} (h : a.Follows b) (hstage : a.stage = .indexing) :
    b.stage = .indexing := by
  rw [← hstage]
  exact h.stage_eq (by rw [hstage]; rfl)

/-- A stage without holes comes from itself only. -/
theorem Follows.stage_ne {a b : Assembly} (h : a.Follows b) {s : Stage} (hs : s.isHoled = false)
    (ha : a.stage ≠ s) : b.stage ≠ s := by
  intro hb
  have hholed : a.stage.isHoled = false := by rw [← h.isHoled_eq, hb, hs]
  exact ha ((h.stage_eq hholed).symm.trans hb)

/-- Closing a run leaves alone what runs leave alone. -/
theorem follows_closeRun (a : Assembly) (mesh : String) (run : Run) :
    a.Follows (a.closeRun mesh run).value := by
  have hholed (face : Option UInt32) : (a.stage.afterPolygon face).isHoled = a.stage.isHoled := by
    cases a.stage <;> rfl
  have hstage (face : Option UInt32) (hs : a.stage.isHoled = false) :
      a.stage.afterPolygon face = a.stage := by
    cases h : a.stage <;> simp_all [Stage.isHoled, Stage.afterPolygon]
  rw [closeRun, Noted.value_bind]
  dsimp only
  split
  · rw [addPolygonRun]
    split
    · exact ⟨rfl, rfl, rfl, rfl, rfl, rfl, rfl, fun _ => rfl⟩
    · exact ⟨rfl, rfl, rfl, rfl, rfl, rfl, rfl, fun _ => rfl⟩
    · split <;> exact ⟨rfl, rfl, rfl, rfl, rfl, rfl, hholed _, hstage _⟩
    · split <;> exact ⟨rfl, rfl, rfl, rfl, rfl, rfl, rfl, fun _ => rfl⟩
    · split <;> exact ⟨rfl, rfl, rfl, rfl, rfl, rfl, rfl, fun _ => rfl⟩
  · rw [addHoleRun]
    split
    · split <;> exact ⟨rfl, rfl, rfl, rfl, rfl, rfl, rfl, fun _ => rfl⟩
    · exact ⟨rfl, rfl, rfl, rfl, rfl, rfl, rfl, fun _ => rfl⟩

theorem follows_takeRun (a : Assembly) (kind : RunKind) (us : List (Array Nat)) :
    a.Follows (a.takeRun kind us) := by
  have hf := (a.during kind us #[]).follows_closeRun "" ⟨kind, a.primitive.lengths, #[], us.length⟩
  exact ⟨hf.element_eq, hf.layout_eq, hf.inputs_eq, hf.expected_eq,
    hf.material_eq.trans (a.layout.material_pushTuples us a.primitive), hf.run_eq, hf.isHoled_eq,
    hf.stage_eq⟩

/-! ## Primitives that gather tuples -/

/-- The index arrays are columns of tuples, and the face vertices are counted where the primitive
    is cut by their number. -/
structure Gathers (a : Assembly) (ts : List (Array Nat)) : Prop where
  holds : a.layout.fill ts a.primitive = a.primitive
  supplied_eq : a.element = .triangles ∨ a.element = .polylist → a.supplied = ts.length

theorem Gathers.pushTuples {a : Assembly} {ts : List (Array Nat)} (h : a.Gathers ts)
    (us : List (Array Nat)) :
    a.layout.pushTuples us a.primitive = a.layout.fill (ts ++ us) a.primitive := by
  rw [← h.holds, Layout.pushTuples_fill, Layout.fill_fill]

/-- A run that turns out too short leaves no trace in the index arrays. -/
theorem Gathers.restore {a : Assembly} {ts : List (Array Nat)} (h : a.Gathers ts)
    (us : List (Array Nat)) :
    (a.layout.pushTuples us a.primitive).restore a.primitive.lengths = a.primitive := by
  have hback := Layout.restore_fill a.layout ts us a.primitive a.primitive
  rwa [h.holds, ← h.pushTuples us] at hback

theorem Gathers.fill_pushTuples {a : Assembly} {ts : List (Array Nat)} (h : a.Gathers ts)
    (us : List (Array Nat)) :
    a.layout.fill (ts ++ us) (a.layout.pushTuples us a.primitive)
      = a.layout.pushTuples us a.primitive := by
  rw [h.pushTuples, Layout.fill_fill]

theorem Gathers.fill_pushCount {a : Assembly} {ts : List (Array Nat)} (h : a.Gathers ts)
    (us : List (Array Nat)) (n : Int) :
    a.layout.fill (ts ++ us) ((a.layout.pushTuples us a.primitive).pushCount n)
      = (a.layout.pushTuples us a.primitive).pushCount n := by
  rw [← Layout.pushCount_fill, h.fill_pushTuples]

/-- A strip or fan adds its tuples unless it is too short. -/
theorem gathers_takeGroup {a : Assembly} {ts : List (Array Nat)} (h : a.Gathers ts)
    (us : List (Array Nat)) (hstrip : a.element.grouping.isStripOrFan = true) :
    (a.takeGroup us).Gathers (ts ++ if a.element.counts us.length then us else []) := by
  have hno : ¬ (a.element = .triangles ∨ a.element = .polylist) := by
    rintro (he | he) <;> simp [he, Element.grouping, Grouping.isStripOrFan] at hstrip
  unfold takeGroup
  by_cases hlen : us.length < 3
  · -- The tuples were pushed and are dropped again.
    dsimp only
    rw [if_pos hlen, h.restore, Element.counts_of_short hstrip hlen, if_neg (by simp),
      List.append_nil]
    exact ⟨h.holds, h.supplied_eq⟩
  · dsimp only
    rw [if_neg hlen, if_pos (a.element.counts_of_long hlen)]
    exact ⟨h.fill_pushCount us _, fun he => absurd he hno⟩

/-- A run of polygon vertices adds its tuples if it counts. -/
theorem gathers_takeRun_polygon {a : Assembly} {ts : List (Array Nat)} (h : a.Gathers ts)
    (us : List (Array Nat)) :
    (a.takeRun .polygon us).Gathers (ts ++ if a.element.counts us.length then us else []) := by
  rw [takeRun_polygon]
  dsimp only
  split
  · next he =>
      rw [if_pos (Element.counts_of_plain (by rw [he]; rfl) _)]
      exact ⟨h.fill_pushTuples us, fun _ => by simp [h.supplied_eq (Or.inl he)]⟩
  · next he =>
      rw [if_pos (Element.counts_of_plain (by rw [he]; rfl) _)]
      exact ⟨h.fill_pushTuples us, fun _ => by simp [h.supplied_eq (Or.inr he)]⟩
  · next he =>
      rw [if_pos (Element.counts_of_plain (by rw [he]; rfl) _)]
      split
      · next hnil =>
          rw [hnil, List.append_nil]
          exact ⟨h.holds, h.supplied_eq⟩
      · exact ⟨h.fill_pushCount us _, by simp [he]⟩
  · next he => exact gathers_takeGroup h us (by rw [he]; rfl)
  · next he => exact gathers_takeGroup h us (by rw [he]; rfl)

/-- A run of hole vertices adds its tuples. -/
theorem gathers_takeRun_hole {a : Assembly} {ts : List (Array Nat)} (h : a.Gathers ts)
    (us : List (Array Nat)) {face : UInt32} (hstage : a.stage = .holed (some face))
    (helement : a.element = .polygons) : (a.takeRun .hole us).Gathers (ts ++ us) := by
  rw [takeRun_hole a us hstage]
  split
  · next hnil =>
      rw [hnil, List.append_nil]
      exact ⟨h.holds, h.supplied_eq⟩
  · exact ⟨by rw [← Layout.pushHole_fill, h.fill_pushTuples], by simp [helement]⟩

/-! ## Finished primitives -/

/-- The primitive that a finished element is kept as, if it has faces. -/
def finished (a : Assembly) : Option Primitive := (a.finish "").value

/-- The name of the mesh matters only for notices. -/
theorem finish_value (a : Assembly) (mesh : String) :
    (a.finish mesh).value = a.finished := by
  have hkeep (p : Primitive) (faces : Nat) :
      (a.keep mesh p faces).value = (a.keep "" p faces).value := by
    simp only [keep]
    split <;> rfl
  rw [finished, finish, finish]
  cases a.element with
  | triangles => exact hkeep _ _
  | polylist =>
      dsimp only
      split
      · exact hkeep _ _
      · exact hkeep _ _
  | polygons => exact hkeep _ _
  | tristrips => exact hkeep _ _
  | trifans => exact hkeep _ _

/-- A primitive is kept if it has faces. -/
theorem eq_of_keep {a : Assembly} {mesh : String} {q p : Primitive} {faces : Nat}
    (h : (a.keep mesh q faces).value = some p) : p = { q with faces } := by
  rw [keep] at h
  split at h
  · exact absurd h (by simp)
  · exact (Option.some.inj h).symm

/-- The number of face vertices that a finished primitive keeps of those supplied. -/
def keeps (a : Assembly) (supplied : Nat) : Nat :=
  match a.element with
  | .triangles => supplied / 3 * 3
  | .polylist => a.expected
  | _ => supplied

/-- A primitive that is kept holds the tuples up to its cut. -/
theorem fill_of_finished {a : Assembly} {ts : List (Array Nat)} (h : a.Gathers ts)
    {p : Primitive} (hp : a.finished = some p) :
    a.layout.fill (ts.take (a.keeps ts.length)) p = p := by
  have hkeep (q : Primitive) (n faces : Nat) (hq : a.layout.fill (ts.take n) q = q)
      (hp : (a.keep "" q faces).value = some p) : a.layout.fill (ts.take n) p = p := by
    rw [eq_of_keep hp]
    exact congrArg (fun q : Primitive => { q with faces }) hq
  have hcut (n : Nat) : a.layout.fill (ts.take n) (a.primitive.take n) = a.primitive.take n := by
    rw [← h.holds, Layout.take_fill, Layout.fill_fill]
  have hall : a.layout.fill (ts.take ts.length) a.primitive = a.primitive := by
    rw [List.take_length, h.holds]
  have hgroups := congrArg (fun q : Primitive => { q with groups := a.primitive.counts.size }) hall
  rw [finished, finish] at hp
  cases he : a.element with
  | triangles =>
      rw [he] at hp
      rw [keeps, he, ← h.supplied_eq (Or.inl he)]
      exact hkeep _ _ _ (hcut _) hp
  | polylist =>
      rw [he] at hp
      rw [keeps, he]
      dsimp only at hp
      split at hp
      · exact hkeep _ _ _ (hcut _) hp
      · exact absurd hp (by simp [keep])
  | polygons =>
      rw [he] at hp
      rw [keeps, he]
      exact hkeep _ _ _ hall hp
  | tristrips =>
      rw [he] at hp
      rw [keeps, he]
      exact hkeep _ _ _ hgroups hp
  | trifans =>
      rw [he] at hp
      rw [keeps, he]
      exact hkeep _ _ _ hgroups hp

end Assembly

end MeshWeave
