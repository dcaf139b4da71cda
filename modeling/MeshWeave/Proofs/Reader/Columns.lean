import MeshWeave.Proofs.Reader.Interleaving

set_option autoImplicit false

/-! # Index arrays as columns of tuples

All index arrays of a primitive under construction come from one list of tuples: each array is
the column that its lane reads off the tuples. `Layout.fill` makes the arrays from the tuples, and
every operation of a reader on the arrays is an operation on the tuples. Reading a tuple appends
one, keeping a number of indices keeps as many tuples, and going back to earlier lengths drops the
tuples read since.

A primitive that is filled this way has parallel arrays, whatever the operations were, because
they never act on one array alone. -/

namespace MeshWeave

/-- The indices that a lane reads, if there is one. -/
def Layout.column (lane : Option Lane) (ts : List (Array Nat)) : Array UInt32 :=
  match lane with
  | some l => (ts.map l.read).toArray
  | none => #[]

/-- The channel with the indices that its lane reads. -/
def ChannelLane.fill (c : ChannelLane) (ts : List (Array Nat)) : Channel :=
  { c.channel with indices := (ts.map c.lane.read).toArray }

namespace Layout

/-- The primitive with the index arrays that the layout reads off tuples. -/
def fill (l : Layout) (ts : List (Array Nat)) (p : Primitive) : Primitive :=
  { p with
    positions := column l.position ts
    normals := column l.normal ts
    texCoords := l.texCoords.map (·.fill ts)
    colors := l.colors.map (·.fill ts) }

/-- Tuples read one after the other. -/
def pushTuples (l : Layout) (ts : List (Array Nat)) (p : Primitive) : Primitive :=
  ts.foldl (fun p t => l.pushTuple t p) p

/-- The channels of the layout hold no indices of their own. -/
def IsBlank (l : Layout) : Prop :=
  (∀ c ∈ l.texCoords, c.channel.indices = #[]) ∧ ∀ c ∈ l.colors, c.channel.indices = #[]

/-! ## Reading tuples -/

theorem pushLane_column (lane : Option Lane) (t : Array Nat) (ts : List (Array Nat)) :
    pushLane lane t (column lane ts) = column lane (ts ++ [t]) := by
  cases lane <;> simp [pushLane, column]

theorem pushChannels_fill (lanes : List ChannelLane) (t : Array Nat) (ts : List (Array Nat)) :
    pushChannels lanes t (lanes.map (·.fill ts)) = lanes.map (·.fill (ts ++ [t])) := by
  induction lanes with
  | nil => rfl
  | cons c cs ih =>
      simp only [pushChannels, List.map_cons, List.zipWith_cons_cons] at ih ⊢
      rw [ih]
      simp [ChannelLane.fill, Channel.push]

/-- One more tuple is one more index in each array. -/
theorem pushTuple_fill (l : Layout) (t : Array Nat) (ts : List (Array Nat)) (p : Primitive) :
    l.pushTuple t (l.fill ts p) = l.fill (ts ++ [t]) p := by
  simp only [pushTuple, fill, pushLane_column, pushChannels_fill]

theorem pushTuples_fill (l : Layout) (us ts : List (Array Nat)) (p : Primitive) :
    l.pushTuples us (l.fill ts p) = l.fill (ts ++ us) p := by
  induction us generalizing ts with
  | nil => simp [pushTuples]
  | cons u us ih =>
      have hrest := ih (ts ++ [u])
      simp only [pushTuples, List.foldl_cons, pushTuple_fill] at hrest ⊢
      rw [hrest, List.append_assoc, List.singleton_append]

theorem pushTuples_append (l : Layout) (us vs : List (Array Nat)) (p : Primitive) :
    l.pushTuples (us ++ vs) p = l.pushTuples vs (l.pushTuples us p) := by
  rw [pushTuples, List.foldl_append]
  rfl

/-- A reader pushes the tuples that its values complete, and counts them. -/
theorem readValues_eq (l : Layout) (values : List Nat) (p : Primitive) (run : Run) :
    l.readValues values (p, run)
      = (l.pushTuples (cutTuples l.width run.pending values).1 p,
        { run with
          pending := (cutTuples l.width run.pending values).2
          tuples := run.tuples + (cutTuples l.width run.pending values).1.length }) := by
  induction values generalizing p run with
  | nil => rfl
  | cons v vs ih =>
      rw [readValues, List.foldl_cons, ← readValues, readValue, cutTuples]
      split
      · rw [ih]
        simp only [pushTuples, List.foldl_cons, List.length_cons, Nat.add_assoc, Nat.add_comm 1]
      · rw [ih]

/-! ## Cutting back -/

theorem take_column (lane : Option Lane) (ts : List (Array Nat)) (n : Nat) :
    (column lane ts).take n = column lane (ts.take n) := by
  cases lane <;> simp [column]

theorem size_column (lane : Option Lane) (ts : List (Array Nat)) :
    (column lane ts).size = if lane.isSome then ts.length else 0 := by
  cases lane <;> simp [column]

theorem take_fill (l : Layout) (ts : List (Array Nat)) (p : Primitive) (n : Nat) :
    (l.fill ts p).take n = l.fill (ts.take n) p := by
  simp [Primitive.take, fill, take_column, Channel.take, ChannelLane.fill]

theorem takeEach_fill (lanes : List ChannelLane) (ts us : List (Array Nat)) :
    Channel.takeEach 0 (lanes.map (·.fill (ts ++ us)))
        ((lanes.map (·.fill ts)).map (·.indices.size))
      = lanes.map (·.fill ts) := by
  induction lanes with
  | nil => rfl
  | cons c cs ih =>
      simp only [List.map_cons, Channel.takeEach, ih]
      simp [Channel.take, ChannelLane.fill]

/-- Going back to the lengths before some tuples were read drops those tuples. -/
theorem restore_fill (l : Layout) (ts us : List (Array Nat)) (p q : Primitive) :
    (l.fill (ts ++ us) p).restore (l.fill ts q).lengths = l.fill ts p := by
  have hcolumn (lane : Option Lane) :
      (column lane (ts ++ us)).take ((column lane ts).size + 0) = column lane ts := by
    rw [take_column, size_column]
    cases lane <;> simp [column]
  simp only [Primitive.restore, Primitive.takeAfter, Primitive.lengths, fill, hcolumn,
    takeEach_fill]

/-- A primitive that holds no indices yet is filled from no tuples. -/
theorem prepare_eq_fill (l : Layout) (hl : l.IsBlank) (p : Primitive)
    (hp : p.positions = #[]) (hn : p.normals = #[]) : l.prepare p = l.fill [] p := by
  have hchannels (cs : List ChannelLane) (h : ∀ c ∈ cs, c.channel.indices = #[]) :
      cs.map (·.channel) = cs.map (·.fill []) := by
    apply List.map_congr_left
    intro c hc
    rw [ChannelLane.fill, List.map_nil, ← h c hc]
  have hcolumn (lane : Option Lane) : column lane [] = #[] := by
    cases lane <;> rfl
  simp only [prepare, fill, hchannels _ hl.1, hchannels _ hl.2, hcolumn, hp, hn]

/-! ## What filling leaves alone -/

@[simp] theorem fill_fill (l : Layout) (ts us : List (Array Nat)) (p : Primitive) :
    l.fill ts (l.fill us p) = l.fill ts p := rfl

@[simp] theorem pushCount_fill (l : Layout) (ts : List (Array Nat)) (p : Primitive) (n : Int) :
    (l.fill ts p).pushCount n = l.fill ts (p.pushCount n) := rfl

@[simp] theorem pushHole_fill (l : Layout) (ts : List (Array Nat)) (p : Primitive)
    (face : UInt32) (n : Nat) :
    (l.fill ts p).pushHole face n = l.fill ts (p.pushHole face n) := rfl

end Layout

end MeshWeave
