import MeshWeave.Primitive.Lengths
import MeshWeave.Proofs.Reader.Spreading
import MeshWeave.Reader.Assembly

set_option autoImplicit false

/-! # Streams of indices

A stream walks over the values of an index element with a counter for the place in the tuple, and
writes each value to the index arrays at once. What does not belong to a complete tuple is taken
back when the element ends. `Stream.Holds` compares the primitive that a stream writes with the one
that a reader fills tuple by tuple, at any time: the arrays of the first are those of the second,
with the values of the incomplete tuple behind them, and channels are missing as long as no value
for them was read. `Stream.Rests` and `Stream.Runs` say the same between runs and inside of one,
where the stream and the reader also know how far each may have to go back. -/

namespace MeshWeave

/-- The lanes of a stream, and where it stands. Channel inputs are in order of declaration. -/
structure Stream where
  position : Option Lane
  normal : Option Lane
  texCoords : List ChannelInput
  colors : List ChannelInput
  maxOffset : Nat
  /-- The place in the tuple where the next value goes. -/
  offset : Nat
  /-- The number of complete tuples of the last run. -/
  tuples : Nat
  deriving DecidableEq, Repr, Inhabited

namespace Stream

/-- A stream without lanes. -/
def unused : Stream :=
  { position := none, normal := none, texCoords := [], colors := [], maxOffset := 0, offset := 0,
    tuples := 0 }

/-- The stream for inputs whose sources are as in a table. -/
def ofInputs (t : SourceTable) (is : InputList) : Stream :=
  { unused with
    position := (t.used .position is.inputs).head?.map fun u => .ofInput u.1 u.2
    normal := (t.used .normal is.inputs).head?.map fun u => .ofInput u.1 u.2
    texCoords := (t.used .texCoord is.inputs).map fun u => ⟨.ofInput u.1 u.2, none⟩
    colors := (t.used .color is.inputs).map fun u => ⟨.ofInput u.1 u.2, none⟩
    maxOffset := is.maxOffset }

/-- Append an index of a lane at its offset. -/
def pushLane (lane : Option Lane) (k v : Nat) (indices : Array UInt32) : Array UInt32 :=
  match lane.filter (·.offset == k) with
  | some l => indices.push (l.index v)
  | none => indices

/-- Write one value. -/
def readValue : Stream × Primitive → Nat → Stream × Primitive
  | (st, p), v =>
    let texCoords := ChannelInput.pushAt st.offset v st.texCoords p.texCoords
    let colors := ChannelInput.pushAt st.offset v st.colors p.colors
    let p := { p with
      positions := pushLane st.position st.offset v p.positions
      normals := pushLane st.normal st.offset v p.normals
      texCoords := texCoords.2
      colors := colors.2 }
    let st := { st with texCoords := texCoords.1, colors := colors.1 }
    if st.maxOffset ≤ st.offset then ({ st with offset := 0, tuples := st.tuples + 1 }, p)
    else ({ st with offset := st.offset + 1 }, p)

/-- Write values. -/
def readValues (values : List Nat) (state : Stream × Primitive) : Stream × Primitive :=
  values.foldl readValue state

/-- Begin with the values of an index element. -/
def begin (st : Stream) : Stream := { st with offset := 0, tuples := 0 }

/-- The end of an index element takes an incomplete tuple back. -/
def finish (st : Stream) (start : Lengths) (p : Primitive) : Primitive :=
  if st.offset = 0 then p else p.takeAfter start st.tuples

theorem counts_readValues (values : List Nat) (state : Stream × Primitive) :
    (readValues values state).2.counts = state.2.counts := by
  induction values generalizing state with
  | nil => rfl
  | cons v vs ih =>
      obtain ⟨st, p⟩ := state
      rw [readValues, List.foldl_cons, ← readValues, ih]
      unfold readValue
      dsimp only
      split <;> rfl

theorem counts_finish (st : Stream) (start : Lengths) (p : Primitive) :
    (st.finish start p).counts = p.counts := by
  unfold finish
  split <;> rfl

end Stream

/-! ## Primitives in the middle of a tuple -/

namespace Layout

/-- A layout whose channels are in order of declaration, with the channels in their final order. -/
def ordered (d : Layout) : Layout :=
  { d with
    texCoords := ChannelLane.byOffset d.width d.texCoords
    colors := ChannelLane.byOffset d.width d.colors }

/-- The indices that a lane reads in the middle of a tuple. -/
def columnTo (lane : Option Lane) (ts : List (Array Nat)) (pending : Array Nat) : Array UInt32 :=
  match lane with
  | some l => (l.readTo ts pending).toArray
  | none => #[]

theorem columnTo_empty (lane : Option Lane) (ts : List (Array Nat)) :
    columnTo lane ts #[] = column lane ts := by
  cases lane <;> rfl

/-- One value more. -/
theorem columnTo_push (lane : Option Lane) (ts : List (Array Nat)) (pending : Array Nat) (v : Nat) :
    columnTo lane ts (pending.push v)
      = Stream.pushLane lane pending.size v (columnTo lane ts pending) := by
  cases lane with
  | none => rfl
  | some l =>
      unfold columnTo Stream.pushLane
      rw [Option.filter_some]
      rcases Nat.lt_trichotomy l.offset pending.size with hlt | heq | hgt
      · rw [if_neg (by simpa using Nat.ne_of_lt hlt)]
        dsimp only
        rw [l.readTo_push_of_lt ts v hlt]
      · rw [if_pos (by simpa using heq)]
        dsimp only
        rw [l.readTo_push_of_eq ts v heq, List.push_toArray]
      · rw [if_neg (by simpa using Nat.ne_of_gt hgt)]
        dsimp only
        rw [l.readTo_push_of_gt ts v hgt]

/-- A complete tuple has reached every offset. -/
theorem columnTo_of_complete {lane : Option Lane} {pending : Array Nat}
    (h : ∀ l, lane = some l → l.offset < pending.size) (ts : List (Array Nat)) :
    columnTo lane ts pending = columnTo lane (ts ++ [pending]) #[] := by
  cases lane with
  | none => rfl
  | some l => rw [columnTo, l.readTo_of_complete ts (h l rfl), columnTo]

/-- Taking back what is not complete. -/
theorem take_columnTo (lane : Option Lane) (ts : List (Array Nat)) (pending : Array Nat) {n : Nat}
    (hn : n ≤ ts.length) : (columnTo lane ts pending).take n = column lane (ts.take n) := by
  cases lane with
  | none => simp [columnTo, column]
  | some l => rw [columnTo, column, List.take_toArray, l.take_readTo ts hn]

/-- The lengths of the index arrays behind a number of tuples, when all offsets below `reach` were
    reached. -/
def lengthsTo (d : Layout) (reach n : Nat) : Lengths :=
  { positions := if d.position.isSome then n else 0
    normals := if d.normal.isSome then n else 0
    texCoords := (ChannelLane.byOffset reach d.texCoords).map fun _ => n
    colors := (ChannelLane.byOffset reach d.colors).map fun _ => n }

/-- The layout of inputs with the channels in order of declaration. -/
def declared (t : SourceTable) (is : InputList) : Layout :=
  { width := is.width
    position := (t.used .position is.inputs).head?.map fun u => .ofInput u.1 u.2
    normal := (t.used .normal is.inputs).head?.map fun u => .ofInput u.1 u.2
    texCoords := (t.used .texCoord is.inputs).map fun u => .ofInput u.1 u.2
    colors := (t.used .color is.inputs).map fun u => .ofInput u.1 u.2 }

theorem ordered_declared (t : SourceTable) (is : InputList) :
    (declared t is).ordered = ofInputs t is.width is.inputs := rfl

/-- The lanes of a layout read places of the tuple, and its channels are empty. -/
structure IsDeclared (d : Layout) : Prop where
  position_lt : ∀ l, d.position = some l → l.offset < d.width
  normal_lt : ∀ l, d.normal = some l → l.offset < d.width
  blank : d.IsBlank

theorem isDeclared_unused : (unused 1).IsDeclared where
  position_lt l hl := absurd hl (by simp [unused])
  normal_lt l hl := absurd hl (by simp [unused])
  blank := by simp [unused, IsBlank]

theorem isDeclared_declared (t : SourceTable) (is : InputList) : (declared t is).IsDeclared := by
  have hfirst (k : DataKind) (l : Lane)
      (hl : ((t.used k is.inputs).head?.map fun u => Lane.ofInput u.1 u.2) = some l) :
      l.offset < is.width := by
    obtain ⟨u, hu, rfl⟩ := Option.map_eq_some_iff.mp hl
    obtain ⟨i, hi, huse⟩ := List.mem_filterMap.mp (List.mem_of_mem_head? hu)
    obtain ⟨s, -, rfl⟩ := Option.map_eq_some_iff.mp huse
    exact is.offset_lt_width i hi
  have hblank (k : DataKind) :
      ∀ c ∈ (t.used k is.inputs).map fun u => ChannelLane.ofInput u.1 u.2,
        c.channel.indices = #[] := by
    intro c hc
    obtain ⟨u, -, rfl⟩ := List.mem_map.mp hc
    rfl
  exact ⟨hfirst .position, hfirst .normal, hblank .texCoord, hblank .color⟩

end Layout

/-- A primitive without its index arrays. -/
def Primitive.bare (p : Primitive) : Primitive :=
  { p with positions := #[], normals := #[], texCoords := [], colors := [] }

theorem Primitive.eq_of_bare {p q : Primitive} (hbare : p.bare = q.bare)
    (hpositions : p.positions = q.positions) (hnormals : p.normals = q.normals)
    (htexCoords : p.texCoords = q.texCoords) (hcolors : p.colors = q.colors) : p = q := by
  cases p
  cases q
  simp_all [bare]

namespace Stream

/-- A stream has the lanes of a layout, and wrote the tuples `ts` and the values `pending` behind
    them. All offsets below `reach` were reached at some time. -/
structure Written (d : Layout) (reach : Nat) (ts : List (Array Nat)) (pending : Array Nat)
    (st : Stream) (p : Primitive) : Prop where
  position_eq : st.position = d.position
  normal_eq : st.normal = d.normal
  positions_eq : p.positions = Layout.columnTo d.position ts pending
  normals_eq : p.normals = Layout.columnTo d.normal ts pending
  texCoords : ChannelInput.Spread d.texCoords reach ts pending st.texCoords p.texCoords
  colors : ChannelInput.Spread d.colors reach ts pending st.colors p.colors

/-- A stream wrote `p` where a reader filled `q` from the tuples `ts`, and is inside of the tuple
    `pending`. Every offset was reached if there is a complete tuple. -/
structure Holds (d : Layout) (reach : Nat) (ts : List (Array Nat)) (pending : Array Nat)
    (st : Stream) (p q : Primitive) : Prop extends Written d reach ts pending st p where
  width_eq : d.width = st.maxOffset + 1
  offset_eq : st.offset = pending.size
  offset_lt : pending.size < d.width
  offset_le : pending.size ≤ reach
  reach_le : reach ≤ d.width
  reach_eq : ts ≠ [] → reach = d.width
  bare_eq : p.bare = q.bare
  filled : d.ordered.fill ts q = q

namespace Written

variable {d : Layout} {reach : Nat} {ts : List (Array Nat)} {pending : Array Nat} {st : Stream}
  {p : Primitive}

/-- One value, which goes to the lanes at its offset. -/
theorem push (h : Written d reach ts pending st p) (hd : d.IsDeclared)
    (hle : pending.size ≤ reach) (hfirst : pending.size = reach → ts = []) (v : Nat) :
    Written d (max reach (pending.size + 1)) ts (pending.push v)
      { st with
        texCoords := (ChannelInput.pushAt pending.size v st.texCoords p.texCoords).1
        colors := (ChannelInput.pushAt pending.size v st.colors p.colors).1 }
      { p with
        positions := pushLane st.position pending.size v p.positions
        normals := pushLane st.normal pending.size v p.normals
        texCoords := (ChannelInput.pushAt pending.size v st.texCoords p.texCoords).2
        colors := (ChannelInput.pushAt pending.size v st.colors p.colors).2 } where
  position_eq := h.position_eq
  normal_eq := h.normal_eq
  positions_eq := by rw [Layout.columnTo_push, h.position_eq, h.positions_eq]
  normals_eq := by rw [Layout.columnTo_push, h.normal_eq, h.normals_eq]
  texCoords := h.texCoords.pushAt hd.blank.1 hle hfirst v
  colors := h.colors.pushAt hd.blank.2 hle hfirst v

/-- The last value of a tuple completes it. -/
theorem complete (h : Written d d.width ts pending st p) (hd : d.IsDeclared)
    (hsize : pending.size = d.width) : Written d d.width (ts ++ [pending]) #[] st p where
  position_eq := h.position_eq
  normal_eq := h.normal_eq
  positions_eq := by
    rw [h.positions_eq, Layout.columnTo_of_complete (by rw [hsize]; exact hd.position_lt)]
  normals_eq := by
    rw [h.normals_eq, Layout.columnTo_of_complete (by rw [hsize]; exact hd.normal_lt)]
  texCoords := h.texCoords.complete (Nat.le_of_eq hsize.symm)
  colors := h.colors.complete (Nat.le_of_eq hsize.symm)

end Written

namespace Holds

variable {d : Layout} {reach : Nat} {ts : List (Array Nat)} {pending : Array Nat} {st : Stream}
  {p q : Primitive}

/-- A value that does not complete the tuple. -/
theorem inside {v : Nat} {st' : Stream} {p' : Primitive} (h : Holds d reach ts pending st p q)
    (hlast : st.offset < st.maxOffset)
    (hpush : Written d (max reach (pending.size + 1)) ts (pending.push v) st' p')
    (hmax : st'.maxOffset = st.maxOffset) (hoffset : st'.offset = st.offset + 1)
    (hbare : p'.bare = p.bare) :
    Holds d (max reach (pending.size + 1)) ts (pending.push v) st' p' q :=
  have hsize : (pending.push v).size = pending.size + 1 := Array.size_push v
  have hlt : pending.size + 1 < d.width := by
    rw [h.width_eq, ← h.offset_eq]
    omega
  have hreach := h.reach_le
  { hpush with
    width_eq := h.width_eq.trans (congrArg (· + 1) hmax.symm)
    offset_eq := by rw [hoffset, hsize, h.offset_eq]
    offset_lt := hsize ▸ hlt
    offset_le := hsize ▸ Nat.le_max_right _ _
    reach_le := Nat.max_le.mpr ⟨hreach, Nat.le_of_lt hlt⟩
    reach_eq := fun hts => by
      rw [h.reach_eq hts, Nat.max_eq_left (Nat.le_of_lt hlt)]
    bare_eq := hbare.trans h.bare_eq
    filled := h.filled }

/-- The last value of a tuple. -/
theorem last {v : Nat} {st' : Stream} {p' : Primitive} (h : Holds d reach ts pending st p q)
    (hd : d.IsDeclared) (hlast : st.maxOffset ≤ st.offset)
    (hpush : Written d (max reach (pending.size + 1)) ts (pending.push v) st' p')
    (hmax : st'.maxOffset = st.maxOffset) (hoffset : st'.offset = 0) (hbare : p'.bare = p.bare) :
    Holds d d.width (ts ++ [pending.push v]) #[] st' p'
      (d.ordered.pushTuple (pending.push v) q) := by
  have hlt := h.offset_lt
  have hsize : pending.size + 1 = d.width := by
    have hwidth := h.width_eq
    have hplace := h.offset_eq
    omega
  have hfull : (pending.push v).size = d.width := (Array.size_push v).trans hsize
  have htuple := d.ordered.pushTuple_fill (pending.push v) ts q
  rw [h.filled] at htuple
  rw [hsize, Nat.max_eq_right h.reach_le] at hpush
  exact
    { hpush.complete hd hfull with
      width_eq := h.width_eq.trans (congrArg (· + 1) hmax.symm)
      offset_eq := hoffset
      offset_lt := Nat.lt_of_le_of_lt (Nat.zero_le _) hlt
      offset_le := Nat.zero_le _
      reach_le := Nat.le_refl _
      reach_eq := fun _ => rfl
      bare_eq := hbare.trans h.bare_eq
      filled := by
        rw [htuple]
        rfl }

/-- Writing one value, and reading it. -/
theorem readValue (hd : d.IsDeclared) {run : Run} (h : Holds d reach ts run.pending st p q)
    (v : Nat) :
    ∃ reach' us, reach ≤ reach'
      ∧ Holds d reach' (ts ++ us) (d.ordered.readValue (q, run) v).2.pending
          (Stream.readValue (st, p) v).1 (Stream.readValue (st, p) v).2
          (d.ordered.readValue (q, run) v).1
      ∧ (d.ordered.readValue (q, run) v).2.start = run.start
      ∧ (d.ordered.readValue (q, run) v).2.tuples = run.tuples + us.length
      ∧ (Stream.readValue (st, p) v).1.tuples = st.tuples + us.length := by
  have hlt := h.offset_lt
  have hwidth := h.width_eq
  have hoffset := h.offset_eq
  -- An offset that was not reached before stands in the first tuple.
  have hfirst : run.pending.size = reach → ts = [] := by
    intro heq
    by_contra hts
    exact Nat.ne_of_lt (heq ▸ hlt) (h.reach_eq hts)
  have hpush := h.toWritten.push hd h.offset_le hfirst v
  have hsize : (run.pending.push v).size = run.pending.size + 1 := Array.size_push v
  have hordered : d.ordered.width = d.width := rfl
  unfold Stream.readValue Layout.readValue
  dsimp only
  rw [hoffset]
  by_cases hlast : st.maxOffset ≤ run.pending.size
  · rw [if_pos hlast, if_pos (by rw [hordered, beq_iff_eq]; omega)]
    exact ⟨d.width, [run.pending.push v], h.reach_le,
      h.last hd (hoffset ▸ hlast) { hpush with } rfl rfl rfl, rfl, rfl, rfl⟩
  · rw [if_neg hlast, if_neg (by rw [hordered, beq_iff_eq]; omega)]
    refine ⟨max reach (run.pending.size + 1), [], Nat.le_max_left _ _, ?_, rfl, rfl, rfl⟩
    rw [List.append_nil]
    exact h.inside (by omega) { hpush with } rfl (congrArg (· + 1) hoffset.symm) rfl

/-- Writing values, and reading them. -/
theorem readValues (hd : d.IsDeclared) {run : Run} (h : Holds d reach ts run.pending st p q)
    (values : List Nat) :
    ∃ reach' us, reach ≤ reach'
      ∧ Holds d reach' (ts ++ us) (d.ordered.readValues values (q, run)).2.pending
          (Stream.readValues values (st, p)).1 (Stream.readValues values (st, p)).2
          (d.ordered.readValues values (q, run)).1
      ∧ (d.ordered.readValues values (q, run)).2.start = run.start
      ∧ (d.ordered.readValues values (q, run)).2.tuples = run.tuples + us.length
      ∧ (Stream.readValues values (st, p)).1.tuples = st.tuples + us.length := by
  induction values generalizing reach ts st p q run with
  | nil =>
      refine ⟨reach, [], Nat.le_refl _, ?_, rfl, rfl, rfl⟩
      rw [List.append_nil]
      exact h
  | cons v vs ih =>
      obtain ⟨reach', us, hle, hread, hstart, htuples, hcount⟩ := h.readValue hd v
      obtain ⟨reach'', us', hle', hread', hstart', htuples', hcount'⟩ := ih hread
      refine ⟨reach'', us ++ us', Nat.le_trans hle hle', ?_, hstart'.trans hstart, ?_, ?_⟩
      · rw [← List.append_assoc]
        exact hread'
      · rw [List.length_append, ← Nat.add_assoc, ← htuples]
        exact htuples'
      · rw [List.length_append, ← Nat.add_assoc, ← hcount]
        exact hcount'

/-! ## Taking values back -/

/-- Between tuples. -/
theorem begin (h : Holds d reach ts #[] st p q) : Holds d reach ts #[] st.begin p q :=
  { h with offset_eq := rfl }

/-- The lengths of the index arrays between tuples. -/
theorem lengths_eq (h : Holds d reach ts #[] st p q) :
    p.lengths = d.lengthsTo reach ts.length := by
  rw [Primitive.lengths, Layout.lengthsTo, h.positions_eq, h.normals_eq, Layout.columnTo_empty,
    Layout.columnTo_empty, Layout.size_column, Layout.size_column, h.texCoords.sizes_eq,
    h.colors.sizes_eq]

/-- Cutting a column back to earlier lengths. -/
theorem take_columnTo_after (lane : Option Lane) (pending : Array Nat) {n extra : Nat}
    (hle : n + extra ≤ ts.length) :
    (Layout.columnTo lane ts pending).take ((if lane.isSome then n else 0) + extra)
      = Layout.columnTo lane (ts.take (n + extra)) #[] := by
  rw [Layout.columnTo_empty]
  cases lane with
  | none => simp [Layout.columnTo, Layout.column]
  | some l =>
      rw [← Layout.take_columnTo _ _ pending hle]
      rfl

/-- Going back to earlier lengths, or to a number of tuples behind them. -/
theorem takeAfter {before : Nat} (n extra : Nat) {q' : Primitive}
    (h : Holds d reach ts pending st p q)
    (hbefore : before ≤ reach) (hnew : before < reach → n = 0) (hle : n + extra ≤ ts.length)
    (hfilled : d.ordered.fill (ts.take (n + extra)) q = q') :
    Holds d reach (ts.take (n + extra)) #[] { st with offset := 0 }
      (p.takeAfter (d.lengthsTo before n) extra) q' :=
    { position_eq := h.position_eq
      normal_eq := h.normal_eq
      width_eq := h.width_eq
      offset_eq := rfl
      offset_lt := Nat.lt_of_le_of_lt (Nat.zero_le _) h.offset_lt
      offset_le := Nat.zero_le _
      reach_le := h.reach_le
      reach_eq := fun hts => h.reach_eq fun hnil => hts (by rw [hnil, List.take_nil])
      positions_eq := by
        rw [← take_columnTo_after d.position pending hle, ← h.positions_eq]
        rfl
      normals_eq := by
        rw [← take_columnTo_after d.normal pending hle, ← h.normals_eq]
        rfl
      texCoords := h.texCoords.takeEach hbefore hnew hle
      colors := h.colors.takeEach hbefore hnew hle
      bare_eq := by
        rw [← hfilled]
        exact h.bare_eq
      filled := by
        rw [← hfilled]
        rfl }

/-- The end of an index element. -/
theorem finish {us : List (Array Nat)} {before : Nat} (h : Holds d reach (ts ++ us) pending st p q)
    (hcount : st.tuples = us.length) (hbefore : before ≤ reach) (hnew : before < reach → ts = []) :
    Holds d reach (ts ++ us) #[] { st with offset := 0 }
      (st.finish (d.lengthsTo before ts.length) p) q := by
  unfold Stream.finish
  split
  · next hzero =>
      have hpending : pending = #[] := by
        rw [← Array.size_eq_zero_iff, ← h.offset_eq, hzero]
      subst hpending
      exact { h with offset_eq := rfl }
  · have hlength : ts.length + st.tuples = (ts ++ us).length := by rw [hcount, List.length_append]
    have hall : (ts ++ us).take (ts.length + st.tuples) = ts ++ us := by
      rw [hlength, List.take_length]
    have htaken := h.takeAfter ts.length st.tuples hbefore
      (fun hlt => by rw [hnew hlt, List.length_nil]) (Nat.le_of_eq hlength) (by rw [hall, h.filled])
    rwa [hall] at htaken

/-- A run that does not count. -/
theorem restore {us : List (Array Nat)} {before : Nat} (h : Holds d reach (ts ++ us) #[] st p q)
    (hbefore : before ≤ reach) (hnew : before < reach → ts = []) :
    Holds d reach ts #[] st (p.restore (d.lengthsTo before ts.length))
      (q.restore (d.ordered.fill ts q).lengths) := by
  have hback : q.restore (d.ordered.fill ts q).lengths = d.ordered.fill ts q := by
    have hrestore := d.ordered.restore_fill ts us q q
    rwa [h.filled] at hrestore
  have hfirst : (ts ++ us).take (ts.length + 0) = ts := by simp
  have htaken := h.takeAfter ts.length 0 hbefore
    (fun hlt => by rw [hnew hlt, List.length_nil]) (by simp) rfl
  rw [hfirst] at htaken
  rw [hback]
  exact { htaken with offset_eq := h.offset_eq }

/-! ## What does not concern indices -/

theorem pushCount (h : Holds d reach ts pending st p q) (n : Int) :
    Holds d reach ts pending st (p.pushCount n) (q.pushCount n) :=
  { h with
    bare_eq := congrArg (·.pushCount n) h.bare_eq
    filled := by rw [← Layout.pushCount_fill, h.filled] }

theorem pushHole (h : Holds d reach ts pending st p q) (face : UInt32) (n : Nat) :
    Holds d reach ts pending st (p.pushHole face n) (q.pushHole face n) :=
  { h with
    bare_eq := congrArg (·.pushHole face n) h.bare_eq
    filled := by rw [← Layout.pushHole_fill, h.filled] }

/-! ## The beginning and the end of a primitive -/

/-- Without lanes nothing is ever written. -/
theorem of_unused {p : Primitive} (hpositions : p.positions = #[]) (hnormals : p.normals = #[])
    (htexCoords : p.texCoords = []) (hcolors : p.colors = []) :
    Holds (.unused 1) 0 [] #[] Stream.unused p p where
  position_eq := rfl
  normal_eq := rfl
  width_eq := rfl
  offset_eq := rfl
  offset_lt := Nat.one_pos
  offset_le := Nat.le_refl _
  reach_le := Nat.zero_le _
  reach_eq hts := absurd rfl hts
  positions_eq := hpositions
  normals_eq := hnormals
  texCoords := htexCoords ▸ .start []
  colors := hcolors ▸ .start []
  bare_eq := rfl
  filled := by
    cases p
    simp_all [Layout.fill, Layout.ordered, Layout.unused, Layout.column, ChannelLane.byOffset]

/-- The stream of a primitive once its inputs are declared. -/
theorem ofInputs (h : Holds (.unused 1) reach ts pending st p q) (t : SourceTable)
    (is : InputList) :
    Holds (.declared t is) 0 [] #[] (Stream.ofInputs t is) p
      ((Layout.declared t is).ordered.prepare q) := by
  have hnone (lane : Option Lane) : Layout.columnTo lane [] #[] = #[] := by
    cases lane <;> rfl
  have hchannels {cs : List ChannelInput} {channels : List Channel}
      (hspread : ChannelInput.Spread [] reach ts pending cs channels) : channels = [] := by
    rw [hspread.channels_eq]
    simp [ChannelLane.byOffset]
  have hspread (k : DataKind) {channels : List Channel} (hnil : channels = []) :
      ChannelInput.Spread ((t.used k is.inputs).map fun u => .ofInput u.1 u.2) 0 [] #[]
        ((t.used k is.inputs).map fun u => ⟨.ofInput u.1 u.2, none⟩) channels := by
    have hstart := ChannelInput.Spread.start
      ((t.used k is.inputs).map fun u => ChannelLane.ofInput u.1 u.2)
    rw [List.map_map] at hstart
    rw [hnil]
    exact hstart
  have hfilled := h.filled
  exact
    { position_eq := rfl
      normal_eq := rfl
      width_eq := rfl
      offset_eq := rfl
      offset_lt := Nat.succ_pos _
      offset_le := Nat.le_refl _
      reach_le := Nat.zero_le _
      reach_eq := fun hts => absurd rfl hts
      positions_eq := h.positions_eq.trans (hnone _).symm
      normals_eq := h.normals_eq.trans (hnone _).symm
      texCoords := hspread .texCoord (hchannels h.texCoords)
      colors := hspread .color (hchannels h.colors)
      bare_eq := h.bare_eq
      filled := by
        have hblank := Layout.isBlank_ofInputs t is.width is.inputs
        rw [Layout.ordered_declared, Layout.prepare_eq_fill _ hblank q, Layout.fill_fill]
        · rw [← hfilled]
          rfl
        · rw [← hfilled]
          rfl }

/-- Once all offsets were reached, both primitives are the same between tuples. -/
theorem eq_of_full (h : Holds d d.width ts #[] st p q) : p = q := by
  have hfilled := h.filled
  apply Primitive.eq_of_bare h.bare_eq
  · rw [h.positions_eq, Layout.columnTo_empty, ← hfilled]
    rfl
  · rw [h.normals_eq, Layout.columnTo_empty, ← hfilled]
    rfl
  · rw [h.texCoords.channels_eq, ← hfilled]
    rfl
  · rw [h.colors.channels_eq, ← hfilled]
    rfl

end Holds

/-! ## Runs -/

/-- A stream between runs. What was kept has reached every offset. -/
def Rests (st : Stream) (d : Layout) (kept : Prop) (p q : Primitive) : Prop :=
  ∃ reach ts, Holds d reach ts #[] st p q ∧ (kept → reach = d.width)

/-- A stream inside of a run, which a reader has open as well. Each knows the lengths of its index
    arrays at the begin of the run, behind the tuples `ts`; the stream had reached the offsets below
    `before` at that time. -/
structure RunsFrom (st : Stream) (d : Layout) (kept : Prop) (start : Lengths) (run : Run)
    (ts us : List (Array Nat)) (before reach : Nat) (p q : Primitive) : Prop where
  holds : Holds d reach (ts ++ us) run.pending st p q
  before_le : before ≤ reach
  before_eq : ts ≠ [] → before = d.width
  start_eq : start = d.lengthsTo before ts.length
  runStart_eq : run.start = (d.ordered.fill ts q).lengths
  runTuples_eq : run.tuples = us.length
  tuples_eq : st.tuples = us.length
  reach_eq : kept → reach = d.width

/-- A stream inside of a run. -/
def Runs (st : Stream) (d : Layout) (kept : Prop) (start : Lengths) (run : Run) (p q : Primitive) :
    Prop :=
  ∃ ts us before reach, st.RunsFrom d kept start run ts us before reach p q

variable {st : Stream} {d : Layout} {kept : Prop} {start : Lengths} {run : Run} {p q : Primitive}

namespace Rests

/-- An element begins without lanes. -/
theorem of_unused {p : Primitive} (hpositions : p.positions = #[]) (hnormals : p.normals = #[])
    (htexCoords : p.texCoords = []) (hcolors : p.colors = []) (hkept : ¬ kept) :
    Stream.unused.Rests (.unused 1) kept p p :=
  ⟨0, [], .of_unused hpositions hnormals htexCoords hcolors, fun h => absurd h hkept⟩

/-- A run begins. -/
theorem begin (h : st.Rests d kept p q) (kind : RunKind) :
    st.begin.Runs d kept p.lengths ⟨kind, q.lengths, #[], 0⟩ p q := by
  obtain ⟨reach, ts, hholds, hreach⟩ := h
  refine ⟨ts, [], reach, reach, ?_⟩
  exact
    { holds := by
        rw [List.append_nil]
        exact hholds.begin
      before_le := Nat.le_refl _
      before_eq := hholds.reach_eq
      start_eq := hholds.lengths_eq
      runStart_eq := by rw [hholds.filled]
      runTuples_eq := rfl
      tuples_eq := rfl
      reach_eq := hreach }

theorem pushCount (h : st.Rests d kept p q) (n : Int) :
    st.Rests d kept (p.pushCount n) (q.pushCount n) := by
  obtain ⟨reach, ts, hholds, hreach⟩ := h
  exact ⟨reach, ts, hholds.pushCount n, hreach⟩

theorem pushHole (h : st.Rests d kept p q) (face : UInt32) (n : Nat) :
    st.Rests d kept (p.pushHole face n) (q.pushHole face n) := by
  obtain ⟨reach, ts, hholds, hreach⟩ := h
  exact ⟨reach, ts, hholds.pushHole face n, hreach⟩

/-- A stream that is begun without lanes goes on with those of the inputs. -/
theorem ofInputs (h : st.Rests (.unused 1) kept p q) (hkept : ¬ kept) (t : SourceTable)
    (is : InputList) :
    (Stream.ofInputs t is).Rests (.declared t is) kept p
      ((Layout.declared t is).ordered.prepare q) := by
  obtain ⟨reach, ts, hholds, -⟩ := h
  exact ⟨0, [], hholds.ofInputs t is, fun h => absurd h hkept⟩

/-- What is kept is the same on both sides. -/
theorem eq_of_kept (h : st.Rests d kept p q) (hkept : kept) : p = q := by
  obtain ⟨reach, ts, hholds, hreach⟩ := h
  obtain rfl := hreach hkept
  exact hholds.eq_of_full

theorem counts_eq (h : st.Rests d kept p q) : p.counts = q.counts := by
  obtain ⟨reach, ts, hholds, -⟩ := h
  have hcounts : p.bare.counts = q.bare.counts := congrArg Primitive.counts hholds.bare_eq
  exact hcounts

end Rests

/-- Offsets that were not reached before the run have no tuples in front of it. -/
theorem RunsFrom.ts_eq {ts us : List (Array Nat)} {before reach : Nat}
    (h : st.RunsFrom d kept start run ts us before reach p q) (hlt : before < reach) : ts = [] := by
  by_contra hts
  have hbefore := h.before_eq hts
  have hreach := h.holds.reach_le
  omega

namespace Runs

theorem tuples_eq (h : st.Runs d kept start run p q) : run.tuples = st.tuples := by
  obtain ⟨ts, us, before, reach, h⟩ := h
  rw [h.runTuples_eq, h.tuples_eq]

/-- Values of the run. -/
theorem readValues (hd : d.IsDeclared) (h : st.Runs d kept start run p q) (values : List Nat) :
    (Stream.readValues values (st, p)).1.Runs d kept start
      (d.ordered.readValues values (q, run)).2
      (Stream.readValues values (st, p)).2 (d.ordered.readValues values (q, run)).1 := by
  obtain ⟨ts, us, before, reach, h⟩ := h
  obtain ⟨reach', vs, hle, hholds, hstart, htuples, hcount⟩ := h.holds.readValues hd values
  refine ⟨ts, us ++ vs, before, reach', ?_⟩
  exact
    { holds := by
        rw [← List.append_assoc]
        exact hholds
      before_le := Nat.le_trans h.before_le hle
      before_eq := h.before_eq
      start_eq := h.start_eq
      runStart_eq := hstart.trans h.runStart_eq
      runTuples_eq := by rw [htuples, h.runTuples_eq, List.length_append]
      tuples_eq := by rw [hcount, h.tuples_eq, List.length_append]
      reach_eq := fun hkept =>
        Nat.le_antisymm hholds.reach_le (h.reach_eq hkept ▸ hle) }

/-- The run ends, and its complete tuples are kept. -/
theorem keep (h : st.Runs d kept start run p q) {kept' : Prop}
    (hkept : kept' → kept ∨ st.tuples ≠ 0) :
    Rests { st with offset := 0 } d kept' (st.finish start p) q := by
  obtain ⟨ts, us, before, reach, h⟩ := h
  have hfinish := h.holds.finish h.tuples_eq h.before_le h.ts_eq
  rw [← h.start_eq] at hfinish
  refine ⟨reach, ts ++ us, hfinish, fun hk => ?_⟩
  rcases hkept hk with hold | hnew
  · exact h.reach_eq hold
  · rw [h.tuples_eq] at hnew
    exact hfinish.reach_eq fun hnil => hnew (by rw [(List.append_eq_nil_iff.mp hnil).2]; rfl)

/-- The run ends, and nothing of it is kept. -/
theorem drop (h : st.Runs d kept start run p q) :
    Rests { st with offset := 0 } d kept ((st.finish start p).restore start)
      (q.restore run.start) := by
  obtain ⟨ts, us, before, reach, h⟩ := h
  have hfinish := h.holds.finish h.tuples_eq h.before_le h.ts_eq
  have hrestore := hfinish.restore h.before_le h.ts_eq
  rw [← h.start_eq, ← h.runStart_eq] at hrestore
  exact ⟨reach, ts, hrestore, h.reach_eq⟩

end Runs

end Stream

end MeshWeave
