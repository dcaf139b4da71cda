import MeshWeave.Proofs.Reader.Ignoring
import MeshWeave.Proofs.Reader.Invariants

set_option autoImplicit false

/-! # How wide tuples are

The indices of a face vertex stand at the offsets of the declared inputs, so a tuple should be one
wider than the largest offset. An input may turn out to be of no use: its source may be unknown, or
its values may be of a kind that cannot be merged. Its place in the tuple stays.

There is one exception. An input for the vertices element is replaced by the inputs of that element,
and if there are none it leaves nothing behind, not even its offset. A tuple is as wide as it should
be just if no input that was dropped like this has an offset above those of all others. Whatever the
width is, each run of indices is cut into tuples of that width, and the indices of an input are the
values at its offset. -/

namespace MeshWeave

/-! ## Declared inputs -/

/-- An input of a primitive element as it was declared, and the vertices element of that time. -/
structure Declaration where
  input : SharedInput
  vertices : Vertices

namespace Declaration

/-- The inputs that stand for the declared one. -/
def inputs (d : Declaration) : List SharedInput := d.input.expand d.vertices

/-- Whether no input stands for the declared one. -/
def isDropped (d : Declaration) : Bool := d.inputs.isEmpty

/-- Only inputs for a vertices element without inputs are dropped. -/
theorem isDropped_iff (d : Declaration) :
    d.isDropped = true ↔ d.input.semantic = .vertex ∧ d.vertices.inputs = [] := by
  unfold isDropped inputs SharedInput.expand
  cases d.input.semantic <;> simp

/-- All inputs that stand for a declared one are at its offset. -/
theorem offset_of_mem_inputs {d : Declaration} {i : SharedInput} (h : i ∈ d.inputs) :
    i.offset = d.input.offset := SharedInput.offset_of_mem_expand h

end Declaration

/-- The largest offset of declared inputs, zero without any. -/
def largestOffset (ds : List Declaration) : Nat := (ds.map (·.input.offset)).foldr max 0

theorem largestOffset_le_iff (ds : List Declaration) (n : Nat) :
    largestOffset ds ≤ n ↔ ∀ d ∈ ds, d.input.offset ≤ n := by
  unfold largestOffset
  induction ds with
  | nil => simp
  | cons d ds ih => rw [List.map_cons, List.foldr_cons, Nat.max_le, ih, List.forall_mem_cons]

theorem offset_le_largestOffset {ds : List Declaration} {d : Declaration} (h : d ∈ ds) :
    d.input.offset ≤ largestOffset ds := (largestOffset_le_iff ds _).mp (Nat.le_refl _) d h

theorem largestOffset_cons (d : Declaration) (ds : List Declaration) :
    largestOffset (d :: ds) = max d.input.offset (largestOffset ds) := rfl

/-- The list of inputs knows the offsets of those that were not dropped. -/
theorem maxOffset_inputs (ds : List Declaration) :
    (InputList.mk (ds.flatMap (·.inputs))).maxOffset
      = largestOffset (ds.filter (!·.isDropped)) := by
  have hsame (o : Nat) (is : List SharedInput) (his : ∀ i ∈ is, i.offset = o) (hne : is ≠ [])
      (n : Nat) : (is.map (·.offset)).foldr max n = max o n := by
    induction is with
    | nil => exact absurd rfl hne
    | cons i is ih =>
        have hi := his i (by simp)
        by_cases hnil : is = []
        · simp [hnil, hi]
        · have hrest := ih (fun j hj => his j (by simp [hj])) hnil
          simp only [List.map_cons, List.foldr_cons, hi, hrest]
          omega
  unfold InputList.maxOffset
  dsimp only
  induction ds with
  | nil => rfl
  | cons d ds ih =>
      rw [List.flatMap_cons, List.map_append, List.foldr_append, ih]
      by_cases hdropped : d.isDropped = true
      · have hnil : d.inputs = [] := by simpa [Declaration.isDropped] using hdropped
        rw [List.filter_cons_of_neg (by simp [hdropped]), hnil]
        rfl
      · have hne : d.inputs ≠ [] := by simpa [Declaration.isDropped] using hdropped
        rw [List.filter_cons_of_pos (by simp [hdropped]), largestOffset_cons]
        exact hsame _ _ (fun i => Declaration.offset_of_mem_inputs) hne _

/-- Dropping inputs goes unnoticed just if the other ones reach as far. -/
theorem largestOffset_filter_eq_iff (ds : List Declaration) :
    largestOffset (ds.filter (!·.isDropped)) = largestOffset ds
      ↔ ∀ d ∈ ds, d.isDropped = true →
        d.input.offset ≤ largestOffset (ds.filter (!·.isDropped)) := by
  constructor
  · intro heq d hd _
    rw [heq]
    exact offset_le_largestOffset hd
  · intro hdropped
    apply Nat.le_antisymm
    · rw [largestOffset_le_iff]
      exact fun d hd => offset_le_largestOffset (List.mem_of_mem_filter hd)
    · rw [largestOffset_le_iff]
      intro d hd
      by_cases h : d.isDropped = true
      · exact hdropped d hd h
      · exact offset_le_largestOffset (List.mem_filter.mpr ⟨hd, by simp [h]⟩)

/-- What an event declares that has its place. -/
def Event.declarations (v : Vertices) : Event → List Declaration
  | input i => [⟨i, v⟩]
  | _ => []

theorem Event.flatMap_declarations (v : Vertices) (e : Event) :
    (e.declarations v).flatMap (·.inputs) = e.declaredInputs v := by
  cases e with
  | input i => exact List.flatMap_singleton _ _
  | _ => rfl

namespace Reader

/-- The declarations in the open primitive element after an event, from those before. One that has
    just opened has none. -/
def declarationsNext (r : Reader) (ds : List Declaration) (e : Event) : List Declaration :=
  if r.isIdle then [] else if r.takes [e] then ds ++ e.declarations r.vertices else ds

/-- The inputs that were declared in the open primitive element, in order. -/
def declarations : Reader → List Declaration → List Event → List Declaration
  | _, ds, [] => ds
  | r, ds, e :: es => declarations (r.next e) (r.declarationsNext ds e) es

end Reader

/-- The inputs of the open element are those that stand for the declared ones. -/
def Reader.Declared (r : Reader) (ds : List Declaration) : Prop :=
  ∀ a, r.current = some a → a.inputs.inputs = ds.flatMap (·.inputs)

namespace Reader.Declared

variable {r : Reader} {ds : List Declaration}

/-- An element that has just opened has no inputs. -/
theorem next_of_idle (h : r.current = none) (e : Event) : (r.next e).Declared [] := by
  intro b hb
  have hinputs := (r.declares_next e).inputs b hb
  rw [Reader.before_of_none e h] at hinputs
  rw [List.flatMap_nil, List.eq_nil_iff_forall_not_mem]
  intro i hi
  rcases hinputs i hi with ⟨a, ha, -⟩ | hdeclared
  · rw [h] at ha
    exact absurd ha (by simp)
  · cases e with
    | input j =>
        have hsame : r.next (.input j) = r :=
          Reader.next_of_idle h (advance_of_idle h rfl)
        rw [hsame, h] at hb
        exact absurd hb (by simp)
    | _ => exact absurd hdeclared (by simp [Event.declaredInputs])

theorem next (h : r.Declared ds) (e : Event) : (r.next e).Declared (r.declarationsNext ds e) := by
  rcases hcurrent : r.current with _ | c
  · rw [declarationsNext, if_pos (by rw [isIdle, hcurrent]; rfl)]
    exact next_of_idle hcurrent e
  · rw [declarationsNext, if_neg (by simp [isIdle, hcurrent])]
    obtain ⟨a, ha, hbefore⟩ := current_before hcurrent e
    have hinputs : a.inputs.inputs = ds.flatMap (·.inputs) := by
      rcases hbefore with rfl | ⟨l, rfl⟩
      · exact h _ hcurrent
      · exact h c hcurrent
    intro b hb
    rcases next_of_current ha with
      ⟨hignored, hnext⟩ | ⟨htaken, b', hb', -, hmoves⟩ | ⟨-, -, hclosed⟩
    · rw [hnext] at hb
      obtain rfl := Option.some.inj (ha.symm.trans hb)
      rw [hignored]
      exact hinputs
    · obtain rfl := Option.some.inj (hb'.symm.trans hb)
      rw [hmoves.inputs_eq, hinputs, htaken, if_pos rfl, List.flatMap_append,
        Event.flatMap_declarations]
    · rw [hclosed] at hb
      cases hfinished : a.finished <;> simp [hfinished, closed] at hb

/-- The end of their declaration adds no inputs. -/
theorem settled (h : r.Declared ds) : r.settled.Declared ds := by
  rcases r.settled_eq_or with hsame | ⟨c, hcurrent, hstage⟩
  · rwa [hsame]
  · rw [settled_of_declaring hcurrent hstage]
    intro a ha
    obtain rfl := Option.some.inj ha
    exact h c hcurrent

/-- **The declared inputs of the open element**, after any events. -/
theorem after (h : r.Declared ds) (es : List Event) :
    (r.after es).Declared (r.declarations ds es) := by
  induction es generalizing r ds with
  | nil => exact h
  | cons e es ih => exact ih (h.next e)

end Reader.Declared

/-! ## Inside a run -/

/-- The values that an event brings for runs of a kind. -/
def Event.valuesFor (kind : RunKind) : Event → List Nat
  | indices kind' values => if kind' = kind then values else []
  | _ => []

namespace Assembly

/-- The values that an open run of a kind takes from events. A hole behind no polygon takes none. -/
def valuesTaken (a : Assembly) (kind : RunKind) (es : List Event) : List Nat :=
  if kind = .hole ∧ a.stage = .holed none then [] else es.flatMap (·.valuesFor kind)

theorem valuesTaken_cons (a : Assembly) (kind : RunKind) (e : Event) (es : List Event) :
    a.valuesTaken kind (e :: es) = a.valuesTaken kind [e] ++ a.valuesTaken kind es := by
  unfold valuesTaken
  split
  · rfl
  · simp

theorem valuesTaken_of_ne (a : Assembly) {kind : RunKind} {e : Event}
    (he : ∀ values, e ≠ .indices kind values) : a.valuesTaken kind [e] = [] := by
  unfold valuesTaken
  split
  · rfl
  · cases e with
    | indices kind' values =>
        have hne : kind' ≠ kind := by
          rintro rfl
          exact he values rfl
        simp [Event.valuesFor, hne]
    | _ => rfl

end Assembly

namespace Reader

variable {r : Reader} {base : Assembly} {kind : RunKind} {us : List (Array Nat)}
  {pending : Array Nat}

/-- Of all events but its end tag, an open run is changed only by values of its kind. -/
theorem next_during (h : r.current = some (base.during kind us pending))
    (htakes : base.stage.takesRuns kind = true) {e : Event} (he : e ≠ .closeRun kind) :
    (r.next e).current = some (base.during kind
      (us ++ (cutTuples base.layout.width pending (base.valuesTaken kind [e])).1)
      (cutTuples base.layout.width pending (base.valuesTaken kind [e])).2) := by
  have hdeclaring : base.stage ≠ .declaring := by
    intro hs
    rw [hs] at htakes
    exact absurd htakes (by simp)
  have hcounting : base.stage ≠ .counting := by
    intro hs
    rw [hs] at htakes
    exact absurd htakes (by simp)
  have hready : r.ready e = r := ready_of_ne e h hdeclaring
  by_cases hvalues : ∃ values, e = .indices kind values
  · obtain ⟨values, rfl⟩ := hvalues
    have hadv := advance_indices h kind values rfl rfl
    unfold Assembly.valuesTaken
    by_cases hstray : kind = .hole ∧ base.stage = .holed none
    · rw [next_of_some (by rw [hready, hadv]; exact if_pos hstray), if_pos hstray, cutTuples,
        List.append_nil]
      exact h
    · rw [next_of_some (by rw [hready, hadv]; exact if_neg hstray), if_neg hstray,
        base.readValues_during]
      simp [Event.valuesFor, setCurrent]
  · rw [base.valuesTaken_of_ne fun values hv => hvalues ⟨values, hv⟩, cutTuples, List.append_nil]
    rcases hadv : r.advance e with _ | n
    · rw [next_of_none (by rw [hready, hadv]), hready]
      exact h
    · rw [next_of_some (by rw [hready, hadv])]
      have hcounts : e ≠ .openCounts := by
        rintro rfl
        rw [advance_openCounts h, if_neg fun hs => hdeclaring hs.1] at hadv
        exact absurd hadv (by simp)
      -- An open run leaves no place for any other change.
      rcases moves_of_advance h hcounts hadv with ⟨b, hb, -, hmoves⟩ | ⟨-, hrun, -⟩
      · cases hmoves with
        | outer => exact hb
        | input i declaring => exact absurd declaring hdeclaring
        | openCounts => exact absurd rfl hcounts
        | counts values counting => exact absurd counting hcounting
        | closeCounts counting => exact absurd counting hcounting
        | openRun kind run_eq => exact absurd run_eq (by simp [Assembly.during])
        | stray => exact hb
        | indices values run_eq =>
            obtain rfl := Option.some.inj run_eq
            exact absurd ⟨values, rfl⟩ hvalues
        | closeRun mesh run_eq =>
            obtain rfl := Option.some.inj run_eq
            exact absurd rfl he
        | openHoled run_eq => exact absurd run_eq (by simp [Assembly.during])
        | closeHoled run_eq => exact absurd run_eq (by simp [Assembly.during])
      · exact absurd hrun (by simp [Assembly.during])

/-- **An open run at any time before its end tag**, whatever comes between its values. -/
theorem after_during (h : r.current = some (base.during kind us pending))
    (htakes : base.stage.takesRuns kind = true) {es : List Event} (hes : .closeRun kind ∉ es) :
    (r.after es).current = some (base.during kind
      (us ++ (cutTuples base.layout.width pending (base.valuesTaken kind es)).1)
      (cutTuples base.layout.width pending (base.valuesTaken kind es)).2) := by
  induction es generalizing r us pending with
  | nil =>
      have hnil : base.valuesTaken kind [] = [] := by
        unfold Assembly.valuesTaken
        split <;> rfl
      rw [hnil, cutTuples, List.append_nil]
      exact h
  | cons e es ih =>
      rw [List.mem_cons, not_or] at hes
      have hstep := next_during h htakes (Ne.symm hes.1)
      rw [after_cons, ih hstep hes.2, base.valuesTaken_cons kind e es, fst_cutTuples_append,
        snd_cutTuples_append, List.append_assoc]

end Reader

/-! ## What is decoded -/

/-- The indices that a lane takes from a run of values in tuples of a width. -/
def Lane.decode (l : Lane) (width : Nat) (raw : List Nat) : Array UInt32 :=
  ((List.range (raw.length / width)).map fun t =>
    Index.saturate (raw.getD (t * width + l.offset) 0 + l.correction)).toArray

namespace Layout

/-- What a run of values adds to the index arrays of a primitive: to each array the values at the
    offset of its lane, one of each complete tuple. -/
structure Decodes (l : Layout) (raw : List Nat) (p q : Primitive) : Prop where
  positions : q.positions = p.positions ++ (l.position.map (·.decode l.width raw)).getD #[]
  normals : q.normals = p.normals ++ (l.normal.map (·.decode l.width raw)).getD #[]
  texCoords_length : p.texCoords.length = l.texCoords.length
  texCoords : q.texCoords
    = List.zipWith (fun d c => c.append (d.lane.decode l.width raw)) l.texCoords p.texCoords
  colors_length : p.colors.length = l.colors.length
  colors : q.colors
    = List.zipWith (fun d c => c.append (d.lane.decode l.width raw)) l.colors p.colors

/-- All lanes of resolved inputs are inside the tuple. -/
theorem offset_lt_of_ofInputs (t : SourceTable) (is : InputList) :
    (∀ l, (ofInputs t is.width is.inputs).position = some l → l.offset < is.width)
    ∧ (∀ l, (ofInputs t is.width is.inputs).normal = some l → l.offset < is.width)
    ∧ (∀ c ∈ (ofInputs t is.width is.inputs).texCoords, c.lane.offset < is.width)
    ∧ ∀ c ∈ (ofInputs t is.width is.inputs).colors, c.lane.offset < is.width := by
  have hfirst (k : DataKind) (l : Lane)
      (hl : ((t.used k is.inputs).head?.map fun u => Lane.ofInput u.1 u.2) = some l) :
      l.offset < is.width := by
    obtain ⟨u, hu, rfl⟩ := Option.map_eq_some_iff.mp hl
    obtain ⟨i, hi, hmap⟩ := List.mem_filterMap.mp (List.mem_of_head? hu)
    obtain ⟨s, -, rfl⟩ := Option.map_eq_some_iff.mp hmap
    exact is.offset_lt_width i hi
  refine ⟨hfirst .position, hfirst .normal, fun c hc => ?_, fun c hc => ?_⟩
  · obtain ⟨i, s, -, rfl, hlt⟩ := mem_ofInputs.1 hc
    exact hlt
  · obtain ⟨i, s, -, rfl, hlt⟩ := mem_ofInputs.2 hc
    exact hlt

end Layout

/-- **A run is de-interleaved** into the arrays of a primitive that gathers tuples. -/
theorem Assembly.Gathers.decodes {a : Assembly} {ts : List (Array Nat)} (h : a.Gathers ts)
    {t : SourceTable} {is : InputList} (hlayout : a.layout = .ofInputs t is.width is.inputs)
    (raw : List Nat) :
    a.layout.Decodes raw a.primitive
      (a.layout.pushTuples (tuples a.layout.width raw) a.primitive) := by
  have hwidth : a.layout.width = is.width := by rw [hlayout]; rfl
  obtain ⟨hposition, hnormal, htexCoords, hcolors⟩ :=
    Layout.offset_lt_of_ofInputs t is
  rw [← hlayout, ← hwidth] at hposition hnormal htexCoords hcolors
  have hread (l : Lane) (hl : l.offset < a.layout.width) :
      ((tuples a.layout.width raw).map l.read).toArray = l.decode a.layout.width raw :=
    congrArg List.toArray (tuples_column a.layout.width raw l hl)
  have hcolumn (lane : Option Lane) (hlane : ∀ l, lane = some l → l.offset < a.layout.width) :
      Layout.column lane (ts ++ tuples a.layout.width raw)
        = Layout.column lane ts ++ (lane.map (·.decode a.layout.width raw)).getD #[] := by
    cases lane with
    | none => rfl
    | some l => simp [Layout.column, ← hread l (hlane l rfl)]
  have hchannels (ds : List ChannelLane) (hds : ∀ d ∈ ds, d.lane.offset < a.layout.width) :
      ds.map (·.fill (ts ++ tuples a.layout.width raw))
        = List.zipWith (fun d c => c.append (d.lane.decode a.layout.width raw)) ds
            (ds.map (·.fill ts)) := by
    rw [List.zipWith_map_right, List.zipWith_self]
    apply List.map_congr_left
    intro d hd
    simp [ChannelLane.fill, Channel.append, ← hread d.lane (hds d hd)]
  have hpush := h.pushTuples (tuples a.layout.width raw)
  have hholds := h.holds
  refine ⟨?_, ?_, ?_, ?_, ?_, ?_⟩
  · rw [hpush, ← congrArg Primitive.positions hholds]
    exact hcolumn _ hposition
  · rw [hpush, ← congrArg Primitive.normals hholds]
    exact hcolumn _ hnormal
  · rw [← congrArg Primitive.texCoords hholds]
    exact List.length_map _
  · rw [hpush, ← congrArg Primitive.texCoords hholds]
    exact hchannels _ htexCoords
  · rw [← congrArg Primitive.colors hholds]
    exact List.length_map _
  · rw [hpush, ← congrArg Primitive.colors hholds]
    exact hchannels _ hcolors

namespace Reader

/-- Behind the declaration of inputs the layout is that of the declared inputs, and outside of runs
    the primitive gathers tuples. -/
theorem exists_layout_eq (id name : String) (es : List Event) {a : Assembly}
    (h : ((start id name).after es).settled.current = some a) :
    ∃ sources ts, a.layout = .ofInputs sources a.inputs.width a.inputs.inputs
      ∧ (a.run = none → a.Gathers ts) := by
  have htracked {o : Origin} (htracks : o.Tracks a) :
      ∃ sources ts, a.layout = .ofInputs sources a.inputs.width a.inputs.inputs
        ∧ (a.run = none → a.Gathers ts) := by
    refine ⟨o.sources, o.tuples, ?_, fun hrun => (htracks.stands.of_run_none hrun).1⟩
    rw [htracks.layout_eq, htracks.inputs_eq]
    rfl
  rcases ((start id name).after es).settled_eq_or with hsame | ⟨c, hcurrent, hstage⟩
  · have hnot := ((start id name).after es).stage_settled_ne
    have hsound := History.sound_after (History.sound_start id name) es
    rw [hsame] at h hnot
    have hcurrent : ((History.start id name).after es).reader.current = some a := by
      rw [History.reader_after]
      exact h
    rcases hsound.current a hcurrent with hfresh | htracks
    · exact absurd (by rw [stage, h, ← hfresh.stage_eq]; rfl) hnot
    · exact htracked htracks
  · have hfresh := isFresh_of_declaring id name es hcurrent hstage
    obtain ⟨b, hb, htracks, -⟩ := Origin.tracks_settled hcurrent hfresh
    obtain rfl := Option.some.inj (hb.symm.trans h)
    exact htracked htracks

/-- The begin tag of a run that has its place behind the declaration of inputs. -/
theorem current_openRun {r : Reader} {a : Assembly} (h : r.settled.current = some a)
    {kind : RunKind} (hrun : a.run = none) (htakes : a.stage.takesRuns kind = true) :
    (r.next (.openRun kind)).current = some (a.during kind [] #[]) := by
  have hready : r.ready (.openRun kind) = r.settled := by
    cases kind with
    | polygon => rfl
    | hole =>
        -- Holes do not end the declaration, but they have no place directly behind it either.
        rcases r.settled_eq_or with hsame | ⟨c, hcurrent, hstage⟩
        · rw [hsame]
          rfl
        · rw [settled_of_declaring hcurrent hstage] at h
          obtain rfl := Option.some.inj h
          exact absurd htakes (by simp)
  have hadv := advance_openRun h kind
  rw [if_pos ⟨by rw [hrun]; rfl, htakes⟩] at hadv
  rw [next_of_some (by rw [hready, hadv])]
  rfl

/-- **Tuples are as wide as the declared offsets**, just if no input for a vertices element without
    inputs has the largest of them. Every run is cut into tuples of their width, and an input takes
    the values at its offset, whichever other inputs are of no use. -/
theorem width_of_declarations (id name : String) (es : List Event) (a : Assembly)
    (h : ((start id name).after es).settled.current = some a) :
    let ds := (start id name).declarations [] es
    a.layout.width = largestOffset (ds.filter (!·.isDropped)) + 1
    ∧ (a.layout.width = largestOffset ds + 1 ↔ ∀ d ∈ ds, d.isDropped = true →
        d.input.offset ≤ largestOffset (ds.filter (!·.isDropped)))
    ∧ (∃ sources, a.layout = .ofInputs sources a.layout.width (ds.flatMap (·.inputs)))
    ∧ ∀ kind fs, a.run = none → a.stage.takesRuns kind = true → .closeRun kind ∉ fs →
      ∃ b, ((start id name).after (es ++ .openRun kind :: fs)).current = some b
        ∧ a.layout.Decodes (a.valuesTaken kind fs) a.primitive b.primitive := by
  intro ds
  have hstart : (start id name).Declared [] := fun a ha => absurd ha (by simp [start])
  have hinputs : a.inputs.inputs = ds.flatMap (·.inputs) := (hstart.after es).settled a h
  obtain ⟨sources, ts, hlayout, hgathers⟩ := exists_layout_eq id name es h
  have hwidth : a.layout.width = a.inputs.width := by
    rw [hlayout]
    rfl
  have heq : a.layout.width = largestOffset (ds.filter (!·.isDropped)) + 1 := by
    rw [hwidth, ← maxOffset_inputs, ← hinputs]
    rfl
  refine ⟨heq, ?_, ⟨sources, ?_⟩, ?_⟩
  · rw [heq, ← largestOffset_filter_eq_iff]
    exact Nat.succ_inj
  · rw [hwidth, ← hinputs]
    exact hlayout
  · intro kind fs hrun htakes hfs
    have hpos : 0 < a.layout.width := by omega
    have hopen := current_openRun h hrun htakes
    refine ⟨_, by rw [after_append, after_cons]; exact after_during hopen htakes hfs, ?_⟩
    rw [List.nil_append, cutTuples_fst _ hpos]
    exact (hgathers hrun).decodes hlayout _

end Reader

/-- A triangle mesh whose element declares a vertices element without inputs, the positions, and
    normals from an unknown source, at one offset after the other. -/
def Event.droppedBelow : List Event :=
  [.addSource (.fresh "p" (.float (.replicate 9 ⟨0⟩)) 3), .openPrimitive .triangles none,
    .input ⟨.vertex, "#v", 0, 0⟩, .input ⟨.position, "#p", 1, 0⟩, .input ⟨.normal, "#n", 2, 0⟩]

/-- The values of the unknown source are skipped, and so are those at the offset of the input that
    was dropped, as it is not the largest one. -/
theorem Reader.width_of_declarations_droppedBelow :
    let ds := (Reader.start "mesh" "").declarations [] Event.droppedBelow
    let fs : List Event :=
      [.indices .polygon [9, 0, 9, 9], .openHoled, .indices .polygon [1, 9, 9, 2, 9]]
    ds.map (fun d => (d.input.offset, d.isDropped)) = [(0, true), (1, false), (2, false)]
    ∧ ∃ a b, ((Reader.start "mesh" "").after Event.droppedBelow).settled.current = some a
      ∧ a.layout.width = largestOffset ds + 1
      ∧ ((Reader.start "mesh" "").after
          (Event.droppedBelow ++ .openRun .polygon :: fs)).current = some b
      ∧ b.primitive.positions = #[0, 1, 2] := by
  intro ds fs
  let r := (Reader.start "mesh" "").after Event.droppedBelow
  let a := r.settled.current.get (by decide +kernel)
  have ha : r.settled.current = some a := (Option.some_get _).symm
  obtain ⟨-, hwidth, -, hruns⟩ := Reader.width_of_declarations "mesh" "" Event.droppedBelow a ha
  obtain ⟨b, hb, hdecodes⟩ := hruns .polygon fs (by decide +kernel) (by decide +kernel) (by decide)
  have hall : ∀ d ∈ ds, d.isDropped = true →
      d.input.offset ≤ largestOffset (ds.filter (!·.isDropped)) := by decide +kernel
  refine ⟨by decide +kernel, a, b, ha, hwidth.mpr hall, hb, ?_⟩
  rw [hdecodes.positions]
  decide +kernel

/-- A triangle mesh whose element declares the positions, and a vertices element without inputs
    behind them. -/
def Event.droppedAbove : List Event :=
  [.addSource (.fresh "p" (.float (.replicate 9 ⟨0⟩)) 3), .openPrimitive .triangles none,
    .input ⟨.position, "#p", 0, 0⟩, .input ⟨.vertex, "#v", 1, 0⟩]

/-- The largest offset of `droppedAbove` is that of the dropped input, but tuples have no place for
    it. The values there are taken for positions, and one triangle is read as two. -/
theorem Reader.width_ne_of_droppedAbove :
    let r := (Reader.start "mesh" "").after Event.droppedAbove
    let ds := (Reader.start "mesh" "").declarations [] Event.droppedAbove
    let raw := [0, 7, 1, 8, 2, 9]
    r.settled.current.map (·.layout.width) = some 1
    ∧ r.settled.current.map (·.layout.position) = some (some ⟨0, 0⟩)
    ∧ r.settled.current.map (·.layout.width) ≠ some (largestOffset ds + 1)
    ∧ (Lane.mk 0 0).decode (largestOffset ds + 1) raw = #[0, 1, 2]
    ∧ (r.after [.openRun .polygon, .indices .polygon raw, .closeRun .polygon,
        .closePrimitive]).mesh.primitives.map (fun p => (p.positions, p.faces))
      = #[(#[0, 7, 1, 8, 2, 9], 2)] := by
  decide +kernel

end MeshWeave
