import Mathlib.Data.List.Induction
import MeshWeave.Proofs.Mesh.Merging
import MeshWeave.Proofs.Reader.Columns

set_option autoImplicit false

/-! # The layout that inputs resolve to

Inputs are resolved one after the other, and each may merge a source, which decides the correction
of its indices. Still the layout is a function of the inputs and of the sources as they are in the
end: `SourceTable.used` are the inputs of a kind whose sources are found and can be indexed, and
`Layout.ofInputs` makes the layout from them. The first one counts for positions and for normals,
and all count for the channels, which are ordered by offset and then by declaration.

This works because a source that was resolved once is loaded, and a loaded source never changes. -/

namespace MeshWeave

/-! ## Inputs that stand for others -/

namespace SharedInput

/-- An input for the vertices element stands for the inputs there, at its own place. -/
theorem expand_of_vertex {i : SharedInput} (h : i.semantic = .vertex) (v : Vertices) :
    i.expand v = v.inputs.map fun u => { i with semantic := u.semantic, source := u.source } := by
  simp only [expand, h]

theorem expand_of_ne {i : SharedInput} (h : i.semantic ≠ .vertex) (v : Vertices) :
    i.expand v = [i] := by
  unfold expand
  split
  · next hvertex => exact absurd hvertex h
  · rfl

/-- What an input stands for is read at its own place. -/
theorem offset_of_mem_expand {i j : SharedInput} {v : Vertices} (h : j ∈ i.expand v) :
    j.offset = i.offset := by
  by_cases hvertex : i.semantic = .vertex
  · rw [expand_of_vertex hvertex] at h
    obtain ⟨u, -, rfl⟩ := List.mem_map.mp h
    rfl
  · rw [expand_of_ne hvertex] at h
    rw [List.mem_singleton.mp h]

/-- An input stands for some input unless the vertices element is empty. -/
theorem expand_ne_nil (i : SharedInput) {v : Vertices} (hv : v.inputs ≠ []) :
    i.expand v ≠ [] := by
  by_cases hvertex : i.semantic = .vertex
  · rw [expand_of_vertex hvertex]
    exact mt List.map_eq_nil_iff.mp hv
  · rw [expand_of_ne hvertex]
    exact List.cons_ne_nil _ _

end SharedInput

/-! ## Usable inputs -/

namespace SourceTable

/-- The source that an input reads as data of a kind, if it is found and can be indexed. -/
def usable? (t : SourceTable) (k : DataKind) (i : SharedInput) : Option Source :=
  if DataKind.ofSemantic? i.semantic = some k then
    (t.find? i.sourceId).filter (·.isIndexable k)
  else none

/-- The usable inputs of a kind with their sources, in order of declaration. -/
def used (t : SourceTable) (k : DataKind) (is : List SharedInput) :
    List (SharedInput × Source) :=
  is.filterMap fun i => (t.usable? k i).map (i, ·)

end SourceTable

/-- The lane of an input. -/
def Lane.ofInput (i : SharedInput) (s : Source) : Lane := ⟨i.offset, s.correction⟩

/-- The lane of a channel input, and the channel that describes its source. -/
def ChannelLane.ofInput (i : SharedInput) (s : Source) : ChannelLane :=
  ⟨.ofInput i s, ⟨s.id, i.set, s.stride, s.initial, #[]⟩⟩

/-- Channel lanes ordered by offset and then by declaration. -/
def ChannelLane.byOffset (width : Nat) (cs : List ChannelLane) : List ChannelLane :=
  (List.range width).flatMap fun o => cs.filter (·.lane.offset == o)

namespace Layout

/-- The layout of inputs whose sources are as in a table. -/
def ofInputs (t : SourceTable) (width : Nat) (is : List SharedInput) : Layout :=
  { width
    position := (t.used .position is).head?.map fun u => .ofInput u.1 u.2
    normal := (t.used .normal is).head?.map fun u => .ofInput u.1 u.2
    texCoords := ChannelLane.byOffset width ((t.used .texCoord is).map fun u => .ofInput u.1 u.2)
    colors := ChannelLane.byOffset width ((t.used .color is).map fun u => .ofInput u.1 u.2) }

/-- Add the lane of a usable input. -/
def addInput (l : Layout) (k : DataKind) (i : SharedInput) (s : Source) : Layout :=
  match k with
  | .position => { l with position := l.position.or (some (.ofInput i s)) }
  | .normal => { l with normal := l.normal.or (some (.ofInput i s)) }
  | .texCoord => { l with texCoords := (ChannelLane.ofInput i s).insert l.texCoords }
  | .color => { l with colors := (ChannelLane.ofInput i s).insert l.colors }

/-- Add the lane of an input, if its source is usable. -/
def addUsable (t : SourceTable) (l : Layout) (i : SharedInput) : Layout :=
  match DataKind.ofSemantic? i.semantic with
  | some k =>
      match t.usable? k i with
      | some s => l.addInput k i s
      | none => l
  | none => l

end Layout

/-! ## Resolving one input -/

namespace Resolution

variable (r : Resolution) (i : SharedInput)

theorem index_value (s : Source) (k : DataKind) (h : s.type.isFloating = true) :
    (r.index i s k).value
      = if s.isIndexable k then r.setLayout (r.layout.addInput k i s) else r := by
  cases k with
  | position => simp [index, Source.isIndexable, DataKind.indexes, h, Layout.addInput, Lane.ofInput]
  | normal =>
      by_cases hs : s.stride = 3
      · simp [index, Source.isIndexable, DataKind.indexes, h, hs, Layout.addInput, Lane.ofInput]
      · simp [index, Source.isIndexable, DataKind.indexes, h, hs]
  | texCoord =>
      by_cases hs : StrideRange.texCoord.contains s.stride = true
      · simp [index, Source.isIndexable, DataKind.indexes, h, hs, Layout.addInput,
          ChannelLane.ofInput, Lane.ofInput]
      · simp [index, Source.isIndexable, DataKind.indexes, hs]
  | color =>
      by_cases hs : StrideRange.color.contains s.stride = true
      · simp [index, Source.isIndexable, DataKind.indexes, h, hs, Layout.addInput,
          ChannelLane.ofInput, Lane.ofInput]
      · simp [index, Source.isIndexable, DataKind.indexes, hs]

theorem indexLoaded_value (s : Source) (k : DataKind)
    (hk : DataKind.ofSemantic? i.semantic = some k) :
    (r.indexLoaded i s).value
      = if s.isIndexable k then r.setLayout (r.layout.addInput k i s) else r := by
  rw [indexLoaded, hk]
  by_cases h : s.type.isFloating = true
  · simp only [h, if_true, index_value r i s k h]
  · simp [h, Source.isIndexable]

theorem resolve_of_none (h : r.sources.find? i.sourceId = none) : (r.resolve i).value = r := by
  rw [resolve, h]
  rfl

/-- What resolving an input does once its source is found. -/
theorem resolve_of_some {s : Source} (h : r.sources.find? i.sourceId = some s) :
    (r.resolve i).value =
      { mesh := (r.mesh.merge s i.semantic).value.mesh
        sources := r.sources.put i.sourceId (r.mesh.merge s i.semantic).value.source
        layout :=
          match DataKind.ofSemantic? i.semantic with
          | some k =>
              if s.isIndexable k then
                r.layout.addInput k i (r.mesh.merge s i.semantic).value.source
              else r.layout
          | none => r.layout } := by
  rw [resolve, h]
  rcases hk : DataKind.ofSemantic? i.semantic with _ | k
  · simp [Mesh.merge_of_none r.mesh s hk]
  · have hsame := (r.mesh.becomes_mergeKind s k).isIndexable_eq k
    simp only [Mesh.merge_of_kind r.mesh s hk, Noted.value_bind]
    rcases hwhy : Mesh.refusal? k s with _ | why
    · rw [Mesh.mergeKind_of_none r.mesh s hwhy] at hsame ⊢
      simp only [indexLoaded_value _ i _ k hk, hsame]
      split <;> rfl
    · rw [Mesh.mergeKind_of_refusal r.mesh s hwhy] at hsame ⊢
      -- A source that is already part of the mesh is indexed again. Other refusals are about what
      -- could not be indexed anyway.
      cases why with
      | alreadyLoaded id =>
          simp only [indexLoaded_value _ i _ k hk, hsame]
          split <;> rfl
      | _ =>
          have hno : s.isIndexable k = false :=
            Mesh.isIndexable_of_refusal? hwhy (by intro id; simp)
          simp [hno]

/-! ## Sources while inputs are resolved -/

theorem keeps_resolve : r.sources.Keeps (r.resolve i).value.sources := by
  rcases h : r.sources.find? i.sourceId with _ | s
  · rw [resolve_of_none r i h]
    exact .refl r.sources
  · rw [resolve_of_some r i h]
    exact SourceTable.keeps_put r.sources i.sourceId s _ h (r.mesh.becomes_merge s i.semantic)

theorem primitives_resolve : (r.resolve i).value.mesh.primitives = r.mesh.primitives := by
  rcases h : r.sources.find? i.sourceId with _ | s
  · rw [resolve_of_none r i h]
  · rw [resolve_of_some r i h]
    exact r.mesh.primitives_merge s i.semantic

/-- Resolving declares no sources. -/
theorem find?_resolve_of_none (uri : String) (h : r.sources.find? uri = none) :
    (r.resolve i).value.sources.find? uri = none := by
  rcases hi : r.sources.find? i.sourceId with _ | s
  · rw [resolve_of_none r i hi]
    exact h
  · have hid := ((r.mesh.becomes_merge s i.semantic).id_eq).trans (SourceTable.find?_id hi)
    rw [resolve_of_some r i hi, SourceTable.find?_put _ _ _ _ hid]
    split
    · next heq =>
        rw [SourceTable.find?_congr _ heq, hi] at h
        exact absurd h (by simp)
    · exact h

/-- The source of an input after the input was resolved. -/
theorem find?_resolve_self {s : Source} (h : r.sources.find? i.sourceId = some s) :
    (r.resolve i).value.sources.find? i.sourceId
      = some (r.mesh.merge s i.semantic).value.source := by
  have hid := ((r.mesh.becomes_merge s i.semantic).id_eq).trans (SourceTable.find?_id h)
  rw [resolve_of_some r i h, SourceTable.find?_put _ _ _ _ hid, if_pos rfl, h]
  rfl

/-- The source of an input that stands for data is loaded once the input was resolved. -/
theorem loaded_resolve {k : DataKind} (hk : DataKind.ofSemantic? i.semantic = some k)
    {s : Source} (hs : (r.resolve i).value.sources.find? i.sourceId = some s) :
    s.loaded = true := by
  rcases h : r.sources.find? i.sourceId with _ | s₀
  · rw [r.find?_resolve_of_none i i.sourceId h] at hs
    exact absurd hs (by simp)
  · rw [r.find?_resolve_self i h, r.mesh.merge_of_kind s₀ hk] at hs
    rw [← Option.some.inj hs]
    exact r.mesh.loaded_mergeKind s₀ k

/-- The lane that an input adds follows from the sources after the input was resolved. -/
theorem layout_resolve :
    (r.resolve i).value.layout = .addUsable (r.resolve i).value.sources r.layout i := by
  rw [Layout.addUsable]
  rcases h : r.sources.find? i.sourceId with _ | s
  · rw [resolve_of_none r i h]
    rcases DataKind.ofSemantic? i.semantic with _ | k
    · rfl
    · simp [SourceTable.usable?, h]
  · rcases hk : DataKind.ofSemantic? i.semantic with _ | k
    · rw [resolve_of_some r i h, hk]
    · have hsame := (r.mesh.becomes_merge s i.semantic).isIndexable_eq k
      simp only [SourceTable.usable?, find?_resolve_self r i h, hk, if_true, Option.filter_some,
        hsame]
      rw [resolve_of_some r i h]
      by_cases hs : s.isIndexable k = true
      · simp only [hk, hs, if_true]
      · simp only [hk, hs, if_false, Bool.false_eq_true]

end Resolution

/-- What an input adds to a layout does not change after its source is loaded. -/
theorem Layout.addUsable_of_keeps {t later : SourceTable} (l : Layout) (i : SharedInput)
    (hkeeps : t.Keeps later)
    (hnone : t.find? i.sourceId = none → later.find? i.sourceId = none)
    (hloaded : ∀ s, t.find? i.sourceId = some s →
      (DataKind.ofSemantic? i.semantic).isSome → s.loaded = true) :
    Layout.addUsable later l i = Layout.addUsable t l i := by
  rw [addUsable, addUsable]
  rcases hk : DataKind.ofSemantic? i.semantic with _ | k
  · rfl
  · have hfind : later.find? i.sourceId = t.find? i.sourceId := by
      rcases h : t.find? i.sourceId with _ | s
      · exact hnone h
      · obtain ⟨s', hs', hb⟩ := hkeeps i.sourceId s h
        rw [hs', hb.eq_of_loaded (hloaded s h (by simp [hk]))]
    simp only [SourceTable.usable?, hfind]

/-! ## Resolving all inputs -/

namespace Resolution

theorem keeps_resolveAll (r : Resolution) (is : List SharedInput) :
    r.sources.Keeps (r.resolveAll is).value.sources := by
  induction is generalizing r with
  | nil => exact .refl r.sources
  | cons i is ih => exact (r.keeps_resolve i).trans (ih (r.resolve i).value)

theorem primitives_resolveAll (r : Resolution) (is : List SharedInput) :
    (r.resolveAll is).value.mesh.primitives = r.mesh.primitives := by
  induction is generalizing r with
  | nil => rfl
  | cons i is ih => exact (ih (r.resolve i).value).trans (r.primitives_resolve i)

theorem find?_resolveAll_of_none (r : Resolution) (is : List SharedInput) (uri : String)
    (h : r.sources.find? uri = none) : (r.resolveAll is).value.sources.find? uri = none := by
  induction is generalizing r with
  | nil => exact h
  | cons i is ih => exact ih (r.resolve i).value (r.find?_resolve_of_none i uri h)

/-- The sources of all inputs that stand for data are loaded in the end. -/
theorem loaded_resolveAll (r : Resolution) {is : List SharedInput} {i : SharedInput}
    (hi : i ∈ is) {k : DataKind} (hk : DataKind.ofSemantic? i.semantic = some k) {s : Source}
    (hs : (r.resolveAll is).value.sources.find? i.sourceId = some s) : s.loaded = true := by
  induction is generalizing r with
  | nil => exact absurd hi (by simp)
  | cons j js ih =>
      rcases List.mem_cons.mp hi with rfl | hi
      · rcases h : (r.resolve i).value.sources.find? i.sourceId with _ | s₀
        · have hnone := find?_resolveAll_of_none (r.resolve i).value js i.sourceId h
          exact absurd (hnone.symm.trans hs) (by simp)
        · have hloaded := r.loaded_resolve i hk h
          obtain ⟨s', hs', hb⟩ := keeps_resolveAll (r.resolve i).value js i.sourceId s₀ h
          obtain rfl : s' = s := Option.some.inj (hs'.symm.trans hs)
          rw [hb.eq_of_loaded hloaded]
          exact hloaded
      · exact ih (r.resolve j).value hi hs

/-- Lanes are added input by input, all by the sources as they are in the end. -/
theorem layout_resolveAll (r : Resolution) (is : List SharedInput) :
    (r.resolveAll is).value.layout
      = is.foldl (Layout.addUsable (r.resolveAll is).value.sources) r.layout := by
  induction is generalizing r with
  | nil => rfl
  | cons i is ih =>
      -- The source of the first input is loaded by now, so later inputs do not change it.
      have hlast : Layout.addUsable (r.resolveAll (i :: is)).value.sources r.layout i
          = Layout.addUsable (r.resolve i).value.sources r.layout i := by
        apply Layout.addUsable_of_keeps
        · exact keeps_resolveAll (r.resolve i).value is
        · exact find?_resolveAll_of_none (r.resolve i).value is i.sourceId
        · intro s hs hkind
          obtain ⟨k, hk⟩ := Option.isSome_iff_exists.mp hkind
          exact r.loaded_resolve i hk hs
      rw [List.foldl_cons, hlast, ← layout_resolve]
      exact ih (r.resolve i).value

end Resolution

/-! ## The first source of a kind -/

/-- A source stands at the beginning of a buffer, or is going to. -/
def Source.StandsFirst (s : Source) (b : Buffer) : Prop :=
  (s.loaded = false ∧ b.size = 0) ∨ (s.loaded = true ∧ s.initial = 0)

namespace Resolution

theorem resolveAll_append (r : Resolution) (is js : List SharedInput) :
    (r.resolveAll (is ++ js)).value = ((r.resolveAll is).value.resolveAll js).value := by
  induction is generalizing r with
  | nil => rfl
  | cons i is ih => exact ih (r.resolve i).value

/-- Inputs for other data and of other sources leave a source and the buffer of a kind alone. -/
theorem resolve_other (r : Resolution) {j : SharedInput} {k : DataKind} {uri : String}
    (hj : ∀ k', DataKind.ofSemantic? j.semantic = some k' →
      k' ≠ k ∧ Text.fragment uri ≠ Text.fragment j.sourceId) :
    (r.resolve j).value.sources.find? uri = r.sources.find? uri
      ∧ (r.resolve j).value.mesh.buffer k = r.mesh.buffer k := by
  rcases h : r.sources.find? j.sourceId with _ | s
  · rw [resolve_of_none r j h]
    exact ⟨rfl, rfl⟩
  · have hid := ((r.mesh.becomes_merge s j.semantic).id_eq).trans (SourceTable.find?_id h)
    have hne : DataKind.ofSemantic? j.semantic ≠ some k := fun hk => (hj k hk).1 rfl
    rw [resolve_of_some r j h]
    refine ⟨?_, r.mesh.buffer_merge_of_ne s hne⟩
    rw [SourceTable.find?_put _ _ _ _ hid]
    split
    · next heq =>
        rcases hk : DataKind.ofSemantic? j.semantic with _ | k'
        · rw [Mesh.merge_of_none r.mesh s hk, SourceTable.find?_congr _ heq, h]
          rfl
        · exact absurd heq (hj k' hk).2
    · rfl

theorem resolveAll_other (r : Resolution) {is : List SharedInput} {k : DataKind} {uri : String}
    (his : ∀ j ∈ is, ∀ k', DataKind.ofSemantic? j.semantic = some k' →
      k' ≠ k ∧ Text.fragment uri ≠ Text.fragment j.sourceId) :
    (r.resolveAll is).value.sources.find? uri = r.sources.find? uri
      ∧ (r.resolveAll is).value.mesh.buffer k = r.mesh.buffer k := by
  induction is generalizing r with
  | nil => exact ⟨rfl, rfl⟩
  | cons j js ih =>
      obtain ⟨hfind, hbuffer⟩ := r.resolve_other (his j (by simp))
      obtain ⟨hrest, hrest'⟩ := ih (r.resolve j).value fun j' hj' => his j' (by simp [hj'])
      exact ⟨hrest.trans hfind, hrest'.trans hbuffer⟩

/-- **The first source of a kind** stands at the beginning of its buffer. -/
theorem initial_resolveAll (r : Resolution) {before behind : List SharedInput} {i : SharedInput}
    {k : DataKind} (hk : DataKind.ofSemantic? i.semantic = some k)
    (hbefore : ∀ j ∈ before, ∀ k', DataKind.ofSemantic? j.semantic = some k' →
      k' ≠ k ∧ Text.fragment i.sourceId ≠ Text.fragment j.sourceId)
    {s : Source} (hs : r.sources.find? i.sourceId = some s) (hindexable : s.isIndexable k = true)
    (hfirst : s.StandsFirst (r.mesh.buffer k)) :
    ∃ s', (r.resolveAll (before ++ i :: behind)).value.sources.find? i.sourceId = some s'
      ∧ s'.loaded = true ∧ s'.initial = 0 := by
  obtain ⟨hfind, hbuffer⟩ := r.resolveAll_other hbefore
  rw [resolveAll_append]
  -- The inputs before are for other data or sources, so only the reader behind them matters.
  generalize (r.resolveAll before).value = q at hfind hbuffer ⊢
  rw [hs] at hfind
  have hself := q.find?_resolve_self i hfind
  rw [q.mesh.merge_of_kind s hk] at hself
  have hloaded := q.mesh.loaded_mergeKind s k
  have hinitial : (q.mesh.mergeKind s k).value.source.initial = 0 := by
    rcases hfirst with ⟨hl, hsize⟩ | ⟨hl, hzero⟩
    · rw [q.mesh.initial_mergeKind s (Mesh.refusal?_of_isIndexable hindexable hl), hbuffer, hsize]
    · rw [(q.mesh.becomes_mergeKind s k).eq_of_loaded hl, hzero]
  obtain ⟨s', hs', hb⟩ := keeps_resolveAll (q.resolve i).value behind i.sourceId _ hself
  rw [hb.eq_of_loaded hloaded] at hs'
  exact ⟨_, hs', hloaded, hinitial⟩

end Resolution

/-! ## The closed form -/

namespace ChannelLane

theorem insert_of_le (c : ChannelLane) (ds : List ChannelLane)
    (h : ∀ d ∈ ds, d.lane.offset ≤ c.lane.offset) : c.insert ds = ds ++ [c] := by
  induction ds with
  | nil => rfl
  | cons d ds ih =>
      rw [insert, if_pos (h d (by simp)), ih (fun e he => h e (by simp [he]))]
      rfl

theorem insert_append_of_lt (c : ChannelLane) (ds es : List ChannelLane)
    (h : ∀ e ∈ es, c.lane.offset < e.lane.offset) : c.insert (ds ++ es) = c.insert ds ++ es := by
  induction ds with
  | nil =>
      cases es with
      | nil => rfl
      | cons e es =>
          have he : ¬ e.lane.offset ≤ c.lane.offset := Nat.not_le.mpr (h e (by simp))
          show c.insert (e :: es) = c :: e :: es
          rw [insert, if_neg he]
  | cons d ds ih =>
      rw [List.cons_append, insert, insert, ih]
      split <;> rfl

theorem offset_lt_of_mem_byOffset {width : Nat} {c : ChannelLane} {cs : List ChannelLane}
    (h : c ∈ byOffset width cs) : c.lane.offset < width ∧ c ∈ cs := by
  simp only [byOffset, List.mem_flatMap, List.mem_range, List.mem_filter, beq_iff_eq] at h
  obtain ⟨o, ho, hc, rfl⟩ := h
  exact ⟨ho, hc⟩

/-- Inserting the next channel in order of declaration keeps the channels ordered. -/
theorem insert_byOffset (width : Nat) (c : ChannelLane) (cs : List ChannelLane)
    (h : c.lane.offset < width) : c.insert (byOffset width cs) = byOffset width (cs ++ [c]) := by
  induction width with
  | zero => exact absurd h (Nat.not_lt_zero _)
  | succ n ih =>
      have hsplit (ds : List ChannelLane) :
          byOffset (n + 1) ds = byOffset n ds ++ ds.filter (·.lane.offset == n) := by
        simp [byOffset, List.range_succ]
      rw [hsplit, hsplit, List.filter_append]
      -- Either the last offset is behind the new channel, or it is its own.
      rcases Nat.lt_or_eq_of_le (Nat.le_of_lt_succ h) with hlt | heq
      · have hbehind : ∀ e ∈ cs.filter (·.lane.offset == n), c.lane.offset < e.lane.offset := by
          intro e he
          simp only [List.mem_filter, beq_iff_eq] at he
          omega
        have hlast : [c].filter (·.lane.offset == n) = [] := by
          simp only [List.filter_cons, List.filter_nil, beq_iff_eq]
          rw [if_neg (by omega)]
        rw [insert_append_of_lt c _ _ hbehind, ih hlt, hlast, List.append_nil]
      · have hfront : ∀ d ∈ byOffset n cs ++ cs.filter (·.lane.offset == n),
            d.lane.offset ≤ c.lane.offset := by
          intro d hd
          rcases List.mem_append.mp hd with hd | hd
          · exact heq ▸ Nat.le_of_lt (offset_lt_of_mem_byOffset hd).1
          · simp only [List.mem_filter, beq_iff_eq] at hd
            omega
        have hlast : [c].filter (·.lane.offset == n) = [c] := by
          simp [heq]
        have hnone : byOffset n (cs ++ [c]) = byOffset n cs := by
          simp only [byOffset]
          apply List.flatMap_congr
          intro o ho
          have hne : (c.lane.offset == o) = false := by
            rw [List.mem_range] at ho
            simp only [beq_eq_false_iff_ne]
            omega
          simp [List.filter_append, hne]
        rw [insert_of_le c _ hfront, hlast, hnone, List.append_assoc]

end ChannelLane

namespace SourceTable

theorem used_append (t : SourceTable) (k : DataKind) (is js : List SharedInput) :
    t.used k (is ++ js) = t.used k is ++ t.used k js := List.filterMap_append

theorem used_singleton (t : SourceTable) (k : DataKind) (i : SharedInput) :
    t.used k [i] = ((t.usable? k i).map (i, ·)).toList := by
  rw [used, List.filterMap_cons, List.filterMap_nil]
  cases t.usable? k i <;> rfl

theorem usable?_of_ne (t : SourceTable) {k : DataKind} {i : SharedInput}
    (h : DataKind.ofSemantic? i.semantic ≠ some k) : t.usable? k i = none := if_neg h

theorem usable?_of_eq (t : SourceTable) {k : DataKind} {i : SharedInput}
    (h : DataKind.ofSemantic? i.semantic = some k) :
    t.usable? k i = (t.find? i.sourceId).filter (·.isIndexable k) := if_pos h

end SourceTable

namespace Layout

theorem addUsable_ofInputs (t : SourceTable) (width : Nat) (is : List SharedInput)
    (i : SharedInput) (h : i.offset < width) :
    addUsable t (ofInputs t width is) i = ofInputs t width (is ++ [i]) := by
  have hother (k : DataKind) (hk : DataKind.ofSemantic? i.semantic ≠ some k) :
      t.used k (is ++ [i]) = t.used k is := by
    rw [SourceTable.used_append, SourceTable.used_singleton, t.usable?_of_ne hk]
    exact List.append_nil _
  rw [addUsable]
  rcases hk : DataKind.ofSemantic? i.semantic with _ | k
  · simp only [ofInputs, hother _ (by rw [hk]; simp)]
  · -- Only the inputs of this kind are affected, and at most by one behind them.
    rcases hs : t.usable? k i with _ | s
    · have hsame : t.used k (is ++ [i]) = t.used k is := by
        rw [SourceTable.used_append, SourceTable.used_singleton, hs]
        exact List.append_nil _
      cases k <;> simp [ofInputs, hother, hk, hs, hsame]
    · have hmore : t.used k (is ++ [i]) = t.used k is ++ [(i, s)] := by
        rw [SourceTable.used_append, SourceTable.used_singleton, hs]
        rfl
      have hhead (f : SharedInput × Source → Lane) :
          ((t.used k is ++ [(i, s)]).head?).map f
            = (((t.used k is).head?).map f).or (some (f (i, s))) := by
        cases t.used k is <;> rfl
      have hoffset : (ChannelLane.ofInput i s).lane.offset < width := h
      cases k with
      | position =>
          simp only [hs, addInput, ofInputs, hmore, hhead]
          simp [hother, hk]
      | normal =>
          simp only [hs, addInput, ofInputs, hmore, hhead]
          simp [hother, hk]
      | texCoord =>
          simp [ofInputs, hother, hk, hs, hmore, addInput,
            ChannelLane.insert_byOffset _ _ _ hoffset]
      | color =>
          simp [ofInputs, hother, hk, hs, hmore, addInput,
            ChannelLane.insert_byOffset _ _ _ hoffset]

theorem foldl_addUsable (t : SourceTable) (width : Nat) (is : List SharedInput)
    (h : ∀ i ∈ is, i.offset < width) :
    is.foldl (addUsable t) (unused width) = ofInputs t width is := by
  induction is using List.reverseRecOn with
  | nil => simp [ofInputs, unused, SourceTable.used, ChannelLane.byOffset]
  | append_singleton is i ih =>
      rw [List.foldl_append, ih (fun j hj => h j (by simp [hj])), List.foldl_cons, List.foldl_nil,
        addUsable_ofInputs t width is i (h i (by simp))]

end Layout

/-- Every offset is a place in the tuple. -/
theorem InputList.offset_lt_width (l : InputList) : ∀ i ∈ l.inputs, i.offset < l.width := by
  have hmax (ns : List Nat) : ∀ n ∈ ns, n ≤ ns.foldr max 0 := by
    intro n hn
    induction ns with
    | nil => exact absurd hn (by simp)
    | cons m ns ih =>
        rcases List.mem_cons.mp hn with rfl | hn
        · exact Nat.le_max_left n _
        · exact Nat.le_trans (ih hn) (Nat.le_max_right m _)
  intro i hi
  have hle := hmax (l.inputs.map fun j => j.offset) i.offset (List.mem_map.mpr ⟨i, hi, rfl⟩)
  exact Nat.lt_succ_of_le hle

namespace Layout

/-- **The layout of resolved inputs** is that of their sources as they are in the end. -/
theorem resolveAll_eq_ofInputs (m : Mesh) (t : SourceTable) (is : InputList) :
    ((Resolution.mk m t (unused is.width)).resolveAll is.inputs).value.layout
      = ofInputs ((Resolution.mk m t (unused is.width)).resolveAll is.inputs).value.sources
          is.width is.inputs := by
  rw [Resolution.layout_resolveAll]
  exact foldl_addUsable _ is.width is.inputs is.offset_lt_width

/-- A channel of a layout is that of a usable input with an offset inside the tuple. -/
theorem mem_ofInputs {t : SourceTable} {width : Nat} {is : List SharedInput} {c : ChannelLane} :
    (c ∈ (ofInputs t width is).texCoords →
      ∃ i s, (i, s) ∈ t.used .texCoord is ∧ c = .ofInput i s ∧ i.offset < width)
    ∧ (c ∈ (ofInputs t width is).colors →
      ∃ i s, (i, s) ∈ t.used .color is ∧ c = .ofInput i s ∧ i.offset < width) := by
  have hchannel (k : DataKind)
      (hc : c ∈ ChannelLane.byOffset width ((t.used k is).map fun u => .ofInput u.1 u.2)) :
      ∃ i s, (i, s) ∈ t.used k is ∧ c = .ofInput i s ∧ i.offset < width := by
    obtain ⟨hlt, hmem⟩ := ChannelLane.offset_lt_of_mem_byOffset hc
    obtain ⟨⟨i, s⟩, hu, rfl⟩ := List.mem_map.mp hmem
    exact ⟨i, s, hu, rfl, hlt⟩
  exact ⟨hchannel .texCoord, hchannel .color⟩

theorem isBlank_ofInputs (t : SourceTable) (width : Nat) (is : List SharedInput) :
    (ofInputs t width is).IsBlank := by
  constructor
  · intro c hc
    obtain ⟨i, s, _, rfl, _⟩ := mem_ofInputs.1 hc
    rfl
  · intro c hc
    obtain ⟨i, s, _, rfl, _⟩ := mem_ofInputs.2 hc
    rfl

end Layout

end MeshWeave
