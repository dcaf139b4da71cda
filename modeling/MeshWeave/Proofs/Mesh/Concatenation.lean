import Mathlib.Data.List.Nodup
import Mathlib.Logic.Function.Basic
import MeshWeave.Proofs.Mesh.Placement

set_option autoImplicit false

/-! # Merged buffers are concatenations

Sources are merged into a mesh one call at a time. A call may name any source as data of any kind:
one that was merged before, one that was refused, or one without scalars. `Merging` is a mesh with
its sources while this goes on, together with what the successful calls have returned.

`Mesh.ConsistsOf` says what a buffer is at any time. It is made of the sources that were merged as
its kind of data, in order and without gaps; each of them stands, converted, at the place that its
call returned. Later calls only write behind what is there. -/

namespace MeshWeave

/-! ## Sizes and segments -/

namespace Buffer

variable (b : Buffer)

/-- A merged source adds its scalars to the size. -/
theorem size_merge (s : Source) (htype : s.type.isFloating = true) :
    (b.merge s).1.size = b.size + s.values.size := by
  cases hs : s.values with
  | float values =>
      rw [merge_of_float b hs]
      split
      · next hempty =>
          rw [size_eq_zero_of_isEmpty b hempty, Nat.zero_add]
          rfl
      · exact b.data.size_appendFloat values
  | double values =>
      rw [merge_of_double b hs]
      split
      · next hempty =>
          rw [size_eq_zero_of_isEmpty b hempty, Nat.zero_add]
          rfl
      · exact b.data.size_appendDouble values
  | _ => simp [Source.type, hs, Scalars.type, ScalarType.isFloating] at htype

/-- Scalars are merged apart from the list of contributions. -/
theorem segments_merge (s : Source) : (b.merge s).1.segments = b.segments := by
  cases hs : s.values with
  | float values =>
      rw [merge_of_float b hs]
      split <;> rfl
  | double values =>
      rw [merge_of_double b hs]
      split <;> rfl
  | _ => simp only [Buffer.merge, hs]

end Buffer

/-! ## Buffers made of sources -/

/-- What a buffer lists of a source that contributed to it. -/
def Source.segment (s : Source) : Segment := ⟨s.id, s.stride, s.size⟩

/-- A buffer is made of sources, which are given as they were declared and with their places. -/
structure Buffer.Concatenates (b : Buffer) (parts : List (Source × Nat)) : Prop where
  size_eq : b.size = total (parts.map (·.1.size))
  place_eq : ∀ before part behind, parts = before ++ part :: behind →
    part.2 = total (before.map (·.1.size))
  holds : ∀ part ∈ parts, b.HoldsAt part.2 part.1.values

/-- The buffer of a kind of data is made of sources, and lists them if it lists any. -/
structure Mesh.ConsistsOf (m : Mesh) (k : DataKind) (parts : List (Source × Nat)) : Prop
    extends (m.buffer k).Concatenates parts where
  segments_eq : (m.buffer k).segments.toList
    = if k.hasSegments then parts.map (·.1.segment) else []

theorem Buffer.Concatenates.append {b b' : Buffer} {parts : List (Source × Nat)}
    (h : b.Concatenates parts) {s : Source} (hsize : b'.size = b.size + s.size)
    (hkept : ∀ part ∈ parts, b'.HoldsAt part.2 part.1.values) (hheld : b'.HoldsAt b.size s.values) :
    b'.Concatenates (parts ++ [(s, b.size)]) := by
  refine ⟨?_, ?_, ?_⟩
  · rw [hsize, h.size_eq]
    simp
  · intro before part behind heq
    rcases behind.eq_nil_or_concat with rfl | ⟨behind, last, rfl⟩
    · obtain ⟨rfl, hlast⟩ := List.append_inj' heq rfl
      obtain rfl := (List.cons.inj hlast).1
      exact h.size_eq
    · -- A part before the new one was there already.
      rw [List.concat_eq_append, ← List.cons_append, ← List.append_assoc] at heq
      exact h.place_eq before part behind (List.append_inj' heq rfl).1
  · intro part hpart
    rcases List.mem_append.mp hpart with hpart | hpart
    · exact hkept part hpart
    · rw [List.mem_singleton.mp hpart]
      exact hheld

namespace Mesh

variable (m : Mesh)

theorem consistsOf_empty (id name : String) (k : DataKind) : (empty id name).ConsistsOf k [] := by
  refine ⟨⟨?_, ?_, ?_⟩, ?_⟩
  · cases k <;> rfl
  · intro before part behind heq
    exact absurd heq (by simp)
  · exact fun part hpart => absurd hpart (by simp)
  · cases k <;> rfl

/-- The size of the buffer that a source is merged into. -/
theorem size_mergeKind {k : DataKind} {s : Source} (hs : s.IsFresh) (hnone : refusal? k s = none) :
    ((m.mergeKind s k).value.mesh.buffer k).size = (m.buffer k).size + s.size := by
  have hsize := (m.buffer k).size_merge s (isFloating_of_refusal?_none hnone)
  rw [← hs.size_eq] at hsize
  rw [mergeKind_of_none m s hnone]
  dsimp only
  rw [buffer_setBuffer, if_pos rfl]
  split <;> exact hsize

/-- The contributions that are listed by the buffer that a source is merged into. -/
theorem segments_mergeKind {k : DataKind} {s : Source} (hnone : refusal? k s = none) :
    ((m.mergeKind s k).value.mesh.buffer k).segments.toList
      = (m.buffer k).segments.toList ++ if k.hasSegments then [s.segment] else [] := by
  have hsegments := (m.buffer k).segments_merge s
  rw [mergeKind_of_none m s hnone]
  dsimp only
  rw [buffer_setBuffer, if_pos rfl]
  split
  · rw [Buffer.addSegment, Array.toList_push, hsegments]
    rfl
  · rw [hsegments, List.append_nil]

/-- Contributions are only listed behind those that are there. -/
theorem segments_prefix_mergeKind (s : Source) (k k' : DataKind) :
    (m.buffer k').segments.toList
      <+: ((m.mergeKind s k).value.mesh.buffer k').segments.toList := by
  rcases m.buffer_mergeKind_eq_or s k k' with hbuffer | ⟨rfl, hnone⟩
  · exact hbuffer ▸ List.prefix_rfl
  · rw [m.segments_mergeKind hnone]
    exact List.prefix_append _ _

/-- A source that is merged becomes the last part of the buffer of its kind of data. -/
theorem ConsistsOf.mergeKind {m : Mesh} {k k' : DataKind} {parts : List (Source × Nat)}
    (h : m.ConsistsOf k' parts) {s : Source} (hs : s.IsFresh) (hnone : refusal? k s = none) :
    (m.mergeKind s k).value.mesh.ConsistsOf k'
      (if k' = k then parts ++ [(s, (m.buffer k).size)] else parts) := by
  by_cases heq : k' = k
  · subst heq
    have hkept (part : Source × Nat) (hpart : part ∈ parts) :=
      (h.holds part hpart).of_keeps (m.keeps_mergeKind s k' k')
    have hheld := m.holdsAt_mergeKind_self hnone
    rw [m.initial_mergeKind s hnone] at hheld
    rw [if_pos rfl]
    refine ⟨h.append (m.size_mergeKind hs hnone) hkept hheld, ?_⟩
    rw [m.segments_mergeKind hnone, h.segments_eq]
    split
    · rw [List.map_append]
      rfl
    · rfl
  · have hsame := m.buffer_mergeKind_of_ne s heq
    rw [if_neg heq]
    exact ⟨hsame ▸ h.toConcatenates, hsame ▸ h.segments_eq⟩

end Mesh

/-! ## Merging call by call -/

/-- An attempt to merge one of several sources. -/
structure MergeCall (ι : Type) where
  source : ι
  semantic : Semantic

/-- What a successful call did: the source became data of a kind, from a place on. -/
structure Merged (ι : Type) where
  source : ι
  kind : DataKind
  initial : Nat
  deriving DecidableEq

/-- The sources that became data of a kind, as they were declared, with their places. -/
def Merged.parts {ι : Type} (declared : ι → Source) (k : DataKind) (ms : List (Merged ι)) :
    List (Source × Nat) :=
  (ms.filter (·.kind = k)).map fun x => (declared x.source, x.initial)

theorem Merged.parts_concat {ι : Type} (declared : ι → Source) (k : DataKind)
    (ms : List (Merged ι)) (x : Merged ι) :
    parts declared k (ms ++ [x])
      = if k = x.kind then parts declared k ms ++ [(declared x.source, x.initial)]
        else parts declared k ms := by
  by_cases heq : k = x.kind
  · simp [parts, heq]
  · simp [parts, heq, Ne.symm heq]

/-- A mesh and several sources while they are merged into it. -/
structure Merging (ι : Type) where
  mesh : Mesh
  sources : ι → Source
  /-- What the successful calls did, with the places that they returned. -/
  merged : List (Merged ι)

namespace Merging

variable {ι : Type}

/-- Nothing is merged yet. -/
def start (sources : ι → Source) : Merging ι := ⟨.empty "" "", sources, []⟩

/-- The buffers are made of what was merged. A source is as it was declared until it is loaded, and
    one that was merged is loaded. -/
structure Sound (g : Merging ι) (declared : ι → Source) : Prop where
  eq_of_unloaded : ∀ i, (g.sources i).loaded = false → g.sources i = declared i
  loaded : ∀ x ∈ g.merged, (g.sources x.source).loaded = true
  nodup : (g.merged.map (·.source)).Nodup
  consistsOf : ∀ k, g.mesh.ConsistsOf k (Merged.parts declared k g.merged)

theorem sound_start (declared : ι → Source) : (start declared).Sound declared where
  eq_of_unloaded := fun _ _ => rfl
  loaded := fun x hx => absurd hx (by simp [start])
  nodup := by simp [start]
  consistsOf := fun k => Mesh.consistsOf_empty "" "" k

variable [DecidableEq ι]

/-- Merge a source, or try to. -/
def call (g : Merging ι) (c : MergeCall ι) : Merging ι :=
  let m := (g.mesh.merge (g.sources c.source) c.semantic).value
  { mesh := m.mesh
    sources := Function.update g.sources c.source m.source
    merged := g.merged ++
      match DataKind.ofSemantic? c.semantic, m.result with
      | some k, .ok initial => [⟨c.source, k, initial⟩]
      | _, _ => [] }

/-- Make calls in order. -/
def after (g : Merging ι) (calls : List (MergeCall ι)) : Merging ι := calls.foldl call g

/-! ## The outcomes of a call -/

variable (g : Merging ι) (c : MergeCall ι)

theorem call_of_none (h : DataKind.ofSemantic? c.semantic = none) : g.call c = g := by
  rw [call, g.mesh.merge_of_none _ h, h]
  simp

theorem call_of_refusal {k : DataKind} (hk : DataKind.ofSemantic? c.semantic = some k)
    {why : Refusal} (h : Mesh.refusal? k (g.sources c.source) = some why) :
    g.call c = { g with sources := Function.update g.sources c.source (g.sources c.source).refused }
    := by
  rw [call, g.mesh.merge_of_kind _ hk, g.mesh.mergeKind_of_refusal _ h, hk]
  simp

theorem call_of_merged {k : DataKind} (hk : DataKind.ofSemantic? c.semantic = some k)
    (h : Mesh.refusal? k (g.sources c.source) = none) :
    g.call c =
      { mesh := (g.mesh.mergeKind (g.sources c.source) k).value.mesh
        sources := Function.update g.sources c.source
          (g.mesh.mergeKind (g.sources c.source) k).value.source
        merged := g.merged ++ [⟨c.source, k, (g.mesh.buffer k).size⟩] } := by
  rw [call, g.mesh.merge_of_kind _ hk, g.mesh.mergeKind_of_none _ h, hk]

/-- A call only adds to what was merged, and writes behind what is there. -/
theorem grows_call :
    g.merged <+: (g.call c).merged ∧ ∀ k, (g.mesh.buffer k).Keeps ((g.call c).mesh.buffer k) :=
  ⟨List.prefix_append _ _, g.mesh.keeps_merge (g.sources c.source) c.semantic⟩

theorem grows_after (calls : List (MergeCall ι)) :
    g.merged <+: (g.after calls).merged
      ∧ ∀ k, (g.mesh.buffer k).Keeps ((g.after calls).mesh.buffer k) := by
  induction calls generalizing g with
  | nil => exact ⟨List.prefix_refl _, fun k => .refl _⟩
  | cons c calls ih =>
      obtain ⟨hmerged, hkeeps⟩ := g.grows_call c
      obtain ⟨hmerged', hkeeps'⟩ := ih (g.call c)
      exact ⟨hmerged.trans hmerged', fun k => (hkeeps k).trans (hkeeps' k)⟩

/-! ## What every call keeps -/

variable {g} {declared : ι → Source}

/-- Once the source of a call is loaded, all sources are as the invariant wants them. -/
theorem Sound.update (h : g.Sound declared) (i : ι) {s : Source} (hs : s.loaded = true) :
    (∀ j, (Function.update g.sources i s j).loaded = false →
      Function.update g.sources i s j = declared j)
    ∧ ∀ x ∈ g.merged, (Function.update g.sources i s x.source).loaded = true := by
  constructor
  · intro j hj
    by_cases heq : j = i
    · subst heq
      rw [Function.update_self, hs] at hj
      exact absurd hj (by simp)
    · rw [Function.update_of_ne heq] at hj ⊢
      exact h.eq_of_unloaded j hj
  · intro x hx
    by_cases heq : x.source = i
    · rw [heq, Function.update_self]
      exact hs
    · rw [Function.update_of_ne heq]
      exact h.loaded x hx

/-- **Every call keeps the buffers concatenations.** -/
theorem Sound.call (h : g.Sound declared) (hfresh : ∀ i, (declared i).IsFresh) :
    (g.call c).Sound declared := by
  rcases hk : DataKind.ofSemantic? c.semantic with _ | k
  · rw [call_of_none g c hk]
    exact h
  · rcases hwhy : Mesh.refusal? k (g.sources c.source) with _ | why
    · -- Only a source that is not loaded is merged, and that one is still as it was declared.
      have hunloaded := Mesh.loaded_of_refusal?_none hwhy
      have hdeclared := h.eq_of_unloaded c.source hunloaded
      have hloaded := g.mesh.loaded_mergeKind (g.sources c.source) k
      obtain ⟨hsame, hall⟩ := h.update c.source hloaded
      rw [call_of_merged g c hk hwhy]
      refine ⟨hsame, ?_, ?_, ?_⟩
      · intro x hx
        rcases List.mem_append.mp hx with hx | hx
        · exact hall x hx
        · rw [List.mem_singleton.mp hx]
          dsimp only
          rw [Function.update_self]
          exact hloaded
      · have hnew : c.source ∉ g.merged.map (·.source) := by
          intro hmem
          obtain ⟨x, hx, heq⟩ := List.mem_map.mp hmem
          have hx' := h.loaded x hx
          rw [heq, hunloaded] at hx'
          exact absurd hx' (by simp)
        rw [List.map_append, List.map_singleton, ← List.concat_eq_append]
        exact h.nodup.concat hnew
      · intro k'
        have hmerged := (h.consistsOf k').mergeKind (hdeclared ▸ hfresh c.source) hwhy
        rw [Merged.parts_concat, ← hdeclared]
        exact hmerged
    · obtain ⟨hsame, hall⟩ := h.update c.source
        (show (g.sources c.source).refused.loaded = true from rfl)
      rw [call_of_refusal g c hk hwhy]
      exact ⟨hsame, hall, h.nodup, h.consistsOf⟩

theorem sound_after (h : g.Sound declared) (hfresh : ∀ i, (declared i).IsFresh)
    (calls : List (MergeCall ι)) : (g.after calls).Sound declared := by
  induction calls generalizing g with
  | nil => exact h
  | cons c calls ih => exact ih (h.call c hfresh)

/-- **Merged buffers are the concatenation of their sources** after any calls on fresh sources. No
    source is merged twice, and calls that come later change nothing of what is there. -/
theorem consistsOf_after (declared : ι → Source) (hfresh : ∀ i, (declared i).IsFresh)
    (calls later : List (MergeCall ι)) (k : DataKind) :
    let g := (start declared).after calls
    g.mesh.ConsistsOf k (Merged.parts declared k g.merged)
    ∧ (g.merged.map (·.source)).Nodup
    ∧ g.merged <+: (g.after later).merged
    ∧ (g.mesh.buffer k).Keeps ((g.after later).mesh.buffer k) := by
  intro g
  have hsound : g.Sound declared := sound_after (sound_start declared) hfresh calls
  obtain ⟨hmerged, hkeeps⟩ := g.grows_after later
  exact ⟨hsound.consistsOf k, hsound.nodup, hmerged, hkeeps k⟩

/-- A source without scalars comes first, and the buffer takes its type from the next one. The third
    source is refused for its stride and then counts as loaded, like the second at its last call. -/
theorem consistsOf_after_empty_first :
    let declared : Fin 3 → Source
      | 0 => .fresh "a" (.double #[]) 2
      | 1 => .fresh "b" (.float #[⟨0⟩, ⟨1⟩, ⟨2⟩]) 3
      | 2 => .fresh "c" (.double #[⟨0x3ff0000000000000⟩, ⟨0⟩]) 2
    let calls : List (MergeCall (Fin 3)) :=
      [⟨0, .texCoord⟩, ⟨2, .color⟩, ⟨1, .uv⟩, ⟨2, .position⟩, ⟨1, .color⟩]
    let g := (start declared).after calls
    (∀ i, (declared i).IsFresh)
    ∧ g.merged = [⟨0, .texCoord, 0⟩, ⟨1, .texCoord, 0⟩]
    ∧ g.mesh.texCoords = ⟨.float #[⟨0⟩, ⟨1⟩, ⟨2⟩], #[⟨"a", 2, 0⟩, ⟨"b", 3, 3⟩]⟩
    ∧ g.mesh.ConsistsOf .texCoord (Merged.parts declared .texCoord g.merged) := by
  intro declared calls g
  have hfresh : ∀ i, (declared i).IsFresh := by
    intro i
    match i with
    | 0 | 1 | 2 => exact Source.isFresh_fresh _ _ _
  exact ⟨hfresh, by decide +kernel, by decide +kernel,
    (consistsOf_after declared hfresh calls [] .texCoord).1⟩

end Merging

end MeshWeave
