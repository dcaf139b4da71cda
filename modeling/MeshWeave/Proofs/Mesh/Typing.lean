import Mathlib.Data.List.Induction
import MeshWeave.Proofs.Mesh.Confinement

set_option autoImplicit false

/-! # The types of merged buffers

A buffer is meant to take the type of the first source that is merged into it, and to keep it. Which
source is the first one is told by the scalars that the buffer holds, though, and not by the sources
that came before: a buffer without scalars takes the next array over, together with its type, even
if a source without scalars has given it a type already.

So the type is that of the first source with scalars, and before there is one it follows the latest
source. `Source.deciding` are the sources that have a say, and the type of the first source stays
just if they all agree with it. -/

namespace MeshWeave

/-! ## Sources that decide a type -/

namespace Source

/-- Of the sources that are merged into a buffer one after the other, those that decide its type:
    the first one with scalars, and all that come before it. -/
def deciding : List Source → List Source
  | [] => []
  | s :: ss => if s.values.isEmpty then s :: deciding ss else [s]

/-- The type that sources give to a buffer, which is that of the last one that decides it. -/
def decidedType (ss : List Source) : ScalarType :=
  ((deciding ss).getLast?.map type).getD .invalid

/-- The sources that decide the type of a buffer have the type of the first one. -/
def AgreeOnType (ss : List Source) : Prop :=
  ∀ first ∈ ss.head?, ∀ s ∈ deciding ss, s.type = first.type

/-- Until there are scalars, every source decides the type. -/
theorem deciding_of_blank {ss : List Source} (h : ss.all (·.values.isEmpty) = true) :
    deciding ss = ss := by
  induction ss with
  | nil => rfl
  | cons s ss ih =>
      rw [List.all_cons, Bool.and_eq_true] at h
      rw [deciding, if_pos h.1, ih h.2]

theorem deciding_concat (ss : List Source) (s : Source) :
    deciding (ss ++ [s]) = if ss.all (·.values.isEmpty) then ss ++ [s] else deciding ss := by
  induction ss with
  | nil =>
      show deciding [s] = [s]
      rw [deciding]
      split <;> rfl
  | cons x ss ih =>
      rw [List.cons_append, deciding, deciding, ih, List.all_cons]
      by_cases hx : x.values.isEmpty = true
      · rw [if_pos hx, if_pos hx, hx, Bool.true_and]
        split <;> rfl
      · rw [if_neg hx, if_neg hx, if_neg (by simp [hx])]

theorem decidedType_concat (ss : List Source) (s : Source) :
    decidedType (ss ++ [s])
      = if ss.all (·.values.isEmpty) then s.type else decidedType ss := by
  rw [decidedType, deciding_concat]
  split
  · rw [List.getLast?_concat]
    rfl
  · rfl

/-- If the first source has scalars, it decides alone. -/
theorem decidedType_of_filled {ss : List Source} {first : Source} (h : first ∈ ss.head?)
    (hfilled : first.values.isEmpty = false) : decidedType ss = first.type := by
  cases ss with
  | nil => exact absurd h (by simp)
  | cons s ss =>
      obtain rfl : s = first := Option.some.inj h
      rw [decidedType, deciding, if_neg (by simp [hfilled])]
      rfl

theorem AgreeOnType.decidedType_eq {ss : List Source} (h : AgreeOnType ss) {first : Source}
    (hfirst : first ∈ ss.head?) : decidedType ss = first.type := by
  cases ss with
  | nil => exact absurd hfirst (by simp)
  | cons s ss =>
      have hne : deciding (s :: ss) ≠ [] := by
        rw [deciding]
        split <;> simp
      have hlast := h first hfirst _ (List.getLast_mem hne)
      rw [decidedType, List.getLast?_eq_some_getLast hne]
      exact hlast

/-- Sources agree if they did so before the last one came, and it did not change the type. -/
theorem agreeOnType_concat (ss : List Source) (s : Source) :
    AgreeOnType (ss ++ [s])
      ↔ AgreeOnType ss ∧ ∀ first ∈ (ss ++ [s]).head?, decidedType (ss ++ [s]) = first.type := by
  constructor
  · intro h
    refine ⟨?_, fun first hfirst => h.decidedType_eq hfirst⟩
    intro first hfirst x hx
    have hhead : first ∈ (ss ++ [s]).head? := by
      rw [List.head?_append, hfirst]
      rfl
    refine h first hhead x ?_
    rw [deciding_concat]
    split
    · next hblank =>
        rw [deciding_of_blank hblank] at hx
        exact List.mem_append_left _ hx
    · exact hx
  · rintro ⟨h, hlast⟩ first hfirst x hx
    have htype := hlast first hfirst
    rw [deciding_concat] at hx
    rw [decidedType_concat] at htype
    by_cases hblank : ss.all (·.values.isEmpty) = true
    · rw [if_pos hblank] at hx htype
      rcases List.mem_append.mp hx with hx | hx
      · -- There is a source before the last one, so it is the first.
        obtain ⟨y, ys, rfl⟩ := List.exists_cons_of_ne_nil (List.ne_nil_of_mem hx)
        refine h first hfirst x ?_
        rw [deciding_of_blank hblank]
        exact hx
      · rw [List.mem_singleton.mp hx]
        exact htype
    · rw [if_neg hblank] at hx
      cases ss with
      | nil => exact absurd rfl hblank
      | cons y ys => exact h first hfirst x hx

end Source

/-! ## Buffers -/

namespace Buffer

variable (b : Buffer)

/-- Only a buffer without scalars takes the type of a source. -/
theorem type_merge (s : Source) (htype : s.type.isFloating = true) :
    (b.merge s).1.type = if b.isEmpty then s.type else b.type := by
  -- A buffer that holds something keeps its type with its first scalar.
  have hkept (hfilled : ¬ b.isEmpty = true) : (b.merge s).1.type = b.type := by
    have hsize : 0 < b.size := by
      rw [isEmpty, beq_iff_eq] at hfilled
      omega
    exact ((b.keeps_merge s).2 0 hsize).2
  by_cases hempty : b.isEmpty = true
  · rw [if_pos hempty]
    cases hs : s.values with
    | float values =>
        rw [merge_of_float b hs, if_pos hempty, Source.type, hs]
        rfl
    | double values =>
        rw [merge_of_double b hs, if_pos hempty, Source.type, hs]
        rfl
    | _ => simp [Source.type, hs, Scalars.type, ScalarType.isFloating] at htype
  · rw [if_neg hempty, hkept hempty]

theorem isEmpty_merge (s : Source) (htype : s.type.isFloating = true) :
    (b.merge s).1.isEmpty = (b.isEmpty && s.values.isEmpty) := by
  rw [isEmpty, isEmpty, Scalars.isEmpty, b.size_merge s htype, Bool.eq_iff_iff]
  simp

end Buffer

/-- The buffer of a kind of data has the type that the sources merged into it decide, and it holds
    scalars if one of them has any. -/
structure Mesh.TypedBy (m : Mesh) (k : DataKind) (ss : List Source) : Prop where
  floating : ∀ s ∈ ss, s.type.isFloating = true
  type_eq : (m.buffer k).type = Source.decidedType ss
  isEmpty_eq : (m.buffer k).isEmpty = ss.all (·.values.isEmpty)

namespace Mesh

theorem typedBy_empty (id name : String) (k : DataKind) : (empty id name).TypedBy k [] := by
  refine ⟨fun s hs => absurd hs (by simp), ?_, ?_⟩
  · cases k <;> rfl
  · cases k <;> rfl

/-- **One merge** adds its source to those that decide the type of its buffer. -/
theorem TypedBy.mergeKind {m : Mesh} {k k' : DataKind} {ss : List Source} (h : m.TypedBy k' ss)
    {s : Source} (hnone : refusal? k s = none) :
    (m.mergeKind s k).value.mesh.TypedBy k' (if k' = k then ss ++ [s] else ss) := by
  by_cases heq : k' = k
  · subst heq
    have hfloating := isFloating_of_refusal?_none hnone
    have htype := (m.buffer k').type_merge s hfloating
    have hempty := (m.buffer k').isEmpty_merge s hfloating
    rw [h.isEmpty_eq] at htype hempty
    rw [if_pos rfl, mergeKind_of_none m s hnone]
    refine ⟨?_, ?_, ?_⟩
    · intro x hx
      rcases List.mem_append.mp hx with hx | hx
      · exact h.floating x hx
      · rw [List.mem_singleton.mp hx]
        exact hfloating
    · dsimp only
      rw [buffer_setBuffer, if_pos rfl, Source.decidedType_concat, ← h.type_eq, ← htype]
      split <;> rfl
    · dsimp only
      rw [buffer_setBuffer, if_pos rfl, List.all_append, List.all_cons, List.all_nil,
        Bool.and_true, ← hempty]
      split <;> rfl
  · have hsame := m.buffer_mergeKind_of_ne s heq
    rw [if_neg heq]
    exact ⟨h.floating, by rw [hsame, h.type_eq], by rw [hsame, h.isEmpty_eq]⟩

end Mesh

/-! ## Merging call by call -/

/-- The sources that became data of a kind, as they were declared. -/
def Merged.sources {ι : Type} (declared : ι → Source) (k : DataKind) (ms : List (Merged ι)) :
    List Source :=
  (parts declared k ms).map (·.1)

theorem Merged.sources_concat {ι : Type} (declared : ι → Source) (k : DataKind)
    (ms : List (Merged ι)) (x : Merged ι) :
    sources declared k (ms ++ [x])
      = if k = x.kind then sources declared k ms ++ [declared x.source]
        else sources declared k ms := by
  rw [sources, parts_concat]
  split
  · rw [List.map_append]
    rfl
  · rfl

namespace Merging

variable {ι : Type} [DecidableEq ι] (g : Merging ι)

theorem after_concat (calls : List (MergeCall ι)) (c : MergeCall ι) :
    g.after (calls ++ [c]) = (g.after calls).call c :=
  List.foldl_concat ..

/-- A source that is not loaded was not touched. -/
theorem sources_after_of_unloaded (calls : List (MergeCall ι)) (i : ι)
    (h : ((g.after calls).sources i).loaded = false) :
    (g.after calls).sources i = g.sources i := by
  induction calls using List.reverseRecOn with
  | nil => rfl
  | append_singleton calls c ih =>
      rw [after_concat, sources_call] at h ⊢
      split at h
      · next heq =>
          rw [if_pos heq]
          rcases hk : DataKind.ofSemantic? c.semantic with _ | k
          · rw [Mesh.merge_of_none _ _ hk] at h ⊢
            rw [heq] at ih ⊢
            exact ih h
          · rw [Mesh.merge_of_kind _ _ hk, Mesh.loaded_mergeKind] at h
            exact absurd h (by simp)
      · next hne =>
          rw [if_neg hne]
          exact ih h

variable {g} {declared : ι → Source}

/-- **Every call** keeps the types of the buffers decided by what was merged. It merges one source
    into a buffer, or none. -/
theorem typedBy_call {c : MergeCall ι}
    (h : ∀ k, g.mesh.TypedBy k (Merged.sources declared k g.merged))
    (hdeclared : (g.sources c.source).loaded = false → g.sources c.source = declared c.source)
    (k : DataKind) :
    (g.call c).mesh.TypedBy k (Merged.sources declared k (g.call c).merged)
    ∧ (Merged.sources declared k (g.call c).merged = Merged.sources declared k g.merged
      ∨ ∃ s, Merged.sources declared k (g.call c).merged
        = Merged.sources declared k g.merged ++ [s]) := by
  rcases hk : DataKind.ofSemantic? c.semantic with _ | k'
  · rw [call_of_none g c hk]
    exact ⟨h k, Or.inl rfl⟩
  · rcases hwhy : Mesh.refusal? k' (g.sources c.source) with _ | why
    · have hsource := hdeclared (Mesh.loaded_of_refusal?_none hwhy)
      have hmerged := (h k).mergeKind hwhy
      rw [call_of_merged g c hk hwhy]
      dsimp only
      rw [Merged.sources_concat, ← hsource]
      refine ⟨hmerged, ?_⟩
      split
      · exact Or.inr ⟨_, rfl⟩
      · exact Or.inl rfl
    · rw [call_of_refusal g c hk hwhy]
      exact ⟨h k, Or.inl rfl⟩

theorem typedBy_after (declared : ι → Source) (calls : List (MergeCall ι)) (k : DataKind) :
    ((start declared).after calls).mesh.TypedBy k
      (Merged.sources declared k ((start declared).after calls).merged) := by
  induction calls using List.reverseRecOn generalizing k with
  | nil => exact Mesh.typedBy_empty "" "" k
  | append_singleton calls c ih =>
      rw [after_concat]
      exact (typedBy_call ih ((start declared).sources_after_of_unloaded calls c.source) k).1

/-- Later calls only add sources behind those that were merged. -/
theorem sources_prefix_after (declared : ι → Source) (calls later : List (MergeCall ι))
    (k : DataKind) :
    Merged.sources declared k ((start declared).after calls).merged
      <+: Merged.sources declared k ((start declared).after (calls ++ later)).merged := by
  have hafter : (start declared).after (calls ++ later)
      = ((start declared).after calls).after later := List.foldl_append
  rw [hafter]
  exact ((((start declared).after calls).grows_after later).1.filter _).map _ |>.map _

/-- With one more call the sources still agree just if the buffer still has the type of the first. -/
theorem agreeOnType_after_concat (declared : ι → Source) (calls : List (MergeCall ι))
    (c : MergeCall ι) (k : DataKind) :
    let ss := Merged.sources declared k ((start declared).after calls).merged
    let g := (start declared).after (calls ++ [c])
    let ss' := Merged.sources declared k g.merged
    Source.AgreeOnType ss'
      ↔ Source.AgreeOnType ss ∧ ∀ first ∈ ss'.head?, (g.mesh.buffer k).type = first.type := by
  intro ss g ss'
  have htype : (g.mesh.buffer k).type = Source.decidedType ss' :=
    (typedBy_after declared (calls ++ [c]) k).type_eq
  have hcall : ss' = ss ∨ ∃ s, ss' = ss ++ [s] := by
    simp only [ss', g, after_concat]
    exact (typedBy_call (typedBy_after declared calls)
      ((start declared).sources_after_of_unloaded calls c.source) k).2
  rw [htype]
  rcases hcall with hsame | ⟨s, hadded⟩
  · rw [hsame]
    exact ⟨fun h => ⟨h, fun first hfirst => h.decidedType_eq hfirst⟩, And.left⟩
  · rw [hadded]
    exact Source.agreeOnType_concat ss s

/-- **The first source with scalars decides the type of a buffer**, after any calls on any sources,
    and before there is one the latest source does. If the first source that was merged has scalars,
    its type stays whatever is merged later. In general the buffer had the type of the first source
    all along just if the sources up to the first one with scalars agree on the type. -/
theorem type_after (declared : ι → Source) (calls later : List (MergeCall ι)) (k : DataKind) :
    let merged (calls : List (MergeCall ι)) : List Source :=
      Merged.sources declared k ((start declared).after calls).merged
    let type (calls : List (MergeCall ι)) : ScalarType :=
      (((start declared).after calls).mesh.buffer k).type
    (∀ s ∈ merged calls, s.type.isFloating = true)
    ∧ type calls = Source.decidedType (merged calls)
    ∧ (∀ first ∈ (merged calls).head?, first.values.isEmpty = false →
      type (calls ++ later) = first.type)
    ∧ ((∀ earlier, earlier <+: calls → ∀ first ∈ (merged earlier).head?, type earlier = first.type)
      ↔ Source.AgreeOnType (merged calls)) := by
  intro merged type
  have htyped (calls : List (MergeCall ι)) := typedBy_after declared calls k
  refine ⟨(htyped calls).floating, (htyped calls).type_eq, ?_, ?_⟩
  · intro first hfirst hfilled
    obtain ⟨more, hmore⟩ := sources_prefix_after declared calls later k
    have hstill : first ∈ (merged (calls ++ later)).head? := by
      show first ∈ (Merged.sources declared k _).head?
      rw [← hmore, List.head?_append, hfirst]
      rfl
    have htype : type (calls ++ later) = _ := (htyped (calls ++ later)).type_eq
    rw [htype, Source.decidedType_of_filled hstill hfilled]
  · induction calls using List.reverseRecOn with
    | nil =>
        have hnone : merged [] = [] := rfl
        simp [hnone, Source.AgreeOnType]
    | append_singleton calls c ih =>
        have hone := agreeOnType_after_concat declared calls c k
        simp only [List.prefix_concat_iff, forall_eq_or_imp, ih]
        exact and_comm.trans hone.symm

/-- A buffer loses its type. The first source has no scalars and makes the buffer one of single
    precision, and the second one then replaces the array. -/
theorem type_ne_of_emptyFirst :
    let declared : Fin 2 → Source
      | 0 => .fresh "a" (.float #[]) 3
      | 1 => .fresh "b" (.double #[⟨0x3ff0000000000000⟩, ⟨0x4000000000000000⟩, ⟨0x4008000000000000⟩])
          3
    let calls : List (MergeCall (Fin 2)) := [⟨0, .position⟩, ⟨1, .position⟩]
    let g := (start declared).after calls
    Merged.sources declared .position g.merged = [declared 0, declared 1]
    ∧ (((start declared).after (calls.take 1)).mesh.buffer .position).type = (declared 0).type
    ∧ (g.mesh.buffer .position).type = .float64
    ∧ (g.mesh.buffer .position).type ≠ (declared 0).type
    ∧ ¬ Source.AgreeOnType (Merged.sources declared .position g.merged) := by
  intro declared calls g
  have hmerged : Merged.sources declared .position g.merged = [declared 0, declared 1] := by
    decide +kernel
  refine ⟨hmerged, by decide +kernel, by decide +kernel, by decide +kernel, ?_⟩
  intro hagree
  rw [hmerged] at hagree
  have hsecond := hagree (declared 0) rfl (declared 1) (by decide +kernel)
  exact absurd hsecond (by decide)

end Merging

end MeshWeave
