import Mathlib.Algebra.Group.Nat.Defs
import MeshWeave.Proofs.Reader.Alignment
import MeshWeave.Proofs.Reader.Decoding
import MeshWeave.Proofs.Reader.Placing

set_option autoImplicit false

/-! # Indices address their elements

An index of a finished mesh was read from a raw value for a source. The value names an element of
the source as it was declared, and the index, times the stride, should be the place of the element
in the merged buffer.

What is added to raw values is the number of whole elements before the source. Sources of other
strides may come first, and then a part of an element is left over: the index falls short of the
place by `initial % stride`. It is the place itself just if the stride divides the place of the
source. -/

namespace MeshWeave

/-- A buffer has the scalars of an element of a source, converted, from a place on. -/
def Buffer.HoldsElement (b : Buffer) (place : Nat) (s : Source) (element : Nat) : Prop :=
  ∀ j < s.stride, ∃ x, b.data.get? (place + j) = some x ∧
    s.values.getAs? b.type (element * s.stride + j) = some x

/-- An index into a buffer, and the element that it was read for of a source with a place there. -/
structure Buffer.Indexes (b : Buffer) (s : Source) (initial element : Nat) (index : UInt32) :
    Prop where
  holds : b.HoldsElement (initial + element * s.stride) s element
  place_eq : index.toNat * s.stride + initial % s.stride = initial + element * s.stride
  addresses : s.stride ∣ initial → b.HoldsElement (index.toNat * s.stride) s element

/-- The index that is read for a placed source. -/
theorem Source.PlacedFor.indexes {s d : Source} {m : Mesh} {k : DataKind} (h : s.PlacedFor d m k)
    (hloaded : s.loaded = true) (hindexable : s.isIndexable k = true)
    (hsize : (m.buffer k).size < 2 ^ 32) (i : SharedInput) {tuple : Array Nat}
    (hstride : 1 ≤ d.stride) (hraw : (tuple.getD i.offset 0 + 1) * d.stride ≤ d.size) :
    (m.buffer k).Indexes d s.initial (tuple.getD i.offset 0) ((Lane.ofInput i s).read tuple) := by
  generalize hvalue : tuple.getD i.offset 0 = raw at hraw ⊢
  obtain ⟨hfits, hheld⟩ := h.holds hloaded hindexable
  rw [← h.fresh.size_eq] at hfits hheld
  have hholds : (m.buffer k).HoldsElement (s.initial + raw * d.stride) d raw := by
    intro j hj
    have hlt : raw * d.stride + j < d.size := by
      rw [Nat.add_mul, Nat.one_mul] at hraw
      omega
    obtain ⟨x, hx, hx'⟩ := hheld _ hlt
    exact ⟨x, by rwa [Nat.add_assoc], hx'⟩
  -- The buffer ends behind the element, so the index is below its limit and is not cut there.
  have hdivide := Nat.div_add_mod' s.initial d.stride
  have hsum : (raw + s.initial / d.stride) * d.stride ≤ s.initial + d.size := by
    rw [Nat.add_mul] at hraw ⊢
    omega
  have hlimit : raw + s.initial / d.stride ≤ Index.limit := by
    have hle := Nat.le_trans (Nat.le_mul_of_pos_right _ hstride) hsum
    rw [Index.limit]
    omega
  have hread : ((Lane.ofInput i s).read tuple).toNat = raw + s.initial / d.stride := by
    rw [Lane.read, Lane.ofInput, Index.toNat_saturate, Source.correction, h.becomes.stride_eq,
      hvalue, Nat.min_eq_left hlimit]
  have hplace : ((Lane.ofInput i s).read tuple).toNat * d.stride + s.initial % d.stride
      = s.initial + raw * d.stride := by
    rw [hread, Nat.add_mul]
    omega
  refine ⟨hholds, hplace, ?_⟩
  intro hdvd
  rw [Nat.mod_eq_zero_of_dvd hdvd, Nat.add_zero] at hplace
  rwa [hplace]

/-! ## Origins -/

namespace Origin

/-- The usable inputs of an origin read sources that are loaded and found in a table. -/
def FoundIn (o : Origin) (t : SourceTable) : Prop :=
  ∀ k, ∀ u ∈ o.used k, t.find? u.1.sourceId = some u.2 ∧ u.2.loaded = true

/-- The usable inputs of an origin read sources that are loaded and found in a table, as the kind of
    data that the sources are used as. -/
def StemsFrom (o : Origin) (t : SourceTable) (use : String → DataKind) : Prop :=
  ∀ k, ∀ u ∈ o.used k, t.find? u.1.sourceId = some u.2 ∧ u.2.loaded = true
    ∧ use (Text.fragment u.1.sourceId) = k

variable {o : Origin} {use : String → DataKind}

theorem FoundIn.mono {t t' : SourceTable} (h : o.FoundIn t) (hkeeps : t.Keeps t') :
    o.FoundIn t' := by
  intro k u hu
  obtain ⟨hfound, hloaded⟩ := h k u hu
  obtain ⟨s, hs, hb⟩ := hkeeps u.1.sourceId u.2 hfound
  exact ⟨by rw [hs, hb.eq_of_loaded hloaded], hloaded⟩

theorem StemsFrom.foundIn {t : SourceTable} (h : o.StemsFrom t use) : o.FoundIn t :=
  fun k u hu => ⟨(h k u hu).1, (h k u hu).2.1⟩

theorem StemsFrom.mono {t t' : SourceTable} (h : o.StemsFrom t use) (hkeeps : t.Keeps t') :
    o.StemsFrom t' use := by
  intro k u hu
  obtain ⟨hfound, hloaded⟩ := h.foundIn.mono hkeeps k u hu
  exact ⟨hfound, hloaded, (h k u hu).2.2⟩

/-- Reading indices changes neither inputs nor sources. -/
theorem used_next (o : Origin) (a : Assembly) (e : Event) : (o.next a e).used = o.used := by
  cases e with
  | indices kind values =>
      rw [next]
      split
      · split <;> rfl
      · rfl
  | closeRun kind =>
      cases kind with
      | polygon =>
          rw [next]
          split
          · split <;> rfl
          · rfl
      | hole => rfl
  | _ => rfl

theorem mem_used {k : DataKind} {u : SharedInput × Source} (h : u ∈ o.used k) :
    u.1 ∈ o.inputs.inputs ∧ DataKind.ofSemantic? u.1.semantic = some k
      ∧ o.sources.find? u.1.sourceId = some u.2 ∧ u.2.isIndexable k = true := by
  obtain ⟨i, hi, hu⟩ := List.mem_filterMap.mp h
  obtain ⟨s, hs, rfl⟩ := Option.map_eq_some_iff.mp hu
  rw [SourceTable.usable?] at hs
  obtain ⟨hk, hs⟩ := Option.ite_none_right_eq_some.mp hs
  obtain ⟨hfound, hindexable⟩ := Option.filter_eq_some_iff.mp hs
  exact ⟨hi, hk, hfound, hindexable⟩

end Origin

/-- An origin is known by its usable inputs, and what holds of it goes on to hold while the sources
    are kept. -/
structure Origin.IsStable (P : SourceTable → Origin → Prop) : Prop where
  mono : ∀ {t t' : SourceTable} {o : Origin}, P t o → t.Keeps t' → P t' o
  congr : ∀ {t : SourceTable} {o o' : Origin}, P t o → o'.used = o.used → P t o'

theorem Origin.isStable_foundIn : IsStable fun t o => o.FoundIn t where
  mono := fun h hkeeps => h.mono hkeeps
  congr := by
    intro t o o' h hused
    rw [FoundIn, hused]
    exact h

theorem Origin.isStable_stemsFrom (use : String → DataKind) :
    IsStable fun t o => o.StemsFrom t use where
  mono := fun h hkeeps => h.mono hkeeps
  congr := by
    intro t o o' h hused
    rw [StemsFrom, hused]
    exact h

/-- A reader behind the declaration of inputs of the element that was under construction. -/
structure Reader.Resolves (r : Reader) (a : Assembly) (r' : Reader) : Prop where
  current : r.current = some a
  declaring : a.stage = .declaring
  sources_eq : r'.sources = r.settled.sources
  inputs_eq : ∃ b, r'.current = some b ∧ b.inputs = a.inputs

namespace Reader.Resolves

variable {r r' : Reader} {a : Assembly}

theorem mem_inputs (h : r.Resolves a r') {k : DataKind} {u : SharedInput × Source}
    (hu : u ∈ (Origin.declaredBy r').used k) : u.1 ∈ a.inputs.inputs := by
  obtain ⟨b, hb, hinputs⟩ := h.inputs_eq
  rw [← hinputs]
  have hmem := (Origin.mem_used hu).1
  simpa [Origin.declaredBy, hb] using hmem

/-- A primitive behind the declaration of its inputs finds the sources that it resolved. -/
theorem foundIn (h : r.Resolves a r') : (Origin.declaredBy r').FoundIn r'.sources := by
  intro k u hu
  obtain ⟨-, hk, hfound, -⟩ := Origin.mem_used hu
  have hfound' : r'.sources.find? u.1.sourceId = some u.2 := hfound
  refine ⟨hfound', ?_⟩
  rw [h.sources_eq, settled_of_declaring h.current h.declaring] at hfound'
  exact Resolution.loaded_resolveAll _ (h.mem_inputs hu) hk hfound'

/-- It reads them as what they are used as. -/
theorem stemsFrom (h : r.Resolves a r') {use : String → DataKind} (hrefers : r.RefersAs use) :
    (Origin.declaredBy r').StemsFrom r'.sources use := by
  intro k u hu
  obtain ⟨hfound, hloaded⟩ := h.foundIn k u hu
  obtain ⟨-, hk, -, -⟩ := Origin.mem_used hu
  exact ⟨hfound, hloaded, hrefers.inputs a h.current u.1 (h.mem_inputs hu) k hk⟩

end Reader.Resolves

/-! ## Histories -/

namespace History

/-- Something holds of all origins of a history whose inputs are declared, and of its sources. -/
structure Each (h : History) (P : SourceTable → Origin → Prop) : Prop where
  origin : ∀ a, h.reader.current = some a → a.stage ≠ .declaring → P h.reader.sources h.origin
  origins : ∀ o ∈ h.origins, P h.reader.sources o

theorem each_start (id name : String) (P : SourceTable → Origin → Prop) :
    (start id name).Each P where
  origin := fun a ha => absurd ha (by simp [start, Reader.start])
  origins := fun o ho => absurd ho (by simp [start])

/-- What holds of an origin when its inputs are declared holds from then on. -/
theorem Each.next {h : History} {P : SourceTable → Origin → Prop} (hp : h.Each P) (hs : h.Sound)
    (hstable : Origin.IsStable P) {e : Event}
    (hdeclared : ∀ a, h.reader.Resolves a (h.reader.next e) →
      P (h.reader.next e).sources (.declaredBy (h.reader.next e))) : (h.next e).Each P := by
  have hkeeps := h.reader.keeps_next e
  have hsame : ∀ o ∈ h.origins, P (h.reader.next e).sources o :=
    fun o ho => hstable.mono (hp.origins o ho) hkeeps
  refine ⟨?_, ?_⟩
  · intro b hb hstage
    show P (h.reader.next e).sources (h.originNext e)
    rcases hcurrent : h.reader.current with _ | a
    · -- An element that has just opened is still declaring inputs.
      have hready : h.reader.ready e = h.reader := Reader.ready_of_none e hcurrent
      have hb' : (h.reader.next e).current = some b := hb
      rcases hadv : h.reader.advance e with _ | n
      · rw [Reader.next_of_idle hcurrent hadv, hcurrent] at hb'
        exact absurd hb' (by simp)
      · rw [Reader.next_of_some (by rw [hready, hadv])] at hb'
        exact absurd ((Reader.advance_idle hcurrent hadv).2 b hb').stage_eq hstage
    · rw [originNext, hcurrent]
      rcases hs.current a hcurrent with hfresh | htracks
      · rcases (Reader.next_of_fresh hcurrent hfresh e).2 b hb with hfresh' | ⟨hsources, hinputs, -⟩
        · exact absurd hfresh'.stage_eq hstage
        · simp only [hfresh.stage_eq, if_true]
          exact hdeclared a ⟨hcurrent, hfresh.stage_eq, hsources, b, hb, hinputs⟩
      · have hkept := hstable.mono (hp.origin a hcurrent htracks.declared) hkeeps
        simp only [htracks.declared, if_false]
        split
        · exact hstable.congr hkept (Origin.used_next h.origin a e)
        · exact hkept
  · show ∀ o ∈ h.originsNext e, P (h.reader.next e).sources o
    rw [originsNext]
    split
    · next a hcurrent =>
        split
        · next hgrows =>
            intro o ho
            rcases List.mem_append.mp ho with ho | ho
            · exact hsame o ho
            · rw [List.mem_singleton.mp ho]
              -- While inputs are declared no primitive is kept.
              rcases hs.current a hcurrent with hfresh | htracks
              · rw [(Reader.next_of_fresh hcurrent hfresh e).1] at hgrows
                exact absurd hgrows (Nat.lt_irrefl _)
              · have hkept := hstable.mono (hp.origin a hcurrent htracks.declared) hkeeps
                exact hstable.congr hkept rfl
        · exact hsame
    · exact hsame

/-- The sources of a history are placed for the data that they are used as, and all indices stem
    from them. -/
structure Placed (h : History) (use : String → DataKind) : Prop where
  refers : h.reader.RefersAs use
  placed : h.reader.sources.PlacedIn h.declared h.reader.mesh use
  origin : ∀ a, h.reader.current = some a → a.stage ≠ .declaring →
    h.origin.StemsFrom h.reader.sources use
  origins : ∀ o ∈ h.origins, o.StemsFrom h.reader.sources use

variable {h : History} {use : String → DataKind}

theorem placed_start (id name : String) (use : String → DataKind) :
    (start id name).Placed use where
  refers := .start id name use
  placed := ⟨fun _ => Iff.rfl, fun uri s d hs => absurd hs (by simp [start, Reader.start,
    SourceTable.find?, SourceTable.empty])⟩
  origin := fun a ha => absurd ha (by simp [start, Reader.start])
  origins := fun o ho => absurd ho (by simp [start])

theorem Placed.each (hp : h.Placed use) : h.Each fun t o => o.StemsFrom t use :=
  ⟨hp.origin, hp.origins⟩

theorem Placed.each_next (hp : h.Placed use) (hs : h.Sound) (e : Event) :
    (h.next e).Each fun t o => o.StemsFrom t use :=
  hp.each.next hs (Origin.isStable_stemsFrom use) fun _ h => h.stemsFrom hp.refers

theorem declaredNext_eq (h : History) (e : Event) :
    h.declaredNext e = h.declared.adding (e.added? h.reader) := by
  cases e with
  | closeSource =>
      rw [declaredNext, Event.added?]
      cases h.reader.source <;> rfl
  | _ => rfl

/-- **Every event keeps sources and indices placed.** -/
theorem Placed.next (hp : h.Placed use) (hs : h.Sound) {e : Event}
    (hfresh : ∀ s, e = .addSource s → s.IsFresh) (huse : e.RefersAs use) :
    (h.next e).Placed use where
  refers := hp.refers.next huse
  placed := by
    rw [History.next, declaredNext_eq]
    exact hp.placed.next hp.refers hfresh
  origin := (hp.each_next hs e).origin
  origins := (hp.each_next hs e).origins

theorem placed_after (hp : h.Placed use) (hs : h.Sound) (es : List Event)
    (hfresh : ∀ s, .addSource s ∈ es → s.IsFresh) (huse : ∀ e ∈ es, e.RefersAs use) :
    (h.after es).Placed use := by
  induction es generalizing h with
  | nil => exact hp
  | cons e es ih =>
      have hnext := hp.next hs (fun s he => hfresh s (by simp [he])) (huse e (by simp))
      exact ih hnext (hs.next e) (fun s he => hfresh s (by simp [he]))
        fun f hf => huse f (by simp [hf])

end History

/-! ## Finished meshes -/

namespace Origin

/-- The indices of an array were read for an input whose source was declared. Each of them indexes
    the element that the raw value of its tuple names, if the source has that element. -/
def Indexes (o : Origin) (declared : SourceTable) (b : Buffer) (u : SharedInput × Source)
    (indices : Array UInt32) : Prop :=
  ∃ d, declared.find? u.1.sourceId = some d ∧
    List.Forall₂ (fun (tuple : Array Nat) index =>
      1 ≤ d.stride → (tuple.getD u.1.offset 0 + 1) * d.stride ≤ d.size →
        b.Indexes d u.2.initial (tuple.getD u.1.offset 0) index) o.tuples indices.toList

/-- The indices of an array were read for the first usable input, if there is one. -/
def FirstIndexes (o : Origin) (declared : SourceTable) (b : Buffer)
    (us : List (SharedInput × Source)) (indices : Array UInt32) : Prop :=
  match us.head? with
  | some u => o.Indexes declared b u indices
  | none => indices = #[]

/-- Each channel was read for its input, whose source it describes. -/
def EachIndexes (o : Origin) (declared : SourceTable) (b : Buffer)
    (us : List (SharedInput × Source)) (channels : List Channel) : Prop :=
  List.Forall₂ (fun u (c : Channel) => c.name = u.2.id ∧ c.stride = u.2.stride
    ∧ c.initial = u.2.initial ∧ o.Indexes declared b u c.indices) us channels

/-- The usable inputs of a kind, ordered by offset and then by declaration. -/
def usedByOffset (o : Origin) (k : DataKind) : List (SharedInput × Source) :=
  o.sources.usedByOffset k o.inputs.width o.inputs.inputs

end Origin

/-- The index arrays of a primitive with an origin, by the sources as they were declared. -/
structure Primitive.Indexes (o : Origin) (declared : SourceTable) (m : Mesh) (p : Primitive) :
    Prop where
  positions : o.FirstIndexes declared (m.buffer .position) (o.used .position) p.positions
  normals : o.FirstIndexes declared (m.buffer .normal) (o.used .normal) p.normals
  texCoords : o.EachIndexes declared (m.buffer .texCoord) (o.usedByOffset .texCoord) p.texCoords
  colors : o.EachIndexes declared (m.buffer .color) (o.usedByOffset .color) p.colors

namespace History.Placed

variable {h : History} {use : String → DataKind}

theorem indexes (hp : h.Placed use) {o : Origin} (ho : o ∈ h.origins) {k : DataKind}
    (hsize : (h.reader.mesh.buffer k).size < 2 ^ 32) {u : SharedInput × Source}
    (hu : u ∈ o.used k) :
    o.Indexes h.declared (h.reader.mesh.buffer k) u
      (o.tuples.map (Lane.ofInput u.1 u.2).read).toArray := by
  obtain ⟨hfound, hloaded, huse⟩ := hp.origins o ho k u hu
  obtain ⟨-, -, -, hindexable⟩ := Origin.mem_used hu
  rcases hd : h.declared.find? u.1.sourceId with _ | d
  · rw [(hp.placed.found _).mpr hd] at hfound
    exact absurd hfound (by simp)
  · have hplaced := hp.placed.placed _ _ _ hfound hd
    rw [huse] at hplaced
    refine ⟨d, hd, ?_⟩
    rw [List.forall₂_map_right_iff, List.forall₂_same]
    exact fun tuple _ => hplaced.indexes hloaded hindexable hsize u.1

theorem firstIndexes (hp : h.Placed use) {o : Origin} (ho : o ∈ h.origins) {k : DataKind}
    (hsize : (h.reader.mesh.buffer k).size < 2 ^ 32) :
    o.FirstIndexes h.declared (h.reader.mesh.buffer k) (o.used k)
      (Layout.column ((o.used k).head?.map fun u => .ofInput u.1 u.2) o.tuples) := by
  rw [Origin.FirstIndexes]
  rcases hu : (o.used k).head? with _ | u
  · rfl
  · exact hp.indexes ho hsize (List.mem_of_mem_head? hu)

theorem eachIndexes (hp : h.Placed use) {o : Origin} (ho : o ∈ h.origins) {k : DataKind}
    (hsize : (h.reader.mesh.buffer k).size < 2 ^ 32) :
    o.EachIndexes h.declared (h.reader.mesh.buffer k) (o.usedByOffset k)
      ((ChannelLane.byOffset o.inputs.width
        ((o.used k).map fun u => .ofInput u.1 u.2)).map (·.fill o.tuples)) := by
  have hordered := o.sources.byOffset_used k o.inputs.width o.inputs.inputs
  rw [Origin.used, hordered, Origin.EachIndexes, List.map_map, List.forall₂_map_right_iff,
    Origin.usedByOffset, List.forall₂_same]
  intro u hu
  exact ⟨rfl, rfl, rfl,
    hp.indexes ho hsize (o.sources.mem_used_of_mem_usedByOffset k hu)⟩

end History.Placed

/-- **Indices address their elements** in every mesh that is read from fresh sources, each of which
    is used as one kind of data, as far as the stride of a source divides its place. In any case an
    index is short of its element by the remainder. -/
theorem Reader.indexes_of_finish (id name : String) (es : List Event)
    (hfresh : ∀ s, .addSource s ∈ es → s.IsFresh)
    (hkind : ∀ x ∈ es.filterMap Event.reference?, ∀ y ∈ es.filterMap Event.reference?,
      x.2 = y.2 → x.1 = y.1)
    (hsize : ∀ k, (((Reader.start id name).after es).finish.value.buffer k).size < 2 ^ 32) :
    List.Forall₂
      (fun o p => Primitive.Indexes o ((History.start id name).after es).declared
        ((Reader.start id name).after es).finish.value p)
      ((History.start id name).after es).origins
      ((Reader.start id name).after es).finish.value.primitives.toList := by
  -- The kind of the first reference to a source is that of all of them.
  let use (id : String) : DataKind :=
    (((es.filterMap Event.reference?).find? (·.2 == id)).map (·.1)).getD .position
  have huse : ∀ e ∈ es, e.RefersAs use := by
    intro e he k uri href
    have hmem : (k, uri) ∈ es.filterMap Event.reference? := List.mem_filterMap.mpr ⟨e, he, href⟩
    rcases hfound : (es.filterMap Event.reference?).find? (·.2 == uri) with _ | x
    · exact absurd (List.find?_eq_none.mp hfound _ hmem) (by simp)
    · have hid : x.2 = uri := by simpa using List.find?_some hfound
      have hx := hkind x (List.mem_of_find?_eq_some hfound) _ hmem hid
      simp only [use, hfound, Option.map_some, Option.getD_some]
      exact hx
  have hstart := History.sound_start id name
  have hplaced := History.placed_after (History.placed_start id name use) hstart es hfresh huse
  have hmakes := (List.forall₂_and_left _ _).mpr
    ⟨fun o ho => ho, (History.sound_after hstart es).makes⟩
  have hmesh : ((History.start id name).after es).reader.mesh
      = ((Reader.start id name).after es).finish.value := by
    rw [History.reader_after, finish_value]
    rfl
  rw [← hmesh] at hsize ⊢
  refine hmakes.imp ?_
  intro o p hop
  obtain ⟨ho, hmakes⟩ := hop
  have hfill := hmakes.fill_eq
  refine ⟨?_, ?_, ?_, ?_⟩
  · rw [← congrArg Primitive.positions hfill]
    exact hplaced.firstIndexes ho (hsize .position)
  · rw [← congrArg Primitive.normals hfill]
    exact hplaced.firstIndexes ho (hsize .normal)
  · rw [← congrArg Primitive.texCoords hfill]
    exact hplaced.eachIndexes ho (hsize .texCoord)
  · rw [← congrArg Primitive.colors hfill]
    exact hplaced.eachIndexes ho (hsize .color)

/-- A triangle with texture coordinates of stride 3 and then, in the same buffer, of stride 2. -/
def Event.mixedStrides : List Event :=
  [.addSource (.fresh "p" (.float (.replicate 9 ⟨0⟩)) 3),
    .addSource (.fresh "uvw" (.float #[⟨0x3f800000⟩, ⟨0x40000000⟩, ⟨0⟩]) 3),
    .addSource (.fresh "uv" (.float #[⟨0x3f800000⟩, ⟨0x40000000⟩]) 2),
    .openPrimitive .triangles none, .input ⟨.position, "#p", 0, 0⟩,
    .input ⟨.texCoord, "#uvw", 1, 0⟩, .input ⟨.uv, "#uv", 1, 1⟩, .openRun .polygon,
    .indices .polygon [0, 0, 1, 0, 2, 0], .closeRun .polygon, .closePrimitive]

theorem Event.isFresh_of_mixedStrides (s : Source) (h : .addSource s ∈ Event.mixedStrides) :
    s.IsFresh := by
  simp only [mixedStrides, List.mem_cons, addSource.injEq, List.not_mem_nil, or_false,
    reduceCtorEq] at h
  rcases h with rfl | rfl | rfl <;> exact ⟨rfl, by decide⟩

/-- The elements of all sources of `mixedStrides` stand at their places. -/
theorem Reader.indexes_of_finish_mixedStrides :
    (∀ s, .addSource s ∈ Event.mixedStrides → s.IsFresh)
    ∧ (∀ x ∈ Event.mixedStrides.filterMap Event.reference?,
        ∀ y ∈ Event.mixedStrides.filterMap Event.reference?, x.2 = y.2 → x.1 = y.1)
    ∧ (∀ k, (((Reader.start "mesh" "").after Event.mixedStrides).finish.value.buffer k).size
        < 2 ^ 32)
    ∧ List.Forall₂
        (fun o p => Primitive.Indexes o
          ((History.start "mesh" "").after Event.mixedStrides).declared
          ((Reader.start "mesh" "").after Event.mixedStrides).finish.value p)
        ((History.start "mesh" "").after Event.mixedStrides).origins
        ((Reader.start "mesh" "").after Event.mixedStrides).finish.value.primitives.toList := by
  have hkind : ∀ x ∈ Event.mixedStrides.filterMap Event.reference?,
      ∀ y ∈ Event.mixedStrides.filterMap Event.reference?, x.2 = y.2 → x.1 = y.1 := by
    decide +kernel
  have hsize : ∀ k, (((Reader.start "mesh" "").after Event.mixedStrides).finish.value.buffer k).size
      < 2 ^ 32 := by
    intro k
    cases k <;> decide +kernel
  exact ⟨Event.isFresh_of_mixedStrides, hkind, hsize,
    Reader.indexes_of_finish "mesh" "" _ Event.isFresh_of_mixedStrides hkind hsize⟩

/-- The second channel of `mixedStrides` was read from raw values zero for a source whose place is
    no multiple of its stride. Its index is the place between the first element and the second,
    where the scalars are not those of the element. -/
theorem Reader.not_addresses_of_mixedStrides :
    let h := (History.start "mesh" "").after Event.mixedStrides
    let m := ((Reader.start "mesh" "").after Event.mixedStrides).finish.value
    let uv : Source := .fresh "uv" (.float #[⟨0x3f800000⟩, ⟨0x40000000⟩]) 2
    (∀ s, .addSource s ∈ Event.mixedStrides → s.IsFresh)
    ∧ (∀ x ∈ Event.mixedStrides.filterMap Event.reference?,
        ∀ y ∈ Event.mixedStrides.filterMap Event.reference?, x.2 = y.2 → x.1 = y.1)
    ∧ (∀ k, (m.buffer k).size < 2 ^ 32)
    ∧ h.declared.find? "uv" = some uv
    ∧ h.origins.map (·.tuples) = [[#[0, 0], #[1, 0], #[2, 0]]]
    ∧ m.primitives.toList.map (·.texCoords)
        = [[⟨"uvw", 0, 3, 0, #[0, 0, 0]⟩, ⟨"uv", 1, 2, 3, #[1, 1, 1]⟩]]
    ∧ (1 ≤ uv.stride ∧ (0 + 1) * uv.stride ≤ uv.size)
    ∧ ¬ m.texCoords.HoldsElement (1 * uv.stride) uv 0 := by
  intro h m uv
  refine ⟨Event.isFresh_of_mixedStrides, by decide +kernel, fun k => by cases k <;> decide +kernel,
    by decide +kernel, by decide +kernel, by decide +kernel, by decide, fun hholds => ?_⟩
  obtain ⟨x, hx, hx'⟩ := hholds 0 (by decide)
  have hne : m.texCoords.data.get? (1 * uv.stride + 0)
      ≠ uv.values.getAs? m.texCoords.type (0 * uv.stride + 0) := by decide +kernel
  exact hne (hx.trans hx'.symm)

end MeshWeave
