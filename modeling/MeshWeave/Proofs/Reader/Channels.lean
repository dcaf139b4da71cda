import MeshWeave.Proofs.Mesh.Concatenation
import MeshWeave.Proofs.Reader.Addressing

set_option autoImplicit false

/-! # Channels and the sources that buffers list

A channel names its source, with its stride and the place of its first scalar. That is of use only
if the buffer of the channel's kind of data lists the source there: `Buffer.Lists` says that the
contributions listed before it are as long together as the place is far.

A source is merged once, as the kind of data that the first reference to it asks for, or is refused
as that. Later references find it loaded and index it as what they ask for. So a channel is listed
just if the first reference to its source was one to data of the channel's kind, and the log of all
references, which the reader forgets, decides about every channel of a mesh. -/

namespace MeshWeave

/-! ## Listed contributions -/

/-- A buffer lists a source of a name and a stride, behind contributions that are as long together
    as the source's place. -/
def Buffer.Lists (b : Buffer) (name : String) (stride initial : Nat) : Prop :=
  ∃ before length behind, b.segments.toList = before ++ ⟨name, stride, length⟩ :: behind
    ∧ initial = total (before.map (·.length))

namespace Buffer.Lists

variable {b b' : Buffer} {name : String} {stride initial : Nat}

/-- Contributions that are listed behind change nothing. -/
theorem of_grows (h : b.Lists name stride initial)
    (hgrows : b.segments.toList <+: b'.segments.toList) : b'.Lists name stride initial := by
  obtain ⟨before, length, behind, hsegments, hinitial⟩ := h
  obtain ⟨more, hmore⟩ := hgrows
  refine ⟨before, length, behind ++ more, ?_, hinitial⟩
  rw [← hmore, hsegments]
  simp

theorem exists_segment (h : b.Lists name stride initial) :
    ∃ seg ∈ b.segments.toList, seg.name = name := by
  obtain ⟨before, length, behind, hsegments, -⟩ := h
  refine ⟨⟨name, stride, length⟩, ?_, rfl⟩
  rw [hsegments]
  simp

end Buffer.Lists

/-! ## The first reference to a source -/

/-- The kind of data that the first reference to a source asks for. -/
def firstKind? (refs : List (DataKind × String)) (id : String) : Option DataKind :=
  (refs.find? (·.2 == id)).map (·.1)

/-- One more reference decides about its source if none before it does. -/
theorem firstKind?_concat (refs : List (DataKind × String)) (x : DataKind × String) (id : String) :
    firstKind? (refs ++ [x]) id = (firstKind? refs id).or (if x.2 = id then some x.1 else none) := by
  have hlast : firstKind? [x] id = if x.2 = id then some x.1 else none := by
    by_cases hid : x.2 = id <;> simp [firstKind?, hid]
  rw [← hlast]
  unfold firstKind?
  rw [List.find?_append, Option.map_or]

/-- A source without a first reference was not referred to. -/
theorem firstKind?_eq_none_iff (refs : List (DataKind × String)) (id : String) :
    firstKind? refs id = none ↔ ∀ x ∈ refs, x.2 ≠ id := by
  unfold firstKind?
  rw [Option.map_eq_none_iff, List.find?_eq_none]
  simp

/-- A reference to a source that was referred to before decides nothing. -/
theorem firstKind?_concat_of_some {refs : List (DataKind × String)} {x : DataKind × String}
    {k : DataKind} (hx : firstKind? refs x.2 = some k) :
    firstKind? (refs ++ [x]) = firstKind? refs := by
  funext id
  rw [firstKind?_concat]
  by_cases hid : x.2 = id
  · rw [← hid, hx, Option.some_or]
  · rw [if_neg hid, Option.or_none]

/-- The references of inputs to the sources of a table, in order. -/
def SourceTable.references (t : SourceTable) (is : List SharedInput) :
    List (DataKind × String) :=
  is.filterMap fun i =>
    if (t.find? i.sourceId).isSome then
      (DataKind.ofSemantic? i.semantic).map (·, Text.fragment i.sourceId)
    else none

/-- Resolving an input hides no source and declares none, so it does not matter when it happens. -/
theorem Resolution.references_resolve (r : Resolution) (i : SharedInput) (is : List SharedInput) :
    r.sources.references [i] ++ (r.resolve i).value.sources.references is
      = r.sources.references (i :: is) := by
  have hfound (uri : String) :
      ((r.resolve i).value.sources.find? uri).isSome = (r.sources.find? uri).isSome := by
    rcases h : r.sources.find? uri with _ | s
    · rw [r.find?_resolve_of_none i uri h]
    · obtain ⟨s', hs', -⟩ := r.keeps_resolve i uri s h
      rw [hs']
      rfl
  unfold SourceTable.references
  simp only [hfound]
  rw [← List.filterMap_append, List.singleton_append]

/-! ## What the log knows -/

/-- A log of references is to sources of a table only. -/
def SourceTable.Knows (t : SourceTable) (refs : List (DataKind × String)) : Prop :=
  ∀ x ∈ refs, ∃ uri, Text.fragment uri = x.2 ∧ (t.find? uri).isSome = true

namespace SourceTable.Knows

variable {t : SourceTable} {refs : List (DataKind × String)}

theorem concat (h : t.Knows refs) {uri : String} {s : Source} (hs : t.find? uri = some s)
    (k : DataKind) : t.Knows (refs ++ [(k, Text.fragment uri)]) := by
  intro x hx
  rcases List.mem_append.mp hx with hx | hx
  · exact h x hx
  · rw [List.mem_singleton.mp hx]
    exact ⟨uri, rfl, by simp [hs]⟩

theorem of_keeps {t' : SourceTable} (h : t.Knows refs) (hkeeps : t.Keeps t') : t'.Knows refs := by
  intro x hx
  obtain ⟨uri, huri, hfound⟩ := h x hx
  obtain ⟨s, hs⟩ := Option.isSome_iff_exists.mp hfound
  obtain ⟨s', hs', -⟩ := hkeeps uri s hs
  exact ⟨uri, huri, by simp [hs']⟩

/-- No reference is to a source that is not there. -/
theorem firstKind?_eq_none (h : t.Knows refs) {uri : String} (hnone : t.find? uri = none) :
    firstKind? refs (Text.fragment uri) = none := by
  rw [firstKind?_eq_none_iff]
  intro x hx hid
  obtain ⟨uri', huri', hfound⟩ := h x hx
  rw [t.find?_congr (huri'.trans hid), hnone] at hfound
  exact absurd hfound (by simp)

end SourceTable.Knows

/-- The buffers of a mesh list all their scalars, as contributions of sources whose first reference
    is to data of their kind. -/
structure Mesh.ListsFirst (m : Mesh) (refs : List (DataKind × String)) : Prop where
  size_eq : ∀ k, k.hasSegments = true →
    (m.buffer k).size = total ((m.buffer k).segments.toList.map (·.length))
  first : ∀ k, ∀ seg ∈ (m.buffer k).segments.toList, firstKind? refs seg.name = some k

namespace Mesh.ListsFirst

variable {m : Mesh} {refs : List (DataKind × String)}

theorem start (id name : String) : (empty id name).ListsFirst [] where
  size_eq := fun k _ => by cases k <;> rfl
  first := fun k seg hseg => absurd hseg (by cases k <;> simp [buffer, empty, Buffer.empty])

theorem of_firstKind?_eq {refs' : List (DataKind × String)} (h : m.ListsFirst refs)
    (hsame : firstKind? refs' = firstKind? refs) : m.ListsFirst refs' :=
  ⟨h.size_eq, hsame ▸ h.first⟩

/-- Merging a source as what its first reference asks for, or refusing it. -/
theorem mergeKind (h : m.ListsFirst refs) {s : Source} (hs : s.IsFresh)
    (hfirst : firstKind? refs s.id = none) (k : DataKind) :
    (m.mergeKind s k).value.mesh.ListsFirst (refs ++ [(k, s.id)]) := by
  have hsome {id : String} {k' : DataKind} (hk' : firstKind? refs id = some k') :
      firstKind? (refs ++ [(k, s.id)]) id = some k' := by
    rw [firstKind?_concat, hk', Option.some_or]
  constructor
  · intro k' hk'
    rcases m.buffer_mergeKind_eq_or s k k' with hbuffer | ⟨rfl, hnone⟩
    · rw [hbuffer]
      exact h.size_eq k' hk'
    · rw [m.size_mergeKind hs hnone, m.segments_mergeKind hnone, if_pos hk', h.size_eq k' hk']
      simp [Source.segment]
  · intro k' seg hseg
    rcases m.buffer_mergeKind_eq_or s k k' with hbuffer | ⟨rfl, hnone⟩
    · rw [hbuffer] at hseg
      exact hsome (h.first k' seg hseg)
    · rw [m.segments_mergeKind hnone] at hseg
      rcases List.mem_append.mp hseg with hseg | hseg
      · exact hsome (h.first k' seg hseg)
      · obtain ⟨-, hseg⟩ := List.mem_ite_nil_right.mp hseg
        rw [List.mem_singleton.mp hseg, firstKind?_concat, Source.segment, hfirst, Option.none_or,
          if_pos rfl]

end Mesh.ListsFirst

/-- What the first reference to a source says about it. Without one it is fresh. Otherwise it is
    loaded, and listed as data of that kind, if it can be indexed as such and buffers of the kind
    list anything. -/
structure Source.ListedFor (s : Source) (m : Mesh) (first : Option DataKind) : Prop where
  fresh : first = none → s.IsFresh
  loaded : first ≠ none → s.loaded = true
  lists : ∀ k, first = some k → k.hasSegments = true → s.isIndexable k = true →
    (m.buffer k).Lists s.id s.stride s.initial

namespace Source.ListedFor

variable {s : Source} {m : Mesh}

theorem of_isFresh (hs : s.IsFresh) (m : Mesh) : s.ListedFor m none where
  fresh := fun _ => hs
  loaded := fun hne => absurd rfl hne
  lists := fun k hk => absurd hk (by simp)

theorem of_grows {m' : Mesh} {first : Option DataKind} (h : s.ListedFor m first)
    (hgrows : ∀ k, (m.buffer k).segments.toList <+: (m'.buffer k).segments.toList) :
    s.ListedFor m' first where
  fresh := h.fresh
  loaded := h.loaded
  lists := fun k hk hsegments hs => (h.lists k hk hsegments hs).of_grows (hgrows k)

/-- Merging a source as what its first reference asks for, or refusing it. -/
theorem mergeKind (hs : s.IsFresh) (k : DataKind)
    (hsize : k.hasSegments = true →
      (m.buffer k).size = total ((m.buffer k).segments.toList.map (·.length))) :
    (m.mergeKind s k).value.source.ListedFor (m.mergeKind s k).value.mesh (some k) := by
  have hbecomes := m.becomes_mergeKind s k
  refine ⟨fun hnone => absurd hnone (by simp), fun _ => m.loaded_mergeKind s k, ?_⟩
  intro k' hk' hsegments hindexable
  obtain rfl := Option.some.inj hk'
  rw [hbecomes.isIndexable_eq k] at hindexable
  -- A source that can be indexed is not refused, and goes to the end of the buffer.
  have hnone := Mesh.refusal?_of_isIndexable hindexable hs.loaded_eq
  have hlisted := m.segments_mergeKind hnone
  rw [if_pos hsegments] at hlisted
  refine ⟨(m.buffer k).segments.toList, s.size, [], ?_, ?_⟩
  · rw [hlisted, hbecomes.id_eq, hbecomes.stride_eq]
    rfl
  · rw [m.initial_mergeKind s hnone]
    exact hsize hsegments

end Source.ListedFor

/-! ## Tables whose sources are listed -/

/-- A table and a mesh are as a log of references says: every source by its first reference, and the
    buffers list nothing else. -/
structure SourceTable.ListedIn (t : SourceTable) (m : Mesh) (refs : List (DataKind × String)) :
    Prop where
  known : t.Knows refs
  buffers : m.ListsFirst refs
  sources : ∀ uri s, t.find? uri = some s → s.ListedFor m (firstKind? refs s.id)

namespace SourceTable.ListedIn

variable {t : SourceTable} {m : Mesh} {refs : List (DataKind × String)}

theorem start (id name : String) : empty.ListedIn (.empty id name) [] where
  known := fun x hx => absurd hx (by simp)
  buffers := .start id name
  sources := fun uri s hs => absurd hs (by simp [find?, empty])

theorem of_buffer_eq {m' : Mesh} (h : t.ListedIn m refs) (hbuffer : m'.buffer = m.buffer) :
    t.ListedIn m' refs where
  known := h.known
  buffers := ⟨hbuffer ▸ h.buffers.size_eq, hbuffer ▸ h.buffers.first⟩
  sources := fun uri s hs => (h.sources uri s hs).of_grows fun _ => hbuffer ▸ List.prefix_rfl

/-- A source that is added was not referred to, as no reference to it could find it. -/
theorem add (h : t.ListedIn m refs) {s : Source} (hs : s.IsFresh) :
    (t.add s).value.ListedIn m refs where
  known := h.known.of_keeps (t.keeps_add s)
  buffers := h.buffers
  sources := by
    intro uri x hx
    rw [find?_add] at hx
    rcases hfound : t.find? uri with _ | found
    · rw [hfound, Option.none_or] at hx
      obtain ⟨⟨hid, -⟩, hx⟩ := Option.ite_none_right_eq_some.mp hx
      obtain rfl := Option.some.inj hx
      rw [hid, h.known.firstKind?_eq_none hfound]
      exact .of_isFresh hs m
    · rw [hfound, Option.some_or] at hx
      obtain rfl := Option.some.inj hx
      exact h.sources uri found hfound

theorem adding (h : t.ListedIn m refs) {added : Option Source}
    (hadded : ∀ s, added = some s → s.IsFresh) : (t.adding added).ListedIn m refs := by
  cases added with
  | none => exact h
  | some s => exact h.add (hadded s rfl)

/-- A source that was referred to before is not merged, as whatever it is referred to now. -/
theorem mergeKind_of_some (h : t.ListedIn m refs) {uri : String} {s : Source}
    (hs : t.find? uri = some s) {first : DataKind} (hfirst : firstKind? refs s.id = some first)
    (k : DataKind) :
    (t.put uri (m.mergeKind s k).value.source).ListedIn (m.mergeKind s k).value.mesh
      (refs ++ [(k, Text.fragment uri)]) := by
  have hloaded := (h.sources uri s hs).loaded (by simp [hfirst])
  have hsame := (m.becomes_mergeKind s k).eq_of_loaded hloaded
  have hnothing : firstKind? (refs ++ [(k, Text.fragment uri)]) = firstKind? refs := by
    rw [find?_id hs] at hfirst
    exact firstKind?_concat_of_some (x := (k, Text.fragment uri)) hfirst
  rw [hsame, put_self hs, m.mergeKind_of_refusal s (Mesh.refusal?_of_loaded k s hloaded)]
  exact ⟨h.known.concat hs k, h.buffers.of_firstKind?_eq hnothing, hnothing ▸ h.sources⟩

/-- A source that was not referred to before is merged or refused as what it is referred to now. -/
theorem mergeKind_of_none (h : t.ListedIn m refs) {uri : String} {s : Source}
    (hs : t.find? uri = some s) (hfirst : firstKind? refs s.id = none) (k : DataKind) :
    (t.put uri (m.mergeKind s k).value.source).ListedIn (m.mergeKind s k).value.mesh
      (refs ++ [(k, Text.fragment uri)]) := by
  have hid := find?_id hs
  have hfresh := (h.sources uri s hs).fresh hfirst
  have hbecomes := m.becomes_mergeKind s k
  refine ⟨(h.known.concat hs k).of_keeps (t.keeps_put uri s _ hs hbecomes), ?_, ?_⟩
  · rw [← hid]
    exact h.buffers.mergeKind hfresh hfirst k
  · intro uri' x hx
    rw [find?_put _ _ _ _ (hbecomes.id_eq.trans hid)] at hx
    rw [firstKind?_concat]
    split at hx
    · rw [hs] at hx
      obtain rfl := Option.some.inj hx
      rw [hbecomes.id_eq, hfirst, Option.none_or, if_pos hid.symm]
      exact .mergeKind hfresh k (h.buffers.size_eq k)
    · next hne =>
        rw [if_neg (by rw [find?_id hx]; exact Ne.symm hne), Option.or_none]
        exact (h.sources uri' x hx).of_grows (m.segments_prefix_mergeKind s k)

theorem resolve {r : Resolution} (h : r.sources.ListedIn r.mesh refs) (i : SharedInput) :
    (r.resolve i).value.sources.ListedIn (r.resolve i).value.mesh
      (refs ++ r.sources.references [i]) := by
  rcases hfound : r.sources.find? i.sourceId with _ | s
  · rw [r.resolve_of_none i hfound]
    simpa [references, hfound] using h
  · rcases hk : DataKind.ofSemantic? i.semantic with _ | k
    · rw [r.resolve_of_some i hfound, r.mesh.merge_of_none s hk, put_self hfound]
      simpa [references, hk] using h
    · have hrefs : r.sources.references [i] = [(k, Text.fragment i.sourceId)] := by
        simp [references, hfound, hk]
      rw [r.resolve_of_some i hfound, r.mesh.merge_of_kind s hk, hrefs]
      rcases hfirst : firstKind? refs s.id with _ | first
      · exact h.mergeKind_of_none hfound hfirst k
      · exact h.mergeKind_of_some hfound hfirst k

theorem resolveAll {r : Resolution} (h : r.sources.ListedIn r.mesh refs) (is : List SharedInput) :
    (r.resolveAll is).value.sources.ListedIn (r.resolveAll is).value.mesh
      (refs ++ r.sources.references is) := by
  induction is generalizing r refs with
  | nil =>
      rw [references, List.filterMap_nil, List.append_nil]
      exact h
  | cons i is ih =>
      have hstep := ih (h.resolve i)
      rw [List.append_assoc, r.references_resolve] at hstep
      exact hstep

end SourceTable.ListedIn

/-! ## The references of a run -/

namespace Reader

/-- The references that an event resolves: those of all inputs, if it ends their declaration. -/
def resolvedBy (r : Reader) (e : Event) : List (DataKind × String) :=
  match r.current with
  | some a => if a.IsEndedBy e then r.sources.references a.inputs.inputs else []
  | none => []

/-- The references that are resolved while events are read, in order. -/
def resolved : Reader → List Event → List (DataKind × String)
  | _, [] => []
  | r, e :: es => r.resolvedBy e ++ resolved (r.next e) es

end Reader

namespace SourceTable.ListedIn

variable {r : Reader} {refs : List (DataKind × String)}

theorem before (h : r.sources.ListedIn r.mesh refs) (e : Event) :
    (r.before e).sources.ListedIn (r.before e).mesh (refs ++ r.resolvedBy e) := by
  rw [Reader.resolvedBy]
  rcases hcurrent : r.current with _ | a
  · rw [Reader.before_of_none e hcurrent]
    simpa using h
  · by_cases hends : a.IsEndedBy e
    · rw [Reader.before_of_ends hcurrent hends, Reader.settled_of_declaring hcurrent hends.1]
      simp only [if_pos hends]
      exact resolveAll (r := ⟨r.mesh, r.sources, .unused a.inputs.width⟩) h a.inputs.inputs
    · rw [Reader.before_of_not_ends hcurrent hends]
      simpa [if_neg hends] using h

/-- **Every event keeps sources listed** by the buffers of what they were first referred to as. -/
theorem next (h : r.sources.ListedIn r.mesh refs) (hr : r.HoldsFresh) {e : Event}
    (he : ∀ s, e = .addSource s → s.IsFresh) :
    (r.next e).sources.ListedIn (r.next e).mesh (refs ++ r.resolvedBy e) := by
  have hd := r.declares_next e
  have hadded := (h.before e).adding fun s => (hr.before e).isFresh_added he
  rw [← hd.sources_eq] at hadded
  exact hadded.of_buffer_eq hd.buffer_eq

end SourceTable.ListedIn

/-! ## Histories -/

namespace History

/-- The sources of a history are listed by the references that were resolved, and indices were read
    for sources that are found. -/
structure Listed (h : History) (refs : List (DataKind × String)) : Prop where
  holdsFresh : h.reader.HoldsFresh
  listedIn : h.reader.sources.ListedIn h.reader.mesh refs
  each : h.Each fun t o => o.FoundIn t

theorem listed_start (id name : String) : (start id name).Listed [] where
  holdsFresh := Reader.holdsFresh_start id name
  listedIn := SourceTable.ListedIn.start id _
  each := each_start id name _

variable {h : History} {refs : List (DataKind × String)}

theorem Listed.next (hl : h.Listed refs) (hs : h.Sound) {e : Event}
    (he : ∀ s, e = .addSource s → s.IsFresh) :
    (h.next e).Listed (refs ++ h.reader.resolvedBy e) where
  holdsFresh := hl.holdsFresh.next e
  listedIn := hl.listedIn.next hl.holdsFresh he
  each := hl.each.next hs Origin.isStable_foundIn fun _ h => h.foundIn

theorem Listed.after (hl : h.Listed refs) (hs : h.Sound) (es : List Event)
    (hfresh : ∀ s, .addSource s ∈ es → s.IsFresh) :
    (h.after es).Listed (refs ++ h.reader.resolved es) := by
  induction es generalizing h refs with
  | nil =>
      rw [Reader.resolved, List.append_nil]
      exact hl
  | cons e es ih =>
      have hnext := hl.next (e := e) hs fun s he => hfresh s (by simp [he])
      rw [Reader.resolved, ← List.append_assoc]
      exact ih hnext (hs.next e) fun s he => hfresh s (by simp [he])

/-- The source of a usable input is listed just if it was first referred to as the same kind of
    data. -/
theorem Listed.lists_iff (hl : h.Listed refs) {o : Origin} (ho : o ∈ h.origins) {k : DataKind}
    (hk : k.hasSegments = true) {u : SharedInput × Source} (hu : u ∈ o.used k) :
    (h.reader.mesh.buffer k).Lists u.2.id u.2.stride u.2.initial
      ↔ firstKind? refs u.2.id = some k := by
  obtain ⟨hfound, -⟩ := hl.each.origins o ho k u hu
  obtain ⟨-, -, -, hindexable⟩ := Origin.mem_used hu
  constructor
  · intro hlists
    obtain ⟨seg, hseg, hname⟩ := hlists.exists_segment
    rw [← hname]
    exact hl.listedIn.buffers.first k seg hseg
  · intro hfirst
    exact (hl.listedIn.sources u.1.sourceId u.2 hfound).lists k hfirst hk hindexable

end History

/-! ## Finished meshes -/

/-- A channel of a primitive describes the source of a usable input. -/
theorem Origin.Makes.channels {o : Origin} {p : Primitive} (h : o.Makes p) (c : Channel) :
    (c ∈ p.texCoords → ∃ u ∈ o.used .texCoord,
      c.name = u.2.id ∧ c.stride = u.2.stride ∧ c.initial = u.2.initial)
    ∧ (c ∈ p.colors → ∃ u ∈ o.used .color,
      c.name = u.2.id ∧ c.stride = u.2.stride ∧ c.initial = u.2.initial) := by
  constructor
  · intro hc
    rw [← congrArg Primitive.texCoords h.fill_eq] at hc
    obtain ⟨lane, hlane, rfl⟩ := List.mem_map.mp hc
    obtain ⟨i, s, hu, rfl, -⟩ := Layout.mem_ofInputs.1 hlane
    exact ⟨(i, s), hu, rfl, rfl, rfl⟩
  · intro hc
    rw [← congrArg Primitive.colors h.fill_eq] at hc
    obtain ⟨lane, hlane, rfl⟩ := List.mem_map.mp hc
    obtain ⟨i, s, hu, rfl, -⟩ := Layout.mem_ofInputs.2 hlane
    exact ⟨(i, s), hu, rfl, rfl, rfl⟩

/-- **Channels point into the buffers that list their sources** just if the first reference to the
    source that was resolved, in this or any other primitive, was one to data of the channel's
    kind. -/
theorem Reader.lists_of_finish (id name : String) (es : List Event)
    (hfresh : ∀ s, .addSource s ∈ es → s.IsFresh) :
    let m := ((start id name).after es).finish.value
    let refs := (start id name).resolved es
    ∀ p ∈ m.primitives,
      (∀ c ∈ p.texCoords, m.texCoords.Lists c.name c.stride c.initial
        ↔ firstKind? refs c.name = some .texCoord)
      ∧ ∀ c ∈ p.colors, m.colors.Lists c.name c.stride c.initial
        ↔ firstKind? refs c.name = some .color := by
  intro m refs p hp
  have hstart := History.sound_start id name
  have hlisted := (History.listed_start id name).after hstart es hfresh
  have hmesh : m = ((History.start id name).after es).reader.mesh := by
    rw [History.reader_after]
    exact finish_value _
  rw [hmesh] at hp ⊢
  obtain ⟨o, ho, hmakes⟩ := (History.sound_after hstart es).exists_makes hp
  constructor
  · intro c hc
    obtain ⟨u, hu, hname, hstride, hinitial⟩ := (hmakes.channels c).1 hc
    rw [hname, hstride, hinitial]
    exact hlisted.lists_iff ho rfl hu
  · intro c hc
    obtain ⟨u, hu, hname, hstride, hinitial⟩ := (hmakes.channels c).2 hc
    rw [hname, hstride, hinitial]
    exact hlisted.lists_iff ho rfl hu

/-- A triangle that reads one source as texture coordinates and as colors. -/
def Event.sharedSource : List Event :=
  [.addSource (.fresh "p" (.float (.replicate 9 ⟨0⟩)) 3),
    .addSource (.fresh "s" (.float #[⟨0x3f800000⟩, ⟨0⟩, ⟨0⟩]) 3),
    .openPrimitive .triangles none, .input ⟨.position, "#p", 0, 0⟩,
    .input ⟨.texCoord, "#s", 1, 0⟩, .input ⟨.color, "#s", 1, 0⟩, .openRun .polygon,
    .indices .polygon [0, 0, 1, 0, 2, 0], .closeRun .polygon, .closePrimitive]

theorem Event.isFresh_of_sharedSource (s : Source) (h : .addSource s ∈ Event.sharedSource) :
    s.IsFresh := by
  simp only [sharedSource, List.mem_cons, addSource.injEq, List.not_mem_nil, or_false,
    reduceCtorEq] at h
  rcases h with rfl | rfl <;> exact ⟨rfl, by decide⟩

/-- The source of `sharedSource` is first referred to as texture coordinates. -/
theorem Reader.lists_of_finish_sharedSource :
    let m := ((Reader.start "mesh" "").after Event.sharedSource).finish.value
    let refs := (Reader.start "mesh" "").resolved Event.sharedSource
    (∀ s, .addSource s ∈ Event.sharedSource → s.IsFresh)
    ∧ refs = [(.position, "p"), (.texCoord, "s"), (.color, "s")]
    ∧ m.primitives.size = 1
    ∧ ∀ p ∈ m.primitives,
        (∀ c ∈ p.texCoords, m.texCoords.Lists c.name c.stride c.initial
          ↔ firstKind? refs c.name = some .texCoord)
        ∧ ∀ c ∈ p.colors, m.colors.Lists c.name c.stride c.initial
          ↔ firstKind? refs c.name = some .color :=
  ⟨Event.isFresh_of_sharedSource, by decide +kernel, by decide +kernel,
    Reader.lists_of_finish "mesh" "" Event.sharedSource Event.isFresh_of_sharedSource⟩

/-- The color channel of `sharedSource` has indices into a buffer that has no scalars and lists no
    source. -/
theorem Reader.not_lists_of_sharedSource :
    let m := ((Reader.start "mesh" "").after Event.sharedSource).finish.value
    (∀ s, .addSource s ∈ Event.sharedSource → s.IsFresh)
    ∧ m.primitives.toList.map (·.colors) = [[⟨"s", 0, 3, 0, #[0, 0, 0]⟩]]
    ∧ m.colors = .empty
    ∧ ¬ m.colors.Lists "s" 3 0 := by
  intro m
  have hcolors : m.colors = .empty := by decide +kernel
  refine ⟨Event.isFresh_of_sharedSource, by decide +kernel, hcolors, fun hlists => ?_⟩
  obtain ⟨seg, hseg, -⟩ := hlists.exists_segment
  rw [hcolors] at hseg
  exact absurd hseg (by simp [Buffer.empty])

end MeshWeave
