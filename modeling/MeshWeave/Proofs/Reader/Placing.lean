import MeshWeave.Proofs.Mesh.Placement
import MeshWeave.Proofs.Reader.History

set_option autoImplicit false

/-! # The places of sources

A merged buffer is the concatenation of arrays that were handed over or copied one by one, and
each source remembers its place. `SourceTable.PlacedIn` says that the places are right: the
scalars that a source was declared with stand, converted, at its place in the buffer of the kind
of data that it is used as. Resolving the inputs of a primitive keeps this, whichever sources it
merges.

That a source is used as one kind of data only is a property of all references to it.
`Reader.RefersAs` is what a reader knows of them, and `Reader.Declares` sums up what one event can
do to the sources, buffers and inputs of a reader. -/

namespace MeshWeave

/-- A source and what it was when it was declared. Once it is loaded, a source that can be indexed
    as data of a kind is held by the buffer of the kind. -/
structure Source.PlacedFor (s declared : Source) (m : Mesh) (k : DataKind) : Prop where
  fresh : declared.IsFresh
  becomes : declared.Becomes s
  eq_of_unloaded : s.loaded = false → s = declared
  holds : s.loaded = true → s.isIndexable k = true →
    (m.buffer k).HoldsAt s.initial declared.values

/-- Each source of a table is placed for the kind of data that it is used as. -/
structure SourceTable.PlacedIn (t declared : SourceTable) (m : Mesh) (use : String → DataKind) :
    Prop where
  found : ∀ uri, t.find? uri = none ↔ declared.find? uri = none
  placed : ∀ uri s d, t.find? uri = some s → declared.find? uri = some d →
    s.PlacedFor d m (use (Text.fragment uri))

/-- An input refers to its source as the kind of data that the source is used as. -/
def SharedInput.UsedAs (i : SharedInput) (use : String → DataKind) : Prop :=
  ∀ k, DataKind.ofSemantic? i.semantic = some k → use (Text.fragment i.sourceId) = k

/-! ## Merging places sources -/

theorem Source.PlacedFor.refl {s : Source} (h : s.IsFresh) (m : Mesh) (k : DataKind) :
    s.PlacedFor s m k :=
  ⟨h, .refl s, fun _ => rfl, fun hl => absurd hl (by simp [h.loaded_eq])⟩

theorem Source.PlacedFor.merge_other {s d : Source} {m : Mesh} {k : DataKind}
    (h : s.PlacedFor d m k) (s' : Source) (semantic : Semantic) :
    s.PlacedFor d (m.merge s' semantic).value.mesh k :=
  ⟨h.fresh, h.becomes, h.eq_of_unloaded, fun hl hs =>
    (h.holds hl hs).of_keeps (m.keeps_merge s' semantic k)⟩

/-- Merging a source as the kind of data that it is used as. -/
theorem Source.PlacedFor.merge_self {s d : Source} {m : Mesh} {k : DataKind}
    (h : s.PlacedFor d m k) {semantic : Semantic}
    (huse : ∀ k', DataKind.ofSemantic? semantic = some k' → k = k') :
    (m.merge s semantic).value.source.PlacedFor d (m.merge s semantic).value.mesh k := by
  rcases hk : DataKind.ofSemantic? semantic with _ | k'
  · rw [m.merge_of_none s hk]
    exact h
  · obtain rfl := huse k' hk
    rw [m.merge_of_kind s hk]
    have hbecomes := m.becomes_mergeKind s k
    have hloaded := m.loaded_mergeKind s k
    refine ⟨h.fresh, h.becomes.trans hbecomes, fun hl => absurd hl (by simp [hloaded]), ?_⟩
    intro _ hindexable
    rw [hbecomes.isIndexable_eq k] at hindexable
    -- A source that is loaded stays where it is, and another one goes to the end of the buffer.
    by_cases hl : s.loaded = true
    · rw [hbecomes.eq_of_loaded hl]
      exact (h.holds hl hindexable).of_keeps (m.keeps_mergeKind s k k)
    · have hfresh := h.eq_of_unloaded (by simpa using hl)
      subst hfresh
      exact m.holdsAt_mergeKind_self (Mesh.refusal?_of_isIndexable hindexable h.fresh.loaded_eq)

namespace SourceTable.PlacedIn

variable {use : String → DataKind}

theorem add {t declared : SourceTable} {m : Mesh} (h : t.PlacedIn declared m use) {s : Source}
    (hs : s.IsFresh) : (t.add s).value.PlacedIn (declared.add s).value m use := by
  have hid := h.found s.id
  refine ⟨?_, ?_⟩
  · intro uri
    rw [find?_add, find?_add, Option.or_eq_none_iff, Option.or_eq_none_iff, h.found uri]
    simp only [hid]
  · intro uri x d hx hd
    rw [find?_add] at hx hd
    rcases ht : t.find? uri with _ | found
    · -- A name that was not there before can only be that of the new source.
      rw [ht, Option.none_or] at hx
      rw [(h.found uri).mp ht, Option.none_or] at hd
      obtain rfl : s = x := by
        split at hx
        · exact Option.some.inj hx
        · exact absurd hx (by simp)
      obtain rfl : s = d := by
        split at hd
        · exact Option.some.inj hd
        · exact absurd hd (by simp)
      exact .refl hs m _
    · rw [ht, Option.some_or] at hx
      obtain rfl := Option.some.inj hx
      rcases hfound : declared.find? uri with _ | d'
      · exact absurd ((h.found uri).mpr hfound) (by simp [ht])
      · rw [hfound, Option.some_or] at hd
        obtain rfl := Option.some.inj hd
        exact h.placed uri found d' ht hfound

theorem resolve {declared : SourceTable} {r : Resolution}
    (h : r.sources.PlacedIn declared r.mesh use) (i : SharedInput) (hi : i.UsedAs use) :
    (r.resolve i).value.sources.PlacedIn declared (r.resolve i).value.mesh use := by
  rcases hfound : r.sources.find? i.sourceId with _ | s
  · rw [r.resolve_of_none i hfound]
    exact h
  · have hid := ((r.mesh.becomes_merge s i.semantic).id_eq).trans (find?_id hfound)
    rw [r.resolve_of_some i hfound]
    refine ⟨?_, ?_⟩
    · intro uri
      rw [← h.found uri, find?_put _ _ _ _ hid]
      split
      · next heq => simp [find?_congr r.sources heq, hfound]
      · rfl
    · intro uri x d hx hd
      rw [find?_put _ _ _ _ hid] at hx
      split at hx
      · next heq =>
          rw [hfound] at hx
          obtain rfl := Option.some.inj hx
          have hplaced := h.placed uri s d (by rw [find?_congr r.sources heq, hfound]) hd
          exact hplaced.merge_self fun k hk => by rw [heq]; exact hi k hk
      · exact (h.placed uri x d hx hd).merge_other s i.semantic

theorem resolveAll {declared : SourceTable} {r : Resolution}
    (h : r.sources.PlacedIn declared r.mesh use) (is : List SharedInput)
    (his : ∀ i ∈ is, i.UsedAs use) :
    (r.resolveAll is).value.sources.PlacedIn declared (r.resolveAll is).value.mesh use := by
  induction is generalizing r with
  | nil => exact h
  | cons i is ih =>
      exact ih (h.resolve i (his i (by simp))) fun j hj => his j (by simp [hj])

end SourceTable.PlacedIn

/-! ## What one event declares -/

namespace Event

/-- The kind of data that an event uses a source as, and the id of the source. -/
def reference? : Event → Option (DataKind × String)
  | input i => (DataKind.ofSemantic? i.semantic).map (·, Text.fragment i.sourceId)
  | vertexInput semantic source =>
      (DataKind.ofSemantic? semantic).map (·, Text.fragment (Text.fragment source))
  | _ => none

/-- The source that an event adds to those of a reader. -/
def added? (r : Reader) : Event → Option Source
  | addSource s => some s
  | closeSource => r.source
  | _ => none

end Event

/-- A table after a source was added, if there is one. -/
def SourceTable.adding (t : SourceTable) : Option Source → SourceTable
  | some s => (t.add s).value
  | none => t

/-- An event ends the declaration of inputs of the element under construction. -/
def Assembly.IsEndedBy (a : Assembly) (e : Event) : Prop :=
  a.stage = .declaring ∧ (e.settles = true ∨ e = .openCounts ∧ a.element = .polylist)

instance (a : Assembly) (e : Event) : Decidable (a.IsEndedBy e) :=
  inferInstanceAs (Decidable
    (a.stage = .declaring ∧ (e.settles = true ∨ e = .openCounts ∧ a.element = .polylist)))

namespace Reader

/-- The reader before an event, or behind the declaration of inputs if the event ends it. -/
def before (r : Reader) (e : Event) : Reader :=
  match r.current with
  | some a => if a.IsEndedBy e then r.settled else r
  | none => r

variable {r : Reader} {a : Assembly} {e : Event}

theorem before_of_none (e : Event) (h : r.current = none) : r.before e = r := by
  rw [before, h]

theorem before_of_ends (h : r.current = some a) (hends : a.IsEndedBy e) :
    r.before e = r.settled := by
  rw [before, h]
  exact if_pos hends

theorem before_of_not_ends (h : r.current = some a) (hends : ¬ a.IsEndedBy e) :
    r.before e = r := by
  rw [before, h]
  exact if_neg hends

/-- All events but the vertex counts are read by the reader that is ready for them. -/
theorem before_eq_ready (r : Reader) (he : e ≠ .openCounts) : r.before e = r.ready e := by
  rcases hcurrent : r.current with _ | a
  · rw [before_of_none e hcurrent, ready_of_none e hcurrent]
  · by_cases hstage : a.stage = .declaring
    · by_cases hsettles : e.settles = true
      · rw [before_of_ends hcurrent ⟨hstage, Or.inl hsettles⟩, ready, if_pos hsettles]
      · rw [before_of_not_ends hcurrent, ready, if_neg hsettles]
        rintro ⟨-, hsettles' | ⟨hcounts, -⟩⟩
        · exact hsettles hsettles'
        · exact he hcounts
    · rw [before_of_not_ends hcurrent fun hends => hstage hends.1, ready_of_ne e hcurrent hstage]

theorem before_eq_or (r : Reader) (e : Event) : r.before e = r ∨ r.before e = r.settled := by
  rw [before]
  split
  · split
    · exact Or.inr rfl
    · exact Or.inl rfl
  · exact Or.inl rfl

end Reader

/-- What an event can do to the sources, buffers and inputs of a reader. -/
structure Reader.Declares (r : Reader) (e : Event) (r' : Reader) : Prop where
  buffer_eq : r'.mesh.buffer = r.mesh.buffer
  sources_eq : r'.sources = r.sources.adding (e.added? r)
  source : ∀ s', r'.source = some s' → (s'.loaded = false ∧ s'.noted = 0) ∨
    ∃ s, r.source = some s ∧ s'.loaded = s.loaded ∧ s'.noted = s.noted
  vertices : ∀ u ∈ r'.vertices.inputs,
    u ∈ r.vertices.inputs ∨ e = .vertexInput u.semantic u.source
  inputs : ∀ b, r'.current = some b → ∀ i ∈ b.inputs.inputs,
    (∃ a, r.current = some a ∧ i ∈ a.inputs.inputs) ∨ i ∈ e.declaredInputs r.vertices

namespace Reader

variable {r : Reader} {e : Event} {n : Noted Reader}

theorem Declares.of_same {r' : Reader} (hadded : e.added? r = none)
    (hbuffer : r'.mesh.buffer = r.mesh.buffer) (hsources : r'.sources = r.sources)
    (hsource : r'.source = r.source) (hvertices : r'.vertices = r.vertices)
    (hinputs : ∀ b, r'.current = some b → ∃ a, r.current = some a ∧ b.inputs = a.inputs) :
    r.Declares e r' := by
  refine ⟨hbuffer, by rw [hsources, hadded]; rfl, ?_, ?_, ?_⟩
  · exact fun s hs => Or.inr ⟨s, hsource ▸ hs, rfl, rfl⟩
  · exact fun u hu => Or.inl (hvertices ▸ hu)
  · intro b hb i hi
    obtain ⟨a, ha, heq⟩ := hinputs b hb
    exact Or.inl ⟨a, ha, heq ▸ hi⟩

/-- Events outside of primitive elements. -/
theorem declares_advance_outer (he : e.isInner = false) (hadv : r.advance e = some n) :
    r.Declares e n.value := by
  have hchange {f : Source → Option Source} (hadded : e.added? r = none)
      (hf : ∀ s s', f s = some s' → s'.loaded = s.loaded ∧ s'.noted = s.noted)
      (hadv : r.onSource f = some n) : r.Declares e n.value := by
    obtain ⟨s, s', hs, hs', hn⟩ := onSource_eq_some hadv
    rw [hn]
    refine ⟨rfl, by rw [hadded]; rfl, ?_, fun u hu => Or.inl hu,
      fun b hb i hi => Or.inl ⟨b, hb, hi⟩⟩
    intro s'' hs''
    obtain rfl := Option.some.inj hs''
    exact Or.inr ⟨s, hs, hf s _ hs'⟩
  have happend (values : Scalars) (s s' : Source)
      (h : (s.values.append? values).map (fun v => { s with values := v }) = some s') :
      s'.loaded = s.loaded ∧ s'.noted = s.noted := by
    obtain ⟨v, _, rfl⟩ := Option.map_eq_some_iff.mp h
    exact ⟨rfl, rfl⟩
  cases e with
  | addSource s =>
      obtain rfl := Option.some.inj hadv
      exact ⟨rfl, rfl, fun s hs => Or.inr ⟨s, hs, rfl, rfl⟩, fun u hu => Or.inl hu,
        fun b hb i hi => Or.inl ⟨b, hb, hi⟩⟩
  | openSource id =>
      obtain ⟨-, rfl⟩ := of_place hadv
      refine ⟨rfl, rfl, fun s hs => ?_, fun u hu => Or.inl hu, fun b hb i hi => Or.inl ⟨b, hb, hi⟩⟩
      obtain rfl := Option.some.inj hs
      exact Or.inl ⟨rfl, rfl⟩
  | openArray type =>
      exact hchange rfl (fun s s' h => by obtain rfl := Option.some.inj h; exact ⟨rfl, rfl⟩) hadv
  | floats values => exact hchange rfl (happend _) hadv
  | doubles values => exact hchange rfl (happend _) hadv
  | ints values => exact hchange rfl (happend _) hadv
  | accessor stride =>
      exact hchange rfl (fun s s' h => by obtain rfl := Option.some.inj h; exact ⟨rfl, rfl⟩) hadv
  | param name type =>
      exact hchange rfl (fun s s' h => by obtain rfl := Option.some.inj h; exact ⟨rfl, rfl⟩) hadv
  | closeSource =>
      rw [advance, Option.bind_eq_bind, Option.bind_eq_some_iff] at hadv
      obtain ⟨s, hs, hn⟩ := hadv
      obtain rfl := Option.some.inj hn
      refine ⟨rfl, ?_, fun s hs => absurd hs (by simp), fun u hu => Or.inl hu,
        fun b hb i hi => Or.inl ⟨b, hb, hi⟩⟩
      rw [Event.added?, hs]
      rfl
  | openVertices id name =>
      obtain ⟨-, rfl⟩ := of_place hadv
      exact ⟨rfl, rfl, fun s hs => Or.inr ⟨s, hs, rfl, rfl⟩, fun u hu => absurd hu (by simp),
        fun b hb i hi => Or.inl ⟨b, hb, hi⟩⟩
  | vertexInput semantic source =>
      obtain ⟨-, rfl⟩ := of_place hadv
      refine ⟨rfl, rfl, fun s hs => Or.inr ⟨s, hs, rfl, rfl⟩, fun u hu => ?_,
        fun b hb i hi => Or.inl ⟨b, hb, hi⟩⟩
      rcases List.mem_append.mp hu with hu | hu
      · exact Or.inl hu
      · obtain rfl := List.mem_singleton.mp hu
        exact Or.inr rfl
  | closeVertices =>
      obtain ⟨-, rfl⟩ := of_place hadv
      exact .of_same rfl rfl rfl rfl rfl fun b hb => ⟨b, hb, rfl⟩
  | openPrimitive element material =>
      obtain ⟨-, rfl⟩ := of_place hadv
      refine ⟨rfl, rfl, fun s hs => Or.inr ⟨s, hs, rfl, rfl⟩, fun u hu => Or.inl hu, ?_⟩
      intro b hb i hi
      obtain rfl := Option.some.inj hb
      exact absurd hi (by simp [Assembly.start, InputList.empty])
  | _ => exact absurd he (by simp [Event.isInner])

/-- Events inside of primitive elements. -/
theorem declares_advance_inner {a : Assembly} (h : r.current = some a) (he : e.isInner = true)
    (hcounts : e ≠ .openCounts) (hadv : r.advance e = some n) : r.Declares e n.value := by
  obtain ⟨⟨hsources, hsource, hvertices, hbuffer⟩, hinputs⟩ := advance_inner h he hcounts hadv
  have hadded : e.added? r = none := by
    cases e <;> first | rfl | exact absurd he (by simp [Event.isInner])
  refine ⟨hbuffer, by rw [hsources, hadded]; rfl, fun s hs => Or.inr ⟨s, hsource ▸ hs, rfl, rfl⟩,
    fun u hu => Or.inl (hvertices ▸ hu), fun b hb i hi => ?_⟩
  rw [hinputs b hb] at hi
  rcases List.mem_append.mp hi with hi | hi
  · exact Or.inl ⟨a, h, hi⟩
  · exact Or.inr hi

/-- An event that is ignored declares nothing. -/
theorem declares_of_none (h : r.advance e = none) : r.Declares e r := by
  refine .of_same ?_ rfl rfl rfl rfl fun b hb => ⟨b, hb, rfl⟩
  cases e with
  | addSource s => exact absurd h (by simp [advance])
  | closeSource =>
      rw [Event.added?]
      rcases hs : r.source with _ | s
      · rfl
      · exact absurd h (by simp [advance, hs])
  | _ => rfl

/-- **What an event can do** to the sources, buffers and inputs of a reader, or of the reader behind
    the declaration of inputs if the event ends it. -/
theorem declares_next (r : Reader) (e : Event) : (r.before e).Declares e (r.next e) := by
  by_cases hcounts : e = .openCounts
  · -- The vertex counts end the declaration as a part of what they do, not before it.
    subst hcounts
    have hready : r.ready .openCounts = r := by rw [ready, if_neg (by simp [Event.settles])]
    rcases hcurrent : r.current with _ | a
    · have hnone := advance_of_idle (e := .openCounts) hcurrent rfl
      rw [next_of_none (by rw [hready, hnone]), hready, before_of_none _ hcurrent]
      exact declares_of_none hnone
    · have hadv := advance_openCounts hcurrent
      by_cases hplace : a.stage = .declaring ∧ a.element = .polylist
      · rw [if_pos hplace] at hadv
        rw [next_of_some (by rw [hready, hadv]),
          before_of_ends hcurrent ⟨hplace.1, Or.inr ⟨rfl, hplace.2⟩⟩]
        refine .of_same rfl rfl rfl rfl rfl ?_
        intro b hb
        obtain ⟨a', ha', rfl⟩ := Option.map_eq_some_iff.mp hb
        exact ⟨a', ha', rfl⟩
      · rw [if_neg hplace] at hadv
        rw [next_of_none (by rw [hready, hadv]), hready, before_of_not_ends hcurrent]
        · exact declares_of_none hadv
        · rintro ⟨hstage, hsettles | ⟨-, helement⟩⟩
          · exact absurd hsettles (by simp [Event.settles])
          · exact hplace ⟨hstage, helement⟩
  · have hready : r.before e = r.ready e := before_eq_ready r hcounts
    rw [hready]
    rcases hadv : (r.ready e).advance e with _ | n
    · rw [next_of_none hadv]
      exact declares_of_none hadv
    · rw [next_of_some hadv]
      by_cases he : e.isInner = true
      · rcases hcurrent : (r.ready e).current with _ | a
        · rw [advance_of_idle hcurrent he] at hadv
          exact absurd hadv (by simp)
        · exact declares_advance_inner hcurrent he hcounts hadv
      · exact declares_advance_outer (by simpa using he) hadv

end Reader

namespace Reader

/-- The source that is open is not part of any mesh. -/
def HoldsFresh (r : Reader) : Prop :=
  ∀ s, r.source = some s → s.loaded = false ∧ s.noted = 0

theorem holdsFresh_start (id name : String) : (start id name).HoldsFresh :=
  fun s hs => absurd hs (by simp [start])

theorem HoldsFresh.settled {r : Reader} (h : r.HoldsFresh) : r.settled.HoldsFresh := by
  rcases r.settled_eq_or with hsame | ⟨a, hcurrent, hstage⟩
  · rwa [hsame]
  · rw [settled_of_declaring hcurrent hstage]
    exact h

theorem HoldsFresh.before {r : Reader} (h : r.HoldsFresh) (e : Event) :
    (r.before e).HoldsFresh := by
  rcases r.before_eq_or e with hsame | hsettled
  · rwa [hsame]
  · rw [hsettled]
    exact h.settled

theorem HoldsFresh.of_declares {r r' : Reader} {e : Event} (h : r.HoldsFresh)
    (hd : r.Declares e r') : r'.HoldsFresh := by
  intro s hs
  rcases hd.source s hs with hfresh | ⟨s₀, hs₀, hloaded, hnoted⟩
  · exact hfresh
  · rw [hloaded, hnoted]
    exact h s₀ hs₀

theorem HoldsFresh.next {r : Reader} (h : r.HoldsFresh) (e : Event) : (r.next e).HoldsFresh :=
  (h.before e).of_declares (r.declares_next e)

/-- A source is fresh when it is added, whether it was read as a whole or piece by piece. -/
theorem HoldsFresh.isFresh_added {r : Reader} {e : Event} (h : r.HoldsFresh)
    (he : ∀ s, e = .addSource s → s.IsFresh) {s : Source} (hadded : e.added? r = some s) :
    s.IsFresh := by
  cases e with
  | addSource s' =>
      obtain rfl := Option.some.inj hadded
      exact he _ rfl
  | closeSource =>
      obtain ⟨hloaded, hnoted⟩ := h s hadded
      exact ⟨hloaded, by omega⟩
  | _ => exact absurd hadded (by simp [Event.added?])

end Reader

/-! ## References -/

/-- Every reference that a reader knows of is to a source that is used as that kind of data, and the
    open source is not part of any mesh. -/
structure Reader.RefersAs (r : Reader) (use : String → DataKind) : Prop where
  source : ∀ s, r.source = some s → s.loaded = false ∧ s.noted = 0
  vertices : ∀ u ∈ r.vertices.inputs, ∀ k, DataKind.ofSemantic? u.semantic = some k →
    use (Text.fragment u.sourceId) = k
  inputs : ∀ a, r.current = some a → ∀ i ∈ a.inputs.inputs, i.UsedAs use

/-- The references of an event are to sources that are used as that kind of data. -/
def Event.RefersAs (e : Event) (use : String → DataKind) : Prop :=
  ∀ k id, e.reference? = some (k, id) → use id = k

namespace Reader.RefersAs

variable {r : Reader} {use : String → DataKind}

theorem start (id name : String) (use : String → DataKind) :
    (Reader.start id name).RefersAs use :=
  ⟨fun s hs => absurd hs (by simp [Reader.start]),
    fun u hu => absurd hu (by simp [Reader.start, Vertices.empty]),
    fun a ha => absurd ha (by simp [Reader.start])⟩

theorem settled (h : r.RefersAs use) : r.settled.RefersAs use := by
  rcases r.settled_eq_or with hsame | ⟨a, hcurrent, hstage⟩
  · rwa [hsame]
  · rw [settled_of_declaring hcurrent hstage]
    refine ⟨h.source, h.vertices, ?_⟩
    intro b hb
    obtain rfl := Option.some.inj hb
    exact h.inputs a hcurrent

/-- An input refers to its own source, or to those of the vertices element. -/
theorem of_mem_expand (h : r.RefersAs use) {j i : SharedInput} (hj : (Event.input j).RefersAs use)
    (hi : i ∈ j.expand r.vertices) : i.UsedAs use := by
  intro k hk
  rw [SharedInput.expand] at hi
  split at hi
  · obtain ⟨u, hu, rfl⟩ := List.mem_map.mp hi
    exact h.vertices u hu k hk
  · obtain rfl := List.mem_singleton.mp hi
    exact hj k _ (by rw [Event.reference?, hk]; rfl)

theorem of_declares {r' : Reader} {e : Event} (h : r.RefersAs use) (he : e.RefersAs use)
    (hd : r.Declares e r') : r'.RefersAs use := by
  refine ⟨?_, ?_, ?_⟩
  · exact HoldsFresh.of_declares h.source hd
  · intro u hu k hk
    rcases hd.vertices u hu with hu | rfl
    · exact h.vertices u hu k hk
    · exact he k _ (by rw [Event.reference?, hk]; rfl)
  · intro b hb i hi
    rcases hd.inputs b hb i hi with ⟨a, ha, hi⟩ | hi
    · exact h.inputs a ha i hi
    · cases e with
      | input j => exact h.of_mem_expand he hi
      | _ => exact absurd hi (by simp [Event.declaredInputs])

theorem next (h : r.RefersAs use) {e : Event} (he : e.RefersAs use) : (r.next e).RefersAs use := by
  have hd := r.declares_next e
  rcases r.before_eq_or e with hsame | hsettled
  · rw [hsame] at hd
    exact h.of_declares he hd
  · rw [hsettled] at hd
    exact h.settled.of_declares he hd

end Reader.RefersAs

/-! ## Sources after an event -/

theorem SourceTable.keeps_adding (t : SourceTable) (added : Option Source) :
    t.Keeps (t.adding added) := by
  cases added with
  | none => exact .refl t
  | some s => exact t.keeps_add s

namespace Reader

theorem keeps_settled (r : Reader) : r.sources.Keeps r.settled.sources := by
  rcases r.settled_eq_or with hsame | ⟨a, hcurrent, hstage⟩
  · rw [hsame]
    exact .refl _
  · rw [settled_of_declaring hcurrent hstage]
    exact Resolution.keeps_resolveAll ⟨r.mesh, r.sources, .unused a.inputs.width⟩ a.inputs.inputs

theorem Declares.keeps {r r' : Reader} {e : Event} (h : r.Declares e r') :
    r.sources.Keeps r'.sources := by
  rw [h.sources_eq]
  exact r.sources.keeps_adding _

theorem keeps_next (r : Reader) (e : Event) : r.sources.Keeps (r.next e).sources := by
  have hkeeps := (r.declares_next e).keeps
  rcases r.before_eq_or e with hsame | hsettled
  · rwa [hsame] at hkeeps
  · rw [hsettled] at hkeeps
    exact r.keeps_settled.trans hkeeps

theorem added?_settled (r : Reader) (e : Event) : e.added? r.settled = e.added? r := by
  have hsource : r.settled.source = r.source := by
    rcases r.settled_eq_or with hsame | ⟨a, hcurrent, hstage⟩
    · rw [hsame]
    · rw [settled_of_declaring hcurrent hstage]
  cases e with
  | closeSource => exact hsource
  | _ => rfl

end Reader

namespace SourceTable.PlacedIn

variable {use : String → DataKind} {declared : SourceTable} {r : Reader}

theorem of_buffer_eq {t : SourceTable} {m m' : Mesh} (h : t.PlacedIn declared m use)
    (hbuffer : m'.buffer = m.buffer) : t.PlacedIn declared m' use := by
  refine ⟨h.found, ?_⟩
  intro uri s d hs hd
  have hplaced := h.placed uri s d hs hd
  exact ⟨hplaced.fresh, hplaced.becomes, hplaced.eq_of_unloaded, by
    rw [hbuffer]
    exact hplaced.holds⟩

theorem settled (h : r.sources.PlacedIn declared r.mesh use) (hr : r.RefersAs use) :
    r.settled.sources.PlacedIn declared r.settled.mesh use := by
  rcases r.settled_eq_or with hsame | ⟨a, hcurrent, hstage⟩
  · rwa [hsame]
  · rw [Reader.settled_of_declaring hcurrent hstage]
    exact resolveAll (r := ⟨r.mesh, r.sources, .unused a.inputs.width⟩) h a.inputs.inputs
      (hr.inputs a hcurrent)

theorem of_declares {r' : Reader} {e : Event} (h : r.sources.PlacedIn declared r.mesh use)
    (hr : r.RefersAs use) (he : ∀ s, e = .addSource s → s.IsFresh) (hd : r.Declares e r') :
    r'.sources.PlacedIn (declared.adding (e.added? r)) r'.mesh use := by
  have hplaced : r'.sources.PlacedIn (declared.adding (e.added? r)) r.mesh use := by
    rw [hd.sources_eq]
    rcases hadded : e.added? r with _ | s
    · exact h
    · exact h.add (Reader.HoldsFresh.isFresh_added hr.source he hadded)
  exact hplaced.of_buffer_eq hd.buffer_eq

/-- **Sources keep their places.** -/
theorem next (h : r.sources.PlacedIn declared r.mesh use) (hr : r.RefersAs use) {e : Event}
    (he : ∀ s, e = .addSource s → s.IsFresh) :
    (r.next e).sources.PlacedIn (declared.adding (e.added? r)) (r.next e).mesh use := by
  have hd := r.declares_next e
  rcases r.before_eq_or e with hsame | hsettled
  · rw [hsame] at hd
    exact h.of_declares hr he hd
  · rw [hsettled] at hd
    rw [← r.added?_settled]
    exact (h.settled hr).of_declares hr.settled he hd

end SourceTable.PlacedIn

end MeshWeave
