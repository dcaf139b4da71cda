import MeshWeave.Proofs.Reader.SourceBlocks

set_option autoImplicit false

/-! # The order of sources

Inputs refer to sources by their ids, so the order in which a document declares its sources should
not matter, nor whether it declares one as a whole or in parts. It does not matter as long as every
source can be found: no two have one id, and each id is the one that a reference to it names. Two
tables of the same sources are then alike, whatever their orders, and readers do not notice. -/

namespace MeshWeave

/-- A source in a document: one that was read as a whole, or a block of events. -/
inductive SourceElement where
  | whole (source : Source)
  | block (id : String) (parts : List SourcePart)
  deriving Repr

namespace SourceElement

/-- The events of a source. -/
def events : SourceElement → List Event
  | whole s => [.addSource s]
  | block id parts => SourcePart.block id parts

/-- The source that is added to the table. -/
def source : SourceElement → Source
  | whole s => s
  | block id parts => SourcePart.openSource id parts

end SourceElement

/-! ## Finding sources of different ids -/

namespace SourceTable

/-- Sources whose ids differ are found by their ids. -/
theorem find?_eq_some_iff {l : List Source} (hids : (l.map (·.id)).Nodup) {id : String}
    {s : Source} : l.find? (·.id == id) = some s ↔ s ∈ l ∧ s.id = id := by
  induction l with
  | nil => simp
  | cons x xs ih =>
      rw [List.map_cons, List.nodup_cons] at hids
      rw [List.find?_cons, List.mem_cons]
      by_cases hx : x.id = id
      · -- No later source has this id.
        have hlater : s ∈ xs → s.id ≠ id := fun hs heq =>
          hids.1 (List.mem_map.mpr ⟨s, hs, heq.trans hx.symm⟩)
        simp only [hx, beq_self_eq_true, Option.some.injEq]
        constructor
        · rintro rfl
          exact ⟨Or.inl rfl, hx⟩
        · rintro ⟨rfl | hs, heq⟩
          · rfl
          · exact absurd heq (hlater hs)
      · have hxb : (x.id == id) = false := by simpa using hx
        rw [hxb, ih hids.2]
        constructor
        · rintro ⟨hs, heq⟩
          exact ⟨Or.inr hs, heq⟩
        · rintro ⟨rfl | hs, heq⟩
          · exact absurd heq hx
          · exact ⟨hs, heq⟩

/-- The order of sources with different ids does not matter for finding them. -/
theorem find?_perm {l l' : List Source} (h : l.Perm l') (hids : (l.map (·.id)).Nodup)
    (id : String) : l.find? (·.id == id) = l'.find? (·.id == id) := by
  have hids' : (l'.map (·.id)).Nodup := (h.map _).nodup_iff.mp hids
  ext s
  rw [find?_eq_some_iff hids, find?_eq_some_iff hids', h.mem_iff]

/-- Tables of the same sources in different orders, if no two of them have one id. -/
theorem sameSources_of_perm {l l' : List Source}
    (h : (l.map Source.core).Perm (l'.map Source.core)) (hids : (l.map (·.id)).Nodup) :
    SameSources ⟨l⟩ ⟨l'⟩ where
  perm := h
  finds := by
    intro uri
    rw [map_core_find?, map_core_find?]
    exact find?_perm h (by rw [List.map_map]; exact hids) _

/-- Sources of different ids that name themselves are all added. -/
theorem foldl_add (t : SourceTable) (ss : List Source)
    (hids : ((t.sources ++ ss).map (·.id)).Nodup)
    (hown : ∀ s ∈ ss, Text.fragment s.id = s.id) :
    ss.foldl (fun t s => (t.add s).value) t = ⟨t.sources ++ ss⟩ := by
  induction ss generalizing t with
  | nil => simp
  | cons s ss ih =>
      have hnew : t.find? s.id = none := by
        rw [find?, hown s (by simp), List.find?_eq_none]
        intro x hx
        simp only [List.map_append, List.map_cons, List.nodup_append] at hids
        have hne := hids.2.2 x.id (List.mem_map_of_mem hx) s.id (by simp)
        simpa using hne
      rw [List.foldl_cons, add_value, hnew, Option.isSome_none, if_neg (by simp),
        ih _ (by simpa using hids) fun x hx => hown x (by simp [hx])]
      simp

end SourceTable

/-! ## Reading declarations -/

namespace Reader

variable {r : Reader} (hidle : r.isIdle = true) (hsource : r.source = none)

include hidle hsource

theorem after_element (d : SourceElement) :
    r.after d.events = r.withSources (r.sources.add d.source).value := by
  cases d with
  | whole s => rfl
  | block id parts => exact after_block hidle hsource id parts

/-- Sources are added one after the other. -/
theorem after_elements (ds : List SourceElement) :
    r.after (ds.flatMap SourceElement.events)
      = r.withSources ((ds.map SourceElement.source).foldl (fun t s => (t.add s).value) r.sources)
    := by
  induction ds generalizing r with
  | nil => rfl
  | cons d ds ih =>
      rw [List.flatMap_cons, after_append, after_element hidle hsource]
      exact ih (r := r.withSources (r.sources.add d.source).value) hidle hsource

end Reader

namespace Reader

/-- The table after the sources of a document were declared. -/
theorem after_elements_start (id name : String) {ds : List SourceElement}
    (hids : (ds.map (·.source.id)).Nodup)
    (hown : ∀ d ∈ ds, Text.fragment d.source.id = d.source.id) :
    (start id name).after (ds.flatMap SourceElement.events)
      = (start id name).withSources ⟨ds.map SourceElement.source⟩ := by
  have hadded := SourceTable.foldl_add .empty (ds.map SourceElement.source)
    (by rw [SourceTable.empty, List.nil_append, List.map_map]; exact hids)
    (by simpa using hown)
  rw [after_elements rfl rfl]
  exact congrArg _ hadded

/-- **The order of sources does not matter.** Two lists declare the same sources, in any orders and
    each as a whole or in parts; no two sources have one id, and each id names itself. Then any
    events get the same answers behind either list and lead to the same mesh, every reference finds
    sources that resemble each other, and the two tables hold the same sources. -/
theorem run_after_reordered (id name : String) (ds ds' : List SourceElement)
    (hsame : (ds.map (·.source.core)).Perm (ds'.map (·.source.core)))
    (hids : (ds.map (·.source.id)).Nodup)
    (hown : ∀ d ∈ ds, Text.fragment d.source.id = d.source.id) (es : List Event) :
    let r := (start id name).after (ds.flatMap SourceElement.events)
    let r' := (start id name).after (ds'.flatMap SourceElement.events)
    (r.run es).value.1 = (r'.run es).value.1
    ∧ (r.after es).mesh = (r'.after es).mesh
    ∧ (∀ uri, Option.Rel Source.Resembles ((r.after es).sources.find? uri)
        ((r'.after es).sources.find? uri))
    ∧ ((r.after es).sources.sources.map Source.core).Perm
        ((r'.after es).sources.sources.map Source.core) := by
  intro r r'
  -- The other list has the same ids, and each names itself there, too.
  have hids_perm := hsame.map Source.id
  simp only [List.map_map, Function.comp_def, Source.id_core] at hids_perm
  have hids' : (ds'.map (·.source.id)).Nodup := hids_perm.nodup_iff.mp hids
  have hown' : ∀ d ∈ ds', Text.fragment d.source.id = d.source.id := by
    intro d hd
    obtain ⟨x, hx, hid⟩ := List.mem_map.mp (hids_perm.mem_iff.mpr (List.mem_map_of_mem hd))
    rw [← hid]
    exact hown x hx
  have htables : SourceTable.SameSources ⟨ds.map SourceElement.source⟩
      ⟨ds'.map SourceElement.source⟩ :=
    SourceTable.sameSources_of_perm (by rw [List.map_map, List.map_map]; exact hsame)
      (by rw [List.map_map]; exact hids)
  have halike : Alike SourceTable.SameSources r r' := by
    show Alike _ ((start id name).after _) ((start id name).after _)
    rw [after_elements_start id name hids hown, after_elements_start id name hids' hown']
    exact .intro ⟨ds'.map SourceElement.source⟩ htables
  obtain ⟨hanswers, hafter⟩ := halike.run SourceTable.likeness_sameSources es
  exact ⟨hanswers, hafter.mesh_eq, fun uri => hafter.sources.rel_find? uri, hafter.sources.perm⟩

end Reader

/-- A triangle with texture coordinates whose sources have distinct ids. -/
def SourceElement.pair : List SourceElement :=
  [.whole (.fresh "p" (.float (.replicate 9 ⟨0⟩)) 3),
    .block "t" [.array .double, .doubles (.replicate 6 ⟨0⟩), .accessor 2]]

/-- The sources of `pair` the other way round, and each declared in the other way. -/
def SourceElement.swapped : List SourceElement :=
  [.whole (.fresh "t" (.double (.replicate 6 ⟨0⟩)) 2),
    .block "p" [.floats (.replicate 9 ⟨0⟩), .accessor 3, .param "X" "float"]]

/-- A triangle over the sources of `pair`. -/
def SourceElement.triangle : List Event :=
  [.openPrimitive .triangles none, .input ⟨.position, "#p", 0, 0⟩,
    .input ⟨.texCoord, "#t", 1, 0⟩, .openRun .polygon, .indices .polygon [0, 0, 1, 1, 2, 2],
    .closeRun .polygon, .closePrimitive]

theorem Reader.run_after_swapped :
    let r := (Reader.start "mesh" "").after (SourceElement.pair.flatMap SourceElement.events)
    let r' := (Reader.start "mesh" "").after (SourceElement.swapped.flatMap SourceElement.events)
    let es := SourceElement.triangle
    (SourceElement.pair.map (·.source.core)).Perm (SourceElement.swapped.map (·.source.core))
    ∧ (SourceElement.pair.map (·.source.id)).Nodup
    ∧ (∀ d ∈ SourceElement.pair, Text.fragment d.source.id = d.source.id)
    ∧ (r.run es).value.1 = (r'.run es).value.1
    ∧ (r.after es).mesh = (r'.after es).mesh
    ∧ (∀ uri, Option.Rel Source.Resembles ((r.after es).sources.find? uri)
        ((r'.after es).sources.find? uri))
    ∧ ((r.after es).sources.sources.map Source.core).Perm
        ((r'.after es).sources.sources.map Source.core) := by
  have hsame : (SourceElement.pair.map (·.source.core)).Perm
      (SourceElement.swapped.map (·.source.core)) := by decide +kernel
  have hids : (SourceElement.pair.map (·.source.id)).Nodup := by decide +kernel
  have hown : ∀ d ∈ SourceElement.pair, Text.fragment d.source.id = d.source.id := by
    decide +kernel
  exact ⟨hsame, hids, hown, Reader.run_after_reordered "mesh" "" SourceElement.pair
    SourceElement.swapped hsame hids hown SourceElement.triangle⟩

end MeshWeave
