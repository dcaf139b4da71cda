import MeshWeave.Proofs.Listing.Printing

set_option autoImplicit false

/-! # A text tells what was written

Two transcripts with the same text list the same primitive elements. The text is read line by
line: behind its indentation every line begins with a tag, and the first character of the tag says
whether the line is of an input, of the vertex counts, of an index element, or the end of what is
open. Within a line attributes end at their quotes and numbers at the next tag.

Only the vertex counts of an element that lists none are not in its text. -/

namespace MeshWeave

/-! ## What a text shows -/

/-- The header without the vertex counts that are not written. -/
def Header.shown (h : Header) : Header :=
  { h with counts := if h.shape = .polylist then h.counts else [] }

/-- The listing as its text shows it. -/
def Listing.shown (l : Listing) : Listing := { l with header := l.header.shown }

/-- The element as its text shows it. -/
def WrittenListing.shown (l : WrittenListing) : WrittenListing :=
  { l with header := l.header.shown }

theorem WrittenListing.listing_shown (l : WrittenListing) : l.shown.listing = l.listing.shown := rfl

/-! ## Tags -/

/-- The character behind the first angle bracket. -/
def leadingChar (s : List Char) : Option Char := (s.dropWhile (· != '<')).tail.head?

theorem leadingChar_append {indent : List Char} (h : '<' ∉ indent) (s : List Char) :
    leadingChar (indent ++ '<' :: s) = s.head? := by
  have hindent : ∀ c ∈ indent, (c != '<') = true := by
    intro c hc
    simpa using fun heq : c = '<' => h (heq ▸ hc)
  rw [leadingChar, List.dropWhile_append_of_pos hindent]
  rfl

theorem tells_shape : Tells (fun s : Shape => s.name.toList) id fun _ => True := by
  intro a b s t _ _ h
  cases a <;> cases b <;> simp_all [Shape.name, Shape.element, Element.name]

theorem semantic_name_injective {a b : Semantic} (h : a.name = b.name) : a = b := by
  revert h
  cases a <;> cases b <;> decide

/-! ## Headers -/

theorem tells_tagLine (ind : Indentation) :
    Tells (fun h : Header => (h.tagLine ind).toList) (fun h => (h.shape, h.count, h.material))
      fun _ => True := by
  intro a b s t _ _ h
  simp only [Header.tagLine, String.toList_append, List.append_assoc,
    List.append_cancel_left_eq] at h
  obtain ⟨hshape, h⟩ := tells_shape trivial trivial h
  obtain ⟨hcount, h⟩ := tells_attr "count" trivial trivial h
  obtain ⟨hmaterial, h⟩ := tells_attr? "material" (by simp) (by simp) h
  simp_all [toString_injective hcount]

theorem tells_line (ind : Indentation) :
    Tells (fun i : ListedInput => (i.line ind).toList) id fun _ => True := by
  intro a b s t _ _ h
  simp only [ListedInput.line, String.toList_append, List.append_assoc,
    List.append_cancel_left_eq] at h
  obtain ⟨hsemantic, h⟩ := tells_attr "semantic" trivial trivial h
  obtain ⟨hsource, h⟩ := tells_attr "source" trivial trivial h
  obtain ⟨hoffset, h⟩ := tells_attr "offset" trivial trivial h
  obtain ⟨hset, h⟩ := tells_attr? "set" (by simp) (by simp) h
  have hset : a.set = b.set := Option.map_injective (fun _ _ => toString_injective) hset
  refine ⟨?_, List.append_cancel_left h⟩
  rw [id, id, ListedInput.mk.injEq]
  exact ⟨semantic_name_injective hsemantic, hsource, toString_injective hoffset, hset⟩

section

variable {ind : Indentation} (hind : '<' ∉ ind.unit.toList)
include hind

theorem leadingChar_line (depth : Nat) (s : List Char) :
    leadingChar ((ind.text depth).toList ++ '<' :: s) = s.head? := by
  apply leadingChar_append
  simp [Indentation.text, hind]

theorem leadingChar_input (i : ListedInput) (s : List Char) :
    leadingChar ((i.line ind).toList ++ s) = some 'i' := by
  simp [ListedInput.line, leadingChar_line hind]

/-- The lines of a header end where no input and no counts follow. -/
theorem tells_lines :
    Tells (fun h : Header => (h.lines ind).toList) Header.shown
      fun s => leadingChar s ≠ some 'i' := by
  have hinputs : Tells (List.flatMap fun i : ListedInput => (i.line ind).toList) (List.map id)
      fun s => leadingChar s ≠ some 'i' :=
    (tells_line ind).flatMap (fun _ _ => trivial) (fun _ _ => trivial)
      fun i s => not_not.mpr (leadingChar_input hind i s)
  have hcounts (h : Header) (s : List Char) (hs : leadingChar s ≠ some 'i') :
      leadingChar ((h.countsLine ind).toList ++ s) ≠ some 'i' := by
    unfold Header.countsLine
    cases h.shape <;> simp [leadingChar_line hind, hs]
  intro a b s t hs ht h
  simp only [Header.lines, String.toList_append, String.toList_join, List.flatMap_map,
    List.append_assoc] at h
  obtain ⟨htag, h⟩ := tells_tagLine ind trivial trivial h
  obtain ⟨hinput, h⟩ := hinputs (hcounts a s hs) (hcounts b t ht) h
  obtain ⟨shape, count, material, inputs, counts⟩ := a
  obtain ⟨shape', count', material', inputs', counts'⟩ := b
  simp only [Prod.mk.injEq, List.map_id] at htag hinput
  obtain ⟨rfl, rfl, rfl⟩ := htag
  obtain rfl := hinput
  cases shape with
  | polylist =>
      simp only [Header.countsLine, String.toList_append, List.append_assoc,
        List.append_cancel_left_eq] at h
      obtain ⟨hnumbers, h⟩ := tells_numberList (by simp) (by simp) h
      obtain rfl : counts = counts' := hnumbers
      exact ⟨rfl, by simpa using h⟩
  | _ => exact ⟨rfl, h⟩

end

/-! ## Index elements -/

theorem tells_runLine (ind : Indentation) (depth : Nat) (tag : IndexTag) :
    Tells (fun is => (runLine ind depth tag is).toList) id fun _ => True := by
  intro is js s t _ _ h
  simp only [runLine, runStart, String.toList_append, List.append_assoc,
    List.append_cancel_left_eq] at h
  obtain ⟨hnumbers, h⟩ := tells_numberList (by simp) (by simp) h
  have hlist : is.toList = js.toList :=
    List.map_injective_iff.mpr (fun _ _ => UInt32.toNat_inj.mp) hnumbers
  refine ⟨Array.toList_inj.mp hlist, ?_⟩
  simpa using h

theorem tells_run (ind : Indentation) :
    Tells (fun run : RunKind × Array UInt32 => (runLine ind 2 run.1.tag run.2).toList) id
      fun _ => True := by
  rintro ⟨kind, is⟩ ⟨kind', is'⟩ s t _ _ h
  obtain rfl : kind = kind' := by
    simp only [runLine, runStart, String.toList_append, List.append_assoc,
      List.append_cancel_left_eq] at h
    cases kind <;> cases kind' <;> simp_all [RunKind.tag, IndexTag.name]
  obtain ⟨hindices, h⟩ := tells_runLine ind 2 kind.tag trivial trivial h
  exact ⟨congrArg (Prod.mk kind) hindices, h⟩

section

variable {ind : Indentation} (hind : '<' ∉ ind.unit.toList)
include hind

theorem leadingChar_run (run : RunKind × Array UInt32) (s : List Char) :
    leadingChar ((runLine ind 2 run.1.tag run.2).toList ++ s) ≠ some '/' := by
  obtain ⟨kind, is⟩ := run
  cases kind <;> simp [runLine, runStart, RunKind.tag, IndexTag.name, leadingChar_line hind]

theorem leadingChar_group (g : WrittenGroup) (s : List Char) :
    leadingChar ((g.text ind).toList ++ s) = some 'p' := by
  cases g <;> simp [WrittenGroup.text, runLine, runStart, IndexTag.name, leadingChar_line hind]

/-- The lines of an index element. -/
theorem tells_group : Tells (fun g : WrittenGroup => (g.text ind).toList) id fun _ => True := by
  have hruns : Tells (List.flatMap fun run : RunKind × Array UInt32 =>
      (runLine ind 2 run.1.tag run.2).toList) (List.map id) fun s => leadingChar s = some '/' :=
    (tells_run ind).flatMap (fun _ _ => trivial) (fun _ _ => trivial) (leadingChar_run hind)
  intro a b s t _ _ h
  cases a with
  | polygon is =>
      cases b with
      | polygon js =>
          obtain ⟨hindices, h⟩ := tells_runLine ind 1 .p trivial trivial h
          exact ⟨congrArg WrittenGroup.polygon hindices, h⟩
      | holed runs =>
          simp [WrittenGroup.text, runLine, runStart, IndexTag.name] at h
  | holed runs =>
      cases b with
      | polygon js =>
          simp [WrittenGroup.text, runLine, runStart, IndexTag.name] at h
      | holed runs' =>
          simp only [WrittenGroup.text, runLines, String.toList_append, String.toList_join,
            List.flatMap_map, List.append_assoc, List.append_cancel_left_eq] at h
          have hend (s : List Char) :
              leadingChar ((ind.text 1).toList ++ ("</ph>\n".toList ++ s)) = some '/' :=
            leadingChar_line hind 1 _
          obtain ⟨hsame, h⟩ := hruns (hend s) (hend t) h
          rw [List.map_id, List.map_id] at hsame
          exact ⟨congrArg WrittenGroup.holed hsame, by simpa using h⟩

/-! ## Primitive elements -/

/-- The lines of a primitive element. -/
theorem tells_listing :
    Tells (fun l : WrittenListing => (l.text ind).toList) WrittenListing.shown fun _ => True := by
  have hgroups : Tells (List.flatMap fun g : WrittenGroup => (g.text ind).toList) (List.map id)
      fun s => leadingChar s = some '/' :=
    (tells_group hind).flatMap (fun _ _ => trivial) (fun _ _ => trivial)
      fun g s => by simp [leadingChar_group hind]
  have hend (name : String) (s : List Char) :
      leadingChar ((ind.text 0).toList ++ ("</".toList ++ (name.toList ++ s))) = some '/' :=
    leadingChar_line hind 0 _
  have hbody (gs : List WrittenGroup) (name : String) (s : List Char) : leadingChar
      (gs.flatMap (fun g => (g.text ind).toList)
        ++ ((ind.text 0).toList ++ ("</".toList ++ (name.toList ++ s)))) ≠ some 'i' := by
    cases gs with
    | nil =>
        rw [List.flatMap_nil, List.nil_append, hend]
        decide
    | cons g gs => simp [leadingChar_group hind]
  rintro ⟨header, groups⟩ ⟨header', groups'⟩ s t _ _ h
  simp only [WrittenListing.text, WrittenListing.openText, String.toList_append,
    String.toList_join, List.flatMap_map, List.append_assoc] at h
  obtain ⟨hheader, h⟩ := tells_lines hind (hbody _ _ _) (hbody _ _ _) h
  obtain ⟨hsame, h⟩ := hgroups (hend _ _) (hend _ _) h
  have hname : header.shape = header'.shape := by
    show header.shown.shape = header'.shown.shape
    rw [hheader]
  rw [hname] at h
  rw [List.map_id, List.map_id] at hsame
  rw [WrittenListing.shown, WrittenListing.shown, hheader, hsame]
  exact ⟨rfl, by simpa using h⟩

theorem tells_listings :
    Tells (List.flatMap fun l : WrittenListing => (l.text ind).toList)
      (List.map WrittenListing.shown) fun s => s = [] := by
  apply (tells_listing hind).flatMap (fun _ _ => trivial) (fun _ _ => trivial)
  intro l s h
  simp [WrittenListing.text] at h

end

/-! ## Texts -/

open Writer (performAll)

/-- Behind complete primitive elements a text writer has written the lines of what a recorder
    keeps. -/
theorem exists_transcript {ind : Indentation} {cs : List Command} {w : TextWriter}
    (hwrite : performAll (TextWriter.start ind none) cs = (w, none)) (hplace : w.place = .outside) :
    ∃ ls : List WrittenListing,
      performAll Recorder.empty cs
          = (⟨(ls.map WrittenListing.listing).toArray, .outside⟩, none)
        ∧ w.output.bytes = (String.join (ls.map (·.text ind))).toUTF8 := by
  obtain ⟨hprints, hfailure⟩ := (TextWriter.Prints.empty (.start ind none) rfl rfl).performAll cs
  have hrecord := Transcript.empty.performAll_recorder cs
  rw [hwrite] at hprints hfailure
  rw [← hfailure] at hrecord
  have hdraft := hprints.place_eq
  have houtput := hprints.output_eq
  generalize (performAll Transcript.empty cs).1 = t at hdraft houtput hrecord
  obtain ⟨ls, d⟩ := t
  rw [hplace] at hdraft
  cases d with
  | outside =>
      refine ⟨ls, hrecord, ?_⟩
      rw [houtput]
      simp [Transcript.text, WrittenDraft.text, TextWriter.start, Output.empty]
  | run l runs kind is => cases kind <;> cases hdraft
  | _ => cases hdraft

/-- **The text tells what was written.** Commands that are accepted, and leave nothing open, have
recorded the same listings as others that wrote the same text with the same indentation, apart from
the vertex counts of elements that list none. Materials and references may hold any characters, and
the runs inside of an element for a polygon with holes may come in any order. -/
theorem shown_eq_of_bytes_eq {ind : Indentation}
    (hind : ind = .spaces ind.base ∨ ind = .tabs ind.base)
    {cs ds : List Command} {v w : TextWriter}
    (hcs : performAll (TextWriter.start ind none) cs = (v, none)) (hv : v.place = .outside)
    (hds : performAll (TextWriter.start ind none) ds = (w, none)) (hw : w.place = .outside)
    (hbytes : v.output.bytes = w.output.bytes) :
    ∃ ls ms : Array Listing,
      performAll Recorder.empty cs = (⟨ls, .outside⟩, none)
        ∧ performAll Recorder.empty ds = (⟨ms, .outside⟩, none)
        ∧ ls.map Listing.shown = ms.map Listing.shown := by
  have hblank : '<' ∉ ind.unit.toList := by
    rcases hind with h | h <;> rw [h]
    · show '<' ∉ "  ".toList
      decide
    · show '<' ∉ "\t".toList
      decide
  obtain ⟨ls, hls, hvbytes⟩ := exists_transcript hcs hv
  obtain ⟨ms, hms, hwbytes⟩ := exists_transcript hds hw
  have htext : String.join (ls.map (·.text ind)) = String.join (ms.map (·.text ind)) :=
    String.toByteArray_inj.mp (hvbytes.symm.trans (hbytes.trans hwbytes))
  have hchars := congrArg (fun text => text.toList ++ []) htext
  simp only [String.toList_join, List.flatMap_map] at hchars
  obtain ⟨hshown, -⟩ := tells_listings hblank rfl rfl hchars
  refine ⟨_, _, hls, hms, ?_⟩
  have hlistings := congrArg (List.map WrittenListing.listing) hshown
  simp only [List.map_map, WrittenListing.listing_shown, Function.comp_def] at hlistings
  rw [← Array.toList_inj]
  simpa [Function.comp_def] using hlistings

/-- Two ways to write a polygon with a hole that differ only in vertex counts that are not
    written. -/
theorem shown_eq_of_bytes_eq_holed :
    let hole := [Command.openElement .ph, .openElement .p, .index 0, .index 12, .closeElement,
      .openElement .h, .index 3, .closeElement, .closeElement, .closePrimitive]
    let cs := .openPrimitive ⟨.polygons, 1, some "a<b", [⟨.vertex, "#v", 0, none⟩], [3]⟩ :: hole
    let ds := .openPrimitive ⟨.polygons, 1, some "a<b", [⟨.vertex, "#v", 0, none⟩], []⟩ :: hole
    ∃ ls ms : Array Listing,
      performAll Recorder.empty cs = (⟨ls, .outside⟩, none)
        ∧ performAll Recorder.empty ds = (⟨ms, .outside⟩, none)
        ∧ ls.map Listing.shown = ms.map Listing.shown := by
  intro hole cs ds
  have hprints (cs : List Command) :=
    (TextWriter.Prints.empty (.start (.spaces 3) none) rfl rfl).performAll cs
  have hwrite (cs : List Command) (h : (performAll Transcript.empty cs).2 = none) :
      performAll (TextWriter.start (.spaces 3) none) cs
        = ((performAll (TextWriter.start (.spaces 3) none) cs).1, none) :=
    Prod.ext rfl ((hprints cs).2.trans h)
  have hplace (cs : List Command) (h : (performAll Transcript.empty cs).1.draft = .outside) :
      (performAll (TextWriter.start (.spaces 3) none) cs).1.place = .outside := by
    rw [(hprints cs).1.place_eq, h]
    rfl
  have hbytes : (performAll (TextWriter.start (.spaces 3) none) cs).1.output.bytes
      = (performAll (TextWriter.start (.spaces 3) none) ds).1.output.bytes := by
    rw [(hprints cs).1.output_eq, (hprints ds).1.output_eq]
    rfl
  exact shown_eq_of_bytes_eq (.inl rfl) (hwrite cs (by decide +kernel))
    (hplace cs (by decide +kernel)) (hwrite ds (by decide +kernel))
    (hplace ds (by decide +kernel)) hbytes

end MeshWeave
