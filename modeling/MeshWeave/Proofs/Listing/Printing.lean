import MeshWeave.Listing.TextWriter
import MeshWeave.Proofs.Listing.Transcript
import MeshWeave.Proofs.Text.Delimited

set_option autoImplicit false

/-! # What text writers write

A text writer over an output that takes everything has written the text of its transcript:
`Prints` is the relation between both, and every command keeps it. So what a writer writes can be
told from the primitive elements that were written, without the commands that wrote them. -/

namespace MeshWeave

/-! ## The text of a transcript -/

/-- The begin tag of a run and its indices. -/
def runStart (ind : Indentation) (depth : Nat) (tag : IndexTag) (indices : Array UInt32) : String :=
  ind.text depth ++ "<" ++ tag.name ++ ">" ++ numberList (indices.toList.map UInt32.toNat)

/-- The line of a run. -/
def runLine (ind : Indentation) (depth : Nat) (tag : IndexTag) (indices : Array UInt32) : String :=
  runStart ind depth tag indices ++ "</" ++ tag.name ++ ">\n"

/-- The lines of runs inside an element for a polygon with holes. -/
def runLines (ind : Indentation) (runs : List (RunKind × Array UInt32)) : String :=
  String.join (runs.map fun run => runLine ind 2 run.1.tag run.2)

/-- The lines of an index element. -/
def WrittenGroup.text (ind : Indentation) : WrittenGroup → String
  | polygon indices => runLine ind 1 .p indices
  | holed runs => ind.text 1 ++ "<ph>\n" ++ runLines ind runs ++ ind.text 1 ++ "</ph>\n"

namespace WrittenListing

/-- The lines before the end tag. -/
def openText (ind : Indentation) (l : WrittenListing) : String :=
  l.header.lines ind ++ String.join (l.groups.map (·.text ind))

/-- The lines of a primitive element. -/
def text (ind : Indentation) (l : WrittenListing) : String :=
  l.openText ind ++ ind.text 0 ++ "</" ++ l.header.shape.name ++ ">\n"

theorem openText_nil (ind : Indentation) (h : Header) : openText ind ⟨h, []⟩ = h.lines ind := by
  simp [openText]

theorem openText_push (ind : Indentation) (l : WrittenListing) (g : WrittenGroup) :
    (l.push g).openText ind = l.openText ind ++ g.text ind := by
  simp [openText, push, String.join_append, String.append_assoc]

end WrittenListing

/-- The text of the primitive element that is being written. -/
def WrittenDraft.text (ind : Indentation) : WrittenDraft → String
  | outside => ""
  | primitive l => l.openText ind
  | polygon l indices => l.openText ind ++ runStart ind 1 .p indices
  | holed l runs => l.openText ind ++ ind.text 1 ++ "<ph>\n" ++ runLines ind runs
  | run l runs kind indices =>
      l.openText ind ++ ind.text 1 ++ "<ph>\n" ++ runLines ind runs
        ++ runStart ind 2 kind.tag indices

/-- The text of everything that was written. -/
def Transcript.text (ind : Indentation) (t : Transcript) : String :=
  String.join (t.listings.map (·.text ind)) ++ t.draft.text ind

/-- A transcript takes what its place allows. -/
theorem Transcript.place_step (t : Transcript) (c : Command) :
    (t.step c).map (·.draft.draft.place) = t.draft.draft.place.step c := by
  obtain ⟨ls, d⟩ := t
  cases d with
  | run l runs kind is => cases kind <;> cases c <;> rfl
  | _ => cases c with
    | openElement tag => cases tag <;> rfl
    | _ => rfl

/-! ### One more piece -/

theorem numberList_push (is : Array UInt32) (i : UInt32) :
    numberList ((is.push i).toList.map UInt32.toNat)
      = numberList (is.toList.map UInt32.toNat)
        ++ ((if is.isEmpty then "" else " ") ++ toString i.toNat) := by
  obtain ⟨is⟩ := is
  cases is with
  | nil => simp [numberList]
  | cons j js => simp [numberList_cons, String.append_assoc]

theorem runStart_empty (ind : Indentation) (depth : Nat) (tag : IndexTag) :
    runStart ind depth tag #[] = ind.text depth ++ "<" ++ tag.name ++ ">" := by
  simp [runStart, numberList]

theorem runStart_push (ind : Indentation) (depth : Nat) (tag : IndexTag) (is : Array UInt32)
    (i : UInt32) :
    runStart ind depth tag (is.push i)
      = runStart ind depth tag is ++ ((if is.isEmpty then "" else " ") ++ toString i.toNat) := by
  rw [runStart, runStart, numberList_push]
  simp only [String.append_assoc]

theorem runLines_push (ind : Indentation) (runs : List (RunKind × Array UInt32)) (kind : RunKind)
    (is : Array UInt32) :
    runLines ind (runs ++ [(kind, is)]) = runLines ind runs ++ runLine ind 2 kind.tag is := by
  simp [runLines]

/-! ## Printing -/

theorem Output.write_of_unlimited {o : Output} (h : o.capacity = none) (text : String) :
    o.write text = ({ o with bytes := o.bytes ++ text.toUTF8 }, true) := by
  simp [write, accepted, h]

namespace TextWriter

/-- The writer that a command leads to where it is allowed. -/
def reached (w : TextWriter) (c : Command) (p : Place) : TextWriter :=
  { w.note c with
    place := p
    output := { w.output with bytes := w.output.bytes ++ (w.text c).toUTF8 } }

/-- Over an output that takes everything a command that is allowed is written whole. -/
theorem perform_of_step {w : TextWriter} (h : w.output.capacity = none) {c : Command} {p : Place}
    (hstep : w.place.step c = .ok p) : w.perform c = (w.reached c p, none) := by
  simp [perform, hstep, Output.write_of_unlimited h, reached]

theorem note_indentation (w : TextWriter) (c : Command) :
    (w.note c).indentation = w.indentation := by
  cases c <;> rfl

/-- What a writer remembers of the element that it is in. -/
def Remembers (shape : Shape) (fresh : Bool) : WrittenDraft → Prop
  | .outside => True
  | .primitive l | .holed l _ => shape = l.header.shape
  | .polygon l is | .run l _ _ is => shape = l.header.shape ∧ fresh = is.isEmpty

/-- A writer has written what a transcript says, behind what was there before. -/
structure Prints (ind : Indentation) (before : ByteArray) (w : TextWriter) (t : Transcript) :
    Prop where
  indentation_eq : w.indentation = ind
  place_eq : w.place = t.draft.draft.place
  remembers : Remembers w.shape w.fresh t.draft
  output_eq : w.output = ⟨before ++ (t.text ind).toUTF8, none⟩

namespace Prints

variable {ind : Indentation} {before : ByteArray} {w : TextWriter} {t t' : Transcript}
  {c : Command}

/-- A writer with nothing open begins a new transcript. -/
theorem empty (w : TextWriter) (hplace : w.place = .outside)
    (hcapacity : w.output.capacity = none) :
    Prints w.indentation w.output.bytes w .empty := by
  obtain ⟨ind, p, shape, fresh, bytes, capacity⟩ := w
  obtain rfl : p = .outside := hplace
  obtain rfl : capacity = none := hcapacity
  exact ⟨rfl, rfl, trivial, by simp [Transcript.text, Transcript.empty, WrittenDraft.text]⟩

/-- The text of a command is what it adds to the text of the transcript. -/
theorem text_step (h : Prints ind before w t) (hstep : t.step c = .ok t') :
    t'.text ind = t.text ind ++ w.text c := by
  obtain ⟨hind, hplace, hremembers, -⟩ := h
  obtain ⟨ind', p, shape, fresh, output⟩ := w
  obtain ⟨ls, d⟩ := t
  obtain rfl : ind' = ind := hind
  obtain rfl : p = d.draft.place := hplace
  have hp : "</" ++ (IndexTag.p.name ++ ">\n") = "</p>\n" := by decide
  have hh : "</" ++ (IndexTag.h.name ++ ">\n") = "</h>\n" := by decide
  simp only [Transcript.text, TextWriter.text]
  cases d with
  | outside =>
      cases c <;> cases hstep
      simp [WrittenDraft.text, WrittenListing.openText_nil]
  | primitive l =>
      obtain rfl : shape = l.header.shape := hremembers
      cases c with
      | openElement tag =>
          cases tag <;> cases hstep <;>
            simp [WrittenDraft.text, runStart_empty, runLines, WrittenDraft.draft, Draft.place,
              String.append_assoc]
      | closePrimitive =>
          cases hstep
          simp [WrittenDraft.text, WrittenListing.text, String.append_assoc]
      | _ => cases hstep
  | polygon l is =>
      obtain ⟨rfl, rfl⟩ := hremembers
      cases c with
      | index i =>
          cases hstep
          simp only [WrittenDraft.text, runStart_push, String.append_assoc]
      | closeElement =>
          cases hstep
          simp [WrittenDraft.text, WrittenListing.openText_push, WrittenGroup.text, runLine,
            closing, WrittenDraft.draft, Draft.place, hp, String.append_assoc]
      | _ => cases hstep
  | holed l runs =>
      cases c with
      | openElement tag =>
          cases tag <;> cases hstep <;>
            simp [WrittenDraft.text, runStart_empty, WrittenDraft.draft, Draft.place, RunKind.tag,
              String.append_assoc]
      | closeElement =>
          cases hstep
          simp [WrittenDraft.text, WrittenListing.openText_push, WrittenGroup.text, closing,
            WrittenDraft.draft, Draft.place, String.append_assoc]
      | _ => cases hstep
  | run l runs kind is =>
      obtain ⟨rfl, rfl⟩ := hremembers
      cases c with
      | index i =>
          cases hstep
          simp only [WrittenDraft.text, runStart_push, String.append_assoc]
      | closeElement =>
          cases hstep
          cases kind <;>
            simp [WrittenDraft.text, runLines_push, runLine, closing, WrittenDraft.draft,
              Draft.place, RunKind.tag, hp, hh, String.append_assoc]
      | _ => cases hstep

theorem remembers_step (h : Prints ind before w t) (hstep : t.step c = .ok t') :
    Remembers (w.note c).shape (w.note c).fresh t'.draft := by
  have hremembers := h.remembers
  obtain ⟨ls, d⟩ := t
  unfold Transcript.step at hstep
  split at hstep <;> cases hstep <;> simp_all [Remembers, note, WrittenListing.push]

/-- Every command is answered alike, and what it writes is what the transcript gains. -/
theorem perform (h : Prints ind before w t) (c : Command) :
    Prints ind before (Writer.perform w c).1 (Writer.perform t c).1
      ∧ (Writer.perform w c).2 = (Writer.perform t c).2 := by
  have hplace := t.place_step c
  rw [← h.place_eq] at hplace
  cases hstep : t.step c with
  | error m =>
      rw [hstep] at hplace
      simp [Writer.perform, TextWriter.perform, hstep, ← hplace, Except.map, h]
  | ok t' =>
      rw [hstep] at hplace
      have hoff : w.output.capacity = none := by rw [h.output_eq]
      have hwrite : Writer.perform w c = _ := perform_of_step hoff hplace.symm
      have hread : Writer.perform t c = (t', none) := by simp [Writer.perform, hstep]
      rw [hwrite, hread]
      refine ⟨⟨?_, rfl, h.remembers_step hstep, ?_⟩, rfl⟩
      · exact (w.note_indentation c).trans h.indentation_eq
      · simp [reached, h.output_eq, h.text_step hstep, ByteArray.append_assoc]

/-- So are commands in a row. -/
theorem performAll (h : Prints ind before w t) (cs : List Command) :
    Prints ind before (Writer.performAll w cs).1 (Writer.performAll t cs).1
      ∧ (Writer.performAll w cs).2 = (Writer.performAll t cs).2 := by
  induction cs generalizing w t with
  | nil => exact ⟨h, rfl⟩
  | cons c cs ih =>
      obtain ⟨hnext, hfailure⟩ := h.perform c
      rw [Writer.performAll_cons, Writer.performAll_cons, hfailure]
      cases (Writer.perform t c).2 with
      | none => exact ih hnext
      | some failure => exact ⟨hnext, rfl⟩

end Prints

end TextWriter

end MeshWeave
