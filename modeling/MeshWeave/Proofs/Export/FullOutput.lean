import MeshWeave.Proofs.Export.Safety
import MeshWeave.Proofs.Listing.Truncation

set_option autoImplicit false

/-! # Exports to outputs that run full

An export gives the same commands to every writer, and the first one that fails ends it. So it does
over an output that takes `n` bytes what it does over one without a limit, unless the text of its
listings is longer. Then it fails, and the output holds the first `n` bytes of that text.

This is proved of a text writer, and of a printer that an export by buffers drives. The pieces that
the printer has handed over are then the first ones of the text, and only the last of them did not
fit. -/

namespace MeshWeave

/-- How an export ends, and the bytes that it has written. -/
abbrev Ending := Except Failure Nat × ByteArray

/-- The end if the output takes only a number of bytes: the same one if all bytes fit, and
    otherwise a failure behind those that do. -/
def Ending.within (n : Nat) (o : Ending) : Ending :=
  if o.2.size ≤ n then o else (.error .outputFull, o.2.extract 0 n)

/-- Runs of which one was cut short have such ends. -/
theorem CutShort.ending_eq {σ τ : Type} {Same Stopped : σ → τ → Prop}
    {x : σ × Except Failure Nat} {y : τ × Except Failure Nat} {n : Nat} {held : ByteArray}
    {whole : ByteArray} (h : CutShort Same Stopped (.error .outputFull) x y)
    (hsame : Same x.1 y.1 → whole.size ≤ n ∧ held = whole)
    (hstopped : Stopped x.1 y.1 → n < whole.size ∧ held = whole.extract 0 n) :
    (x.2, held) = Ending.within n (y.2, whole) := by
  rcases h with ⟨hx, hresult⟩ | ⟨hx, hresult⟩
  · obtain ⟨hsize, hheld⟩ := hsame hx
    rw [Ending.within, if_pos hsize, hresult, hheld]
  · obtain ⟨hsize, hheld⟩ := hstopped hx
    rw [Ending.within, if_neg (Nat.not_le_of_lt hsize), hresult, hheld]

namespace Exporter

/-! ## Plans -/

section

variable {σ τ : Type} [Writer σ] [Writer τ] {Same Stopped : σ → τ → Prop} {v : σ} {w : τ}

theorem writePlan_cons (w : σ) (written : Nat) (planned : Noted (Option Listing))
    (plan : List (Noted (Option Listing))) :
    (writePlan w written (planned :: plan)).value
      = match planned.value with
        | none => (writePlan w written plan).value
        | some l =>
            match (Writer.performAll w l.commands).2 with
            | none => (writePlan (Writer.performAll w l.commands).1 (written + 1) plan).value
            | some failure => ((Writer.performAll w l.commands).1, .error failure) := by
  rw [writePlan, Noted.value_bind]
  cases planned.value with
  | none => rfl
  | some l =>
      simp only
      rcases Writer.performAll w l.commands with ⟨w', _ | failure⟩ <;> rfl

theorem stopped_writePlan (h : Truncation Same Stopped) (hstopped : Stopped v w) (written : Nat)
    (plan : List (Noted (Option Listing))) : Stopped v (writePlan w written plan).value.1 := by
  induction plan generalizing w written with
  | nil => exact hstopped
  | cons planned plan ih =>
      rw [writePlan_cons]
      cases planned.value with
      | none => exact ih hstopped written
      | some l =>
          have hlisting := h.stopped_performAll hstopped l.commands
          simp only
          cases (Writer.performAll w l.commands).2 with
          | none => exact ih hlisting (written + 1)
          | some failure => exact hlisting

/-- A plan is written the same up to where the output is full. -/
theorem writePlan_cutShort (h : Truncation Same Stopped) (hsame : Same v w) (written : Nat)
    (plan : List (Noted (Option Listing))) :
    CutShort Same Stopped (.error .outputFull) (writePlan v written plan).value
      (writePlan w written plan).value := by
  induction plan generalizing v w written with
  | nil => exact .inl ⟨hsame, rfl⟩
  | cons planned plan ih =>
      rw [writePlan_cons, writePlan_cons]
      cases planned.value with
      | none => exact ih hsame written
      | some l =>
          rcases h.performAll hsame l.commands with ⟨hnext, hfailure⟩ | ⟨hstopped, hfailure⟩
          · simp only [hfailure]
            cases (Writer.performAll w l.commands).2 with
            | none => exact ih hnext (written + 1)
            | some failure => exact .inl ⟨hnext, rfl⟩
          · simp only [hfailure]
            refine .inr ⟨?_, rfl⟩
            -- The other export goes on behind the listing that was cut short.
            cases (Writer.performAll w l.commands).2 with
            | none => exact stopped_writePlan h hstopped (written + 1) plan
            | some failure => exact hstopped

end

/-! ## Exports -/

section

variable (e : Exporter) (ind : Indentation) (n : Nat)

/-- The end of an export to a text writer. -/
def writeText (capacity : Option Nat) : Ending :=
  let run := (e.write (TextWriter.start ind capacity)).value.2
  (run.2, run.1.output.bytes)

theorem write_cutShort {σ τ : Type} [Writer σ] [Writer τ] {Same Stopped : σ → τ → Prop} {v : σ}
    {w : τ} (h : Truncation Same Stopped) (hsame : Same v w) :
    CutShort Same Stopped (.error .outputFull) (e.write v).value.2 (e.write w).value.2 :=
  writePlan_cutShort h hsame 0 e.listings.value.2

/-- Without a limit the text of all listings is written. -/
theorem writeText_none : e.writeText ind none
    = (.ok e.written.length, (String.join (e.written.map (·.written.text ind))).toUTF8) := by
  obtain ⟨w, hplan, hprints⟩ :=
    writePlan_prints (TextWriter.Prints.empty (.start ind none) rfl rfl) 0 e.listings.value.2
  rw [Nat.zero_add] at hplan
  have hwrite : (e.write (TextWriter.start ind none)).value.2 = (w, .ok e.written.length) := hplan
  simp only [writeText, hwrite, hprints.output_eq]
  simp [TextWriter.start, Output.empty, Transcript.text, WrittenDraft.text, written,
    Function.comp_def]

/-- A limit cuts that text off. -/
theorem writeText_some : e.writeText ind (some n) = (e.writeText ind none).within n := by
  have h := e.write_cutShort (TextWriter.truncation n) (TextWriter.fits_start ind)
  refine h.ending_eq (fun hfits => ⟨hfits.size_le, ?_⟩) fun hstopped => ?_
  · rw [hfits.within_eq]
    rfl
  · exact ⟨hstopped.lt_size, hstopped.bytes_eq⟩

/-- The run of an export to a printer. -/
def print (capacity : Option Nat) : Printer × Except Failure Nat :=
  (e.write (Printer.start ind capacity)).value.2

/-- Without a limit a printer writes what a text writer writes. -/
theorem print_none : ((e.print ind none).2, (e.print ind none).1.output.bytes)
    = e.writeText ind none := by
  rcases e.write_cutShort Printer.alike_truncation (Printer.alike_start ind) with
    ⟨halike, hresult⟩ | ⟨hfalse, -⟩
  · exact Prod.ext hresult (congrArg TextRegisters.bytes halike.registers_eq)
  · exact hfalse.elim

/-- With a limit it does up to the first piece that does not fit. -/
theorem print_some :
    CutShort (Printer.Fits n) (Printer.Stopped n) (.error .outputFull) (e.print ind (some n))
      (e.print ind none) :=
  e.write_cutShort (Printer.truncation n) (Printer.fits_start ind)

/-- What the output holds is what was handed over. -/
theorem bytesOf_print : bytesOf (e.print ind none).1.handed = (e.writeText ind none).2 := by
  have hwhole : (e.print ind none).1.output = ⟨bytesOf (e.print ind none).1.handed, none⟩ := by
    rcases e.print_some ind 0 with ⟨hfits, -⟩ | ⟨hstopped, -⟩
    · exact hfits.whole_eq
    · exact hstopped.whole_eq
  rw [← print_none, hwhole]

/-- With a limit a printer still ends as a text writer does. -/
theorem ending_print : ((e.print ind (some n)).2, (e.print ind (some n)).1.output.bytes)
    = e.writeText ind (some n) := by
  rw [writeText_some, ← print_none]
  refine (e.print_some ind n).ending_eq (fun hfits => ?_) fun hstopped => hstopped.bytes_eq
  rw [hfits.output_eq, hfits.whole_eq]
  exact ⟨hfits.size_le, rfl⟩

/-- Behind a piece that does not fit nothing is handed over. -/
theorem handed_print :
    if (e.writeText ind none).2.size ≤ n then
      (e.print ind (some n)).1.handed = (e.print ind none).1.handed
    else
      (e.print ind (some n)).1.handed <+: (e.print ind none).1.handed
        ∧ (bytesOf (e.print ind (some n)).1.handed.dropLast).size ≤ n
        ∧ n < (bytesOf (e.print ind (some n)).1.handed).size := by
  rw [← bytesOf_print]
  rcases e.print_some ind n with ⟨hfits, -⟩ | ⟨hstopped, -⟩
  · rw [if_pos hfits.size_le]
    exact hfits.handed_eq
  · have hlt := hstopped.bytes_eq.1
    rw [hstopped.whole_eq] at hlt
    rw [if_neg (Nat.not_le_of_lt hlt)]
    exact ⟨hstopped.begins, hstopped.size_le, hstopped.lt_size⟩

end

/-- **A full output holds a prefix.** Without a limit an export succeeds, and writes the text of its
listings. Over an output that takes `n` bytes it does the same if the text has no more than these,
and otherwise it fails, and the output holds the first `n` bytes of the text. An export by buffers
to a printer ends the same way. It hands its pieces to the output in the same order, and none after
the first that does not fit. -/
theorem write_within (e : Exporter) (ind : Indentation) (n : Nat) :
    e.writeText ind none
      = (.ok e.written.length, (String.join (e.written.map (·.written.text ind))).toUTF8)
    ∧ e.writeText ind (some n) = (e.writeText ind none).within n
    ∧ ∃ whole part : Printer,
      e.writeBuffered (Printer.start ind none) = .ok ((e.writeText ind none).1, whole)
      ∧ whole.output.bytes = (e.writeText ind none).2
      ∧ bytesOf whole.handed = (e.writeText ind none).2
      ∧ e.writeBuffered (Printer.start ind (some n)) = .ok ((e.writeText ind (some n)).1, part)
      ∧ part.output.bytes = (e.writeText ind (some n)).2
      ∧ if (e.writeText ind none).2.size ≤ n then part.handed = whole.handed
        else part.handed <+: whole.handed ∧ (bytesOf part.handed.dropLast).size ≤ n
          ∧ n < (bytesOf part.handed).size := by
  obtain ⟨hresult, hbytes⟩ := Prod.ext_iff.mp (e.print_none ind)
  obtain ⟨hresult', hbytes'⟩ := Prod.ext_iff.mp (e.ending_print ind n)
  have hbuffered (capacity : Option Nat) : e.writeBuffered (Printer.start ind capacity)
      = .ok ((e.print ind capacity).2, (e.print ind capacity).1) := e.writeBuffered_eq _
  refine ⟨e.writeText_none ind, e.writeText_some ind n, (e.print ind none).1,
    (e.print ind (some n)).1, ?_, hbytes, e.bytesOf_print ind, ?_, hbytes', e.handed_print ind n⟩
  · rw [hbuffered, ← hresult]
  · rw [hbuffered, ← hresult']

end Exporter

end MeshWeave
