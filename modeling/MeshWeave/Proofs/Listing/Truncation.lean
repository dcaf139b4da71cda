import MeshWeave.Proofs.Listing.Printer

set_option autoImplicit false

/-! # Outputs that run full

An output that takes `n` bytes takes what one without a limit takes, up to the first text that goes
beyond `n`. Of that text it takes as much as fits, and the command fails. So a writer over such an
output does what the same writer does without the limit, or it has stopped, and what it has written
is the first `n` bytes of what the other one goes on to write.

`Truncation` says this of one command, and its lemmas carry it to any number of commands. For a
printer it holds of every step inside of a command, so a printer that stops has handed over no piece
behind the one that did not fit. -/

namespace MeshWeave

/-! ## Two runs of which one may end early -/

section

variable {σ τ ε : Type}

/-- Two writers end the same, or the first has stopped with a failure. -/
def CutShort (Same Stopped : σ → τ → Prop) (failure : ε) (x : σ × ε) (y : τ × ε) : Prop :=
  (Same x.1 y.1 ∧ x.2 = y.2) ∨ (Stopped x.1 y.1 ∧ x.2 = failure)

variable [Writer σ] [Writer τ]

/-- A writer does what another one does until its output is full. What the other one does behind
    that is nothing to it. -/
structure Truncation (Same Stopped : σ → τ → Prop) : Prop where
  perform {v : σ} {w : τ} (h : Same v w) (c : Command) :
    CutShort Same Stopped (some .outputFull) (Writer.perform v c) (Writer.perform w c)
  stopped {v : σ} {w : τ} (h : Stopped v w) (c : Command) : Stopped v (Writer.perform w c).1

namespace Truncation

variable {Same Stopped : σ → τ → Prop} {v : σ} {w : τ}

theorem stopped_performAll (h : Truncation Same Stopped) (hstopped : Stopped v w)
    (cs : List Command) : Stopped v (Writer.performAll w cs).1 := by
  induction cs generalizing w with
  | nil => exact hstopped
  | cons c cs ih =>
      have hnext := h.stopped hstopped c
      rw [Writer.performAll_cons]
      cases (Writer.perform w c).2 with
      | none => exact ih hnext
      | some failure => exact hnext

/-- Commands in a row are done the same up to where the output is full. -/
theorem performAll (h : Truncation Same Stopped) (hsame : Same v w) (cs : List Command) :
    CutShort Same Stopped (some .outputFull) (Writer.performAll v cs)
      (Writer.performAll w cs) := by
  induction cs generalizing v w with
  | nil => exact .inl ⟨hsame, rfl⟩
  | cons c cs ih =>
      rw [Writer.performAll_cons, Writer.performAll_cons]
      rcases h.perform hsame c with ⟨hnext, hfailure⟩ | ⟨hstopped, hfailure⟩
      · rw [hfailure]
        cases (Writer.perform w c).2 with
        | none => exact ih hnext
        | some failure => exact .inl ⟨hnext, rfl⟩
      · rw [hfailure]
        refine .inr ⟨?_, rfl⟩
        cases (Writer.perform w c).2 with
        | none => exact h.stopped_performAll hstopped cs
        | some failure => exact hstopped

end Truncation

end

/-! ## Outputs -/

theorem extract_of_size_le {bytes : ByteArray} {n : Nat} (h : bytes.size ≤ n) :
    bytes.extract 0 n = bytes := by
  apply ByteArray.ext
  rw [ByteArray.data_extract]
  exact Array.extract_eq_self_of_le h

theorem extract_append_of_le {bytes more : ByteArray} {n : Nat} (h : n ≤ bytes.size) :
    (bytes ++ more).extract 0 n = bytes.extract 0 n := by
  rw [ByteArray.extract_append, Nat.sub_eq_zero_of_le h, Nat.zero_sub, ByteArray.extract_same,
    ByteArray.append_empty]

namespace Output

variable {bytes : ByteArray} {n : Nat} {text : String}

theorem write_of_size_le (h : (bytes ++ text.toUTF8).size ≤ n) :
    write ⟨bytes, some n⟩ text = (⟨bytes ++ text.toUTF8, some n⟩, true) := by
  have hsize : text.toUTF8.size ≤ n - bytes.size := by
    rw [ByteArray.size_append] at h
    omega
  have htext : (text.toUTF8.size == text.utf8ByteSize) = true := beq_self_eq_true text.utf8ByteSize
  simp only [write, accepted, extract_of_size_le hsize, htext]

/-- A text that goes beyond the limit fills the output. -/
theorem write_of_lt_size (hfits : bytes.size ≤ n) (h : n < (bytes ++ text.toUTF8).size) :
    write ⟨bytes, some n⟩ text = (⟨(bytes ++ text.toUTF8).extract 0 n, some n⟩, false) := by
  have hpart : (bytes ++ text.toUTF8).extract 0 n
      = bytes ++ text.toUTF8.extract 0 (n - bytes.size) := by
    rw [ByteArray.extract_append, extract_of_size_le hfits, Nat.zero_sub]
  have hsize : n - bytes.size < text.toUTF8.size := by
    rw [ByteArray.size_append] at h
    omega
  have hne : (text.toUTF8.extract 0 (n - bytes.size)).size ≠ text.utf8ByteSize := by
    have htext : text.toUTF8.size = text.utf8ByteSize := rfl
    rw [ByteArray.size_extract]
    omega
  simp only [write, accepted, hpart, beq_eq_false_iff_ne.mpr hne]

end Output

/-! ## Text writers -/

namespace TextWriter

variable (n : Nat)

/-- The same writer over an output that takes a number of bytes. -/
def within (w : TextWriter) : TextWriter := { w with output := ⟨w.output.bytes, some n⟩ }

/-- All that was written fits. -/
structure Fits (v w : TextWriter) : Prop where
  within_eq : v = w.within n
  unlimited : w.output.capacity = none
  size_le : w.output.bytes.size ≤ n

/-- The output is full, and holds the begin of what was written. -/
structure Stopped (v w : TextWriter) : Prop where
  unlimited : w.output.capacity = none
  bytes_eq : v.output.bytes = w.output.bytes.extract 0 n
  lt_size : n < w.output.bytes.size

variable {n} {v w : TextWriter}

theorem fits_start (ind : Indentation) : Fits n (.start ind (some n)) (.start ind none) :=
  ⟨rfl, rfl, Nat.zero_le n⟩

theorem Fits.perform (h : Fits n v w) (c : Command) :
    CutShort (Fits n) (Stopped n) (some .outputFull) (v.perform c) (w.perform c) := by
  obtain ⟨rfl, hunlimited, hsize⟩ := h
  cases hstep : w.place.step c with
  | error m =>
      have hrefused : w.perform c = (w, some (.misuse m)) := by rw [TextWriter.perform, hstep]
      have hrefused' : (w.within n).perform c = (w.within n, some (.misuse m)) := by
        rw [TextWriter.perform, show (w.within n).place.step c = .error m from hstep]
      rw [hrefused, hrefused']
      exact .inl ⟨⟨rfl, hunlimited, hsize⟩, rfl⟩
  | ok p =>
      have hstep' : (w.within n).place.step c = .ok p := hstep
      have htext : (w.within n).text c = w.text c := by cases c <;> rfl
      have houtput : (w.within n).output = ⟨w.output.bytes, some n⟩ := rfl
      rw [perform_of_step hunlimited hstep, TextWriter.perform, hstep', htext, houtput]
      by_cases hfits : (w.output.bytes ++ (w.text c).toUTF8).size ≤ n
      · rw [Output.write_of_size_le hfits]
        refine .inl ⟨⟨?_, hunlimited, hfits⟩, rfl⟩
        cases c <;> rfl
      · rw [Output.write_of_lt_size hsize (Nat.lt_of_not_le hfits)]
        exact .inr ⟨⟨hunlimited, rfl, Nat.lt_of_not_le hfits⟩, rfl⟩

theorem Stopped.perform (h : Stopped n v w) (c : Command) : Stopped n v (w.perform c).1 := by
  obtain ⟨hunlimited, hbytes, hlt⟩ := h
  cases hstep : w.place.step c with
  | error m =>
      rw [TextWriter.perform, hstep]
      exact ⟨hunlimited, hbytes, hlt⟩
  | ok p =>
      rw [perform_of_step hunlimited hstep]
      refine ⟨hunlimited, ?_, ?_⟩
      · exact hbytes.trans (extract_append_of_le (Nat.le_of_lt hlt)).symm
      · exact Nat.lt_of_lt_of_le hlt (ByteArray.size_append ▸ Nat.le_add_right _ _)

variable (n) in
/-- A text of a command fits whole, or the writer stops inside of it. -/
theorem truncation : Truncation (Fits n) (Stopped n) where
  perform h c := h.perform c
  stopped h c := h.perform c

end TextWriter

/-! ## Printers -/

/-- The bytes of pieces of text. -/
def bytesOf (pieces : List String) : ByteArray := (String.join pieces).toUTF8

theorem bytesOf_append (before after : List String) :
    bytesOf (before ++ after) = bytesOf before ++ bytesOf after := by
  simp [bytesOf, String.join_append]

theorem bytesOf_concat (pieces : List String) (piece : String) :
    bytesOf (pieces ++ [piece]) = bytesOf pieces ++ piece.toUTF8 := by
  rw [bytesOf_append]
  simp [bytesOf]

namespace Printer

variable (n : Nat)

/-- All pieces fit. -/
structure Fits (v w : Printer) : Prop where
  cursor_eq : v.cursor = w.cursor
  handed_eq : v.handed = w.handed
  output_eq : v.output = ⟨bytesOf w.handed, some n⟩
  whole_eq : w.output = ⟨bytesOf w.handed, none⟩
  size_le : (bytesOf w.handed).size ≤ n

/-- The last piece that was handed over did not fit, and those before it did. The pieces are the
    first ones of what the other printer goes on to write. -/
structure Stopped (v w : Printer) : Prop where
  begins : v.handed <+: w.handed
  output_eq : v.output = ⟨(bytesOf v.handed).extract 0 n, some n⟩
  whole_eq : w.output = ⟨bytesOf w.handed, none⟩
  size_le : (bytesOf v.handed.dropLast).size ≤ n
  lt_size : n < (bytesOf v.handed).size

variable {n} {v w : Printer}

theorem fits_start (ind : Indentation) : Fits n (.start ind (some n)) (.start ind none) :=
  ⟨rfl, rfl, rfl, rfl, Nat.zero_le n⟩

/-- A full output holds the first bytes of all that is written. -/
theorem Stopped.bytes_eq (h : Stopped n v w) :
    n < w.output.bytes.size ∧ v.output.bytes = w.output.bytes.extract 0 n := by
  obtain ⟨after, hafter⟩ := h.begins
  rw [h.output_eq, h.whole_eq, ← hafter, bytesOf_append]
  refine ⟨?_, (extract_append_of_le (Nat.le_of_lt h.lt_size)).symm⟩
  exact Nat.lt_of_lt_of_le h.lt_size (ByteArray.size_append ▸ Nat.le_add_right _ _)

end Printer

namespace Printing

open Printer (Fits Stopped)

variable {n : Nat} {α β : Type}

/-- Over an output without a limit every piece is taken. -/
theorem put_whole {w : Printer} (h : w.output = ⟨bytesOf w.handed, none⟩) (piece : String) :
    put piece w = (.ok (), { w with
      output := ⟨bytesOf (w.handed ++ [piece]), none⟩
      handed := w.handed ++ [piece] }) := by
  rw [put, h, Output.write_of_unlimited rfl, bytesOf_concat]
  rfl

variable (n) in
/-- What steps do over an output of `n` bytes, and over one without a limit. -/
structure Truncates (x : Printing α) : Prop where
  fits {v w : Printer} (h : Fits n v w) :
    CutShort (Fits n) (Stopped n) (.error .outputFull) (x v).swap (x w).swap
  stopped {v w : Printer} (h : Stopped n v w) : Stopped n v (x w).2

namespace Truncates

/-- The first part stops, or it ends the same and the second part begins the same. -/
theorem bind {x : Printing α} {k : α → Printing β} (hx : Truncates n x)
    (hk : ∀ a, Truncates n (k a)) : Truncates n (x >>= k) where
  fits {v w} h := by
    have hfirst := hx.fits h
    rw [bind_apply, bind_apply]
    rcases hv : x v with ⟨r, v'⟩
    rcases hw : x w with ⟨s, w'⟩
    rw [hv, hw] at hfirst
    rcases hfirst with ⟨hsame, heq⟩ | ⟨hstopped, heq⟩
    · obtain rfl : r = s := heq
      cases r with
      | error failure => exact .inl ⟨hsame, rfl⟩
      | ok a => exact (hk a).fits hsame
    · obtain rfl : r = .error .outputFull := heq
      refine .inr ⟨?_, rfl⟩
      cases s with
      | error failure => exact hstopped
      | ok a => exact (hk a).stopped hstopped
  stopped {v w} h := by
    have hfirst := hx.stopped h
    rw [bind_apply]
    rcases hw : x w with ⟨s, w'⟩
    rw [hw] at hfirst
    cases s with
    | error failure => exact hfirst
    | ok a => exact (hk a).stopped hfirst

theorem pure (a : α) : Truncates n (Pure.pure a : Printing α) where
  fits h := .inl ⟨h, rfl⟩
  stopped h := h

theorem look : Truncates n Printing.look where
  fits h := .inl ⟨h, congrArg Except.ok h.cursor_eq⟩
  stopped h := h

theorem move (f : Cursor → Cursor) : Truncates n (Printing.move f) where
  fits h :=
    .inl ⟨⟨congrArg f h.cursor_eq, h.handed_eq, h.output_eq, h.whole_eq, h.size_le⟩, rfl⟩
  stopped h := ⟨h.begins, h.output_eq, h.whole_eq, h.size_le, h.lt_size⟩

theorem ask (question : OpenElements → Except Misuse α) : Truncates n (Printing.ask question) where
  fits {v w} h := by
    rw [Printing.ask, Printing.ask, h.cursor_eq]
    cases question w.cursor.elements <;> exact .inl ⟨h, rfl⟩
  stopped {v w} h := by
    rw [Printing.ask]
    cases question w.cursor.elements <;> exact h

/-- A piece fits as well, or it is the one that does not. -/
theorem put (piece : String) : Truncates n (Printing.put piece) where
  fits {v w} h := by
    rw [put_whole h.whole_eq, Printing.put, h.output_eq, h.handed_eq]
    by_cases hfits : (bytesOf w.handed ++ piece.toUTF8).size ≤ n
    · rw [Output.write_of_size_le hfits, ← bytesOf_concat]
      rw [← bytesOf_concat] at hfits
      exact .inl ⟨⟨h.cursor_eq, rfl, rfl, rfl, hfits⟩, rfl⟩
    · -- What was handed over before is what fits.
      have hlt := Nat.lt_of_not_le hfits
      rw [Output.write_of_lt_size h.size_le hlt, ← bytesOf_concat]
      rw [← bytesOf_concat] at hlt
      have hbefore : (bytesOf (w.handed ++ [piece]).dropLast).size ≤ n := by
        rw [List.dropLast_concat]
        exact h.size_le
      exact .inr ⟨⟨List.prefix_rfl, rfl, rfl, hbefore, hlt⟩, rfl⟩
  stopped {v w} h := by
    rw [put_whole h.whole_eq]
    exact ⟨h.begins.trans (List.prefix_append _ _), h.output_eq, rfl, h.size_le, h.lt_size⟩

theorem forM {γ : Type} {x : γ → Printing Unit} (h : ∀ i, Truncates n (x i)) (is : List γ) :
    Truncates n (is.forM x) := by
  induction is with
  | nil => exact pure ()
  | cons i is ih => exact (h i).bind fun _ => ih

theorem emit (pieces : List String) : Truncates n (Printing.emit pieces) := forM put pieces

theorem indent : Truncates n Printing.indent :=
  look.bind fun c => emit (List.replicate c.level c.unit)

theorem line (pieces : List String) : Truncates n (Printing.line pieces) :=
  indent.bind fun _ => emit pieces

theorem ite {condition : Prop} [Decidable condition] {x y : Printing Unit} (hx : Truncates n x)
    (hy : Truncates n y) : Truncates n (if condition then x else y) := by
  split
  · exact hx
  · exact hy

/-! ### Commands -/

theorem counts (h : Header) : Truncates n (Printing.counts h) := (line _).ite (pure ())

theorem inward (tag : IndexTag) : Truncates n (Printing.inward tag) :=
  ((emit ["\n"]).bind fun _ => move _).ite (pure ())

theorem outward (tag : IndexTag) : Truncates n (Printing.outward tag) :=
  ((move _).bind fun _ => indent).ite (pure ())

theorem separate : Truncates n Printing.separate :=
  look.bind fun _ => (pure ()).ite (emit [" "])

theorem openPrimitive (h : Header) : Truncates n (Printing.openPrimitive h) :=
  (ask _).bind fun _ => (move _).bind fun _ => (line _).bind fun _ => (move _).bind fun _ =>
    (forM (fun _ => line _) h.inputs).bind fun _ => counts h

theorem openElement (tag : IndexTag) : Truncates n (Printing.openElement tag) :=
  (ask _).bind fun _ => (move _).bind fun _ => (line _).bind fun _ => (inward tag).bind fun _ =>
    move _

theorem index (i : UInt32) : Truncates n (Printing.index i) :=
  (ask _).bind fun _ => separate.bind fun _ => (emit _).bind fun _ => move _

theorem closeElement : Truncates n Printing.closeElement :=
  (ask _).bind fun (tag, _) => (move _).bind fun _ => (outward tag).bind fun _ => emit _

theorem closePrimitive : Truncates n Printing.closePrimitive :=
  (ask _).bind fun _ => (move _).bind fun _ => indent.bind fun _ => look.bind fun _ =>
    (move _).bind fun _ => emit _

theorem command (c : Command) : Truncates n (Printing.command c) := by
  cases c with
  | openPrimitive h => exact openPrimitive h
  | openElement tag => exact openElement tag
  | index i => exact index i
  | closeElement => exact closeElement
  | closePrimitive => exact closePrimitive

end Truncates

end Printing

namespace Printer

variable (n : Nat) in
/-- What holds of the steps inside of a command holds of commands. -/
theorem truncation : Truncation (Fits n) (Stopped n) where
  perform h c := by
    rw [perform_eq, perform_eq]
    rcases (Printing.Truncates.command c).fits h with ⟨hsame, heq⟩ | ⟨hstopped, heq⟩
    · refine .inl ⟨hsame, ?_⟩
      rw [show (Printing.command c _).1 = _ from heq]
      rfl
    · refine .inr ⟨hstopped, ?_⟩
      rw [show (Printing.command c _).1 = _ from heq]
  stopped h c := by
    rw [perform_eq]
    exact (Printing.Truncates.command c).stopped h

/-- Over outputs without a limit a printer does what a text writer does, and neither ever stops. -/
theorem alike_truncation : Truncation Alike fun _ _ => False where
  perform h c := .inl (h.perform c)
  stopped h _ := h

end Printer

end MeshWeave
