set_option autoImplicit false

/-! # Blank characters

Attribute values of a document are read with blanks around them ignored. A blank is a character
with the Unicode property `White_Space`, which is larger than the set of core's
`Char.isWhitespace`: it also holds the line and paragraph separators, the no-break spaces and
the typographic spaces. The format characters that only look empty (U+180E, U+200B, U+FEFF) and
the ASCII information separators (U+001C to U+001F) are not blanks. -/

namespace MeshWeave.Text

/-- The characters of the property `White_Space`, in order of their code points. -/
def blanks : List Char :=
  ['\x09', '\x0a', '\x0b', '\x0c', '\x0d', ' ', '\u0085', '\u00a0', '\u1680',
   '\u2000', '\u2001', '\u2002', '\u2003', '\u2004', '\u2005', '\u2006', '\u2007', '\u2008',
   '\u2009', '\u200a', '\u2028', '\u2029', '\u202f', '\u205f', '\u3000']

/-- Whether a character counts as white space. -/
def isBlank (c : Char) : Bool :=
  blanks.contains c

/-- Every character that core calls white space is a blank. -/
theorem isBlank_of_isWhitespace {c : Char} (h : c.isWhitespace = true) : isBlank c = true := by
  simp only [Char.isWhitespace, Bool.or_eq_true, decide_eq_true_eq] at h
  rcases h with ((h | h) | h) | h <;> subst h <;> decide

/-- The property holds for twenty-five characters. -/
example : blanks.length = 25 ∧ blanks.Pairwise (· < ·) := by decide

/-! ## Trimming -/

/-- The characters without the blanks at either end. -/
def trim (s : List Char) : List Char :=
  ((s.dropWhile isBlank).reverse.dropWhile isBlank).reverse

end MeshWeave.Text
