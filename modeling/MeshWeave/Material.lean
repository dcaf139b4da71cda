set_option autoImplicit false

/-! # Material symbols

Primitives name their material by a symbol. The symbols of one mesh are numbered from zero in
the order in which they are first used; the empty symbol is one like any other. -/

namespace MeshWeave

/-- The material symbols in use, in order of first use. -/
structure SymbolTable where
  symbols : List String
  deriving DecidableEq, Repr, Inhabited

namespace SymbolTable

/-- No symbol is in use. -/
def empty : SymbolTable := ⟨[]⟩

/-- The number of a symbol in use. -/
def find? (t : SymbolTable) (symbol : String) : Option Nat :=
  t.symbols.findIdx? (· == symbol)

/-- The number of a symbol, which is in use from now on. -/
def intern (t : SymbolTable) (symbol : String) : Nat × SymbolTable :=
  match t.find? symbol with
  | some id => (id, t)
  | none => (t.symbols.length, ⟨t.symbols ++ [symbol]⟩)

/-- How many symbols are in use. -/
def size (t : SymbolTable) : Nat := t.symbols.length

end SymbolTable

end MeshWeave
