/-!
# Diagnostics

A diagnostic is one problem of a source text: the kind of rule it breaks, the line it stands on
and a message.  Diagnostics are ordinary values; the order in which the passes find them is the
order of the lists they return.
-/

namespace MiniLang

/-- A line number of the source text.  The first line is 1; 0 stands for a place with no line. -/
abbrev Line := Nat

namespace Line

/-- The greatest line number that is told apart from the ones after it. -/
def last : Line := 4294967295

/-- The number of the line with a given zero-based index, stopping at `Line.last`. -/
def ofIndex (index : Nat) : Line :=
  min (index + 1) last

end Line

namespace Diagnostic

/-- The rules a source text can break. -/
inductive Kind where
  /-- A character or literal that is no token. -/
  | lexical
  /-- A token that does not fit the grammar. -/
  | syntactic
  /-- A construct with a wrong or missing type. -/
  | semantic
  deriving DecidableEq, Repr

/-- The heading under which a kind is printed. -/
def Kind.title : Kind -> String
  | .lexical => "Lexical error"
  | .syntactic => "Syntax error"
  | .semantic => "Semantic error"

end Diagnostic

/-- One problem of a source text. -/
structure Diagnostic where
  kind : Diagnostic.Kind
  line : Line
  message : String
  deriving DecidableEq, Repr

namespace Diagnostic

/-- What stands after the heading of a diagnostic. -/
def details (diagnostic : Diagnostic) : String :=
  ": line " ++ diagnostic.line.repr ++ " -- " ++ diagnostic.message

/-- A diagnostic as one line of text. -/
def text (diagnostic : Diagnostic) : String :=
  diagnostic.kind.title ++ diagnostic.details

/-- The statement that follows from a positive number of reported diagnostics. -/
def notice? (count : Nat) : Option String :=
  if 0 < count then some "error(s) emitted" else none

end Diagnostic

end MiniLang
