import Std.Data.TreeMap
import MiniLang.Diagnostic
import MiniLang.ValueType

/-!
# Declared variables

A scope holds the declared variables in the order of their declarations, and an index from names to
places in that order.  The first declaration of a name counts; a later one is a complaint and
leaves the scope as it is.
-/

namespace MiniLang

/-- The declaration of one variable. -/
structure Declaration where
  name : String
  type : ValueType
  line : Line
  deriving DecidableEq, Repr

/-- The complaint that a variable is declared again. -/
def Declaration.again (declaration : Declaration) : Diagnostic :=
  ⟨.semantic, declaration.line, "variable " ++ declaration.name ++ " already declared"⟩

/-- The declared variables of a program. -/
structure Scope where
  /-- The declarations that count, in order. -/
  entries : Array Declaration := #[]
  /-- Where the declaration of a name stands among the entries. -/
  index : Std.TreeMap String Nat := ∅

namespace Scope

/-- The scope without variables. -/
def empty : Scope := {}

/-- The number of variables. -/
def size (scope : Scope) : Nat :=
  scope.entries.size

/-- Whether a name is declared. -/
def contains (scope : Scope) (name : String) : Bool :=
  scope.index.contains name

/-- Add the declaration of a new name. -/
def insert (scope : Scope) (declaration : Declaration) : Scope :=
  { entries := scope.entries.push declaration
    index := scope.index.insert declaration.name scope.entries.size }

/-- Declare a variable.  The result holds the complaint if the name was declared before. -/
def declare (scope : Scope) (declaration : Declaration) : Scope × Option Diagnostic :=
  if scope.contains declaration.name then (scope, some declaration.again)
  else (scope.insert declaration, none)

/-- Declare variables one after the other, collecting the complaints. -/
def declareAll (scope : Scope) (declarations : List Declaration) : Scope × List Diagnostic :=
  let outcome := declarations.foldl
    (fun (reached : Scope × Array Diagnostic) declaration =>
      let next := reached.1.declare declaration
      (next.1, match next.2 with
        | some complaint => reached.2.push complaint
        | none => reached.2))
    (scope, #[])
  (outcome.1, outcome.2.toList)

/-- The declaration of a name. -/
def lookup (scope : Scope) (name : String) : Option Declaration :=
  scope.index[name]? >>= fun place => scope.entries[place]?

end Scope

end MiniLang
