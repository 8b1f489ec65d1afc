import MiniLang.Scope
import MiniLang.Tree.Unfold

/-!
# Programs

A program is its declared variables, the statements of its body and the forest they belong to.
-/

namespace MiniLang

/-- A program. -/
structure Program where
  /-- Every declaration as written, also one that declares a name again. -/
  declarations : List Declaration
  /-- The variables that the declarations bring into being. -/
  scope : Scope
  body : List StmtId
  forest : Forest

namespace Program

/-- Put a program together, with the complaints about variables that are declared again. -/
def assemble (declarations : List Declaration) (body : List StmtId) (forest : Forest) :
    Program × List Diagnostic :=
  let declared := Scope.empty.declareAll declarations
  ({ declarations := declarations, scope := declared.1, body := body, forest := forest },
    declared.2)

/-- The body of a program as a tree. -/
def tree (program : Program) : Stmt :=
  program.forest.sequence program.body

end Program

end MiniLang
