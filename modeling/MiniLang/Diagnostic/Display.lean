import MiniLang.Diagnostic

/-!
# Diagnostics on a terminal

How diagnostics and the closing summary look to the reader: with the heading and the verdict in
colour where colours are wanted, and as plain text elsewhere.
-/

namespace MiniLang
namespace Diagnostic

/-- When to use colours. -/
inductive ColorMode where
  /-- Exactly when the output is a terminal. -/
  | auto
  | always
  | never
  deriving DecidableEq, Repr

/-- Whether a mode asks for colours on an output that is or is not a terminal. -/
def ColorMode.colored (mode : ColorMode) (isTerminal : Bool) : Bool :=
  match mode with
  | .auto => isTerminal
  | .always => true
  | .never => false

/-- The way diagnostics are shown: with or without colours. -/
structure Display where
  colored : Bool
  deriving DecidableEq, Repr

namespace Display

/-- The display of a colour mode on an output that is or is not a terminal. -/
def ofMode (mode : ColorMode) (isTerminal : Bool) : Display :=
  ⟨mode.colored isTerminal⟩

/-- The control text that switches to bold red. -/
def failureColor : String := "\x1b[1;31m"

/-- The control text that switches to bold green. -/
def successColor : String := "\x1b[1;32m"

/-- The control text that ends a colour. -/
def endColor : String := "\x1b[0m"

/-- A text in a colour, if the display has colours. -/
def paint (display : Display) (color text : String) : String :=
  if display.colored then color ++ text ++ endColor else text

/-- One diagnostic and the end of its line. -/
def diagnostic (display : Display) (shown : Diagnostic) : String :=
  display.paint failureColor shown.kind.title ++ shown.details ++ "\n"

/-- Diagnostics one after the other. -/
def diagnostics (display : Display) (shown : List Diagnostic) : String :=
  String.join (shown.map display.diagnostic)

/-- The verdict after a number of errors, under an empty line. -/
def summary (display : Display) (errorCount : Nat) : String :=
  "\n " ++
    (if errorCount = 0 then display.paint successColor "compilation successful"
      else display.paint failureColor (errorCount.repr ++ " errors detected")) ++
    "\n"

end Display

end Diagnostic
end MiniLang
