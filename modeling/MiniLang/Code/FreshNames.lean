/-!
# Names of registers and blocks

Registers and blocks are numbered from 1 in the order in which they are asked for, and no number is
given twice.  The numbers have no bound.  Counters of 32 bits give the same names below 2 ^ 32, that
is, as long as a routine asks for fewer than 2 ^ 32 registers and fewer than 2 ^ 32 labels; nothing
is said of how they go on after that.
-/

namespace MiniLang

/-- The number of a register. -/
abbrev Register := Nat

/-- The spelling of a register. -/
def Register.text (register : Register) : String :=
  "%r" ++ register.repr

/-- The name of a block. -/
inductive Label where
  /-- The block in which the routine starts. -/
  | entry
  | numbered (number : Nat)
  deriving DecidableEq, Repr

/-- The spelling of a label. -/
def Label.text : Label -> String
  | .entry => "entry"
  | .numbered number => "L" ++ number.repr

/-- How many names have been given, and the label of the block that is open. -/
structure FreshNames where
  registers : Nat := 0
  labels : Nat := 0
  /-- The spelling of the label that was opened last. -/
  current : String := Label.entry.text
  deriving DecidableEq, Repr

namespace FreshNames

/-- A register that has not been given before. -/
def register (names : FreshNames) : Register × FreshNames :=
  (names.registers + 1, { names with registers := names.registers + 1 })

/-- A label that has not been given before. -/
def label (names : FreshNames) : Label × FreshNames :=
  (.numbered (names.labels + 1), { names with labels := names.labels + 1 })

/-- Open the block with a given label. -/
def openBlock (names : FreshNames) (label : String) : FreshNames :=
  { names with current := label }

end FreshNames

end MiniLang
