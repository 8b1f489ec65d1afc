import MiniLang.Code.Instr

/-!
# Listings

The text of the generated code, line by line.  Instructions are indented; labels, constants and
everything else are not.
-/

namespace MiniLang

/-- Lines of text in the order of their addition. -/
structure Listing where
  lines : Array String := #[]
  deriving DecidableEq, Repr

namespace Listing

/-- Add a line as it is. -/
def line (listing : Listing) (text : String) : Listing :=
  ⟨listing.lines.push text⟩

/-- Add an empty line. -/
def blank (listing : Listing) : Listing :=
  listing.line ""

/-- Add an instruction. -/
def instr (listing : Listing) (text : String) : Listing :=
  listing.line ("  " ++ text)

/-- Add a label. -/
def label (listing : Listing) (text : String) : Listing :=
  listing.line (text ++ ":")

/-- Add a line of a routine. -/
def item (listing : Listing) : Item -> Listing
  | .label opened => listing.label opened.text
  | .instr instruction => listing.instr instruction.text

/-- Add a string constant. -/
def constant (listing : Listing) (added : TextConstant) : Listing :=
  listing.line ("@" ++ added.name ++ " = private unnamed_addr constant " ++
    Instr.bytesType added.sizeWithEnd ++ " c\"" ++ TextConstant.escape added.bytes ++ "\"")

end Listing

/-- A generated module: its string constants and the lines of its one routine. -/
structure CodeModule where
  texts : List TextConstant
  items : List Item
  deriving DecidableEq, Repr

namespace CodeModule

/-- The line before those of the routine. -/
def openingLine : String := "define i32 @main() \x7b"

/-- The line after those of the routine. -/
def closingLine : String := "\x7d"

/-- The listing of a module. -/
def listing (code : CodeModule) : Listing :=
  let constants := (Template.all.map Template.constant ++ code.texts).foldl Listing.constant {}
  let declared := ((constants.blank.line "declare i32 @printf(ptr, ...)").line
    "declare i32 @scanf(ptr, ...)").blank
  (code.items.foldl Listing.item (declared.line openingLine)).line closingLine

/-- The lines of a module's listing. -/
def lines (code : CodeModule) : List String :=
  code.listing.lines.toList

end CodeModule

end MiniLang
