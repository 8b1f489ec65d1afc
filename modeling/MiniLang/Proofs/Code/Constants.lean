import MiniLang.Proofs.Code.Layout

/-!
# The lines of a module

A module is listed as the lines of its constants, those of the templates first, a fixed middle part
and the lines of its routine.
-/

namespace MiniLang

/-- The line of a string constant. -/
def TextConstant.line (constant : TextConstant) : String :=
  "@" ++ constant.name ++ " = private unnamed_addr constant " ++
    Instr.bytesType constant.sizeWithEnd ++ " c\"" ++ TextConstant.escape constant.bytes ++ "\""

/-- The lines between the constants and the routine. -/
def CodeModule.middle : List String :=
  ["", "declare i32 @printf(ptr, ...)", "declare i32 @scanf(ptr, ...)", "",
    CodeModule.openingLine]

/-- Listing constants adds their lines. -/
theorem Listing.lines_foldl_constant
    (constants : List TextConstant)
    (listing : Listing) :
    (constants.foldl Listing.constant listing).lines.toList =
      listing.lines.toList ++ constants.map TextConstant.line := by
  induction constants generalizing listing with
  | nil => simp
  | cons constant rest inductionHypothesis =>
      rw [List.foldl_cons, inductionHypothesis, Listing.constant, Listing.line, Array.toList_push,
        List.map_cons, List.append_assoc]
      rfl

/-- The lines of a module. -/
theorem CodeModule.lines_eq
    (code : CodeModule) :
    code.lines = (Template.all.map Template.constant ++ code.texts).map TextConstant.line ++
      CodeModule.middle ++ code.items.map Item.line ++ [CodeModule.closingLine] := by
  rw [CodeModule.lines, CodeModule.listing]
  simp only [Listing.line, Listing.blank, Array.toList_push, Listing.lines_foldl_item,
    Listing.lines_foldl_constant]
  simp [CodeModule.middle]

end MiniLang
