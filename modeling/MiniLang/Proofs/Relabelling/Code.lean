import MiniLang.Proofs.Code.Agreement
import MiniLang.Proofs.Code.Determinism
import MiniLang.Proofs.Relabelling.Checking

/-!
# Code of relabelled programs

Lines leave no trace in the code, and a name only in the spelling of its slot.  So the rules of
emitted code give a relabelled tree the code of the tree with other names of slots, and everything
else as it was: registers, labels, constants and the order of the instructions.
-/

namespace MiniLang

/-- An instruction with other names of variables. -/
def Instr.rename (rename : String -> String) : Instr -> Instr
  | .alloca variableName type => .alloca (rename variableName) type
  | .load target type variableName => .load target type (rename variableName)
  | .store type value variableName => .store type value (rename variableName)
  | .scan template variableName => .scan template (rename variableName)
  | instr => instr

/-- A line of a routine with other names of variables. -/
def Item.rename (rename : String -> String) : Item -> Item
  | .label opened => .label opened
  | .instr instruction => .instr (instruction.rename rename)

namespace Lowering

variable {rename : String -> String}

theorem CoercionCode.rename_eq
    {value result : Operand}
    {type wanted : ValueType}
    {registers registers' : Nat}
    {code : List Item}
    (emitted : CoercionCode value type wanted registers code result registers') :
    code.map (Item.rename rename) = code := by
  cases emitted <;> rfl

theorem UnaryCode.rename_eq
    {op : UnaryOp}
    {type : ValueType}
    {value result : Operand}
    {registers registers' : Nat}
    {code : List Item}
    (emitted : UnaryCode op type value registers code result registers') :
    code.map (Item.rename rename) = code := by
  cases emitted with
  | applied lowered => cases lowered <;> rfl
  | kept => rfl

theorem PrintCode.rename_eq
    {value : Operand}
    {format : Format}
    {type : ValueType}
    {registers registers' : Nat}
    {code : List Item}
    (emitted : PrintCode value registers format type code registers') :
    code.map (Item.rename rename) = code := by
  cases emitted <;> rfl

theorem map_rename_logicalOpening
    (op : BinaryOp)
    (left : Operand)
    (labels : Nat) :
    (logicalOpening op left labels).map (Item.rename rename) = logicalOpening op left labels := by
  have decision_eq : (decision op left (.numbered (labels + 4)) (.numbered (labels + 2))).rename
      rename = decision op left (.numbered (labels + 4)) (.numbered (labels + 2)) := by
    unfold decision
    split <;> rfl
  simp only [logicalOpening, List.map_cons, List.map_nil, Item.rename, decision_eq]
  rfl

theorem map_rename_logicalClosing
    (op : BinaryOp)
    (right : Operand)
    (registers labels : Nat) :
    (logicalClosing op right registers labels).map (Item.rename rename) =
      logicalClosing op right registers labels := rfl

end Lowering

namespace Relabelling

open Lowering

variable {relabel : Relabelling}

/-- What the generator knows is relabelled, and slots are renamed as variables are. -/
structure CarriesContext (relabel : Relabelling) (rename : String -> String)
    (context context' : Context) : Prop where
  exists_lookup : ∀ name declaration, context.scope.lookup name = some declaration ->
    ∃ declaration', context'.scope.lookup (relabel.name name) = some declaration' ∧
      declaration'.type = declaration.type
  tags_eq : context'.tags = context.tags
  texts_eq : context'.texts = context.texts
  rename_eq : ∀ name declaration, context.scope.lookup name = some declaration ->
    relabel.name name = rename name

namespace CarriesContext

variable {rename : String -> String} {context context' : Context}
  (carried : relabel.CarriesContext rename context context')
include carried

theorem typeAt?_eq
    {site : Site}
    {type : ValueType}
    (tagged : context.typeAt? site = some type) :
    context'.typeAt? (relabel.site site) = some type := by
  unfold Context.typeAt?
  rw [carried.tags_eq]
  exact tagged

theorem typeOf?_eq
    {expression : Expr}
    {type : ValueType}
    (tagged : context.typeOf? expression = some type) :
    context'.typeOf? (relabel.expr expression) = some type := by
  cases expression with
  | dangling number => cases tagged
  | _ => exact carried.typeAt?_eq tagged

/-- The code of a relabelled expression is the code of the expression with other slots. -/
theorem exprCode
    {expression : Expr}
    {registers labels registers' labels' : Nat}
    {code : List Item}
    {result : Operand}
    (emitted : ExprCode context expression registers labels code result registers' labels') :
    ExprCode context' (relabel.expr expression) registers labels (code.map (Item.rename rename))
      result registers' labels' := by
  induction emitted with
  | int site value registers labels tagged => exact .int _ _ _ _ (carried.typeAt?_eq tagged)
  | double site bits registers labels tagged => exact .double _ _ _ _ (carried.typeAt?_eq tagged)
  | bool site value registers labels tagged => exact .bool _ _ _ _ (carried.typeAt?_eq tagged)
  | name site spelling registers labels tagged found =>
      obtain ⟨declaration', found', type_eq⟩ := carried.exists_lookup _ _ found
      simp only [List.map_cons, List.map_nil, Item.rename, Instr.rename,
        ← carried.rename_eq _ _ found, ← type_eq]
      exact .name _ _ registers labels (carried.typeAt?_eq tagged) found'
  | assign site target tagged valueTagged valueCode found accepts coerced inductionHypothesis =>
      obtain ⟨declaration', found', type_eq⟩ := carried.exists_lookup _ _ found
      rw [← type_eq] at accepts coerced
      simp only [List.map_append, List.map_cons, List.map_nil, Item.rename, Instr.rename,
        coerced.rename_eq, ← carried.rename_eq _ _ found, ← type_eq]
      exact .assign _ (relabel.target target) (carried.typeAt?_eq tagged)
        (carried.typeOf?_eq valueTagged) inductionHypothesis found' accepts coerced
  | unary site op tagged operandTagged operandCode unaryCode inductionHypothesis =>
      rw [List.map_append, unaryCode.rename_eq]
      exact .unary _ op (carried.typeAt?_eq tagged) (carried.typeOf?_eq operandTagged)
        inductionHypothesis unaryCode
  | binary site op plain tagged leftTagged rightTagged leftEmitted rightEmitted common leftCoerced
      rightCoerced lowered result_eq leftHypothesis rightHypothesis =>
      rw [List.map_append, List.map_append, List.map_append, List.map_append,
        leftCoerced.rename_eq, rightCoerced.rename_eq]
      exact .binary _ op plain (carried.typeAt?_eq tagged) (carried.typeOf?_eq leftTagged)
        (carried.typeOf?_eq rightTagged) leftHypothesis rightHypothesis common leftCoerced
        rightCoerced lowered result_eq
  | logical site op logical tagged leftTagged rightTagged leftEmitted rightEmitted leftHypothesis
      rightHypothesis =>
      rw [List.map_append, List.map_append, List.map_append, map_rename_logicalOpening,
        map_rename_logicalClosing]
      exact .logical _ op logical (carried.typeAt?_eq tagged) (carried.typeOf?_eq leftTagged)
        (carried.typeOf?_eq rightTagged) leftHypothesis rightHypothesis

/-- The code of a relabelled statement is the code of the statement with other slots. -/
theorem stmtCode
    {statement : Stmt}
    {registers labels registers' labels' : Nat}
    {code : List Item}
    (emitted : StmtCode context statement registers labels code registers' labels') :
    StmtCode context' (relabel.stmt statement) registers labels (code.map (Item.rename rename))
      registers' labels' := by
  induction emitted with
  | done registers labels => exact .done registers labels
  | seq firstEmitted restEmitted firstHypothesis restHypothesis =>
      rw [List.map_append]
      exact .seq firstHypothesis restHypothesis
  | block line emitted inductionHypothesis => exact .block _ inductionHypothesis
  | expr line emitted => exact .expr _ (carried.exprCode emitted)
  | branch line testEmitted yesEmitted noEmitted yesHypothesis noHypothesis =>
      simp only [List.map_append]
      exact .branch (relabel.line line) (carried.exprCode testEmitted) yesHypothesis noHypothesis
  | loop line testEmitted bodyEmitted inductionHypothesis =>
      simp only [List.map_append]
      exact .loop (relabel.line line) (carried.exprCode testEmitted) inductionHypothesis
  | write line tagged emitted print =>
      rw [List.map_append, print.rename_eq]
      exact .write _ (carried.typeOf?_eq tagged) (carried.exprCode emitted) print
  | writeText line registers labels found =>
      exact .writeText _ registers labels (by rw [carried.texts_eq]; exact found)
  | read line registers labels found scan =>
      obtain ⟨declaration', found', type_eq⟩ := carried.exists_lookup _ _ found
      rw [← type_eq] at scan
      simp only [List.map_cons, List.map_nil, Item.rename, Instr.rename,
        ← carried.rename_eq _ _ found]
      exact .read _ registers labels found' scan
  | leave line registers labels => exact .leave _ registers labels

end CarriesContext

/-- The code of a relabelled program is that of the program with other slots, and its string
constants are the same. -/
theorem CarriesProgram.items_eq
    {program program' : Program}
    (carried : relabel.CarriesProgram program program')
    (injective : Function.Injective relabel.name)
    {rename : String -> String}
    (renamed : ∀ declaration ∈ program.scope.entries.toList,
      relabel.name declaration.name = rename declaration.name)
    {tags : TagTable}
    {code code' : CodeModule}
    (generated : program.generate tags = .ok code)
    (generated' : program'.generate tags = .ok code') :
    code'.items = code.items.map (Item.rename rename) ∧ code'.texts = code.texts := by
  have texts_eq : program'.forest.texts = program.forest.texts := by
    rw [carried.forest_eq]
    rfl
  have contexts : relabel.CarriesContext rename (program.context tags) (program'.context tags) :=
    { exists_lookup := by
        intro name declaration found
        have found' := carried.scope.lookup_eq injective name
        rw [show program.scope.lookup name = some declaration from found] at found'
        exact ⟨_, found', rfl⟩
      tags_eq := rfl
      texts_eq := texts_eq
      rename_eq := by
        intro name declaration found
        obtain ⟨present, rfl⟩ := carried.scope.consistent.lookup_eq_some_iff.1 found
        exact renamed declaration present }
  obtain ⟨body, registers, labels, emitted, items_eq, code_texts⟩ :=
    Program.stmtCode_of_generate generated
  obtain ⟨body', registers', labels', emitted', items'_eq, code'_texts⟩ :=
    Program.stmtCode_of_generate generated'
  rw [carried.tree_eq] at emitted'
  obtain ⟨rfl, -⟩ := emitted'.unique (contexts.stmtCode emitted)
  have slots_eq : program'.scope.slots = program.scope.slots.map (Item.rename rename) := by
    unfold Scope.slots
    rw [carried.scope.entries_eq, Array.toList_map, List.map_map, List.map_map]
    apply List.map_congr_left
    intro declaration present
    exact congrArg (fun name => Item.instr (.alloca name declaration.type))
      (renamed declaration present)
  constructor
  · rw [items_eq, items'_eq, slots_eq]
    simp only [List.map_append, List.map_cons, List.map_nil]
    rfl
  · rw [code_texts, code'_texts, texts_eq]

end Relabelling
end MiniLang
