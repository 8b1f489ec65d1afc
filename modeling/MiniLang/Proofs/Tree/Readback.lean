import MiniLang.Proofs.Reading.Grammar

/-!
# Reading trees back out of a forest

A forest holds a syntax tree at a number if the nodes from there on are those of the tree, line by
line.  A statement that writes a string is held together with the number of the string, which counts
the strings before it.  Adding nodes keeps every tree that a forest holds, and a forest holds at most
one tree at a place.
-/

namespace MiniLang

open Grammar

namespace Forest

/-- What an array holds at a place stays there when something is added at its end. -/
theorem getElem?_push_of_some
    {items : Array α}
    {place : Nat}
    {item : α}
    (found : items[place]? = some item)
    (added : α) :
    (items.push added)[place]? = some item := by
  have place_lt := (Array.getElem?_eq_some_iff.1 found).1
  rw [Array.getElem?_push, if_neg (Nat.ne_of_lt place_lt), found]

/-- All nodes and string constants of a forest are found in another at the same places. -/
structure Grows (before after : Forest) : Prop where
  expr : ∀ (id : ExprId) (node : ExprNode),
    before.exprs[id]? = some node -> after.exprs[id]? = some node
  stmt : ∀ (id : StmtId) (node : StmtNode),
    before.stmts[id]? = some node -> after.stmts[id]? = some node
  text : ∀ (number : Nat) (bytes : List UInt8),
    before.texts.constants[number]? = some bytes -> after.texts.constants[number]? = some bytes

namespace Grows

theorem refl (forest : Forest) : forest.Grows forest where
  expr _ _ found := found
  stmt _ _ found := found
  text _ _ found := found

theorem trans
    {first second third : Forest}
    (grows : first.Grows second)
    (grows' : second.Grows third) :
    first.Grows third where
  expr id node found := grows'.expr id node (grows.expr id node found)
  stmt id node found := grows'.stmt id node (grows.stmt id node found)
  text number bytes found := grows'.text number bytes (grows.text number bytes found)

theorem addExpr (forest : Forest) (line : Line) (form : ExprForm) :
    forest.Grows (forest.addExpr line form).2 where
  expr _ _ found := getElem?_push_of_some found _
  stmt _ _ found := found
  text _ _ found := found

theorem addStmt (forest : Forest) (line : Line) (form : StmtForm) :
    forest.Grows (forest.addStmt line form).2 where
  expr _ _ found := found
  stmt _ _ found := getElem?_push_of_some found _
  text _ _ found := found

theorem addText (forest : Forest) (line : Line) (bytes : List UInt8) :
    forest.Grows (forest.addText line bytes).2 where
  expr _ _ found := found
  stmt _ _ found := getElem?_push_of_some found _
  text _ _ found := getElem?_push_of_some found _

end Grows

/-- The forest holds the syntax tree of an expression at a number. -/
inductive HoldsTerm (forest : Forest) : ExprId -> Term -> Prop where
  | name {id : ExprId} {line : Line} {spelling : String}
      (found : forest.exprs[id]? = some ⟨line, .name spelling⟩) :
      HoldsTerm forest id (.name line spelling)
  | int {id : ExprId} {line : Line} {value : Int32}
      (found : forest.exprs[id]? = some ⟨line, .int value⟩) :
      HoldsTerm forest id (.int line value)
  | double {id : ExprId} {line : Line} {bits : UInt64}
      (found : forest.exprs[id]? = some ⟨line, .double bits⟩) :
      HoldsTerm forest id (.double line bits)
  | bool {id : ExprId} {line : Line} {value : Bool}
      (found : forest.exprs[id]? = some ⟨line, .bool value⟩) :
      HoldsTerm forest id (.bool line value)
  | unary {id operandId : ExprId} {line : Line} {op : UnaryOp} {operand : Term}
      (found : forest.exprs[id]? = some ⟨line, .unary op operandId⟩)
      (operandHeld : HoldsTerm forest operandId operand) :
      HoldsTerm forest id (.unary line op operand)
  | binary {id leftId rightId : ExprId} {line : Line} {op : BinaryOp} {left right : Term}
      (found : forest.exprs[id]? = some ⟨line, .binary op leftId rightId⟩)
      (leftHeld : HoldsTerm forest leftId left)
      (rightHeld : HoldsTerm forest rightId right) :
      HoldsTerm forest id (.binary line op left right)
  | assign {id valueId : ExprId} {line : Line} {target : Target} {value : Term}
      (found : forest.exprs[id]? = some ⟨line, .assign target valueId⟩)
      (valueHeld : HoldsTerm forest valueId value) :
      HoldsTerm forest id (.assign line target value)

/-- The forest holds the syntax tree of statements at their numbers, where the given number of
strings comes before theirs. -/
inductive HoldsClause (forest : Forest) : Extent -> Nat -> List StmtId -> Clause -> Prop where
  | done (before : Nat) : HoldsClause forest .many before [] .done
  | seq {before : Nat} {id : StmtId} {ids : List StmtId} {first rest : Clause}
      (firstHeld : HoldsClause forest .one before [id] first)
      (restHeld : HoldsClause forest .many (before + first.texts.length) ids rest) :
      HoldsClause forest .many before (id :: ids) (.seq first rest)
  | block {before : Nat} {id : StmtId} {ids : List StmtId} {line : Line} {body : Clause}
      (found : forest.stmts[id]? = some ⟨line, .block ids⟩)
      (bodyHeld : HoldsClause forest .many before ids body) :
      HoldsClause forest .one before [id] (.block line body)
  | expr {before : Nat} {id : StmtId} {valueId : ExprId} {line : Line} {value : Term}
      (found : forest.stmts[id]? = some ⟨line, .expr valueId⟩)
      (valueHeld : forest.HoldsTerm valueId value) :
      HoldsClause forest .one before [id] (.expr line value)
  | branch {before : Nat} {id yesId : StmtId} {conditionId : ExprId} {line : Line}
      {condition : Term} {yes : Clause}
      (found : forest.stmts[id]? = some ⟨line, .branch conditionId yesId none⟩)
      (conditionHeld : forest.HoldsTerm conditionId condition)
      (yesHeld : HoldsClause forest .one before [yesId] yes) :
      HoldsClause forest .one before [id] (.branch line condition yes)
  | choice {before : Nat} {id yesId noId : StmtId} {conditionId : ExprId} {line : Line}
      {condition : Term} {yes no : Clause}
      (found : forest.stmts[id]? = some ⟨line, .branch conditionId yesId (some noId)⟩)
      (conditionHeld : forest.HoldsTerm conditionId condition)
      (yesHeld : HoldsClause forest .one before [yesId] yes)
      (noHeld : HoldsClause forest .one (before + yes.texts.length) [noId] no) :
      HoldsClause forest .one before [id] (.choice line condition yes no)
  | loop {before : Nat} {id bodyId : StmtId} {conditionId : ExprId} {line : Line}
      {condition : Term} {body : Clause}
      (found : forest.stmts[id]? = some ⟨line, .loop conditionId bodyId⟩)
      (conditionHeld : forest.HoldsTerm conditionId condition)
      (bodyHeld : HoldsClause forest .one before [bodyId] body) :
      HoldsClause forest .one before [id] (.loop line condition body)
  | write {before : Nat} {id : StmtId} {valueId : ExprId} {line : Line} {value : Term}
      {format : Format}
      (found : forest.stmts[id]? = some ⟨line, .write valueId format⟩)
      (valueHeld : forest.HoldsTerm valueId value) :
      HoldsClause forest .one before [id] (.write line value format)
  | writeText {before : Nat} {id : StmtId} {line : Line} {bytes : List UInt8}
      (found : forest.stmts[id]? = some ⟨line, .writeText before⟩)
      (kept : forest.texts.constants[before]? = some bytes) :
      HoldsClause forest .one before [id] (.writeText line bytes)
  | read {before : Nat} {id : StmtId} {line : Line} {target : Target} {format : Format}
      (found : forest.stmts[id]? = some ⟨line, .read target format⟩) :
      HoldsClause forest .one before [id] (.read line target format)
  | leave {before : Nat} {id : StmtId} {line : Line}
      (found : forest.stmts[id]? = some ⟨line, .leave⟩) :
      HoldsClause forest .one before [id] (.leave line)

section Growth

variable {before after : Forest}

/-- A forest that grows keeps the trees of expressions. -/
theorem HoldsTerm.mono
    {id : ExprId}
    {term : Term}
    (held : before.HoldsTerm id term)
    (grows : before.Grows after) :
    after.HoldsTerm id term := by
  induction held with
  | name found => exact .name (grows.expr _ _ found)
  | int found => exact .int (grows.expr _ _ found)
  | double found => exact .double (grows.expr _ _ found)
  | bool found => exact .bool (grows.expr _ _ found)
  | unary found _ operandHypothesis => exact .unary (grows.expr _ _ found) operandHypothesis
  | binary found _ _ leftHypothesis rightHypothesis =>
      exact .binary (grows.expr _ _ found) leftHypothesis rightHypothesis
  | assign found _ valueHypothesis => exact .assign (grows.expr _ _ found) valueHypothesis

/-- A forest that grows keeps the trees of statements. -/
theorem HoldsClause.mono
    {extent : Extent}
    {number : Nat}
    {ids : List StmtId}
    {clause : Clause}
    (held : before.HoldsClause extent number ids clause)
    (grows : before.Grows after) :
    after.HoldsClause extent number ids clause := by
  induction held with
  | done number => exact .done number
  | seq _ _ firstHypothesis restHypothesis => exact .seq firstHypothesis restHypothesis
  | block found _ bodyHypothesis => exact .block (grows.stmt _ _ found) bodyHypothesis
  | expr found valueHeld => exact .expr (grows.stmt _ _ found) (valueHeld.mono grows)
  | branch found conditionHeld _ yesHypothesis =>
      exact .branch (grows.stmt _ _ found) (conditionHeld.mono grows) yesHypothesis
  | choice found conditionHeld _ _ yesHypothesis noHypothesis =>
      exact .choice (grows.stmt _ _ found) (conditionHeld.mono grows) yesHypothesis noHypothesis
  | loop found conditionHeld _ bodyHypothesis =>
      exact .loop (grows.stmt _ _ found) (conditionHeld.mono grows) bodyHypothesis
  | write found valueHeld => exact .write (grows.stmt _ _ found) (valueHeld.mono grows)
  | writeText found kept => exact .writeText (grows.stmt _ _ found) (grows.text _ _ kept)
  | read found => exact .read (grows.stmt _ _ found)
  | leave found => exact .leave (grows.stmt _ _ found)

end Growth

section Uniqueness

variable {forest : Forest}

/-- A forest holds at most one tree of an expression at a number. -/
theorem HoldsTerm.unique
    {id : ExprId}
    {first second : Term}
    (firstHeld : forest.HoldsTerm id first)
    (secondHeld : forest.HoldsTerm id second) :
    first = second := by
  induction firstHeld generalizing second with
  | name found | int found | double found | bool found =>
      cases secondHeld with
      | _ found' => cases found.symm.trans found' <;> rfl
  | unary found _ operandHypothesis => cases secondHeld <;> grind
  | binary found _ _ leftHypothesis rightHypothesis => cases secondHeld <;> grind
  | assign found _ valueHypothesis => cases secondHeld <;> grind

/-- A forest holds at most one tree of statements at their numbers. -/
theorem HoldsClause.unique
    {extent : Extent}
    {number : Nat}
    {ids : List StmtId}
    {first second : Clause}
    (firstHeld : forest.HoldsClause extent number ids first)
    (secondHeld : forest.HoldsClause extent number ids second) :
    first = second := by
  induction firstHeld generalizing second with
  | done number => cases secondHeld with
      | done => rfl
  | seq _ _ firstHypothesis restHypothesis =>
      cases secondHeld with
      | seq firstHeld restHeld =>
          obtain rfl := firstHypothesis firstHeld
          obtain rfl := restHypothesis restHeld
          rfl
  | block found _ bodyHypothesis => cases secondHeld <;> grind
  | expr found valueHeld => cases secondHeld <;> grind [HoldsTerm.unique]
  | branch found conditionHeld _ yesHypothesis => cases secondHeld <;> grind [HoldsTerm.unique]
  | choice found conditionHeld _ _ yesHypothesis noHypothesis =>
      cases secondHeld <;> grind [HoldsTerm.unique]
  | loop found conditionHeld _ bodyHypothesis => cases secondHeld <;> grind [HoldsTerm.unique]
  | write found valueHeld => cases secondHeld <;> grind [HoldsTerm.unique]
  | writeText found kept => cases secondHeld <;> grind
  | read found => cases secondHeld <;> grind
  | leave found => cases secondHeld <;> grind

end Uniqueness

end Forest

/-- What is read back out of a program is a syntax tree: its declarations, its body, and its string
constants, which are the strings of the body in order. -/
structure Program.ReadsBack (program : Program) (tree : SyntaxTree) : Prop where
  declarations_eq : program.declarations = tree.declarations
  bodyHeld : program.forest.HoldsClause .many 0 program.body tree.body
  texts_eq : program.forest.texts.constants.toList = tree.body.texts

/-- At most one syntax tree is read back out of a program. -/
theorem Program.ReadsBack.unique
    {program : Program}
    {first second : SyntaxTree}
    (firstRead : program.ReadsBack first)
    (secondRead : program.ReadsBack second) :
    first = second := by
  have declarations_eq := firstRead.declarations_eq.symm.trans secondRead.declarations_eq
  have body_eq := firstRead.bodyHeld.unique secondRead.bodyHeld
  cases first
  cases second
  simp_all

end MiniLang
