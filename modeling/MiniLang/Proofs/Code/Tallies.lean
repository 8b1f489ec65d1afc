import MiniLang.Proofs.Code.Agreement
import MiniLang.Proofs.Code.Landmarks
import MiniLang.Proofs.Reading.Leaves

/-!
# Tallies of code along the syntax tree

What is gathered from the lines of a routine is told by the syntax tree: the code of a statement is
made of the code of its expressions and of lines for the flow of control, so a tally of expressions
gives a tally of statements.
-/

namespace MiniLang

/-- What the code of an expression yields, what printing its value adds, and what writing a string
and leaving the program yield. -/
structure Tally (α : Type) where
  inside : Term -> List α
  taken : Term -> List α
  text : List α
  leave : List α

/-- What the code of statements yields. -/
def Clause.tally {α : Type} (tally : Tally α) : Clause -> List α
  | .seq first rest => first.tally tally ++ rest.tally tally
  | .block _ body => body.tally tally
  | .expr _ value => tally.inside value
  | .branch _ condition yes => tally.inside condition ++ yes.tally tally
  | .choice _ condition yes no => tally.inside condition ++ yes.tally tally ++ no.tally tally
  | .loop _ condition body => tally.inside condition ++ body.tally tally
  | .write _ value _ => tally.inside value ++ tally.taken value
  | .writeText _ _ => tally.text
  | .leave _ => tally.leave
  | _ => []

/-- What is read off a tally of statements is among what is selected of their numbers, if this holds
of every expression and nothing is read off the lines that belong to none. -/
theorem Clause.filterMap_tally_subset
    {α β : Type}
    {tally : Tally α}
    {read : α -> Option β}
    {select : Token.Kind -> Option β}
    (inside : ∀ term, (tally.inside term).filterMap read ⊆ term.leaves.filterMap select)
    (taken : ∀ term, (tally.taken term).filterMap read ⊆ term.leaves.filterMap select)
    (text : tally.text.filterMap read = [])
    (leave : tally.leave.filterMap read = [])
    (clause : Clause) :
    (clause.tally tally).filterMap read ⊆ clause.leaves.filterMap select := by
  have both {front back front' back' : List β} (first : front ⊆ front')
      (second : back ⊆ back') : front ++ back ⊆ front' ++ back' :=
    List.append_subset.2 ⟨List.subset_append_of_subset_left _ first,
      List.subset_append_of_subset_right _ second⟩
  induction clause with
  | done | read => exact List.nil_subset _
  | writeText => exact text ▸ List.nil_subset _
  | leave => exact leave ▸ List.nil_subset _
  | seq _ _ firstHypothesis restHypothesis =>
      rw [Clause.tally, Clause.leaves, List.filterMap_append, List.filterMap_append]
      exact both firstHypothesis restHypothesis
  | block _ _ inductionHypothesis => exact inductionHypothesis
  | expr _ value => exact inside value
  | branch _ condition _ inductionHypothesis | loop _ condition _ inductionHypothesis =>
      rw [Clause.tally, Clause.leaves, List.filterMap_append, List.filterMap_append]
      exact both (inside condition) inductionHypothesis
  | choice _ condition _ _ yesHypothesis noHypothesis =>
      simp only [Clause.tally, Clause.leaves, List.filterMap_append]
      exact both (both (inside condition) yesHypothesis) noHypothesis
  | write _ value _ =>
      rw [Clause.tally, List.filterMap_append]
      exact List.append_subset.2 ⟨inside value, taken value⟩

namespace Lowering

/-- Code of the expression with a syntax tree, which checks with a type. -/
def TermCode (context : Context) (forest : Forest) (term : Term) (type : ValueType)
    (code : List Item) (operand : Operand) : Prop :=
  ∃ id registers labels registers' labels', forest.HoldsTerm id term ∧
    context.Checks (forest.expr id) type ∧
    ExprCode context (forest.expr id) registers labels code operand registers' labels'

/-- A sequence of one statement checks like the statement. -/
theorem Context.ChecksStmt.singleton
    {context : Context}
    {forest : Forest}
    {id : StmtId} :
    context.ChecksStmt (forest.sequence [id]) ↔ context.ChecksStmt (forest.stmt id) := by
  constructor
  · intro checks
    exact (parts checks).1
  · intro checks
    refine ⟨.seq checks.typed .done, TagTable.holds_append.2 ⟨checks.holds, ?_⟩⟩
    rintro mark ⟨⟩

/-- What is gathered from the lines of code is told by a tally, whose entries stand for what is
gathered. -/
structure TallyOf {α β : Type} (context : Context) (forest : Forest) (gather : Item -> List β)
    (tally : Tally α) (value : α -> β) : Prop where
  label : ∀ opened, gather (.label opened) = []
  alloca : ∀ name type, gather (.instr (.alloca name type)) = []
  jump : ∀ target, gather (.instr (.jump target)) = []
  scan : ∀ template name, gather (.instr (.scan template name)) = []
  printText : ∀ size number, gather (.instr (.printText size number)) = tally.text.map value
  ret : gather (.instr .ret) = tally.leave.map value
  expr : ∀ (term : Term) (type : ValueType) (code : List Item) (operand : Operand),
    TermCode context forest term type code operand ->
    code.flatMap gather = (tally.inside term).map value
  fork : ∀ (term : Term) (code : List Item) (test : Operand) (yes no : Label),
    TermCode context forest term .bool code test -> gather (.instr (.fork test yes no)) = []
  print : ∀ (term : Term) (type type' : ValueType) (code printed : List Item) (operand : Operand)
    (format : Format) (registers registers' : Nat),
    TermCode context forest term type code operand ->
    PrintCode operand registers format type' printed registers' ->
    printed.flatMap gather = (tally.taken term).map value

namespace TallyOf

variable {α β : Type} {context : Context} {forest : Forest} {gather : Item -> List β}
  {tally : Tally α} {value : α -> β} (tallies : TallyOf context forest gather tally value)
include tallies

/-- Nothing is gathered where a block is left for the next. -/
theorem passage
    (target opened : Label) :
    [.instr (.jump target), .label opened].flatMap gather = [] := by
  simp [tallies.jump, tallies.label]

/-- Nothing is gathered where a condition is decided. -/
theorem decided
    {term : Term}
    {code : List Item}
    {test : Operand}
    (emitted : TermCode context forest term .bool code test)
    (yes no opened : Label) :
    [.instr (.fork test yes no), .label opened].flatMap gather = [] := by
  simp [tallies.fork term code test yes no emitted, tallies.label]

/-- The tally of statements. -/
theorem stmt
    (wellFounded : forest.WellFounded)
    {extent : Grammar.Extent}
    {before : Nat}
    {ids : List StmtId}
    {clause : Clause}
    {registers labels registers' labels' : Nat}
    {code : List Item}
    (held : forest.HoldsClause extent before ids clause)
    (checks : context.ChecksStmt (forest.sequence ids))
    (emitted : StmtCode context (forest.sequence ids) registers labels code registers' labels') :
    code.flatMap gather = (clause.tally tally).map value := by
  -- The induction follows how the forest holds the statements: it says for each of them which code
  -- belongs to which part of the syntax tree.
  induction held generalizing registers labels code registers' labels' with
  | done before =>
      cases emitted
      rfl
  | seq _ _ firstHypothesis restHypothesis =>
      obtain ⟨firstChecks, restChecks⟩ := Context.ChecksStmt.parts checks
      cases emitted with
      | seq firstEmitted restEmitted =>
          rw [List.flatMap_append, firstHypothesis (Context.ChecksStmt.singleton.2 firstChecks)
            (stmtCode_singleton.2 firstEmitted), restHypothesis restChecks restEmitted,
            Clause.tally, List.map_append]
  | block found _ bodyHypothesis =>
      rw [Context.ChecksStmt.singleton, wellFounded.stmt_eq found] at checks
      rw [stmtCode_singleton, wellFounded.stmt_eq found] at emitted
      obtain ⟨typed, holds⟩ := checks
      cases typed with
      | block _ bodyTyped =>
          cases emitted with
          | block _ bodyEmitted => exact bodyHypothesis ⟨bodyTyped, holds⟩ bodyEmitted
  | expr found valueHeld =>
      rw [Context.ChecksStmt.singleton, wellFounded.stmt_eq found] at checks
      rw [stmtCode_singleton, wellFounded.stmt_eq found] at emitted
      obtain ⟨typed, holds⟩ := checks
      cases typed with
      | expr _ valueTyped =>
          cases emitted with
          | expr _ valueEmitted =>
              exact tallies.expr _ _ _ _
                ⟨_, _, _, _, _, valueHeld, ⟨valueTyped, holds⟩, valueEmitted⟩
  | branch found conditionHeld _ yesHypothesis =>
      rw [Context.ChecksStmt.singleton, wellFounded.stmt_eq found] at checks
      rw [stmtCode_singleton, wellFounded.stmt_eq found] at emitted
      obtain ⟨conditionChecks, yesChecks, -⟩ := checks.branch
      cases emitted with
      | branch _ testEmitted yesEmitted noEmitted =>
          cases noEmitted
          have test : TermCode context forest _ .bool _ _ :=
            ⟨_, _, _, _, _, conditionHeld, conditionChecks, testEmitted⟩
          have yes_eq := yesHypothesis (Context.ChecksStmt.singleton.2 yesChecks)
            (stmtCode_singleton.2 yesEmitted)
          simp only [List.flatMap_append, tallies.expr _ _ _ _ test, tallies.decided test, yes_eq,
            tallies.passage, List.append_nil, Clause.tally, List.map_append]
  | choice found conditionHeld _ _ yesHypothesis noHypothesis =>
      rw [Context.ChecksStmt.singleton, wellFounded.stmt_eq found] at checks
      rw [stmtCode_singleton, wellFounded.stmt_eq found] at emitted
      obtain ⟨conditionChecks, yesChecks, noChecks⟩ := checks.branch
      cases emitted with
      | branch _ testEmitted yesEmitted noEmitted =>
          have test : TermCode context forest _ .bool _ _ :=
            ⟨_, _, _, _, _, conditionHeld, conditionChecks, testEmitted⟩
          have yes_eq := yesHypothesis (Context.ChecksStmt.singleton.2 yesChecks)
            (stmtCode_singleton.2 yesEmitted)
          have no_eq := noHypothesis (Context.ChecksStmt.singleton.2 noChecks)
            (stmtCode_singleton.2 noEmitted)
          simp only [List.flatMap_append, tallies.expr _ _ _ _ test, tallies.decided test, yes_eq,
            no_eq, tallies.passage, List.append_nil, Clause.tally, List.map_append]
  | loop found conditionHeld _ bodyHypothesis =>
      rw [Context.ChecksStmt.singleton, wellFounded.stmt_eq found] at checks
      rw [stmtCode_singleton, wellFounded.stmt_eq found] at emitted
      obtain ⟨conditionChecks, bodyChecks⟩ := checks.loop
      cases emitted with
      | loop _ testEmitted bodyEmitted =>
          have test : TermCode context forest _ .bool _ _ :=
            ⟨_, _, _, _, _, conditionHeld, conditionChecks, testEmitted⟩
          have body_eq := bodyHypothesis (Context.ChecksStmt.singleton.2 bodyChecks)
            (stmtCode_singleton.2 bodyEmitted)
          simp only [List.flatMap_append, tallies.expr _ _ _ _ test, tallies.decided test, body_eq,
            tallies.passage, List.append_nil, List.nil_append, Clause.tally, List.map_append]
  | write found valueHeld =>
      rw [Context.ChecksStmt.singleton, wellFounded.stmt_eq found] at checks
      rw [stmtCode_singleton, wellFounded.stmt_eq found] at emitted
      obtain ⟨typed, holds⟩ := checks
      cases typed with
      | write _ valueTyped _ =>
          cases emitted with
          | write _ _ valueEmitted print =>
              have written : TermCode context forest _ _ _ _ :=
                ⟨_, _, _, _, _, valueHeld, ⟨valueTyped, holds⟩, valueEmitted⟩
              rw [List.flatMap_append, tallies.expr _ _ _ _ written,
                tallies.print _ _ _ _ _ _ _ _ _ written print, Clause.tally, List.map_append]
  | writeText found | read found | leave found =>
      rw [stmtCode_singleton, wellFounded.stmt_eq found] at emitted
      cases emitted
      simp [tallies.printText, tallies.scan, tallies.ret, tallies.label, Clause.tally]

end TallyOf

end Lowering

/-- The tally of an accepted program, which is left at its end. -/
theorem Program.WellFounded.flatMap_gather
    {α β : Type}
    {gather : Item -> List β}
    {tally : Tally α}
    {value : α -> β}
    {program : Program}
    {tags : TagTable}
    {code : CodeModule}
    {tree : SyntaxTree}
    (wellFounded : program.WellFounded)
    (tallies : Lowering.TallyOf (program.context tags) program.forest gather tally value)
    (readBack : program.ReadsBack tree)
    (accepts : program.check = .ok (tags, []))
    (generated : program.generate tags = .ok code) :
    code.items.flatMap gather = (tree.body.tally tally ++ tally.leave).map value := by
  obtain ⟨typed, holds⟩ := wellFounded.accepted accepts
  obtain ⟨body, registers, labels, emitted, items_eq, -⟩ := Program.stmtCode_of_generate generated
  have body_eq := tallies.stmt wellFounded.forest readBack.bodyHeld ⟨typed, holds⟩ emitted
  have slots_eq : program.scope.slots.flatMap gather = [] := by
    refine List.flatMap_eq_nil_iff.2 fun item listed => ?_
    obtain ⟨declaration, -, rfl⟩ := List.mem_map.1 listed
    exact tallies.alloca _ _
  rw [items_eq, List.flatMap_append, List.cons_append, List.flatMap_cons, List.flatMap_append,
    tallies.label, slots_eq, body_eq, List.flatMap_singleton, tallies.ret, List.map_append]
  rfl

end MiniLang
