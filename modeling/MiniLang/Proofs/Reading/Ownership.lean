import Mathlib.Data.List.Nodup
import MiniLang.Proofs.Reading.Recognition
import MiniLang.Proofs.Reading.Shape

/-!
# Readings build forests

Every number that a reading hands out is passed on from the mode and the open frames to exactly one
node, or to the body.  An error is the only way to lose one: what a broken statement has built stays
behind in the forest, and nothing names its root.  So no node has two parents, and where there are
no errors the body reaches every node.
-/

namespace MiniLang
namespace Reading

section Completion

variable {reading : Reading} (line : Line) {form : StmtForm} (frames : List Frame)
  {outer : List Frame} (stack_eq : reading.stack = frames ++ outer)

include stack_eq

/-- A complete statement names the expressions that the innermost frames and the mode held. -/
theorem exprUses_complete
    (values_eq : ∀ id, form.values.count id =
      (frames.flatMap Frame.exprs ++ reading.mode.exprs).count id)
    (id : ExprId) :
    ({ reading with stack := outer }.complete line form).exprUses id +
        supply reading.forest.exprs.size id =
      reading.exprUses id + supply reading.forest.exprs.size id := by
  have named := reading.forest.count_exprsNamed_addStmt line form id
  have values := values_eq id
  change (reading.forest.addStmt line form).2.exprsNamed.count id +
    (outer.flatMap Frame.exprs ++ []).count id + _ = _
  simp only [exprUses, exprsHeld, stack_eq, List.flatMap_append, List.count_append,
    List.count_nil] at values ⊢
  omega

/-- A complete statement names the statements that the innermost frames and the mode held, and is
held itself. -/
theorem stmtUses_complete
    (children_eq : ∀ id, form.children.count id =
      (frames.flatMap Frame.stmts ++ reading.mode.stmts).count id)
    (id : StmtId) :
    ({ reading with stack := outer }.complete line form).stmtUses id +
        supply reading.forest.stmts.size id =
      reading.stmtUses id + supply (reading.forest.addStmt line form).2.stmts.size id := by
  have named := reading.forest.count_stmtsNamed_addStmt line form id
  have children := children_eq id
  have size_eq : (reading.forest.addStmt line form).2.stmts.size =
      reading.forest.stmts.size + 1 := by simp [Forest.addStmt]
  change (reading.forest.addStmt line form).2.stmtsNamed.count id +
    (outer.flatMap Frame.stmts ++ [reading.forest.stmts.size] ++ reading.body).count id + _ = _
  rw [size_eq, supply_succ]
  simp only [stmtUses, stmtsHeld, stack_eq, List.flatMap_append, List.count_append] at children ⊢
  omega

end Completion

/-- Each number that is handed out is named or held as often as before, and each new one once.
String constants stay numbered in the order of the statements that write them. -/
structure Balanced (before after : Reading) : Prop where
  exprs : ∀ id, after.exprUses id + supply before.forest.exprs.size id =
    before.exprUses id + supply after.forest.exprs.size id
  stmts : ∀ id, after.stmtUses id + supply before.forest.stmts.size id =
    before.stmtUses id + supply after.forest.stmts.size id
  texts : before.forest.textsNamed = List.range before.forest.texts.size ->
    after.forest.textsNamed = List.range after.forest.texts.size

namespace Balanced

variable {before after : Reading}

/-- Numbers only move. -/
theorem of_moves
    (forest_eq : after.forest = before.forest)
    (exprs_eq : ∀ id, after.exprsHeld.count id = before.exprsHeld.count id)
    (stmts_eq : ∀ id, after.stmtsHeld.count id = before.stmtsHeld.count id) :
    Balanced before after where
  exprs id := by simp only [exprUses, forest_eq, exprs_eq]
  stmts id := by simp only [stmtUses, forest_eq, stmts_eq]
  texts ordered := by rwa [forest_eq]

/-- Work inside a statement is balanced. -/
theorem of_works (works : before.Works after) : Balanced before after where
  exprs := works.expr_balance
  stmts id := by
    simp only [stmtUses, Forest.stmtsNamed, works.stmts_eq, works.stmt_balance]
  texts ordered := by
    simp only [Forest.textsNamed, works.stmts_eq, works.texts_eq] at ordered ⊢
    exact ordered

/-- A statement is complete and names what the innermost frames and the mode held. -/
theorem of_complete
    (line : Line)
    {form : StmtForm}
    (frames : List Frame)
    {outer : List Frame}
    (stack_eq : before.stack = frames ++ outer)
    (values_eq : ∀ id, form.values.count id =
      (frames.flatMap Frame.exprs ++ before.mode.exprs).count id)
    (children_eq : ∀ id, form.children.count id =
      (frames.flatMap Frame.stmts ++ before.mode.stmts).count id)
    (no_text : form.text? = none) :
    Balanced before ({ before with stack := outer }.complete line form) where
  exprs := exprUses_complete line frames stack_eq values_eq
  stmts := stmtUses_complete line frames stack_eq children_eq
  texts ordered := by
    change (before.forest.addStmt line form).2.textsNamed = List.range before.forest.texts.size
    rw [Forest.textsNamed_addStmt _ _ no_text]
    exact ordered

/-- A string constant is added together with the statement that writes it. -/
theorem of_addText
    (line : Line)
    (bytes : List UInt8)
    (free : before.mode.exprs = [] ∧ before.mode.stmts = []) :
    Balanced before
      { before with
        forest := (before.forest.addText line bytes).2
        mode := .completed (before.forest.addText line bytes).1 } := by
  let pooled : Reading :=
    { before with forest := { before.forest with texts := (before.forest.texts.add bytes).2 } }
  let form : StmtForm := .writeText (before.forest.texts.add bytes).1
  have no_exprs : ∀ id, form.values.count id = ([] ++ pooled.mode.exprs).count id := by
    intro id
    rw [List.nil_append, free.1]
    rfl
  have no_stmts : ∀ id, form.children.count id = ([] ++ pooled.mode.stmts).count id := by
    intro id
    rw [List.nil_append, free.2]
    rfl
  have exprs := exprUses_complete line [] (List.nil_append pooled.stack).symm no_exprs
  have stmts := stmtUses_complete line [] (List.nil_append pooled.stack).symm no_stmts
  refine ⟨exprs, stmts, fun ordered => ?_⟩
  have size_eq : (before.forest.addText line bytes).2.texts.size =
      before.forest.texts.size + 1 := by
    simp [Forest.addText, Forest.addStmt, TextPool.add, TextPool.size]
  dsimp only
  rw [Forest.textsNamed_addText, ordered, size_eq, List.range_succ]

end Balanced

/-- No number is named or held twice, and as long as there are no errors each is named or held once.
The string constants are numbered in the order of the statements that write them. -/
structure Owned (reading : Reading) : Prop where
  expr_le : ∀ id, reading.exprUses id <= supply reading.forest.exprs.size id
  stmt_le : ∀ id, reading.stmtUses id <= supply reading.forest.stmts.size id
  texts_eq : reading.forest.textsNamed = List.range reading.forest.texts.size
  expr_ge : ¬reading.Broken -> ∀ id, supply reading.forest.exprs.size id <= reading.exprUses id
  stmt_ge : ¬reading.Broken -> ∀ id, supply reading.forest.stmts.size id <= reading.stmtUses id

namespace Owned

variable {before after reading : Reading}

/-- What is balanced keeps the numbers in single hands. -/
theorem of_balanced
    (owned : before.Owned)
    (balanced : Balanced before after)
    (broken : before.Broken -> after.Broken) :
    after.Owned where
  expr_le id := by
    have balance := balanced.exprs id
    have bound := owned.expr_le id
    omega
  stmt_le id := by
    have balance := balanced.stmts id
    have bound := owned.stmt_le id
    omega
  texts_eq := balanced.texts owned.texts_eq
  expr_ge clean id := by
    have balance := balanced.exprs id
    have bound := owned.expr_ge (fun bad => clean (broken bad)) id
    omega
  stmt_ge clean id := by
    have balance := balanced.stmts id
    have bound := owned.stmt_ge (fun bad => clean (broken bad)) id
    omega

/-- After an error numbers may get lost. -/
theorem of_loss
    (owned : before.Owned)
    (forest_eq : after.forest = before.forest)
    (exprs_le : ∀ id, after.exprsHeld.count id <= before.exprsHeld.count id)
    (stmts_le : ∀ id, after.stmtsHeld.count id <= before.stmtsHeld.count id)
    (broken : after.Broken) :
    after.Owned where
  expr_le id := by
    have bound := owned.expr_le id
    have held := exprs_le id
    unfold exprUses at bound ⊢
    rw [forest_eq]
    omega
  stmt_le id := by
    have bound := owned.stmt_le id
    have held := stmts_le id
    unfold stmtUses at bound ⊢
    rw [forest_eq]
    omega
  texts_eq := by
    rw [forest_eq]
    exact owned.texts_eq
  expr_ge clean := absurd broken clean
  stmt_ge clean := absurd broken clean

theorem report
    (owned : reading.Owned)
    (error : SyntaxError) :
    (reading.report error).Owned := by
  rw [report_eq_logged]
  exact owned.of_balanced (.of_moves rfl (fun _ => rfl) fun _ => rfl) fun _ =>
    broken_report reading error

section Free

variable (free : reading.mode.exprs = [] ∧ reading.mode.stmts = [])

include free

/-- The mode turns without holding a number before or after. -/
theorem turn
    (owned : reading.Owned)
    {mode : Mode}
    (free' : mode.exprs = [] ∧ mode.stmts = []) :
    { reading with mode := mode }.Owned := by
  refine owned.of_balanced (.of_works ?_) id
  exact .turn reading mode (free'.1.trans free.1.symm) (free'.2.trans free.2.symm)

theorem closeBlock (owned : reading.Owned) : reading.closeBlock.Owned := by
  unfold Reading.closeBlock
  split
  · next line body outer stack_eq =>
    refine owned.of_balanced (.of_complete line [.block line body] stack_eq ?_ ?_ rfl) id
    · intro id
      rw [free.1]
      rfl
    · intro id
      rw [free.2]
      simp [StmtForm.children, Frame.stmts]
  · exact owned.turn free ⟨rfl, rfl⟩

theorem endInput
    (owned : reading.Owned)
    (token : Token) :
    (reading.endInput token).Owned :=
  (owned.report _).turn (by rwa [mode_report]) ⟨rfl, rfl⟩

theorem resume
    (owned : reading.Owned)
    (token : Token)
    {next skip : Mode}
    (next_free : next.exprs = [] ∧ next.stmts = [])
    (skip_free : skip.exprs = [] ∧ skip.stmts = []) :
    (reading.resume token next skip).Owned := by
  unfold Reading.resume
  split
  · exact owned.turn free next_free
  · exact owned.closeBlock free
  · exact owned.endInput free token
  · exact owned.turn free skip_free

end Free

/-- A statement that is given up loses what it has built. -/
theorem fail
    (owned : reading.Owned)
    (token : Token)
    (error : SyntaxError) :
    (reading.fail token error).Owned := by
  let dropped : Reading :=
    { reading.report error with stack := blocks reading.stack, mode := .sequence }
  have lost : dropped.Owned := by
    have stack_eq : reading.stack = reading.stack.takeWhile (fun frame => !frame.isBlock) ++
        blocks reading.stack := (List.takeWhile_append_dropWhile).symm
    refine owned.of_loss (forest_report _ _) ?_ ?_ (broken_report reading error)
    · intro id
      have split_eq := congrArg (fun stack => (stack.flatMap Frame.exprs).count id) stack_eq
      simp only [List.flatMap_append, List.count_append] at split_eq
      change ((blocks reading.stack).flatMap Frame.exprs ++ []).count id <= _
      simp only [exprsHeld, List.count_append, List.count_nil]
      omega
    · intro id
      have split_eq := congrArg (fun stack => (stack.flatMap Frame.stmts).count id) stack_eq
      simp only [List.flatMap_append, List.count_append] at split_eq
      change ((blocks reading.stack).flatMap Frame.stmts ++ [] ++
        (reading.report error).body).count id <= _
      simp only [stmtsHeld, body_report, List.count_append, List.count_nil]
      omega
  rw [fail_eq_resume]
  exact lost.resume ⟨rfl, rfl⟩ token ⟨rfl, rfl⟩ ⟨rfl, rfl⟩

/-- Every effect keeps the numbers in single hands. -/
theorem of_effect
    {token : Token}
    {result : Array SyntaxError × Bool -> Reading}
    (owned : reading.Owned)
    (effect : Effect token reading result) :
    (result reading.ledger).Owned := by
  have worked : ∀ after : Reading, reading.Works after -> (after.logged reading.ledger).Owned := by
    intro after works
    have balanced := Balanced.of_works works
    exact owned.of_balanced ⟨balanced.exprs, balanced.stmts, balanced.texts⟩ id
  cases effect with
  | works after works inside flat => exact worked after works
  | fails after error works points => exact (worked after works).fail token error
  | castFails line op type mode_eq => exact owned.fail token _
  | ends after line form works is_nested isEnd children_eq values_eq no_text =>
      refine (worked after works).of_balanced (.of_complete line [] rfl ?_ ?_ no_text) id
      · intro id
        rw [values_eq]
        rfl
      · intro id
        rw [children_eq]
        rfl
  | writes line bytes mode_eq isEnd =>
      refine owned.of_balanced (.of_addText line bytes ?_) id
      rw [mode_eq]
      exact ⟨rfl, rfl⟩
  | opens mode_eq isOpening =>
      refine owned.of_balanced (.of_moves rfl ?_ ?_) id
      · intro id
        simp only [exprsHeld, mode_eq]
        rfl
      · intro id
        simp only [stmtsHeld, mode_eq]
        rfl

section Between

variable (token : Token) (is_nested : nested reading.stack = true)
  (free : reading.mode.exprs = [] ∧ reading.mode.stmts = [])

include is_nested free

theorem sequence (owned : reading.Owned) : (reading.sequence token).Owned := by
  unfold Reading.sequence
  split
  · exact owned.closeBlock free
  · exact owned.endInput free token
  · exact (owned.turn free ⟨rfl, rfl⟩).of_effect (effect_statement is_nested token)

theorem declaration (owned : reading.Owned) : (reading.declaration token).Owned := by
  unfold Reading.declaration
  split
  · split
    · exact owned.turn free ⟨rfl, rfl⟩
    · exact owned.sequence token is_nested free
  · exact owned.sequence token is_nested free

theorem programWord (owned : reading.Owned) : (reading.programWord token).Owned := by
  have reported := owned.report (.missingWord token .program)
  unfold Reading.programWord
  split
  · exact owned.turn free ⟨rfl, rfl⟩
  · exact reported.turn (by rwa [mode_report]) ⟨rfl, rfl⟩
  · exact reported.declaration token (by rwa [stack_report]) (by rwa [mode_report])

theorem openingBrace (owned : reading.Owned) : (reading.openingBrace token).Owned := by
  have reported := owned.report (.missing token .leftBrace)
  unfold Reading.openingBrace
  split
  · exact owned.turn free ⟨rfl, rfl⟩
  · exact reported.declaration token (by rwa [stack_report]) (by rwa [mode_report])

omit is_nested in
theorem failDeclaration
    (owned : reading.Owned)
    (error : SyntaxError) :
    (reading.failDeclaration token error).Owned :=
  (owned.report error).resume (by rwa [mode_report]) token ⟨rfl, rfl⟩ ⟨rfl, rfl⟩

omit is_nested in
theorem declaredName
    (owned : reading.Owned)
    (type : ValueType) :
    (reading.declaredName type token).Owned := by
  unfold Reading.declaredName
  split
  · exact (owned.turn free ⟨rfl, rfl⟩).of_balanced (.of_moves rfl (fun _ => rfl) fun _ => rfl) id
  · exact owned.failDeclaration token free _

omit is_nested in
theorem afterName
    (owned : reading.Owned)
    (type : ValueType) :
    (reading.afterName type token).Owned := by
  unfold Reading.afterName
  split
  · exact owned.turn free ⟨rfl, rfl⟩
  · exact owned.turn free ⟨rfl, rfl⟩
  · exact owned.failDeclaration token free _

omit is_nested in
theorem afterProgram (owned : reading.Owned) : (reading.afterProgram token).Owned := by
  unfold Reading.afterProgram
  split
  · exact owned.turn free ⟨rfl, rfl⟩
  · exact (owned.report _).turn (by rwa [mode_report]) ⟨rfl, rfl⟩

end Between

/-- Putting a complete statement into place hands its number over to a frame, a node or the body. -/
theorem settle
    (token : Token)
    {frames : List Frame}
    (is_nested : nested frames = true)
    {last : StmtId}
    (owned : { reading with stack := frames, mode := .completed last }.Owned) :
    (Reading.settle token reading frames last).Owned := by
  induction frames generalizing reading last with
  | nil =>
      have placed : { reading with
          stack := []
          body := last :: reading.body
          mode := .sequence }.Owned :=
        owned.of_balanced (.of_moves rfl (fun _ => rfl) fun _ => rfl) id
      have settled := placed.sequence token rfl ⟨rfl, rfl⟩
      rwa [sequence_mode { reading with stack := [], body := last :: reading.body }] at settled
  | cons frame outer inductionHypothesis =>
      cases frame with
      | yesBranch line test =>
          unfold Reading.settle
          split
          · refine owned.of_balanced (.of_moves rfl (fun _ => rfl) fun id => ?_) id
            simp only [stmtsHeld, List.flatMap_cons, List.count_append]
            change [last].count id + _ + 0 + _ = 0 + _ + [last].count id + _
            omega
          · refine inductionHypothesis is_nested (owned.of_balanced
              (.of_complete line [.yesBranch line test] rfl ?_ ?_ rfl) id)
            · intro id
              rfl
            · intro id
              rfl
      | noBranch line test yes =>
          refine inductionHypothesis is_nested (owned.of_balanced
            (.of_complete line [.noBranch line test yes] rfl ?_ ?_ rfl) id)
          · intro id
            rfl
          · intro id
            rfl
      | loopBody line test =>
          refine inductionHypothesis is_nested (owned.of_balanced
            (.of_complete line [.loopBody line test] rfl ?_ ?_ rfl) id)
          · intro id
            rfl
          · intro id
            rfl
      | block line body =>
          have placed : { reading with
              stack := .block line (last :: body) :: outer
              mode := .sequence }.Owned := by
            refine owned.of_balanced (.of_moves rfl (fun _ => rfl) fun id => ?_) id
            simp only [stmtsHeld, List.flatMap_cons, List.count_append, Frame.stmts, Mode.stmts,
              List.count_cons, List.count_nil]
            omega
          have settled := placed.sequence token is_nested ⟨rfl, rfl⟩
          rwa [sequence_mode
            { reading with stack := .block line (last :: body) :: outer }] at settled
      | _ => cases is_nested

/-- Reading a token keeps the numbers in single hands. -/
theorem feed
    (token : Token)
    (shaped : reading.Shaped)
    (owned : reading.Owned) :
    (reading.feed token).Owned := by
  obtain inside | ⟨outer, is_nested⟩ := shaped
  · exact owned.of_effect (Effect.feed inside token)
  · have free : ∀ mode : Mode, mode.exprs = [] ∧ mode.stmts = [] -> reading.mode = mode ->
        reading.mode.exprs = [] ∧ reading.mode.stmts = [] := by
      rintro mode free rfl
      exact free
    unfold Reading.feed
    cases mode_eq : reading.mode <;> simp only [mode_eq] at outer ⊢
    case programWord => exact owned.programWord token is_nested (free _ ⟨rfl, rfl⟩ mode_eq)
    case openingBrace => exact owned.openingBrace token is_nested (free _ ⟨rfl, rfl⟩ mode_eq)
    case declarations => exact owned.declaration token is_nested (free _ ⟨rfl, rfl⟩ mode_eq)
    case declaredName type => exact owned.declaredName token (free _ ⟨rfl, rfl⟩ mode_eq) type
    case afterName type => exact owned.afterName token (free _ ⟨rfl, rfl⟩ mode_eq) type
    case skippingDeclaration =>
      exact owned.resume (free _ ⟨rfl, rfl⟩ mode_eq) token ⟨rfl, rfl⟩ ⟨rfl, rfl⟩
    case sequence => exact owned.sequence token is_nested (free _ ⟨rfl, rfl⟩ mode_eq)
    case completed last =>
      refine settle token is_nested ?_
      rwa [← mode_eq]
    case skipping => exact owned.resume (free _ ⟨rfl, rfl⟩ mode_eq) token ⟨rfl, rfl⟩ ⟨rfl, rfl⟩
    case closed => exact owned.afterProgram token (free _ ⟨rfl, rfl⟩ mode_eq)
    case ended => exact owned
    all_goals cases outer

theorem start : Reading.start.Owned where
  expr_le id := by simp [exprUses, exprsHeld, Reading.start, Forest.exprsNamed, Mode.exprs]
  stmt_le id := by simp [stmtUses, stmtsHeld, Reading.start, Forest.stmtsNamed, Mode.stmts]
  texts_eq := rfl
  expr_ge _ id := by simp [Reading.start, supply]
  stmt_ge _ id := by simp [Reading.start, supply]

/-- Reading any tokens keeps the numbers in single hands. -/
theorem feedAll
    (shaped : reading.Shaped)
    (owned : reading.Owned)
    (tokens : List Token) :
    (reading.feedAll tokens).Owned := by
  induction tokens generalizing reading with
  | nil => exact owned
  | cons token rest inductionHypothesis =>
      exact inductionHypothesis (shaped.feed token) (owned.feed token shaped)

section Ended

variable (owned : reading.Owned) (clean : ¬reading.Broken) (mode_eq : reading.mode = .ended)
  (stack_eq : reading.stack = [])

include owned clean mode_eq stack_eq

/-- Where a reading ends without an error and with no frame open, each statement is named. -/
theorem mem_stmts
    {id : StmtId}
    (inRange : id < reading.forest.stmts.size) :
    id ∈ reading.forest.stmtsNamed ++ reading.body.reverse := by
  have uses := owned.stmt_ge clean id
  simp only [supply, if_pos inRange, stmtUses, stmtsHeld, stack_eq, mode_eq, List.flatMap_nil,
    Mode.stmts, List.nil_append] at uses
  rw [← List.count_pos_iff, List.count_append, List.count_reverse]
  exact uses

/-- Where a reading ends without an error and with no frame open, each expression is named. -/
theorem mem_exprs
    {id : ExprId}
    (inRange : id < reading.forest.exprs.size) :
    id ∈ reading.forest.exprsNamed := by
  have uses := owned.expr_ge clean id
  simp only [supply, if_pos inRange, exprUses, exprsHeld, stack_eq, mode_eq, List.flatMap_nil,
    Mode.exprs, List.nil_append, List.count_nil] at uses
  exact List.count_pos_iff.1 uses

end Ended

end Owned

end Reading

/-- Each node of a program has its own place in the trees of the body.  A list of all places that
name a node names none twice, so no node has two parents or is named twice by one, and a statement
of the body has no parent.  The string constants are numbered in the order of the statements that
write them. -/
structure Program.IsForest (program : Program) : Prop where
  wellFounded : program.WellFounded
  exprs_nodup : program.forest.exprsNamed.Nodup
  stmts_nodup : (program.forest.stmtsNamed ++ program.body).Nodup
  texts_eq : program.forest.textsNamed = List.range program.forest.texts.size

/-- Every list of tokens is read as a forest. -/
theorem Program.isForest_ofTokens (tokens : List Token) :
    (Program.ofTokens tokens).1.IsForest := by
  have owned : (Reading.ofTokens tokens).Owned :=
    Reading.Owned.start.feedAll .start (Reading.input tokens)
  have supplied : ∀ size id, supply size id <= 1 := by
    intro size id
    unfold supply
    split <;> omega
  refine ⟨wellFounded_ofTokens tokens, ?_, ?_, owned.texts_eq⟩
  · refine List.nodup_iff_count_le_one.2 fun id => ?_
    have uses := Nat.le_trans (owned.expr_le id) (supplied _ id)
    exact Nat.le_trans (Nat.le_add_right _ _) uses
  · refine List.nodup_iff_count_le_one.2 fun id => ?_
    have uses := Nat.le_trans (owned.stmt_le id) (supplied _ id)
    simp only [Reading.stmtUses, Reading.stmtsHeld, List.count_append] at uses
    simp only [Program.ofTokens, Program.assemble, List.count_append, List.count_reverse]
    omega

section Reachability

variable {program : Program} (forest : program.IsForest)

include forest

/-- Where each statement is named somewhere, the body reaches each of them. -/
theorem Program.IsForest.reachesStmt
    (named : ∀ id < program.forest.stmts.size, id ∈ program.forest.stmtsNamed ++ program.body)
    (id : StmtId)
    (inRange : id < program.forest.stmts.size) :
    program.ReachesStmt id := by
  -- Parents come later in the row, so the induction starts from the end of it.
  induction distance : program.forest.stmts.size - id using Nat.strongRecOn generalizing id with
  | ind distance inductionHypothesis =>
      obtain inTree | inBody := List.mem_append.1 (named id inRange)
      · obtain ⟨node, present, isChild⟩ := List.mem_flatMap.1 inTree
        obtain ⟨parent, found⟩ := Array.mem_iff_getElem?.1 (Array.mem_toList_iff.1 present)
        have parentInRange := (Array.getElem?_eq_some_iff.1 found).1
        have earlier := forest.wellFounded.forest.stmt_lt parent node found id isChild
        have reached := inductionHypothesis (program.forest.stmts.size - parent) (by omega) parent
          parentInRange rfl
        exact .child reached found isChild
      · exact .body inBody

/-- Where each expression is named somewhere too, the body reaches each of them. -/
theorem Program.IsForest.reachesExpr
    (reached : ∀ id < program.forest.stmts.size, program.ReachesStmt id)
    (named : ∀ id < program.forest.exprs.size, id ∈ program.forest.exprsNamed)
    (id : ExprId)
    (inRange : id < program.forest.exprs.size) :
    program.ReachesExpr id := by
  induction distance : program.forest.exprs.size - id using Nat.strongRecOn generalizing id with
  | ind distance inductionHypothesis =>
      obtain inTree | inStmt := List.mem_append.1 (named id inRange)
      · obtain ⟨node, present, isChild⟩ := List.mem_flatMap.1 inTree
        obtain ⟨parent, found⟩ := Array.mem_iff_getElem?.1 (Array.mem_toList_iff.1 present)
        have parentInRange := (Array.getElem?_eq_some_iff.1 found).1
        have earlier := forest.wellFounded.forest.expr_lt parent node found id isChild
        have reachedParent := inductionHypothesis (program.forest.exprs.size - parent) (by omega)
          parent parentInRange rfl
        exact .child reachedParent found isChild
      · obtain ⟨node, present, isValue⟩ := List.mem_flatMap.1 inStmt
        obtain ⟨parent, found⟩ := Array.mem_iff_getElem?.1 (Array.mem_toList_iff.1 present)
        have parentInRange := (Array.getElem?_eq_some_iff.1 found).1
        exact .value (reached parent parentInRange) found isValue

end Reachability

/-- A reading without errors ends with no frame open: what was read is a sentence of the grammar. -/
theorem Reading.stack_eq_nil_of_errors
    {tokens : List Token}
    (terminated : Reading.Terminated tokens)
    (errors_eq : (Reading.ofTokens tokens).errors = #[]) :
    (Reading.ofTokens tokens).stack = [] := by
  obtain ⟨line, _, _, read_eq, -⟩ := terminated.exists_ofTokens
  rw [← Grammar.input_eq, ← Reading.ofTokens] at read_eq
  obtain ⟨tree, derives⟩ := Grammar.exists_derives_of_errors
    (fun _ present => Reading.kind_ne_of_mem_beforeEnd present) (read_eq ▸ errors_eq)
  obtain ⟨result, ids, ended_eq, _, _⟩ := derives.exists_ofTokens line
  rw [read_eq, ended_eq]

/-- If no breach of the grammar is reported, the body reaches every node. -/
theorem Program.reaches_of_no_syntactic
    {tokens : List Token}
    (terminated : Reading.Terminated tokens)
    (none_syntactic : ∀ diagnostic ∈ (Program.ofTokens tokens).2, diagnostic.kind ≠ .syntactic) :
    (∀ id < (Program.ofTokens tokens).1.forest.stmts.size,
        (Program.ofTokens tokens).1.ReachesStmt id) ∧
      ∀ id < (Program.ofTokens tokens).1.forest.exprs.size,
        (Program.ofTokens tokens).1.ReachesExpr id := by
  have forest := Program.isForest_ofTokens tokens
  have errors_eq := Program.no_syntactic_iff.1 none_syntactic
  have owned : (Reading.ofTokens tokens).Owned :=
    Reading.Owned.start.feedAll .start (Reading.input tokens)
  have clean : ¬(Reading.ofTokens tokens).Broken := Reading.not_broken_of_errors errors_eq
  obtain ⟨-, -, -, -, mode_eq⟩ := terminated.exists_ofTokens
  -- No frame is open at the end, so each number has gone to a node or to the body.
  have stack_eq := Reading.stack_eq_nil_of_errors terminated errors_eq
  have reached := forest.reachesStmt fun id inRange =>
    owned.mem_stmts clean mode_eq stack_eq inRange
  exact ⟨reached, forest.reachesExpr reached fun id inRange =>
    owned.mem_exprs clean mode_eq stack_eq inRange⟩

/-- Whatever the tokens are, with errors or without, they are read as a forest: every node names
only earlier nodes, each node has at most one place, and the string constants are numbered in the
order of the statements that write them.  If no breach of the grammar is reported, the body reaches
every node. -/
theorem reading_builds_forest
    (tokens : List Token)
    (terminated : Reading.Terminated tokens) :
    (Program.ofTokens tokens).1.IsForest ∧
      ((∀ diagnostic ∈ (Program.ofTokens tokens).2, diagnostic.kind ≠ .syntactic) ->
        (∀ id < (Program.ofTokens tokens).1.forest.stmts.size,
          (Program.ofTokens tokens).1.ReachesStmt id) ∧
        ∀ id < (Program.ofTokens tokens).1.forest.exprs.size,
          (Program.ofTokens tokens).1.ReachesExpr id) := by
  refine ⟨Program.isForest_ofTokens tokens, fun none_syntactic => ?_⟩
  exact Program.reaches_of_no_syntactic terminated none_syntactic

/-- A loop over a block that writes one string, and another string behind it. -/
def countingLoop : List Token :=
  [⟨.keyword .program, 1⟩, ⟨.mark .leftBrace, 1⟩,
    ⟨.keyword .int, 1⟩, ⟨.name "x", 1⟩, ⟨.mark .semicolon, 1⟩,
    ⟨.keyword .while, 2⟩, ⟨.mark .leftParen, 2⟩, ⟨.name "x", 2⟩, ⟨.mark .less, 2⟩, ⟨.int 3, 2⟩,
    ⟨.mark .rightParen, 2⟩, ⟨.mark .leftBrace, 2⟩,
    ⟨.keyword .write, 3⟩, ⟨.text [111, 110], 3⟩, ⟨.mark .semicolon, 3⟩,
    ⟨.name "x", 4⟩, ⟨.mark .assign, 4⟩, ⟨.name "x", 4⟩, ⟨.mark .plus, 4⟩, ⟨.int 1, 4⟩,
    ⟨.mark .semicolon, 4⟩, ⟨.mark .rightBrace, 5⟩,
    ⟨.keyword .write, 6⟩, ⟨.text [111, 102, 102], 6⟩, ⟨.mark .semicolon, 6⟩,
    ⟨.mark .rightBrace, 7⟩, ⟨.endOfFile, 8⟩]

/-- Its body reaches all five statements and all seven expressions. -/
theorem countingLoop_reached :
    Reading.Terminated countingLoop ∧
      (∀ diagnostic ∈ (Program.ofTokens countingLoop).2, diagnostic.kind ≠ .syntactic) ∧
      (Program.ofTokens countingLoop).1.IsForest ∧
      (∀ id < 5, (Program.ofTokens countingLoop).1.ReachesStmt id) ∧
      ∀ id < 7, (Program.ofTokens countingLoop).1.ReachesExpr id := by
  have terminated : Reading.Terminated countingLoop := .inr ⟨⟨.endOfFile, 8⟩, by decide, rfl⟩
  have none_syntactic : ∀ diagnostic ∈ (Program.ofTokens countingLoop).2,
      diagnostic.kind ≠ .syntactic := Program.no_syntactic_iff.2 (by decide)
  obtain ⟨forest, reaches⟩ := reading_builds_forest countingLoop terminated
  obtain ⟨stmts, exprs⟩ := reaches none_syntactic
  exact ⟨terminated, none_syntactic, forest, stmts, exprs⟩

end MiniLang
