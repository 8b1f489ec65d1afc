import MiniLang.Proofs.Code.Layout
import MiniLang.Proofs.Semantics.Expressions

/-!
# The code of statements

The code of a well typed statement takes the machine as far as the statement gets.  What a statement
needs from the machine is the world alone: no register is used by two statements.
-/

namespace MiniLang

/-- The name of a constant tells its number. -/
theorem TextPool.nameOf_injective : Function.Injective TextPool.nameOf := by
  intro number other equal
  have spelled_eq := congrArg String.toList equal
  simp only [TextPool.nameOf, String.toList_append, List.append_cancel_left_eq,
    String.toList_inj] at spelled_eq
  exact Nat.repr_injective spelled_eq

/-- A constant is found among all of them by its name. -/
theorem TextPool.find?_toList
    {pool : TextPool}
    {number : Nat}
    {constant : TextConstant}
    (found : pool.get? number = some constant) :
    pool.toList.find? (fun other => other.name = TextPool.nameOf number) = some constant := by
  simp only [TextPool.get?, Option.map_eq_some_iff, Array.getElem?_eq_some_iff] at found
  obtain ⟨bytes, ⟨known, bytes_eq⟩, rfl⟩ := found
  rw [List.find?_eq_some_iff_getElem]
  refine ⟨by simp, number, by simpa [TextPool.toList] using known, ?_, ?_⟩
  · simp [TextPool.toList, bytes_eq]
  · intro earlier earlier_lt
    have other : TextPool.nameOf earlier ≠ TextPool.nameOf number := fun equal =>
      Nat.ne_of_lt earlier_lt (TextPool.nameOf_injective equal)
    simp [TextPool.toList, other]

namespace Lowering

open Machine

variable {env : Environment} {code : CodeModule} {context : Context} {machine : Machine}
  {lines post : List Item} {registers labels registers' labels' : Nat}

/-- The code of a condition and the fork after it lead to the block that the condition asks for. -/
theorem ExprCode.follows_fork
    (distinct : code.Distinct)
    {condition : Expr}
    {test : Operand}
    {yes no : Label}
    {yesLines noLines : List Item}
    (emitted : ExprCode context condition registers labels lines test registers' labels')
    (checks : context.Checks condition .bool)
    (placed : code.Placed lines (.instr (.fork test yes no) :: post))
    (rest_eq : machine.rest = lines ++ .instr (.fork test yes no) :: post)
    (conforms : machine.world.store.Conforms context.scope)
    (yesFound : Item.after? yes code.items = some yesLines)
    (noFound : Item.after? no code.items = some noLines) :
    machine.Follows env code (condition.holds? env machine.world) fun outcome after =>
      after.rest = (if outcome.1 then yesLines else noLines) ∧ after.world = outcome.2 := by
  apply (emitted.follows distinct checks placed rest_eq conforms).andThenValue checks.typed
    conforms
  · intro failed
    simp [Expr.holds?, failed]
  intro value middle evaluated valueTyped _ there
  obtain ⟨truth, rfl⟩ := exists_truth valueTyped
  have found : Item.after? (if truth then yes else no) code.items =
      some (if truth then yesLines else noLines) := by
    cases truth
    · exact noFound
    · exact yesFound
  obtain ⟨after, went, entered⟩ := exists_fork there.rest_eq there.value_eq found
  have holds_eq : condition.holds? env machine.world =
      some (truth, { machine.world with store := middle.world.store }) := by
    simp [Expr.holds?, evaluated]
  rw [holds_eq]
  exact ⟨after, .of_step went, entered.rest_eq, entered.world_eq.trans there.world_eq⟩

/-- Printing a value in a format that fits. -/
theorem exists_print
    {template : Template}
    {type : ValueType}
    {operand : Operand}
    {written : Value}
    {event : Event}
    (rest_eq : machine.rest = .instr (.print template type operand) :: post)
    (held : operand.value? machine.registers = some written)
    (typed : written.type = type)
    (printed : Event.printed? template.text (some written) = some event) :
    ∃ after, machine.Reaches env code after ∧ after.rest = post ∧
      after.world = { machine.world with trace := machine.world.trace ++ [event] } := by
  refine ⟨{ machine with rest := post }.note event, .of_step ?_, rfl, rfl⟩
  simp [step, rest_eq, exec, held, typed, printed]

/-- Printing a value writes it. -/
theorem PrintCode.exists_reaches
    {operand : Operand}
    {format : Format}
    {type : ValueType}
    {written : Value}
    (print : PrintCode operand registers format type lines registers')
    (typed : written.type = type)
    (rest_eq : machine.rest = lines ++ post)
    (held : operand.value? machine.registers = some written) :
    ∃ after, machine.Reaches env code after ∧ after.rest = post ∧
      after.world =
        { machine.world with trace := machine.world.trace ++ [.write format written] } := by
  cases print with
  | int =>
      cases written <;> cases typed
      exact exists_print rest_eq held rfl rfl
  | hex =>
      cases written <;> cases typed
      exact exists_print rest_eq held rfl rfl
  | double =>
      cases written <;> cases typed
      exact exists_print rest_eq held rfl rfl
  | bool =>
      obtain ⟨truth, rfl⟩ := exists_truth typed
      let chosen := if truth then Template.printTrue else Template.printFalse
      have printed : Event.printed? chosen.text none = some (.write .plain (.bool truth)) := by
        cases truth <;> rfl
      let middle := { machine with rest := .instr (.printSelected (registers + 1)) :: post }.define
        (registers + 1) (.format chosen)
      have selected : machine.step env code = some middle := by
        simp [step, rest_eq, exec, held, middle, chosen]
      have wrote : middle.step env code =
          some ({ middle with rest := post }.note (.write .plain (.bool truth))) := by
        simp [step, middle, exec, Machine.define, printed]
      exact ⟨_, (Reaches.of_step selected).trans (.of_step wrote), rfl, rfl⟩

/-- Scanning reads what the format and the type of the variable ask for. -/
theorem ScanTemplate.scanned?_eq
    (env : Environment)
    {format : Format}
    {type : ValueType}
    {template : Template}
    (scan : ScanTemplate format type template)
    (trace : List Event) :
    ∃ value, env.input? format type trace = some value ∧
      env.scanned? template.text trace = some (format, value) := by
  cases scan <;> exact ⟨_, rfl, rfl⟩

/-- The machine goes through the code of a well typed statement as far as the statement gets. -/
theorem StmtCode.advances
    (distinct : code.Distinct)
    (texts_eq : code.texts = context.texts.toList)
    {limit : Nat}
    {statement : Stmt}
    (emitted : StmtCode context statement registers labels lines registers' labels') :
    ∀ {post : List Item} {machine : Machine},
      statement.WellTyped context.scope ->
      context.tags.Holds (statement.marks context.scope) ->
      code.Placed lines post ->
      machine.rest = lines ++ post ->
      machine.world.store.Conforms context.scope ->
      machine.Advances env code limit post
        (statement.exec env context.texts limit machine.world) := by
  induction emitted with
  | done registers labels =>
      intro post machine typed holds placed rest_eq conforms
      exact ⟨machine, .refl machine, rest_eq, rfl⟩
  | seq firstEmitted restEmitted firstHypothesis restHypothesis =>
      intro post machine typed holds placed rest_eq conforms
      obtain ⟨firstHolds, restHolds⟩ := TagTable.holds_append.mp holds
      cases typed with
      | seq firstTyped restTyped =>
          apply (firstHypothesis firstTyped firstHolds placed.left (by simpa using rest_eq)
            conforms).andThen
          intro middle ended there
          exact restHypothesis restTyped restHolds placed.right there
            (firstTyped.exec_conforms conforms ended)
  | block line emitted inductionHypothesis =>
      intro post machine typed holds placed rest_eq conforms
      cases typed with
      | block _ bodyTyped => exact inductionHypothesis bodyTyped holds placed rest_eq conforms
  | expr line emitted =>
      intro post machine typed holds placed rest_eq conforms
      cases typed with
      | expr _ valueTyped =>
          apply Advances.of_follows
            (emitted.follows distinct ⟨valueTyped, holds⟩ placed rest_eq conforms)
          · intro failed
            simp [Stmt.exec, failed]
          rintro ⟨value, store⟩ after evaluated there
          simp only [Stmt.exec, evaluated]
          exact ⟨after, .refl after, there.rest_eq, there.world_eq⟩
  | branch line testEmitted yesEmitted noEmitted yesHypothesis noHypothesis =>
      intro post machine typed holds placed rest_eq conforms
      obtain ⟨testHolds, noHolds⟩ := TagTable.holds_append.mp holds
      obtain ⟨testHolds, yesHolds⟩ := TagTable.holds_append.mp testHolds
      have yesFound := distinct.found placed.left.left.left.left.right.tail
      have noFound := distinct.found placed.left.left.right.tail
      have joinedFound := distinct.found placed.right.tail
      cases typed with
      | branch _ conditionTyped yesTyped noTyped =>
          apply Advances.of_follows (testEmitted.follows_fork distinct ⟨conditionTyped, testHolds⟩
            placed.left.left.left.left.left (by simpa using rest_eq) conforms yesFound noFound)
          · intro failed
            simp [Stmt.exec, failed]
          rintro ⟨truth, world⟩ middle decided ⟨there, rfl⟩
          have middleConforms := conditionTyped.holds_conforms conforms decided
          simp only [Stmt.exec, decided]
          cases truth with
          | true =>
              exact (yesHypothesis yesTyped yesHolds placed.left.left.left.right there
                middleConforms).jump joinedFound
          | false =>
              exact (noHypothesis noTyped noHolds placed.left.right there
                middleConforms).jump joinedFound
  | loop line testEmitted bodyEmitted inductionHypothesis =>
      intro post machine typed holds placed rest_eq conforms
      obtain ⟨testHolds, bodyHolds⟩ := TagTable.holds_append.mp holds
      have startFound := distinct.found placed.left.left.left.left.tail
      have bodyFound := distinct.found placed.left.left.right.tail
      have endFound := distinct.found placed.right.tail
      cases typed with
      | loop _ conditionTyped bodyTyped =>
          obtain ⟨start, started, entered⟩ := exists_jump (by simpa using rest_eq) startFound
          apply Advances.of_reaches (.of_step started)
          rw [← entered.world_eq] at conforms ⊢
          exact Advances.iterate
            (fun machine rest_eq conforms => testEmitted.follows_fork distinct
              ⟨conditionTyped, testHolds⟩ placed.left.left.left.right rest_eq conforms bodyFound
              endFound)
            (fun machine rest_eq conforms => inductionHypothesis bodyTyped bodyHolds
              placed.left.right rest_eq conforms)
            startFound conditionTyped.holds_conforms bodyTyped.exec_conforms (Nat.le_refl limit)
            entered.rest_eq conforms
  | write line tagged emitted print =>
      intro post machine typed holds placed rest_eq conforms
      cases typed with
      | write _ valueTyped writes =>
          have checks := Context.Checks.of_tagged ⟨valueTyped, holds⟩ tagged
          apply Advances.of_follows
            (emitted.follows distinct checks placed.left (by simpa using rest_eq) conforms)
          · intro failed
            simp [Stmt.exec, failed]
          rintro ⟨written, store⟩ middle evaluated there
          obtain ⟨writtenTyped, -⟩ := checks.typed.eval_sound conforms evaluated
          obtain ⟨rfl, -⟩ := valueTyped.eval_sound conforms evaluated
          obtain ⟨after, reaches, after_rest, after_world⟩ :=
            print.exists_reaches writtenTyped there.rest_eq there.value_eq
          simp only [Stmt.exec, evaluated, Format.canWrite_iff.mpr writes, if_true]
          exact ⟨after, reaches, after_rest, by rw [after_world, there.world_eq]⟩
  | writeText line registers labels found =>
      intro post machine typed holds placed rest_eq conforms
      simp only [Stmt.exec, found]
      refine ⟨{ machine with rest := post }.note (.text _), .of_step ?_, rfl, rfl⟩
      simp [step, rest_eq, exec, texts_eq, TextPool.find?_toList found]
  | read line registers labels found scan =>
      intro post machine typed holds placed rest_eq conforms
      obtain ⟨held, heldThere, heldTyped⟩ := conforms.exists_held found
      obtain ⟨value, given, scanned⟩ := scan.scanned?_eq env machine.world.trace
      simp only [Stmt.exec, heldThere, heldTyped, given]
      refine ⟨({ machine with rest := post }.hold _ value).note (.read _ value), .of_step ?_, rfl,
        rfl⟩
      simp [step, rest_eq, exec, heldThere, heldTyped, scanned, Environment.type_input given]
  | leave line registers labels =>
      intro post machine typed holds placed rest_eq conforms
      exact ⟨machine, .refl machine, by simp [Halted, rest_eq], rfl⟩

end Lowering

end MiniLang
