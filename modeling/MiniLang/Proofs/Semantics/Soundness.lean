import MiniLang.Proofs.Semantics.Source

/-!
# Types are kept

As long as the variables hold values of their declared types, an expression gives a value of the
type that the rules find, and what it and a well typed statement leave in the variables has the
declared types again.

The limit to the passes through loops only cuts runs off: a run that is not unfinished is the same
under every larger limit.
-/

namespace MiniLang

/-- The variables that are declared, and no others, hold values, and these have the declared
types. -/
def Store.Conforms (scope : Scope) (store : Store) : Prop :=
  ∀ name, (store name).map Value.type = (scope.lookup name).map Declaration.type

section Conforming

variable {scope : Scope} {store : Store} {name : String} {declaration : Declaration}

/-- A declared variable holds a value of its type. -/
theorem Store.Conforms.exists_held
    (conforms : store.Conforms scope)
    (found : scope.lookup name = some declaration) :
    ∃ held, store name = some held ∧ held.type = declaration.type := by
  have sameType := conforms name
  rw [found, Option.map_some, Option.map_eq_some_iff] at sameType
  exact sameType

/-- A variable may be set to another value of its type. -/
theorem Store.Conforms.set
    {value : Value}
    (conforms : store.Conforms scope)
    (found : scope.lookup name = some declaration)
    (typed : value.type = declaration.type) :
    (store.set name value).Conforms scope := by
  intro other
  by_cases same : other = name
  · subst same
    simp [Store.set, found, typed]
  · simpa [Store.set, same] using conforms other

end Conforming

section Values

variable (env : Environment)

/-- A prefix operator gives a value of its type on every operand that it takes. -/
theorem UnaryOp.Turns.exists_apply
    {op : UnaryOp}
    {type result : ValueType}
    {value : Value}
    (turns : op.Turns type result)
    (typed : value.type = type) :
    ∃ given, op.apply env value = some given ∧ given.type = result := by
  subst typed
  cases value <;> cases turns <;> first
    | exact ⟨_, rfl, rfl⟩
    | contradiction

/-- A variable takes every value of a type that its own type takes. -/
theorem ValueType.Takes.exists_widen
    {target type : ValueType}
    {value : Value}
    (takes : target.Takes type)
    (typed : value.type = type) :
    ∃ stored, value.widen? env target = some stored ∧ stored.type = target := by
  subst typed
  cases value <;> cases takes <;> exact ⟨_, rfl, rfl⟩

/-- What an infix operator gives on integers has the type that the table gives. -/
theorem BinaryOp.type_onInts
    {op : BinaryOp}
    {left right : Int32}
    {value : Value}
    (applied : op.onInts left right = some value) :
    op.result? .int .int = some value.type := by
  cases op with
  | div =>
      obtain ⟨quotient, -, rfl⟩ := Option.map_eq_some_iff.mp applied
      rfl
  | _ => cases applied <;> rfl

/-- What an infix operator gives on reals has the type that the table gives, also if one of them was
an integer. -/
theorem BinaryOp.type_onReals
    {env : Environment}
    {op : BinaryOp}
    {left right : UInt64}
    {value : Value}
    (applied : op.onReals env left right = some value) :
    op.result? .int .double = some value.type ∧ op.result? .double .int = some value.type ∧
      op.result? .double .double = some value.type := by
  cases op <;> cases applied <;> exact ⟨rfl, rfl, rfl⟩

/-- What an infix operator gives on truth values has the type that the table gives. -/
theorem BinaryOp.type_onBools
    {op : BinaryOp}
    {left right : Bool}
    {value : Value}
    (applied : op.onBools left right = some value) :
    op.result? .bool .bool = some value.type := by
  cases op <;> cases applied <;> rfl

/-- If an infix operator gives a value, it is one of its type. -/
theorem BinaryOp.Combines.type_apply
    {env : Environment}
    {op : BinaryOp}
    {leftType rightType result : ValueType}
    {left right value : Value}
    (combines : op.Combines leftType rightType result)
    (leftTyped : left.type = leftType)
    (rightTyped : right.type = rightType)
    (applied : op.apply env left right = some value) :
    value.type = result := by
  have given : op.result? left.type right.type = some value.type := by
    cases left <;> cases right <;> first
      | exact BinaryOp.type_onInts applied
      | exact BinaryOp.type_onBools applied
      | exact (BinaryOp.type_onReals applied).1
      | exact (BinaryOp.type_onReals applied).2.1
      | exact (BinaryOp.type_onReals applied).2.2
      | cases applied
  rw [leftTyped, rightTyped, BinaryOp.result?_eq_some_iff.mpr combines] at given
  exact (Option.some.inj given).symm

/-- If the left operand decides a logical operator, the value has the type of the operator. -/
theorem BinaryOp.Combines.type_decided
    {op : BinaryOp}
    {leftType rightType result : ValueType}
    {left value : Value}
    (combines : op.Combines leftType rightType result)
    (decided : op.decided? left = some value) :
    value.type = result := by
  have logical : op.family = .logical ∧ value.type = .bool := by
    unfold BinaryOp.decided? at decided
    split at decided <;> cases decided <;> exact ⟨rfl, rfl⟩
  cases combines <;> simp_all

end Values

/-- The value of an expression has its type, and the variables still hold values of theirs. -/
theorem Expr.HasType.eval_sound
    {env : Environment}
    {scope : Scope}
    {expression : Expr}
    {type : ValueType}
    (typed : expression.HasType scope type) :
    ∀ {store after : Store} {value : Value},
      store.Conforms scope ->
      expression.eval env store = some (value, after) ->
      value.type = type ∧ after.Conforms scope := by
  induction typed with
  | int site literal =>
      intro store after value conforms evaluated
      cases evaluated
      exact ⟨rfl, conforms⟩
  | double site bits =>
      intro store after value conforms evaluated
      cases evaluated
      exact ⟨rfl, conforms⟩
  | bool site literal =>
      intro store after value conforms evaluated
      cases evaluated
      exact ⟨rfl, conforms⟩
  | name site found =>
      intro store after value conforms evaluated
      obtain ⟨held, holds, sameType⟩ := conforms.exists_held found
      simp only [Expr.eval, holds, Option.map_some, Option.some.injEq, Prod.mk.injEq] at evaluated
      obtain ⟨rfl, rfl⟩ := evaluated
      exact ⟨sameType, conforms⟩
  | unary site operandTyped turns inductionHypothesis =>
      intro store after value conforms evaluated
      simp only [Expr.eval, Option.bind_eq_bind, Option.bind_eq_some_iff, Prod.exists] at evaluated
      obtain ⟨given, middle, operandEvaluated, result, applied, returned⟩ := evaluated
      obtain ⟨givenTyped, middleConforms⟩ := inductionHypothesis conforms operandEvaluated
      obtain ⟨applied', applied_eq, resultTyped⟩ := turns.exists_apply env givenTyped
      cases returned
      rw [applied_eq] at applied
      cases applied
      exact ⟨resultTyped, middleConforms⟩
  | binary site leftTyped rightTyped combines leftHypothesis rightHypothesis =>
      intro store after value conforms evaluated
      simp only [Expr.eval, Option.bind_eq_bind, Option.bind_eq_some_iff, Prod.exists] at evaluated
      obtain ⟨first, middle, leftEvaluated, evaluated⟩ := evaluated
      obtain ⟨firstTyped, middleConforms⟩ := leftHypothesis conforms leftEvaluated
      split at evaluated
      next result decided =>
        cases evaluated
        exact ⟨combines.type_decided decided, middleConforms⟩
      next =>
        simp only [Option.bind_eq_some_iff, Prod.exists] at evaluated
        obtain ⟨second, last, rightEvaluated, result, applied, returned⟩ := evaluated
        obtain ⟨secondTyped, lastConforms⟩ := rightHypothesis middleConforms rightEvaluated
        cases returned
        exact ⟨combines.type_apply firstTyped secondTyped applied, lastConforms⟩
  | assign site valueTyped found takes inductionHypothesis =>
      intro store after value conforms evaluated
      simp only [Expr.eval, Option.bind_eq_bind, Option.bind_eq_some_iff, Prod.exists] at evaluated
      obtain ⟨given, middle, valueEvaluated, held, holds, stored, widened, returned⟩ := evaluated
      obtain ⟨givenTyped, middleConforms⟩ := inductionHypothesis conforms valueEvaluated
      obtain ⟨held', holds', heldTyped⟩ := middleConforms.exists_held found
      obtain ⟨stored', widened', storedTyped⟩ := takes.exists_widen env givenTyped
      cases returned
      obtain rfl : held' = held := Option.some.inj (holds'.symm.trans holds)
      rw [heldTyped, widened'] at widened
      cases widened
      exact ⟨storedTyped, middleConforms.set found storedTyped⟩

/-- The variables still hold values of their types after a condition. -/
theorem Expr.HasType.holds_conforms
    {env : Environment}
    {scope : Scope}
    {condition : Expr}
    {world after : World}
    {truth : Bool}
    (typed : condition.HasType scope .bool)
    (conforms : world.store.Conforms scope)
    (decided : condition.holds? env world = some (truth, after)) :
    after.store.Conforms scope := by
  unfold Expr.holds? at decided
  split at decided
  next value store evaluated =>
    cases decided
    exact (typed.eval_sound conforms evaluated).2
  next => cases decided

namespace Progress

variable {test : World -> Option (Bool × World)} {body : World -> Progress}

/-- What goes on after two parts has gone through both. -/
theorem andThen_eq_done_iff
    {progress : Progress}
    {next : World -> Progress}
    {after : World} :
    progress.andThen next = .done after ↔
      ∃ middle, progress = .done middle ∧ next middle = .done after := by
  cases progress <;> simp [andThen]

/-- What the test and the body keep, a loop keeps. -/
theorem iterate_invariant
    {keeps : World -> Prop}
    (tested : ∀ {world after : World} {truth : Bool},
      keeps world -> test world = some (truth, after) -> keeps after)
    (passed : ∀ {world after : World}, keeps world -> body world = .done after -> keeps after)
    (limit : Nat) :
    ∀ {world after : World}, keeps world -> iterate test body limit world = .done after ->
      keeps after := by
  induction limit with
  | zero =>
      intro world after kept ended
      cases ended
  | succ limit inductionHypothesis =>
      intro world after kept ended
      simp only [iterate] at ended
      split at ended
      next => cases ended
      next middle decided =>
        cases ended
        exact tested kept decided
      next middle decided =>
        obtain ⟨last, passedOnce, ended⟩ := andThen_eq_done_iff.mp ended
        exact inductionHypothesis (passed (tested kept decided) passedOnce) ended

end Progress

/-- A well typed statement leaves values of the declared types in the variables. -/
theorem Stmt.WellTyped.exec_conforms
    {env : Environment}
    {texts : TextPool}
    {limit : Nat}
    {scope : Scope}
    {statement : Stmt}
    (typed : statement.WellTyped scope) :
    ∀ {world after : World}, world.store.Conforms scope ->
      statement.exec env texts limit world = .done after ->
      after.store.Conforms scope := by
  induction typed with
  | done =>
      intro world after conforms ended
      cases ended
      exact conforms
  | seq firstTyped restTyped firstHypothesis restHypothesis =>
      intro world after conforms ended
      obtain ⟨middle, firstEnded, restEnded⟩ := Progress.andThen_eq_done_iff.mp ended
      exact restHypothesis (firstHypothesis conforms firstEnded) restEnded
  | block line bodyTyped inductionHypothesis =>
      intro world after conforms ended
      exact inductionHypothesis conforms ended
  | expr line valueTyped =>
      intro world after conforms ended
      simp only [Stmt.exec] at ended
      split at ended
      next value store evaluated =>
        cases ended
        exact (valueTyped.eval_sound conforms evaluated).2
      next => cases ended
  | branch line conditionTyped yesTyped noTyped yesHypothesis noHypothesis =>
      intro world after conforms ended
      simp only [Stmt.exec] at ended
      split at ended
      next middle decided =>
        exact yesHypothesis (conditionTyped.holds_conforms conforms decided) ended
      next middle decided =>
        exact noHypothesis (conditionTyped.holds_conforms conforms decided) ended
      next => cases ended
  | loop line conditionTyped bodyTyped inductionHypothesis =>
      intro world after conforms ended
      exact Progress.iterate_invariant conditionTyped.holds_conforms inductionHypothesis limit
        conforms ended
  | write line valueTyped writes =>
      intro world after conforms ended
      simp only [Stmt.exec] at ended
      split at ended
      next written store evaluated =>
        split at ended
        · cases ended
          exact (valueTyped.eval_sound conforms evaluated).2
        · cases ended
      next => cases ended
  | writeText line number =>
      intro world after conforms ended
      simp only [Stmt.exec] at ended
      split at ended
      next =>
        cases ended
        exact conforms
      next => cases ended
  | read line found reads =>
      intro world after conforms ended
      obtain ⟨held, holds, sameType⟩ := conforms.exists_held found
      simp only [Stmt.exec, holds] at ended
      split at ended
      next value given =>
        cases ended
        exact conforms.set found ((Environment.type_input given).trans sameType)
      next => cases ended
  | leave line =>
      intro world after conforms ended
      cases ended

namespace Progress

/-- A run is another one, or it was cut off. -/
def CutOff (cut full : Progress) : Prop :=
  cut = .unfinished ∨ cut = full

theorem CutOff.andThen
    {first first' : Progress}
    {next next' : World -> Progress}
    (firstCut : first.CutOff first')
    (nextCut : ∀ world, (next world).CutOff (next' world)) :
    (first.andThen next).CutOff (first'.andThen next') := by
  rcases firstCut with rfl | rfl
  · exact .inl rfl
  · cases first with
    | done world => exact nextCut world
    | _ => exact .inr rfl

theorem CutOff.iterate
    {test : World -> Option (Bool × World)}
    {body body' : World -> Progress}
    {limit limit' : Nat}
    (bodyCut : ∀ world, (body world).CutOff (body' world))
    (limit_le : limit ≤ limit')
    (world : World) :
    (iterate test body limit world).CutOff (iterate test body' limit' world) := by
  induction limit generalizing limit' world with
  | zero => exact .inl rfl
  | succ limit inductionHypothesis =>
      obtain ⟨limit', rfl⟩ : ∃ smaller, limit' = smaller + 1 := ⟨limit' - 1, by omega⟩
      simp only [Progress.iterate]
      split
      · exact .inr rfl
      · exact .inr rfl
      · apply (bodyCut _).andThen
        apply inductionHypothesis
        omega

end Progress

/-- A larger limit changes only runs that a smaller one cuts off. -/
theorem Stmt.exec_cutOff
    {env : Environment}
    {texts : TextPool}
    {limit limit' : Nat}
    (limit_le : limit ≤ limit')
    (statement : Stmt) :
    ∀ world, (statement.exec env texts limit world).CutOff
      (statement.exec env texts limit' world) := by
  induction statement with
  | seq first rest firstHypothesis restHypothesis =>
      intro world
      exact (firstHypothesis world).andThen restHypothesis
  | block line body inductionHypothesis => exact inductionHypothesis ()
  | branch line condition yes no yesHypothesis noHypothesis =>
      intro world
      simp only [Stmt.exec]
      split
      · exact yesHypothesis () _
      · exact noHypothesis () _
      · exact .inr rfl
  | loop line condition body inductionHypothesis =>
      intro world
      exact Progress.CutOff.iterate (inductionHypothesis ()) limit_le world
  | _ =>
      intro world
      exact .inr rfl

/-- A program ends in one world only, whatever the limits are. -/
theorem Program.Ends.unique
    {env : Environment}
    {program : Program}
    {world world' : World}
    (ends : program.Ends env world)
    (ends' : program.Ends env world') :
    world = world' := by
  obtain ⟨limit, ended⟩ := ends
  obtain ⟨limit', ended'⟩ := ends'
  have cut : (program.exec env limit).CutOff (program.exec env limit') ∨
      (program.exec env limit').CutOff (program.exec env limit) := by
    rcases Nat.le_total limit limit' with limit_le | limit_le
    · exact .inl (program.tree.exec_cutOff limit_le _)
    · exact .inr (program.tree.exec_cutOff limit_le _)
  simp only [Progress.CutOff] at cut
  grind

end MiniLang
