import MiniLang.Proofs.Code.Emission
import MiniLang.Proofs.Tree.Reachability
import MiniLang.Proofs.Tree.Visits

/-!
# The code of visited nodes

Generating code visits the nodes of a program in order.  Every visited expression has its own stretch
of the code, and at its end the lines that the node adds to those of the expressions that it names.
The lines of the nodes come in the order of the visits; what stands around them only directs the flow
of control and reserves the slots of the variables.

What is gathered from the lines of the code is therefore known visit by visit.  A survey says what is
gathered from a line and what each visit owes to it, and code accounts for visits if the two agree,
in total and up to each visited expression.  If every expression of one kind adds one line of a sort
and nothing else does, the lines of the sort are so counted by the visits to expressions of the
kind.
-/

namespace MiniLang

/-- Whether a line only frames the code of nodes: it directs the flow of control or reserves the slot
of a variable. -/
def Item.frames : Item -> Bool
  | .label _ => true
  | .instr (.alloca _ _) => true
  | .instr (.jump _) => true
  | .instr (.fork _ _ _) => true
  | .instr (.phi _ _ _ _ _) => true
  | .instr .ret => true
  | _ => false

/-- Whether a statement itself reads or writes. -/
def StmtForm.communicates : StmtForm -> Bool
  | .write _ _ => true
  | .writeText _ => true
  | .read _ _ => true
  | _ => false

namespace Forest

variable {forest : Forest}

/-- The visits to expressions begin with those to the first of them. -/
theorem VisitsExprs.exists_append
    {id : ExprId}
    {rest : List ExprId}
    {visits : List Visit}
    (made : forest.VisitsExprs (id :: rest) visits) :
    ∃ own later, visits = own ++ later ∧ forest.VisitsExprs [id] own ∧
      forest.VisitsExprs rest later := by
  cases made with
  | cons found parts others =>
      exact ⟨_, _, List.append_cons _ _ _, .cons found parts .nil, others⟩

/-- The visits to statements begin with those to the first of them. -/
theorem VisitsStmts.exists_append
    {id : StmtId}
    {rest : List StmtId}
    {visits : List Visit}
    (made : forest.VisitsStmts (id :: rest) visits) :
    ∃ own later, visits = own ++ later ∧ forest.VisitsStmts [id] own ∧
      forest.VisitsStmts rest later := by
  cases made with
  | cons found values parts others =>
      refine ⟨_, _, ?_, .cons found values parts .nil, others⟩
      simp

end Forest

namespace Lowering

/-- The type of an expression in the table is that of its node. -/
theorem Context.get?_of_typeOf?
    {context : Context}
    {forest : Forest}
    {id : ExprId}
    {type : ValueType}
    (tagged : context.typeOf? (forest.expr id) = some type) :
    context.tags.get? id = some (.value type) := by
  obtain ⟨site, site_eq, typed⟩ := Option.bind_eq_some_iff.1 tagged
  obtain ⟨tag, got, tag_eq⟩ := Option.bind_eq_some_iff.1 typed
  have id_eq : site.id = id := by
    cases found : forest.exprs[id]? with
    | none =>
        rw [Forest.expr, Forest.unfoldExpr, found] at site_eq
        cases site_eq
    | some node =>
        rw [Forest.expr, Forest.unfoldExpr_succ found] at site_eq
        cases form_eq : node.form <;> rw [form_eq] at site_eq <;> cases site_eq <;> rfl
  rw [← id_eq, got]
  cases tag with
  | value found =>
      cases tag_eq
      rfl
  | undeclared => cases tag_eq
  | incalculable => cases tag_eq

/-- The lines that an expression adds to those of the expressions that it names.  A logical operator
adds only lines that direct the flow of control. -/
inductive ExprOwn (context : Context) : ExprForm -> List Item -> Prop where
  | int (value : Int32) : ExprOwn context (.int value) []
  | double (bits : UInt64) : ExprOwn context (.double bits) []
  | bool (value : Bool) : ExprOwn context (.bool value) []
  | name (spelling : String) (target : Register) (type : ValueType) :
      ExprOwn context (.name spelling) [.instr (.load target type spelling)]
  | assign {target : Target} {value : ExprId} {valueType : ValueType} {declaration : Declaration}
      {operand stored : Operand} {coercion : List Item} {registers registers' : Nat}
      (valueTagged : context.tags.get? value = some (.value valueType))
      (found : context.scope.lookup target.name = some declaration)
      (coerced : CoercionCode operand valueType declaration.type registers coercion stored
        registers') :
      ExprOwn context (.assign target value)
        (coercion ++ [.instr (.store declaration.type stored target.name)])
  | unary {op : UnaryOp} {operand : ExprId} {operandType : ValueType} {value result : Operand}
      {applied : List Item} {registers registers' : Nat}
      (operandTagged : context.tags.get? operand = some (.value operandType))
      (unaryCode : UnaryCode op operandType value registers applied result registers') :
      ExprOwn context (.unary op operand) applied
  | binary {op : BinaryOp} {left right : ExprId} {leftType rightType type : ValueType}
      {operation : Operation} {leftValue rightValue leftOperand rightOperand : Operand}
      {leftCoercion rightCoercion : List Item} {registers registers' registers'' : Nat}
      (plain : op.family ≠ .logical)
      (leftTagged : context.tags.get? left = some (.value leftType))
      (rightTagged : context.tags.get? right = some (.value rightType))
      (common : commonType? leftType rightType = some type)
      (leftCoerced : CoercionCode leftValue leftType type registers leftCoercion leftOperand
        registers')
      (rightCoerced : CoercionCode rightValue rightType type registers' rightCoercion rightOperand
        registers'')
      (lowered : operation? op type = some operation)
      (target : Register) :
      ExprOwn context (.binary op left right)
        (leftCoercion ++ rightCoercion ++
          [.instr (.operate target operation leftOperand rightOperand)])
  | logical {op : BinaryOp} (left right : ExprId)
      (logical : op.family = .logical) :
      ExprOwn context (.binary op left right) []

/-- The lines that a statement adds to those of the nodes that it names, apart from those that direct
the flow of control. -/
inductive StmtOwn (context : Context) : StmtForm -> List Item -> Prop where
  | control {form : StmtForm} (quiet : form.communicates = false) : StmtOwn context form []
  | write {value : ExprId} {format : Format} {type : ValueType} {operand : Operand}
      {registers registers' : Nat} {printed : List Item}
      (print : PrintCode operand registers format type printed registers') :
      StmtOwn context (.write value format) printed
  | writeText {number : Nat} {constant : TextConstant}
      (found : context.texts.get? number = some constant) :
      StmtOwn context (.writeText number) [.instr (.printText constant.sizeWithEnd number)]
  | read (target : Target) (format : Format) (template : Template) :
      StmtOwn context (.read target format) [.instr (.scan template target.name)]

/-- What is gathered from each line of code, and what each visit to a node owes to it. -/
structure Survey (α : Type) where
  context : Context
  forest : Forest
  gather : Item -> List α
  due : Visit -> List α

namespace Survey

variable {α : Type} {survey : Survey α} {visits later : List Visit} {code next : List Item}

/-- What is gathered from code. -/
def gathered (survey : Survey α) (code : List Item) : List α :=
  code.flatMap survey.gather

/-- What visits owe. -/
def owed (survey : Survey α) (visits : List Visit) : List α :=
  visits.flatMap survey.due

@[simp] theorem gathered_nil : survey.gathered [] = [] := rfl

@[simp] theorem gathered_append :
    survey.gathered (code ++ next) = survey.gathered code ++ survey.gathered next :=
  List.flatMap_append

@[simp] theorem owed_append :
    survey.owed (visits ++ later) = survey.owed visits ++ survey.owed later :=
  List.flatMap_append

@[simp] theorem owed_singleton (visit : Visit) : survey.owed [visit] = survey.due visit :=
  List.append_nil _

/-- Each node owes what is gathered from the lines that it adds, and nothing is gathered from lines
that only frame them. -/
structure Sound (survey : Survey α) : Prop where
  wellFounded : survey.forest.WellFounded
  framing : ∀ item : Item, item.frames = true -> survey.gather item = []
  expr : ∀ (id : ExprId) (node : ExprNode) (own : List Item),
    survey.forest.exprs[id]? = some node -> ExprOwn survey.context node.form own ->
    survey.gathered own = survey.due (.expr id)
  stmt : ∀ (id : StmtId) (node : StmtNode) (own : List Item),
    survey.forest.stmts[id]? = some node -> StmtOwn survey.context node.form own ->
    survey.gathered own = survey.due (.stmt id)

/-- An expression has its stretch of the code, and up to its end the code yields what is owed by the
visits before it and its own. -/
def Locates (survey : Survey α) (code : List Item) (before : List Visit) (id : ExprId) : Prop :=
  ∃ (front own back : List Item) (operand : Operand) (registers labels registers' labels' : Nat),
    code = front ++ own ++ back ∧
      ExprCode survey.context (survey.forest.expr id) registers labels own operand registers'
        labels' ∧
      survey.gathered (front ++ own) = survey.owed (before ++ [.expr id])

/-- Code yields what visits owe, and every visited expression is located in it. -/
structure Accounts (survey : Survey α) (visits : List Visit) (code : List Item) : Prop where
  balance : survey.gathered code = survey.owed visits
  located : ∀ (before : List Visit) (id : ExprId) (after : List Visit),
    visits = before ++ .expr id :: after -> survey.Locates code before id

theorem Locates.append
    {before : List Visit}
    {id : ExprId}
    (locates : survey.Locates code before id)
    (next : List Item) :
    survey.Locates (code ++ next) before id := by
  obtain ⟨front, own, back, operand, registers, labels, registers', labels', rfl, emitted, even⟩ :=
    locates
  exact ⟨front, own, back ++ next, operand, registers, labels, registers', labels',
    List.append_assoc _ _ _, emitted, even⟩

theorem Locates.prepend
    {before : List Visit}
    {id : ExprId}
    (balance : survey.gathered code = survey.owed visits)
    (locates : survey.Locates next before id) :
    survey.Locates (code ++ next) (visits ++ before) id := by
  obtain ⟨front, own, back, operand, registers, labels, registers', labels', rfl, emitted, even⟩ :=
    locates
  refine ⟨code ++ front, own, back, operand, registers, labels, registers', labels', ?_, emitted, ?_⟩
  · simp only [List.append_assoc]
  · rw [List.append_assoc, gathered_append, even, balance, List.append_assoc, ← owed_append]

/-- Code in which nothing is gathered accounts for no visits. -/
theorem accounts_silent (silent : survey.gathered code = []) : survey.Accounts [] code where
  balance := silent
  located := by
    intro before id after empty
    simp at empty

/-- No code accounts for no visits. -/
theorem accounts_nil : survey.Accounts [] [] :=
  accounts_silent rfl

theorem Accounts.append
    (first : survey.Accounts visits code)
    (second : survey.Accounts later next) :
    survey.Accounts (visits ++ later) (code ++ next) where
  balance := by rw [gathered_append, owed_append, first.balance, second.balance]
  located := by
    intro before id after split
    -- The visit is one of the later ones, or one of the first; a split right between them counts
    -- as one of the later ones with nothing before it.
    rcases List.append_eq_append_iff.1 split with ⟨more, rfl, rest_eq⟩ | ⟨more, rfl, rest_eq⟩
    · exact (second.located more id after rest_eq).prepend first.balance
    · cases more with
      | nil =>
          have located := (second.located [] id after rest_eq.symm).prepend first.balance
          rwa [List.append_nil, List.append_nil] at located
      | cons visit more =>
          obtain ⟨rfl, -⟩ := List.cons.inj rest_eq
          exact (first.located before id more rfl).append next

/-- Lines in front from which nothing is gathered owe nothing. -/
theorem Accounts.behind
    (accounts : survey.Accounts visits code)
    (silent : survey.gathered next = []) :
    survey.Accounts visits (next ++ code) := by
  have whole := (accounts_silent silent).append accounts
  rwa [List.nil_append] at whole

/-- Lines behind from which nothing is gathered owe nothing. -/
theorem Accounts.before
    (accounts : survey.Accounts visits code)
    (silent : survey.gathered next = []) :
    survey.Accounts visits (code ++ next) := by
  have whole := accounts.append (accounts_silent silent)
  rwa [List.append_nil] at whole

/-- The visit to a statement. -/
theorem accounts_visit
    {id : StmtId}
    (own_eq : survey.gathered code = survey.due (.stmt id)) :
    survey.Accounts [.stmt id] code where
  balance := by rw [owed_singleton, own_eq]
  located := by
    intro before id after split
    cases before with
    | nil => cases split
    | cons visit before =>
        have tail_eq := (List.cons.inj split).2
        simp at tail_eq

/-- An expression comes after the expressions that it names, and adds its own lines. -/
theorem Accounts.expr
    {id : ExprId}
    {own whole : List Item}
    {operand : Operand}
    {registers labels registers' labels' : Nat}
    (accounts : survey.Accounts visits code)
    (emitted : ExprCode survey.context (survey.forest.expr id) registers labels whole operand
      registers' labels')
    (own_eq : survey.gathered own = survey.due (.expr id))
    (whole_eq : whole = code ++ own) :
    survey.Accounts (visits ++ [.expr id]) whole := by
  have balance : survey.gathered whole = survey.owed (visits ++ [.expr id]) := by
    rw [whole_eq, gathered_append, owed_append, owed_singleton, accounts.balance, own_eq]
  have self : survey.Locates whole visits id :=
    ⟨[], whole, [], operand, registers, labels, registers', labels', by simp, emitted, balance⟩
  refine ⟨balance, fun before other after split => ?_⟩
  rcases List.append_eq_append_iff.1 split with ⟨more, rfl, rest_eq⟩ | ⟨more, rfl, rest_eq⟩
  · cases more with
    | nil =>
        cases rest_eq
        rwa [List.append_nil]
    | cons visit more =>
        have tail_eq := (List.cons.inj rest_eq).2
        simp at tail_eq
  · cases more with
    | nil =>
        cases rest_eq
        rwa [List.append_nil] at self
    | cons visit more =>
        obtain ⟨rfl, -⟩ := List.cons.inj rest_eq
        rw [whole_eq]
        exact (accounts.located before other more rfl).append own

/-- Nothing is gathered from lines that frame the code of nodes. -/
theorem Sound.gathered_eq_nil
    (sound : survey.Sound)
    (framing : ∀ item ∈ code, item.frames = true) :
    survey.gathered code = [] :=
  List.flatMap_eq_nil_iff.2 fun item listed => sound.framing item (framing item listed)

/-- The lines around the right operand of a logical operator direct the flow of control. -/
theorem Sound.gathered_logical
    (sound : survey.Sound)
    (op : BinaryOp)
    (left right : Operand)
    (registers labels : Nat) :
    survey.gathered (logicalOpening op left labels) = [] ∧
      survey.gathered (logicalClosing op right registers labels) = [] := by
  constructor
  · refine sound.gathered_eq_nil fun item listed => ?_
    simp only [logicalOpening, decision, List.mem_cons, List.not_mem_nil, or_false] at listed
    rcases listed with rfl | rfl | rfl | rfl
    · rfl
    · rfl
    · cases shortValue op <;> rfl
    · rfl
  · refine sound.gathered_eq_nil fun item listed => ?_
    simp only [logicalClosing, List.mem_cons, List.not_mem_nil, or_false] at listed
    rcases listed with rfl | rfl | rfl | rfl | rfl <;> rfl

/-- The code of an expression accounts for the visits to it and to what it is made of. -/
theorem Sound.accounts_expr
    (sound : survey.Sound)
    (id : ExprId)
    {visits : List Visit}
    {code : List Item}
    {operand : Operand}
    {registers labels registers' labels' : Nat}
    (made : survey.forest.VisitsExprs [id] visits)
    (emitted : ExprCode survey.context (survey.forest.expr id) registers labels code operand
      registers' labels') :
    survey.Accounts visits code := by
  induction id using Nat.strongRecOn generalizing visits code operand registers labels registers'
    labels' with
  | ind id inductionHypothesis =>
    cases made with
    | @cons _ node _ inner _ found parts others =>
      cases others
      obtain ⟨line, form⟩ := node
      have smaller := sound.wellFounded.expr_lt id _ found
      have own_eq (own : List Item) (adds : ExprOwn survey.context form own) :=
        sound.expr id _ own found adds
      have whole := emitted
      rw [sound.wellFounded.expr_eq found] at emitted
      cases form with
      | int value =>
          cases parts
          cases emitted
          exact accounts_nil.expr whole (own_eq [] (.int value)) rfl
      | double bits =>
          cases parts
          cases emitted
          exact accounts_nil.expr whole (own_eq [] (.double bits)) rfl
      | bool value =>
          cases parts
          cases emitted
          exact accounts_nil.expr whole (own_eq [] (.bool value)) rfl
      | name spelling =>
          cases parts
          cases emitted
          exact accounts_nil.expr whole (own_eq _ (.name spelling _ _)) rfl
      | unary op child =>
          cases emitted with
          | unary _ _ _ operandTagged operandCode unaryCode =>
              have inside := inductionHypothesis child (smaller child (by simp [ExprForm.children]))
                parts operandCode
              exact inside.expr whole
                (own_eq _ (.unary (Context.get?_of_typeOf? operandTagged) unaryCode)) rfl
      | assign target child =>
          cases emitted with
          | assign _ _ _ valueTagged valueCode declared _ coerced =>
              have inside := inductionHypothesis child (smaller child (by simp [ExprForm.children]))
                parts valueCode
              exact inside.expr whole
                (own_eq _ (.assign (Context.get?_of_typeOf? valueTagged) declared coerced))
                (List.append_assoc _ _ _)
      | binary op left right =>
          obtain ⟨leftVisits, rightVisits, rfl, leftMade, rightMade⟩ := parts.exists_append
          have left_lt := smaller left (by simp [ExprForm.children])
          have right_lt := smaller right (by simp [ExprForm.children])
          cases emitted with
          | binary _ _ plain _ leftTagged rightTagged leftEmitted rightEmitted common leftCoerced
              rightCoerced lowered =>
              have inside := (inductionHypothesis left left_lt leftMade leftEmitted).append
                (inductionHypothesis right right_lt rightMade rightEmitted)
              have adds (target : Register) :=
                ExprOwn.binary plain (Context.get?_of_typeOf? leftTagged)
                  (Context.get?_of_typeOf? rightTagged) common leftCoerced rightCoerced lowered target
              have regrouped (children first second last : List Item) :
                  children ++ first ++ second ++ last = children ++ (first ++ second ++ last) := by
                simp only [List.append_assoc]
              exact inside.expr whole (own_eq _ (adds _)) (regrouped _ _ _ _)
          | @logical _ _ _ _ _ _ _ _ _ leftValue rightValue _ labels₁ registers₂ _ logical _ _ _
              leftEmitted rightEmitted =>
              obtain ⟨opening, closing⟩ :=
                sound.gathered_logical op leftValue rightValue registers₂ labels₁
              have inside := ((inductionHypothesis left left_lt leftMade leftEmitted).before
                opening).append (inductionHypothesis right right_lt rightMade rightEmitted)
              exact (inside.before closing).expr whole (own_eq [] (.logical left right logical))
                (List.append_nil _).symm

/-- The code of statements one after the other accounts for the visits to them, if the code of each
of them does. -/
theorem accounts_sequence
    {ids : List StmtId}
    (each : ∀ id ∈ ids, ∀ (visits : List Visit) (code : List Item)
      (registers labels registers' labels' : Nat),
      survey.forest.VisitsStmts [id] visits ->
      StmtCode survey.context (survey.forest.stmt id) registers labels code registers' labels' ->
      survey.Accounts visits code)
    {visits : List Visit}
    {code : List Item}
    {registers labels registers' labels' : Nat}
    (made : survey.forest.VisitsStmts ids visits)
    (emitted : StmtCode survey.context (survey.forest.sequence ids) registers labels code registers'
      labels') :
    survey.Accounts visits code := by
  induction ids generalizing visits code registers labels registers' labels' with
  | nil =>
      cases made
      cases emitted
      exact accounts_nil
  | cons id rest inductionHypothesis =>
      obtain ⟨own, later, rfl, ownMade, laterMade⟩ := made.exists_append
      cases emitted with
      | seq firstEmitted restEmitted =>
          have first := each id List.mem_cons_self own _ _ _ _ _ ownMade firstEmitted
          have others := inductionHypothesis
            (fun other listed => each other (List.mem_cons_of_mem _ listed)) laterMade restEmitted
          exact first.append others

/-- The code of a statement accounts for the visits to it and to what it is made of. -/
theorem Sound.accounts_stmt
    (sound : survey.Sound)
    (id : StmtId)
    (visits : List Visit)
    (code : List Item)
    (registers labels registers' labels' : Nat)
    (made : survey.forest.VisitsStmts [id] visits)
    (emitted : StmtCode survey.context (survey.forest.stmt id) registers labels code registers'
      labels') :
    survey.Accounts visits code := by
  induction id using Nat.strongRecOn generalizing visits code registers labels registers'
    labels' with
  | ind id inductionHypothesis =>
    cases made with
    | @cons _ node _ before inner _ found values parts others =>
      cases others
      rw [List.append_nil]
      obtain ⟨line, form⟩ := node
      have smaller := sound.wellFounded.stmt_lt id _ found
      have own (own : List Item) (adds : StmtOwn survey.context form own) :
          survey.Accounts [.stmt id] own :=
        accounts_visit (sound.stmt id _ own found adds)
      have passes (target opened : Nat) :
          survey.gathered [.instr (.jump (.numbered target)), .label (.numbered opened)] = [] :=
        sound.gathered_eq_nil (by simp [Item.frames])
      have forks (test : Operand) (yes no : Nat) :
          survey.gathered [.instr (.fork test (.numbered yes) (.numbered no)),
            .label (.numbered yes)] = [] :=
        sound.gathered_eq_nil (by simp [Item.frames])
      rw [sound.wellFounded.stmt_eq found] at emitted
      cases form with
      | block body =>
          cases values
          cases emitted with
          | block _ bodyEmitted =>
              have inside := accounts_sequence (fun child named => inductionHypothesis child
                (smaller child named)) parts bodyEmitted
              exact (own [] (.control rfl)).append inside
      | expr value =>
          cases parts
          cases emitted with
          | expr _ valueEmitted =>
              have inside := sound.accounts_expr value values valueEmitted
              rw [← List.append_nil code]
              exact inside.append (own [] (.control rfl))
      | branch condition yes no? =>
          obtain ⟨yesVisits, noVisits, rfl, yesMade, noMade⟩ := parts.exists_append
          cases emitted with
          | @branch _ _ _ _ _ _ _ labels₁ _ _ _ _ _ _ noCode test testEmitted yesEmitted noEmitted =>
              have tested := sound.accounts_expr condition values testEmitted
              have taken := inductionHypothesis yes (smaller yes (by simp [StmtForm.children])) _ _
                _ _ _ _ yesMade yesEmitted
              have refused : survey.Accounts noVisits noCode := by
                cases no? with
                | none =>
                    cases noMade
                    cases noEmitted
                    exact accounts_nil
                | some no =>
                    exact inductionHypothesis no (smaller no (by simp [StmtForm.children])) _ _ _ _
                      _ _ noMade noEmitted
              have joined := (((tested.before (forks test (labels₁ + 1) (labels₁ + 2))).append
                (own [] (.control rfl))).append (taken.before (passes (labels₁ + 3)
                  (labels₁ + 2)))).append (refused.before (passes (labels₁ + 3) (labels₁ + 3)))
              simpa only [List.append_assoc, List.nil_append, List.cons_append] using joined
      | loop condition body =>
          cases emitted with
          | @loop _ _ _ _ _ _ labels₁ _ _ _ _ test testEmitted bodyEmitted =>
              have tested := sound.accounts_expr condition values testEmitted
              have passed := inductionHypothesis body (smaller body (by simp [StmtForm.children])) _ _
                _ _ _ _ parts bodyEmitted
              have joined := (((tested.behind (passes (labels + 1) (labels + 1))).before
                (forks test (labels₁ + 1) (labels₁ + 2))).append (own [] (.control rfl))).append
                  (passed.before (passes (labels + 1) (labels₁ + 2)))
              simpa only [List.append_assoc, List.nil_append, List.cons_append] using joined
      | write value format =>
          cases parts
          cases emitted with
          | write _ _ valueEmitted print =>
              exact (sound.accounts_expr value values valueEmitted).append (own _ (.write print))
      | writeText number =>
          cases values
          cases parts
          cases emitted with
          | writeText _ _ _ held => exact own _ (.writeText held)
      | read target format =>
          cases values
          cases parts
          cases emitted with
          | read _ _ _ declared scan => exact own _ (.read target format _)
      | leave =>
          cases values
          cases parts
          cases emitted
          exact (own [] (.control rfl)).before (sound.gathered_eq_nil (by simp [Item.frames]))

end Survey

end Lowering

/-- The expression that is visited. -/
def Program.form? (program : Program) : Visit -> Option ExprForm
  | .expr id => program.forest.exprs[id]?.map ExprNode.form
  | .stmt _ => none

/-- The code of a program accounts for the visits to the nodes of its body. -/
theorem Program.accounts_of_generate
    {α : Type}
    {program : Program}
    {tags : TagTable}
    {code : CodeModule}
    {survey : Lowering.Survey α}
    (sound : survey.Sound)
    (context_eq : survey.context = program.context tags)
    (forest_eq : survey.forest = program.forest)
    {visits : List Visit}
    (made : program.forest.VisitsStmts program.body visits)
    (generated : program.generate tags = .ok code) :
    survey.Accounts visits code.items := by
  obtain ⟨body, registers, labels, emitted, items_eq, -⟩ := Program.stmtCode_of_generate generated
  rw [← context_eq, Program.tree, ← forest_eq] at emitted
  rw [← forest_eq] at made
  have inside := Lowering.Survey.accounts_sequence (fun id _ => sound.accounts_stmt id) made emitted
  have opening : survey.gathered (.label .entry :: program.scope.slots) = [] := by
    refine sound.gathered_eq_nil (List.forall_mem_cons.2 ⟨rfl, fun item listed => ?_⟩)
    obtain ⟨declaration, -, rfl⟩ := List.mem_map.1 listed
    rfl
  have closing : survey.gathered [.instr .ret] = [] :=
    sound.gathered_eq_nil (by simp [Item.frames])
  rw [items_eq]
  exact (inside.behind opening).before closing

/-! ## Lines counted by visits -/

/-- Whether a visit is to an expression of a kind. -/
def Program.visitsForm (program : Program) (kind : ExprForm -> Bool) (visit : Visit) : Bool :=
  (program.form? visit).any kind

/-- As many units are gathered as there are members of a kind. -/
theorem flatMap_replicate_toNat
    {β : Type}
    (kind : β -> Bool)
    (members : List β) :
    (members.flatMap fun member => List.replicate (kind member).toNat ()) =
      List.replicate (members.countP kind) () := by
  induction members with
  | nil => rfl
  | cons member members inductionHypothesis =>
      rw [List.flatMap_cons, inductionHypothesis, List.replicate_append_replicate,
        List.countP_cons, Nat.add_comm]
      cases kind member <;> rfl

namespace Lowering

/-- Every expression of a kind adds one line of a sort to the code, and nothing else does. -/
structure AddsOne (context : Context) (sort : Item -> Bool) (kind : ExprForm -> Bool) : Prop where
  framing : ∀ item : Item, item.frames = true -> sort item = false
  expr : ∀ (form : ExprForm) (own : List Item), ExprOwn context form own ->
    own.countP sort = (kind form).toNat
  stmt : ∀ (form : StmtForm) (own : List Item), StmtOwn context form own -> own.countP sort = 0

/-- Lines of a sort, counted in the code and by the visits to expressions of a kind. -/
def counting (program : Program) (tags : TagTable) (sort : Item -> Bool) (kind : ExprForm -> Bool) :
    Survey Unit where
  context := program.context tags
  forest := program.forest
  gather item := List.replicate (sort item).toNat ()
  due visit := List.replicate (program.visitsForm kind visit).toNat ()

section Counting

variable {program : Program} {tags : TagTable} {sort : Item -> Bool} {kind : ExprForm -> Bool}

theorem gathered_counting
    (code : List Item) :
    (counting program tags sort kind).gathered code = List.replicate (code.countP sort) () :=
  flatMap_replicate_toNat sort code

theorem owed_counting
    (visits : List Visit) :
    (counting program tags sort kind).owed visits =
      List.replicate (visits.countP (program.visitsForm kind)) () :=
  flatMap_replicate_toNat _ visits

theorem sound_counting
    (wellFounded : program.forest.WellFounded)
    (adds : AddsOne (program.context tags) sort kind) :
    (counting program tags sort kind).Sound where
  wellFounded := wellFounded
  framing := by
    intro item frames
    change List.replicate (sort item).toNat () = []
    rw [adds.framing item frames]
    rfl
  expr := by
    intro id node own found owns
    rw [gathered_counting, adds.expr node.form own owns]
    change _ = List.replicate (program.visitsForm _ _).toNat ()
    rw [Program.visitsForm, Program.form?, show program.forest.exprs[id]? = some node from found]
    rfl
  stmt := by
    intro id node own found owns
    rw [gathered_counting, adds.stmt node.form own owns]
    rfl

end Counting

end Lowering

namespace Program

open Lowering

section Counts

variable {program : Program} {tags : TagTable} {code : CodeModule} {sort : Item -> Bool}
  {kind : ExprForm -> Bool} {visits : List Visit}
  (wellFounded : program.forest.WellFounded)
  (adds : AddsOne (program.context tags) sort kind)
  (made : program.forest.VisitsStmts program.body visits)
  (generated : program.generate tags = .ok code)
include wellFounded adds made generated

/-- The code has as many lines of the sort as there are visits to expressions of the kind. -/
theorem countP_items : code.items.countP sort = visits.countP (program.visitsForm kind) := by
  have accounts := accounts_of_generate (sound_counting wellFounded adds) rfl rfl made generated
  have balance := congrArg List.length accounts.balance
  rwa [gathered_counting, owed_counting, List.length_replicate, List.length_replicate] at balance

/-- The stretch of a visited expression, up to whose end the code has as many lines of the sort as
there are visits to expressions of the kind up to this one. -/
theorem exists_stretch
    {before after : List Visit}
    {id : ExprId}
    (split : visits = before ++ .expr id :: after) :
    ∃ front own back operand registers labels registers' labels',
      code.items = front ++ own ++ back ∧
      ExprCode (program.context tags) (program.forest.expr id) registers labels own operand
        registers' labels' ∧
      (front ++ own).countP sort =
        (before ++ [Visit.expr id]).countP (program.visitsForm kind) := by
  have accounts := accounts_of_generate (sound_counting wellFounded adds) rfl rfl made generated
  obtain ⟨front, own, back, operand, registers, labels, registers', labels', items_eq, emitted,
    even⟩ := accounts.located before id after split
  have counts := congrArg List.length even
  rw [gathered_counting, owed_counting, List.length_replicate, List.length_replicate] at counts
  exact ⟨front, own, back, operand, registers, labels, registers', labels', items_eq, emitted,
    counts⟩

end Counts

/-- If the last lines of a stretch hold the one line of the sort that the visit adds, those of the
visits before it stand before these lines. -/
theorem countP_before
    {sort : Item -> Bool}
    {test : Visit -> Bool}
    {front inside own : List Item}
    {before : List Visit}
    {visit : Visit}
    (even : (front ++ (inside ++ own)).countP sort = (before ++ [visit]).countP test)
    (one : own.countP sort = 1)
    (tested : test visit = true) :
    (front ++ inside).countP sort = before.countP test := by
  have visited : (before ++ [visit]).countP test = before.countP test + 1 := by
    rw [List.countP_append, List.countP_singleton, if_pos tested]
  rw [← List.append_assoc, List.countP_append, one, visited] at even
  exact Nat.add_right_cancel even

end Program

end MiniLang
