import MiniLang.Proofs.Tree.Reachability
import MiniLang.Proofs.Typing.Checking

/-!
# Offending nodes

Whether a node breaks a typing rule is told by the node, the declared variables and the tags of the
expressions that it names, and no node breaks more than one.  The rules are stated over the three
types; the tables of the checker are shown to find exactly the nodes that break them, also where a
named expression has a stand-in for its tag.
-/

namespace MiniLang

/-- The tag of an expression, by the tags of the expressions that it names.  An operation that is not
allowed gets a stand-in; an assignment has the tag of its target, whatever is assigned. -/
inductive ExprForm.HasTag (scope : Scope) (tags : TagTable) : ExprForm -> Tag -> Prop where
  | int (value : Int32) : HasTag scope tags (.int value) (.value .int)
  | double (bits : UInt64) : HasTag scope tags (.double bits) (.value .double)
  | bool (value : Bool) : HasTag scope tags (.bool value) (.value .bool)
  | name {spelling : String} {declaration : Declaration}
      (found : scope.lookup spelling = some declaration) :
      HasTag scope tags (.name spelling) (.value declaration.type)
  | undeclared {spelling : String}
      (missing : scope.lookup spelling = none) :
      HasTag scope tags (.name spelling) .undeclared
  | unary {op : UnaryOp} {operand : ExprId} {type result : ValueType}
      (tagged : tags.get? operand = some (.value type))
      (turns : op.Turns type result) :
      HasTag scope tags (.unary op operand) (.value result)
  | unaryStandIn {op : UnaryOp} {operand : ExprId} {tag : Tag}
      (tagged : tags.get? operand = some tag)
      (illegal : ∀ type result, tag = .value type -> ¬op.Turns type result) :
      HasTag scope tags (.unary op operand) (Tag.unaryStandIn op)
  | binary {op : BinaryOp} {left right : ExprId} {leftType rightType result : ValueType}
      (leftTagged : tags.get? left = some (.value leftType))
      (rightTagged : tags.get? right = some (.value rightType))
      (combines : op.Combines leftType rightType result) :
      HasTag scope tags (.binary op left right) (.value result)
  | binaryStandIn {op : BinaryOp} {left right : ExprId} {leftTag rightTag : Tag}
      (leftTagged : tags.get? left = some leftTag)
      (rightTagged : tags.get? right = some rightTag)
      (illegal : ∀ leftType rightType result, leftTag = .value leftType ->
        rightTag = .value rightType -> ¬op.Combines leftType rightType result) :
      HasTag scope tags (.binary op left right) (Tag.binaryStandIn op)
  | assign {target : Target} {value : ExprId} {declaration : Declaration}
      (found : scope.lookup target.name = some declaration) :
      HasTag scope tags (.assign target value) (.value declaration.type)
  | assignUndeclared {target : Target} {value : ExprId}
      (missing : scope.lookup target.name = none) :
      HasTag scope tags (.assign target value) .undeclared

/-- The rule that an expression on a line breaks, by the tags of the expressions that it names. -/
inductive ExprForm.Offends (scope : Scope) (tags : TagTable) (line : Line) :
    ExprForm -> Line × TypeError -> Prop where
  | name {spelling : String}
      (missing : scope.lookup spelling = none) :
      Offends scope tags line (.name spelling) (line, .undeclared spelling)
  | unary {op : UnaryOp} {operand : ExprId} {tag : Tag}
      (tagged : tags.get? operand = some tag)
      (illegal : ∀ type result, tag = .value type -> ¬op.Turns type result) :
      Offends scope tags line (.unary op operand) (line, .unary op.sign tag)
  | binary {op : BinaryOp} {left right : ExprId} {leftTag rightTag : Tag}
      (leftTagged : tags.get? left = some leftTag)
      (rightTagged : tags.get? right = some rightTag)
      (illegal : ∀ leftType rightType result, leftTag = .value leftType ->
        rightTag = .value rightType -> ¬op.Combines leftType rightType result) :
      Offends scope tags line (.binary op left right) (line, .binary op.sign leftTag rightTag)
  | target {target : Target} {value : ExprId}
      (missing : scope.lookup target.name = none) :
      Offends scope tags line (.assign target value) (target.line, .undeclared target.name)
  | assign {target : Target} {value : ExprId} {declaration : Declaration} {tag : Tag}
      (found : scope.lookup target.name = some declaration)
      (tagged : tags.get? value = some tag)
      (illegal : ∀ type, tag = .value type -> ¬declaration.type.Takes type) :
      Offends scope tags line (.assign target value)
        (line, .assignment target.name (.value declaration.type) tag)

/-- The construct whose condition a statement tests, with that condition. -/
def StmtForm.test? : StmtForm -> Option (Construct × ExprId)
  | .branch condition _ _ => some (.branch, condition)
  | .loop condition _ => some (.loop, condition)
  | _ => none

/-- The rule that a statement on a line breaks, by the tags of the expressions that it names. -/
inductive StmtForm.Offends (scope : Scope) (tags : TagTable) (line : Line) :
    StmtForm -> Line × TypeError -> Prop where
  | condition {form : StmtForm} {construct : Construct} {test : ExprId} {tag : Tag}
      (tests : form.test? = some (construct, test))
      (tagged : tags.get? test = some tag)
      (illegal : tag ≠ .value .bool) :
      Offends scope tags line form (line, .condition construct.keyword.spelling tag)
  | write {value : ExprId} {tag : Tag}
      (tagged : tags.get? value = some tag)
      (illegal : ∀ type, tag ≠ .value type) :
      Offends scope tags line (.write value .plain) (line, .write tag)
  | hexWrite {value : ExprId} {tag : Tag}
      (tagged : tags.get? value = some tag)
      (illegal : tag ≠ .value .int) :
      Offends scope tags line (.write value .hex) (line, .hexWrite tag)
  | target {target : Target} {format : Format}
      (missing : scope.lookup target.name = none) :
      Offends scope tags line (.read target format) (target.line, .undeclared target.name)
  | read {target : Target} {declaration : Declaration}
      (found : scope.lookup target.name = some declaration)
      (illegal : declaration.type = .bool) :
      Offends scope tags line (.read target .plain)
        (target.line, .read target.name (.value declaration.type))
  | hexRead {target : Target} {declaration : Declaration}
      (found : scope.lookup target.name = some declaration)
      (illegal : declaration.type ≠ .int) :
      Offends scope tags line (.read target .hex)
        (target.line, .hexRead target.name (.value declaration.type))

variable {scope : Scope} {tags : TagTable}

theorem Scope.tagOf_of_lookup_eq_none
    {name : String}
    (missing : scope.lookup name = none) :
    scope.tagOf name = .undeclared := by
  simp [Scope.tagOf, missing]

theorem Scope.lookup_eq_none_of_tagOf
    {name : String}
    (undeclared : scope.tagOf name = .undeclared) :
    scope.lookup name = none := by
  unfold Scope.tagOf at undeclared
  split at undeclared
  · cases undeclared
  · assumption

theorem Scope.tagOf_of_lookup_eq_some
    {name : String}
    {declaration : Declaration}
    (found : scope.lookup name = some declaration) :
    scope.tagOf name = .value declaration.type := by
  simp [Scope.tagOf, found]

/-- A prefix operation has a tag exactly if a rule turns the type of its operand. -/
theorem Tag.unary?_eq_some_iff
    {op : UnaryOp}
    {operand tag : Tag} :
    Tag.unary? op operand = some tag ↔
      ∃ type result, operand = .value type ∧ op.Turns type result ∧ .value result = tag := by
  cases operand with
  | value type => simp [Tag.unary?, Tag.type?, Option.bind_eq_some_iff, UnaryOp.result?_eq_some_iff]
  | _ => simp [Tag.unary?, Tag.type?]

/-- An infix operation has a tag exactly if a rule combines the types of its operands. -/
theorem Tag.binary?_eq_some_iff
    {op : BinaryOp}
    {left right tag : Tag} :
    Tag.binary? op left right = some tag ↔
      ∃ leftType rightType result, left = .value leftType ∧ right = .value rightType ∧
        op.Combines leftType rightType result ∧ .value result = tag := by
  cases left with
  | value leftType =>
      cases right with
      | value rightType =>
          simp [Tag.binary?, Tag.type?, Option.bind_eq_some_iff, BinaryOp.result?_eq_some_iff]
      | _ => simp [Tag.binary?, Tag.type?]
  | _ => simp [Tag.binary?, Tag.type?]

/-- A variable refuses a value exactly if its type takes no type that the value has. -/
theorem Tag.accepts_eq_false_iff
    {declared : ValueType}
    {value : Tag} :
    Tag.accepts (.value declared) value = false ↔
      ∀ type, value = .value type -> ¬declared.Takes type := by
  cases value with
  | value type => simp [Tag.accepts, ← ValueType.accepts_iff]
  | _ => simp [Tag.accepts]

/-- A prefix operation has no tag exactly if no rule turns the type of its operand. -/
theorem Tag.unary?_eq_none_iff
    {op : UnaryOp}
    {operand : Tag} :
    Tag.unary? op operand = none ↔
      ∀ type result, operand = .value type -> ¬op.Turns type result := by
  rw [Option.eq_none_iff_forall_ne_some]
  constructor
  · intro untagged type result operand_eq turns
    exact untagged _ (Tag.unary?_eq_some_iff.2 ⟨type, result, operand_eq, turns, rfl⟩)
  · intro illegal tag tagged
    obtain ⟨type, result, operand_eq, turns, -⟩ := Tag.unary?_eq_some_iff.1 tagged
    exact illegal type result operand_eq turns

/-- An infix operation has no tag exactly if no rule combines the types of its operands. -/
theorem Tag.binary?_eq_none_iff
    {op : BinaryOp}
    {left right : Tag} :
    Tag.binary? op left right = none ↔
      ∀ leftType rightType result, left = .value leftType -> right = .value rightType ->
        ¬op.Combines leftType rightType result := by
  rw [Option.eq_none_iff_forall_ne_some]
  constructor
  · intro untagged leftType rightType result left_eq right_eq combines
    exact untagged _ (Tag.binary?_eq_some_iff.2
      ⟨leftType, rightType, result, left_eq, right_eq, combines, rfl⟩)
  · intro illegal tag tagged
    obtain ⟨leftType, rightType, result, left_eq, right_eq, combines, -⟩ :=
      Tag.binary?_eq_some_iff.1 tagged
    exact illegal leftType rightType result left_eq right_eq combines

/-- What is noted under a test is the one rule that is broken, if the rule is broken exactly where the
test succeeds. -/
theorem exists_own_of_test
    {offends : Line × TypeError -> Prop}
    {test : Prop}
    [Decidable test]
    {noted : Line × TypeError}
    (offends_iff : ∀ offence, offends offence ↔ test ∧ offence = noted) :
    ∃ own : Option (Line × TypeError), (if test then [noted] else []) = own.toList ∧
      ∀ offence, offends offence ↔ own = some offence := by
  by_cases holds : test
  · refine ⟨some noted, by simp [holds], fun offence => ?_⟩
    simp [offends_iff, holds, eq_comm]
  · refine ⟨none, by simp [holds], fun offence => ?_⟩
    simp [offends_iff, holds]

namespace ExprForm

variable {trees : ExprId -> Expr} {form : ExprForm}

/-- The tag of an expression is the one that the tags of the named expressions give. -/
theorem hasTag_tree
    (tagged : ∀ child ∈ form.children, tags.get? child = some ((trees child).tag scope))
    (site : Site) :
    form.HasTag scope tags ((form.tree trees site).tag scope) := by
  cases form with
  | int value => exact .int value
  | double bits => exact .double bits
  | bool value => exact .bool value
  | name spelling =>
      rw [ExprForm.tree, Expr.tag]
      cases declared : scope.lookup spelling with
      | none => exact Scope.tagOf_of_lookup_eq_none declared ▸ .undeclared declared
      | some declaration => exact Scope.tagOf_of_lookup_eq_some declared ▸ .name declared
  | unary op operand =>
      have operandTagged := tagged operand (by simp [children])
      rw [ExprForm.tree, Expr.tag]
      cases result : Tag.unary? op ((trees operand).tag scope) with
      | none => exact .unaryStandIn operandTagged (Tag.unary?_eq_none_iff.1 result)
      | some tag =>
          obtain ⟨type, resultType, operand_eq, turns, rfl⟩ := Tag.unary?_eq_some_iff.1 result
          exact .unary (operand_eq ▸ operandTagged) turns
  | binary op left right =>
      have leftTagged := tagged left (by simp [children])
      have rightTagged := tagged right (by simp [children])
      rw [ExprForm.tree, Expr.tag]
      cases result : Tag.binary? op ((trees left).tag scope) ((trees right).tag scope) with
      | none =>
          exact .binaryStandIn leftTagged rightTagged (Tag.binary?_eq_none_iff.1 result)
      | some tag =>
          obtain ⟨leftType, rightType, resultType, left_eq, right_eq, combines, rfl⟩ :=
            Tag.binary?_eq_some_iff.1 result
          exact .binary (left_eq ▸ leftTagged) (right_eq ▸ rightTagged) combines
  | assign target value =>
      rw [ExprForm.tree, Expr.tag]
      cases declared : scope.lookup target.name with
      | none => exact Scope.tagOf_of_lookup_eq_none declared ▸ .assignUndeclared declared
      | some declaration => exact Scope.tagOf_of_lookup_eq_some declared ▸ .assign declared

/-- A prefix operation offends exactly if it has no tag. -/
theorem offends_unary_iff
    {op : UnaryOp}
    {operand : ExprId}
    {tag : Tag}
    (tagged : tags.get? operand = some tag)
    (line : Line)
    (offence : Line × TypeError) :
    (ExprForm.unary op operand).Offends scope tags line offence ↔
      Tag.unary? op tag = none ∧ offence = (line, .unary op.sign tag) := by
  rw [Tag.unary?_eq_none_iff]
  constructor
  · intro offends
    cases offends with
    | unary otherTagged illegal =>
        obtain rfl := Option.some.inj (otherTagged.symm.trans tagged)
        exact ⟨illegal, rfl⟩
  · rintro ⟨illegal, rfl⟩
    exact .unary tagged illegal

/-- An infix operation offends exactly if it has no tag. -/
theorem offends_binary_iff
    {op : BinaryOp}
    {left right : ExprId}
    {leftTag rightTag : Tag}
    (leftTagged : tags.get? left = some leftTag)
    (rightTagged : tags.get? right = some rightTag)
    (line : Line)
    (offence : Line × TypeError) :
    (ExprForm.binary op left right).Offends scope tags line offence ↔
      Tag.binary? op leftTag rightTag = none ∧
        offence = (line, .binary op.sign leftTag rightTag) := by
  rw [Tag.binary?_eq_none_iff]
  constructor
  · intro offends
    cases offends with
    | binary otherLeft otherRight illegal =>
        obtain rfl := Option.some.inj (otherLeft.symm.trans leftTagged)
        obtain rfl := Option.some.inj (otherRight.symm.trans rightTagged)
        exact ⟨illegal, rfl⟩
  · rintro ⟨illegal, rfl⟩
    exact .binary leftTagged rightTagged illegal

/-- An assignment to a declared variable offends exactly if the variable refuses the value. -/
theorem offends_assign_iff
    {target : Target}
    {value : ExprId}
    {declaration : Declaration}
    {tag : Tag}
    (found : scope.lookup target.name = some declaration)
    (tagged : tags.get? value = some tag)
    (line : Line)
    (offence : Line × TypeError) :
    (ExprForm.assign target value).Offends scope tags line offence ↔
      Tag.accepts (.value declaration.type) tag = false ∧
        offence = (line, .assignment target.name (.value declaration.type) tag) := by
  rw [Tag.accepts_eq_false_iff]
  constructor
  · intro offends
    cases offends with
    | target missing =>
        rw [found] at missing
        cases missing
    | assign otherFound otherTagged illegal =>
        obtain rfl := Option.some.inj (otherFound.symm.trans found)
        obtain rfl := Option.some.inj (otherTagged.symm.trans tagged)
        exact ⟨illegal, rfl⟩
  · rintro ⟨illegal, rfl⟩
    exact .assign found tagged illegal

/-- The breaches in an expression are those in the named expressions and then the rule that it
breaks itself, if there is one. -/
theorem exists_offence
    (tagged : ∀ child ∈ form.children, tags.get? child = some ((trees child).tag scope))
    (site : Site) :
    ∃ own : Option (Line × TypeError),
      (form.tree trees site).breaches scope =
        form.children.flatMap (fun child => (trees child).breaches scope) ++ own.toList ∧
      ∀ offence, form.Offends scope tags site.line offence ↔ own = some offence := by
  cases form with
  | int value => exact ⟨none, rfl, fun offence => ⟨by rintro ⟨⟩, by rintro ⟨⟩⟩⟩
  | double bits => exact ⟨none, rfl, fun offence => ⟨by rintro ⟨⟩, by rintro ⟨⟩⟩⟩
  | bool value => exact ⟨none, rfl, fun offence => ⟨by rintro ⟨⟩, by rintro ⟨⟩⟩⟩
  | name spelling =>
      refine exists_own_of_test fun offence => ⟨?_, ?_⟩
      · rintro ⟨missing⟩
        exact ⟨Scope.tagOf_of_lookup_eq_none missing, rfl⟩
      · rintro ⟨undeclared, rfl⟩
        exact .name (Scope.lookup_eq_none_of_tagOf undeclared)
  | unary op operand =>
      have operandTagged := tagged operand (by simp [children])
      obtain ⟨own, own_eq, own_iff⟩ := exists_own_of_test (offends_unary_iff operandTagged site.line)
      refine ⟨own, ?_, own_iff⟩
      rw [← own_eq]
      simp [ExprForm.tree, children, Expr.breaches]
  | binary op left right =>
      have leftTagged := tagged left (by simp [children])
      have rightTagged := tagged right (by simp [children])
      obtain ⟨own, own_eq, own_iff⟩ :=
        exists_own_of_test (offends_binary_iff leftTagged rightTagged site.line)
      refine ⟨own, ?_, own_iff⟩
      rw [← own_eq]
      simp [ExprForm.tree, children, Expr.breaches]
  | assign target value =>
      cases declared : scope.lookup target.name with
      | none =>
          have undeclared := Scope.tagOf_of_lookup_eq_none declared
          refine ⟨some (target.line, .undeclared target.name), ?_, fun offence => ⟨?_, ?_⟩⟩
          · simp [ExprForm.tree, children, Expr.breaches, Scope.useBreaches, undeclared]
          · intro offends
            cases offends with
            | target missing => rfl
            | assign found otherTagged illegal =>
                rw [declared] at found
                cases found
          · rintro ⟨⟩
            exact .target declared
      | some declaration =>
          have tag_eq := Scope.tagOf_of_lookup_eq_some declared
          have valueTagged := tagged value (by simp [children])
          obtain ⟨own, own_eq, own_iff⟩ :=
            exists_own_of_test (offends_assign_iff declared valueTagged site.line)
          refine ⟨own, ?_, own_iff⟩
          rw [← own_eq]
          simp [ExprForm.tree, children, Expr.breaches, Scope.useBreaches, tag_eq]

end ExprForm

/-- The breaches in a sequence are those in its statements, one after the other. -/
theorem Stmt.breaches_ofList (statements : List Stmt) :
    (Stmt.ofList statements).breaches scope =
      statements.flatMap fun statement => statement.breaches scope := by
  induction statements with
  | nil => rfl
  | cons first rest inductionHypothesis =>
      rw [List.flatMap_cons, ← inductionHypothesis]
      rfl

namespace StmtForm

variable {values : ExprId -> Expr} {form : StmtForm}

/-- A statement with a condition offends exactly if the condition is no truth value. -/
theorem offends_test_iff
    (form : StmtForm)
    {construct : Construct}
    {test : ExprId}
    {tag : Tag}
    (tests : form.test? = some (construct, test))
    (tagged : tags.get? test = some tag)
    (line : Line)
    (offence : Line × TypeError) :
    form.Offends scope tags line offence ↔
      tag ≠ .value .bool ∧ offence = (line, .condition construct.keyword.spelling tag) := by
  constructor
  · intro offends
    cases offends with
    | condition otherTests otherTagged illegal =>
        obtain ⟨rfl, rfl⟩ := Prod.mk.inj (Option.some.inj (otherTests.symm.trans tests))
        obtain rfl := Option.some.inj (otherTagged.symm.trans tagged)
        exact ⟨illegal, rfl⟩
    | _ => cases tests
  · rintro ⟨illegal, rfl⟩
    exact .condition tests tagged illegal

/-- A write offends exactly if the format cannot write the value. -/
theorem offends_write_iff
    {value : ExprId}
    {format : Format}
    {tag : Tag}
    (tagged : tags.get? value = some tag)
    (line : Line)
    (offence : Line × TypeError) :
    (StmtForm.write value format).Offends scope tags line offence ↔
      tag.type?.any format.canWrite = false ∧
        offence = (line, Checking.writeError format tag) := by
  constructor
  · intro offends
    cases offends with
    | condition tests => cases tests
    | write otherTagged illegal =>
        obtain rfl := Option.some.inj (tagged.symm.trans otherTagged)
        refine ⟨?_, rfl⟩
        cases tag with
        | value type => exact absurd rfl (illegal type)
        | _ => rfl
    | hexWrite otherTagged illegal =>
        obtain rfl := Option.some.inj (tagged.symm.trans otherTagged)
        refine ⟨?_, rfl⟩
        cases tag with
        | value type => simpa [Tag.type?, Format.canWrite] using illegal
        | _ => rfl
  · rintro ⟨refused, rfl⟩
    cases format with
    | plain =>
        refine .write tagged ?_
        rintro type rfl
        simp [Tag.type?, Format.canWrite] at refused
    | hex =>
        refine .hexWrite tagged ?_
        rintro rfl
        simp [Tag.type?, Format.canWrite] at refused

/-- A read into a declared variable offends exactly if the format cannot read its type. -/
theorem offends_read_iff
    {target : Target}
    {format : Format}
    {declaration : Declaration}
    (found : scope.lookup target.name = some declaration)
    (line : Line)
    (offence : Line × TypeError) :
    (StmtForm.read target format).Offends scope tags line offence ↔
      format.canRead declaration.type = false ∧
        offence = (target.line,
          Checking.readError format target.name (.value declaration.type)) := by
  constructor
  · intro offends
    cases offends with
    | condition tests => cases tests
    | target missing =>
        rw [found] at missing
        cases missing
    | read otherFound illegal =>
        obtain rfl := Option.some.inj (otherFound.symm.trans found)
        exact ⟨by simp [Format.canRead, illegal, ValueType.isNumeric], rfl⟩
    | hexRead otherFound illegal =>
        obtain rfl := Option.some.inj (otherFound.symm.trans found)
        exact ⟨by simpa [Format.canRead] using illegal, rfl⟩
  · rintro ⟨refused, rfl⟩
    cases format with
    | plain =>
        refine .read found ?_
        cases type_eq : declaration.type <;>
          simp [type_eq, Format.canRead, ValueType.isNumeric] at refused ⊢
    | hex => exact .hexRead found (by simpa [Format.canRead] using refused)

/-- The breaches in a statement are those in its expressions, then the rule that it breaks itself, if
there is one, and then those in its statements. -/
theorem exists_offence
    (tagged : ∀ value ∈ form.values, tags.get? value = some ((values value).tag scope))
    (trees : StmtId -> Stmt)
    (line : Line) :
    ∃ own : Option (Line × TypeError),
      (form.tree values trees line).breaches scope =
        form.values.flatMap (fun value => (values value).breaches scope) ++ own.toList ++
          form.children.flatMap (fun child => (trees child).breaches scope) ∧
      ∀ offence, form.Offends scope tags line offence ↔ own = some offence := by
  cases form with
  | block body =>
      refine ⟨none, ?_, fun offence => ⟨?_, by rintro ⟨⟩⟩⟩
      · simp [StmtForm.tree, Stmt.breaches, Stmt.breaches_ofList, StmtForm.values, children,
          List.flatMap_map]
      · rintro ⟨⟨⟩⟩
  | expr value =>
      refine ⟨none, ?_, fun offence => ⟨?_, by rintro ⟨⟩⟩⟩
      · simp [StmtForm.tree, Stmt.breaches, StmtForm.values, children]
      · rintro ⟨⟨⟩⟩
  | branch condition yes no? =>
      have conditionTagged := tagged condition (by simp [StmtForm.values])
      obtain ⟨own, own_eq, own_iff⟩ :=
        exists_own_of_test (offends_test_iff (.branch condition yes no?) rfl conditionTagged line)
      refine ⟨own, ?_, own_iff⟩
      rw [← own_eq]
      cases no? <;>
        simp [StmtForm.tree, Stmt.breaches, StmtForm.values, children,
          Construct.conditionBreaches]
  | loop condition body =>
      have conditionTagged := tagged condition (by simp [StmtForm.values])
      obtain ⟨own, own_eq, own_iff⟩ :=
        exists_own_of_test (offends_test_iff (.loop condition body) rfl conditionTagged line)
      refine ⟨own, ?_, own_iff⟩
      rw [← own_eq]
      simp [StmtForm.tree, Stmt.breaches, StmtForm.values, children, Construct.conditionBreaches]
  | write value format =>
      have valueTagged := tagged value (by simp [StmtForm.values])
      obtain ⟨own, own_eq, own_iff⟩ := exists_own_of_test (offends_write_iff valueTagged line)
      refine ⟨own, ?_, own_iff⟩
      rw [← own_eq]
      simp [StmtForm.tree, Stmt.breaches, StmtForm.values, children]
  | writeText number =>
      refine ⟨none, ?_, fun offence => ⟨?_, by rintro ⟨⟩⟩⟩
      · simp [StmtForm.tree, Stmt.breaches, StmtForm.values, children]
      · rintro ⟨⟨⟩⟩
  | read target format =>
      cases declared : scope.lookup target.name with
      | none =>
          have undeclared := Scope.tagOf_of_lookup_eq_none declared
          refine ⟨some (target.line, .undeclared target.name), ?_, fun offence => ⟨?_, ?_⟩⟩
          · simp [StmtForm.tree, Stmt.breaches, StmtForm.values, children, Scope.useBreaches,
              undeclared]
          · intro offends
            cases offends with
            | condition tests => cases tests
            | target missing => rfl
            | read found illegal =>
                rw [declared] at found
                cases found
            | hexRead found illegal =>
                rw [declared] at found
                cases found
          · rintro ⟨⟩
            exact .target declared
      | some declaration =>
          have tag_eq := Scope.tagOf_of_lookup_eq_some declared
          obtain ⟨own, own_eq, own_iff⟩ := exists_own_of_test (offends_read_iff declared line)
          refine ⟨own, ?_, own_iff⟩
          rw [← own_eq]
          simp [StmtForm.tree, Stmt.breaches, StmtForm.values, children, Scope.useBreaches, tag_eq,
            Tag.type?]
  | leave =>
      refine ⟨none, ?_, fun offence => ⟨?_, by rintro ⟨⟩⟩⟩
      · simp [StmtForm.tree, Stmt.breaches, StmtForm.values, children]
      · rintro ⟨⟨⟩⟩

end StmtForm

end MiniLang
