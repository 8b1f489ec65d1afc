import MiniLang.Tree.Unfold
import MiniLang.Typing.Rules

/-!
# The typing judgement

What it means for an expression to have a type and for a statement to be well typed, as rules over
the three types alone.  The rules name no stand-ins; the tables of the checker are shown to decide
exactly the rules for the operators, for assignment and for moving values in and out.
-/

namespace MiniLang

/-- The types that an infix operator combines, and the type that comes of it. -/
inductive BinaryOp.Combines : BinaryOp -> ValueType -> ValueType -> ValueType -> Prop where
  | logical {op : BinaryOp} (family : op.family = .logical) :
      Combines op .bool .bool .bool
  | equalityOfBools {op : BinaryOp} (family : op.family = .equality) :
      Combines op .bool .bool .bool
  | equalityOfNumbers {op : BinaryOp} {left right : ValueType} (family : op.family = .equality)
      (leftNumeric : left.isNumeric) (rightNumeric : right.isNumeric) :
      Combines op left right .bool
  | relational {op : BinaryOp} {left right : ValueType} (family : op.family = .relational)
      (leftNumeric : left.isNumeric) (rightNumeric : right.isNumeric) :
      Combines op left right .bool
  | arithmeticOfInts {op : BinaryOp} (family : op.family = .arithmetic) :
      Combines op .int .int .int
  | arithmeticOfReals {op : BinaryOp} {left right : ValueType} (family : op.family = .arithmetic)
      (leftNumeric : left.isNumeric) (rightNumeric : right.isNumeric)
      (mixed : left = .double ∨ right = .double) :
      Combines op left right .double
  | bitwise {op : BinaryOp} (family : op.family = .bitwise) :
      Combines op .int .int .int

/-- The types that a prefix operator takes, and the type that comes of it. -/
inductive UnaryOp.Turns : UnaryOp -> ValueType -> ValueType -> Prop where
  | negInt : Turns .neg .int .int
  | negDouble : Turns .neg .double .double
  | bitNot : Turns .bitNot .int .int
  | not : Turns .not .bool .bool
  | toInt (type : ValueType) : Turns .toInt type .int
  | toDouble {type : ValueType} (numeric : type.isNumeric) : Turns .toDouble type .double

/-- A variable takes values of its own type, and one of reals takes integers. -/
inductive ValueType.Takes : ValueType -> ValueType -> Prop where
  | same (type : ValueType) : Takes type type
  | widened : Takes .double .int

/-- The types of values that can be written in a format. -/
inductive Format.Writes : Format -> ValueType -> Prop where
  | plain (type : ValueType) : Writes .plain type
  | hex : Writes .hex .int

/-- The types of variables that can be read in a format. -/
inductive Format.Reads : Format -> ValueType -> Prop where
  | plain {type : ValueType} (numeric : type.isNumeric) : Reads .plain type
  | hex : Reads .hex .int

/-- The table of an infix operator decides which types it combines. -/
theorem BinaryOp.result?_eq_some_iff
    {op : BinaryOp}
    {left right result : ValueType} :
    op.result? left right = some result ↔ op.Combines left right result := by
  constructor
  · intro allowed
    cases family : op.family with
    | logical =>
        cases left <;> cases right <;> simp [BinaryOp.result?, family] at allowed
        subst allowed
        exact .logical family
    | equality =>
        cases left <;> cases right <;>
          simp [BinaryOp.result?, family, ValueType.isNumeric] at allowed <;> subst allowed
        · exact .equalityOfNumbers family rfl rfl
        · exact .equalityOfNumbers family rfl rfl
        · exact .equalityOfNumbers family rfl rfl
        · exact .equalityOfNumbers family rfl rfl
        · exact .equalityOfBools family
    | relational =>
        cases left <;> cases right <;>
          simp [BinaryOp.result?, family, ValueType.isNumeric] at allowed <;> subst allowed
        all_goals exact .relational family rfl rfl
    | arithmetic =>
        cases left <;> cases right <;>
          simp [BinaryOp.result?, family, ValueType.isNumeric] at allowed <;> subst allowed
        · exact .arithmeticOfInts family
        · exact .arithmeticOfReals family rfl rfl (.inr rfl)
        · exact .arithmeticOfReals family rfl rfl (.inl rfl)
        · exact .arithmeticOfReals family rfl rfl (.inl rfl)
    | bitwise =>
        cases left <;> cases right <;> simp [BinaryOp.result?, family] at allowed
        subst allowed
        exact .bitwise family
  · intro combines
    cases combines with
    | logical family => simp [BinaryOp.result?, family]
    | equalityOfBools family => simp [BinaryOp.result?, family]
    | equalityOfNumbers family leftNumeric rightNumeric =>
        cases left <;> cases right <;>
          simp_all [BinaryOp.result?, ValueType.isNumeric]
    | relational family leftNumeric rightNumeric =>
        cases left <;> cases right <;>
          simp_all [BinaryOp.result?, ValueType.isNumeric]
    | arithmeticOfInts family => simp [BinaryOp.result?, family]
    | arithmeticOfReals family leftNumeric rightNumeric mixed =>
        cases left <;> cases right <;>
          simp_all [BinaryOp.result?, ValueType.isNumeric]
    | bitwise family => simp [BinaryOp.result?, family]

/-- The table of a prefix operator decides which types it takes. -/
theorem UnaryOp.result?_eq_some_iff
    {op : UnaryOp}
    {type result : ValueType} :
    op.result? type = some result ↔ op.Turns type result := by
  constructor
  · intro allowed
    cases op <;> cases type <;> simp [UnaryOp.result?] at allowed <;> subst allowed <;>
      constructor <;> rfl
  · intro turns
    cases turns with
    | toDouble numeric => cases type <;> simp_all [UnaryOp.result?, ValueType.isNumeric]
    | _ => rfl

/-- The table of assignments decides which values a variable takes. -/
theorem ValueType.accepts_iff
    {target value : ValueType} :
    target.accepts value = true ↔ target.Takes value := by
  constructor
  · intro accepted
    cases target <;> cases value <;> simp [ValueType.accepts] at accepted <;> constructor
  · intro takes
    cases takes with
    | same => cases target <;> rfl
    | widened => rfl

/-- The table of formats decides which values can be written. -/
theorem Format.canWrite_iff
    {format : Format}
    {type : ValueType} :
    format.canWrite type = true ↔ format.Writes type := by
  constructor
  · intro allowed
    cases format <;> cases type <;> simp [Format.canWrite] at allowed ⊢ <;> constructor
  · intro writes
    cases writes <;> rfl

/-- The table of formats decides which variables can be read. -/
theorem Format.canRead_iff
    {format : Format}
    {type : ValueType} :
    format.canRead type = true ↔ format.Reads type := by
  constructor
  · intro allowed
    cases format with
    | plain => exact .plain allowed
    | hex =>
        simp only [Format.canRead, decide_eq_true_eq] at allowed
        subst allowed
        exact .hex
  · intro reads
    cases reads with
    | plain numeric => exact numeric
    | hex => rfl

/-- An expression has a type over the declared variables. -/
inductive Expr.HasType (scope : Scope) : Expr -> ValueType -> Prop where
  | int (site : Site) (value : Int32) : HasType scope (.int site value) .int
  | double (site : Site) (bits : UInt64) : HasType scope (.double site bits) .double
  | bool (site : Site) (value : Bool) : HasType scope (.bool site value) .bool
  | name (site : Site) {spelling : String} {declaration : Declaration}
      (found : scope.lookup spelling = some declaration) :
      HasType scope (.name site spelling) declaration.type
  | unary (site : Site) {op : UnaryOp} {operand : Unit -> Expr} {type result : ValueType}
      (operandTyped : HasType scope (operand ()) type)
      (turns : op.Turns type result) :
      HasType scope (.unary site op operand) result
  | binary (site : Site) {op : BinaryOp} {left right : Unit -> Expr}
      {leftType rightType result : ValueType}
      (leftTyped : HasType scope (left ()) leftType)
      (rightTyped : HasType scope (right ()) rightType)
      (combines : op.Combines leftType rightType result) :
      HasType scope (.binary site op left right) result
  | assign (site : Site) {target : Target} {value : Unit -> Expr} {valueType : ValueType}
      {declaration : Declaration}
      (valueTyped : HasType scope (value ()) valueType)
      (found : scope.lookup target.name = some declaration)
      (takes : declaration.type.Takes valueType) :
      HasType scope (.assign site target value) declaration.type

/-- A statement is well typed over the declared variables. -/
inductive Stmt.WellTyped (scope : Scope) : Stmt -> Prop where
  | done : WellTyped scope .done
  | seq {first rest : Stmt} (firstTyped : WellTyped scope first)
      (restTyped : WellTyped scope rest) :
      WellTyped scope (.seq first rest)
  | block (line : Line) {body : Unit -> Stmt} (bodyTyped : WellTyped scope (body ())) :
      WellTyped scope (.block line body)
  | expr (line : Line) {value : Expr} {type : ValueType} (valueTyped : value.HasType scope type) :
      WellTyped scope (.expr line value)
  | branch (line : Line) {condition : Expr} {yes no : Unit -> Stmt}
      (conditionTyped : condition.HasType scope .bool)
      (yesTyped : WellTyped scope (yes ()))
      (noTyped : WellTyped scope (no ())) :
      WellTyped scope (.branch line condition yes no)
  | loop (line : Line) {condition : Expr} {body : Unit -> Stmt}
      (conditionTyped : condition.HasType scope .bool)
      (bodyTyped : WellTyped scope (body ())) :
      WellTyped scope (.loop line condition body)
  | write (line : Line) {value : Expr} {format : Format} {type : ValueType}
      (valueTyped : value.HasType scope type)
      (writes : format.Writes type) :
      WellTyped scope (.write line value format)
  | writeText (line : Line) (number : Nat) : WellTyped scope (.writeText line number)
  | read (line : Line) {target : Target} {format : Format} {declaration : Declaration}
      (found : scope.lookup target.name = some declaration)
      (reads : format.Reads declaration.type) :
      WellTyped scope (.read line target format)
  | leave (line : Line) : WellTyped scope (.leave line)

end MiniLang
