import MiniLang.Proofs.Reading.WellFounded
import MiniLang.Proofs.Relabelling.Reading
import MiniLang.Proofs.Scope
import MiniLang.Proofs.Tree.Reachability
import MiniLang.Proofs.Typing.Checking

/-!
# Checking relabelled programs

A relabelling that keeps different names different takes scopes to scopes: a relabelled name is
declared where the name is, with the same type.  Trees are relabelled node by node, so checking a
relabelled program gives every expression the tag that it had and finds the same breaches, on the
relabelled lines.
-/

namespace MiniLang
namespace Relabelling

section Actions

variable (relabel : Relabelling)

/-- The action on the sites of expressions. -/
def site (site : Site) : Site :=
  ⟨site.id, relabel.line site.line⟩

/-- The action on the trees of expressions. -/
def expr : Expr -> Expr
  | .name site spelling => .name (relabel.site site) (relabel.name spelling)
  | .int site value => .int (relabel.site site) value
  | .double site bits => .double (relabel.site site) bits
  | .bool site value => .bool (relabel.site site) value
  | .unary site op operand => .unary (relabel.site site) op fun _ => expr (operand ())
  | .binary site op left right =>
      .binary (relabel.site site) op (fun _ => expr (left ()))
        (fun _ => expr (right ()))
  | .assign site target value =>
      .assign (relabel.site site) (relabel.target target) fun _ => expr (value ())
  | .dangling number => .dangling number

/-- The action on the trees of statements. -/
def stmt : Stmt -> Stmt
  | .done => .done
  | .seq first rest => .seq (stmt first) (stmt rest)
  | .block line body => .block (relabel.line line) fun _ => stmt (body ())
  | .expr line value => .expr (relabel.line line) (relabel.expr value)
  | .branch line condition yes no =>
      .branch (relabel.line line) (relabel.expr condition) (fun _ => stmt (yes ()))
        (fun _ => stmt (no ()))
  | .loop line condition body =>
      .loop (relabel.line line) (relabel.expr condition) fun _ => stmt (body ())
  | .write line value format => .write (relabel.line line) (relabel.expr value) format
  | .writeText line number => .writeText (relabel.line line) number
  | .read line target format => .read (relabel.line line) (relabel.target target) format
  | .leave line => .leave (relabel.line line)
  | .dangling number => .dangling number

/-- The action on type errors. -/
def typeError : TypeError -> TypeError
  | .undeclared name => .undeclared (relabel.name name)
  | .assignment name target value => .assignment (relabel.name name) target value
  | .read name found => .read (relabel.name name) found
  | .hexRead name found => .hexRead (relabel.name name) found
  | error => error

/-- The action on type errors with their lines. -/
def breach (breach : Line × TypeError) : Line × TypeError :=
  (relabel.line breach.1, relabel.typeError breach.2)

end Actions

variable {relabel : Relabelling}

section Trees

/-- The tree of a relabelled expression is made of relabelled trees. -/
theorem tree_exprForm
    (trees : ExprId -> Expr)
    (id : ExprId)
    (line : Line)
    (form : ExprForm) :
    (relabel.exprForm form).tree (fun child => relabel.expr (trees child))
        ⟨id, relabel.line line⟩ =
      relabel.expr (form.tree trees ⟨id, line⟩) := by
  cases form <;> rfl

/-- The sequence of relabelled statements is the relabelled sequence. -/
theorem ofList_map
    (statements : List Stmt) :
    Stmt.ofList (statements.map relabel.stmt) = relabel.stmt (Stmt.ofList statements) := by
  induction statements with
  | nil => rfl
  | cons first rest inductionHypothesis =>
      exact congrArg (Stmt.seq (relabel.stmt first)) inductionHypothesis

/-- The tree of a relabelled statement is made of relabelled trees. -/
theorem tree_stmtForm
    (values : ExprId -> Expr)
    (trees : StmtId -> Stmt)
    (line : Line)
    (form : StmtForm) :
    (relabel.stmtForm form).tree (fun child => relabel.expr (values child))
        (fun child => relabel.stmt (trees child)) (relabel.line line) =
      relabel.stmt (form.tree values trees line) := by
  cases form with
  | block body =>
      have body_eq : body.map (fun child => relabel.stmt (trees child)) =
          (body.map trees).map relabel.stmt := by
        rw [List.map_map]
        rfl
      change Stmt.block _ (fun _ => Stmt.ofList (body.map _)) = _
      rw [body_eq, ofList_map]
      rfl
  | branch condition yes no? => cases no? <;> rfl
  | _ => rfl

variable (forest : Forest)

theorem unfoldExpr_forest
    (depth id : Nat) :
    (relabel.forest forest).unfoldExpr depth id = relabel.expr (forest.unfoldExpr depth id) := by
  have node_eq (id : Nat) : (relabel.forest forest).exprs[id]? =
      (forest.exprs[id]?).map relabel.exprNode := Array.getElem?_map
  induction depth generalizing id with
  | zero => simp [Forest.unfoldExpr, Relabelling.expr]
  | succ depth inductionHypothesis =>
      cases found : forest.exprs[id]? with
      | none => simp [Forest.unfoldExpr, Relabelling.expr, node_eq, found]
      | some node =>
          have found' : (relabel.forest forest).exprs[id]? = some (relabel.exprNode node) := by
            rw [node_eq, found]
            rfl
          rw [Forest.unfoldExpr_succ found, Forest.unfoldExpr_succ found', ← tree_exprForm]
          rw [funext inductionHypothesis]

theorem expr_forest
    (id : ExprId) :
    (relabel.forest forest).expr id = relabel.expr (forest.expr id) := by
  unfold Forest.expr
  rw [size_exprs, unfoldExpr_forest]

theorem unfoldStmt_forest
    (depth id : Nat) :
    (relabel.forest forest).unfoldStmt depth id = relabel.stmt (forest.unfoldStmt depth id) := by
  have node_eq (id : Nat) : (relabel.forest forest).stmts[id]? =
      (forest.stmts[id]?).map relabel.stmtNode := Array.getElem?_map
  induction depth generalizing id with
  | zero => simp [Forest.unfoldStmt, Relabelling.stmt]
  | succ depth inductionHypothesis =>
      cases found : forest.stmts[id]? with
      | none => simp [Forest.unfoldStmt, Relabelling.stmt, node_eq, found]
      | some node =>
          have found' : (relabel.forest forest).stmts[id]? = some (relabel.stmtNode node) := by
            rw [node_eq, found]
            rfl
          rw [Forest.unfoldStmt_succ found, Forest.unfoldStmt_succ found', ← tree_stmtForm]
          rw [funext inductionHypothesis, funext (expr_forest forest)]

/-- Unfolding statements of a relabelled forest gives the relabelled tree. -/
theorem sequence_forest
    (ids : List StmtId) :
    (relabel.forest forest).sequence ids = relabel.stmt (forest.sequence ids) := by
  have stmt_eq : (relabel.forest forest).stmt = fun id => relabel.stmt (forest.stmt id) := by
    funext id
    unfold Forest.stmt
    rw [size_stmts, unfoldStmt_forest]
  unfold Forest.sequence
  rw [← ofList_map, stmt_eq, List.map_map]
  rfl

end Trees

/-- A scope is another one relabelled, and the indices of both are right. -/
structure CarriesScope (relabel : Relabelling) (scope scope' : Scope) : Prop where
  entries_eq : scope'.entries = scope.entries.map relabel.declaration
  consistent : scope.Consistent
  consistent' : scope'.Consistent

namespace CarriesScope

variable {scope scope' : Scope}

theorem empty (relabel : Relabelling) : relabel.CarriesScope Scope.empty Scope.empty where
  entries_eq := by simp [Scope.empty]
  consistent := .empty
  consistent' := .empty

section Lookup

variable (carried : relabel.CarriesScope scope scope')
  (injective : Function.Injective relabel.name)
  (name : String)
include carried injective

/-- A relabelled name stands where the name stands. -/
theorem index_eq : scope'.index[relabel.name name]? = scope.index[name]? := by
  ext place
  rw [carried.consistent' _ place, carried.consistent _ place, carried.entries_eq,
    Array.getElem?_map]
  constructor
  · rintro ⟨declaration', found', name_eq⟩
    obtain ⟨declaration, found, rfl⟩ := Option.map_eq_some_iff.1 found'
    exact ⟨declaration, found, injective name_eq⟩
  · rintro ⟨declaration, found, rfl⟩
    exact ⟨relabel.declaration declaration, by rw [found]; rfl, rfl⟩

theorem contains_eq : scope'.contains (relabel.name name) = scope.contains name := by
  unfold Scope.contains
  rw [Std.TreeMap.contains_eq_isSome_getElem?, Std.TreeMap.contains_eq_isSome_getElem?,
    carried.index_eq injective]

/-- A relabelled name is declared as the name is. -/
theorem lookup_eq :
    scope'.lookup (relabel.name name) = (scope.lookup name).map relabel.declaration := by
  unfold Scope.lookup
  rw [carried.index_eq injective, carried.entries_eq]
  cases scope.index[name]? with
  | none => rfl
  | some place => exact Array.getElem?_map

theorem tagOf_eq : scope'.tagOf (relabel.name name) = scope.tagOf name := by
  unfold Scope.tagOf
  rw [carried.lookup_eq injective]
  cases scope.lookup name <;> rfl

end Lookup

section Declarations

variable (carried : relabel.CarriesScope scope scope')
  (injective : Function.Injective relabel.name)
include carried injective

/-- Declaring a relabelled variable leads to the relabelled scope, with the same complaint. -/
theorem declare
    (declaration : Declaration) :
    relabel.CarriesScope (scope.declare declaration).1
        (scope'.declare (relabel.declaration declaration)).1 ∧
      List.Forall₂ relabel.Repeats (scope.declare declaration).2.toList
        (scope'.declare (relabel.declaration declaration)).2.toList := by
  have contained : scope'.contains (relabel.declaration declaration).name =
      scope.contains declaration.name := carried.contains_eq injective declaration.name
  refine ⟨⟨?_, carried.consistent.declare _, carried.consistent'.declare _⟩, ?_⟩
  · unfold Scope.declare
    rw [contained]
    split
    · exact carried.entries_eq
    · simp only [Scope.insert, carried.entries_eq, Array.map_push]
  · unfold Scope.declare
    rw [contained]
    split
    · refine .cons ⟨rfl, rfl, fun keeps => ?_⟩ .nil
      simp only [Declaration.again, Relabelling.declaration, keeps, id]
    · exact .nil

/-- Declaring relabelled variables leads to the relabelled scope, with the same complaints. -/
theorem declareAll
    (declarations : List Declaration) :
    relabel.CarriesScope (scope.declareAll declarations).1
        (scope'.declareAll (declarations.map relabel.declaration)).1 ∧
      List.Forall₂ relabel.Repeats (scope.declareAll declarations).2
        (scope'.declareAll (declarations.map relabel.declaration)).2 := by
  induction declarations generalizing scope scope' with
  | nil => exact ⟨carried, .nil⟩
  | cons declaration rest inductionHypothesis =>
      obtain ⟨next, complained⟩ := carried.declare injective declaration
      obtain ⟨last, repeated⟩ := inductionHypothesis next
      rw [List.map_cons, Scope.declareAll_cons, Scope.declareAll_cons]
      exact ⟨last, List.rel_append complained repeated⟩

end Declarations

end CarriesScope

section Typing

variable {scope scope' : Scope}
  (carried : relabel.CarriesScope scope scope')
  (injective : Function.Injective relabel.name)
include carried injective

theorem useBreaches_eq
    (line : Line)
    (name : String) :
    scope'.useBreaches (relabel.line line) (relabel.name name) =
      (scope.useBreaches line name).map relabel.breach := by
  unfold Scope.useBreaches
  rw [carried.tagOf_eq injective]
  split <;> rfl

theorem tag_expr
    (expression : Expr) :
    (relabel.expr expression).tag scope' = expression.tag scope := by
  induction expression with
  | name site spelling => exact carried.tagOf_eq injective spelling
  | unary site op operand inductionHypothesis =>
      simp only [Relabelling.expr, Expr.tag, inductionHypothesis]
  | binary site op left right leftHypothesis rightHypothesis =>
      simp only [Relabelling.expr, Expr.tag, leftHypothesis, rightHypothesis]
  | assign site target value inductionHypothesis => exact carried.tagOf_eq injective target.name
  | _ => rfl

/-- Checking a relabelled expression sets the same tags. -/
theorem marks_expr
    (expression : Expr) :
    (relabel.expr expression).marks scope' = expression.marks scope := by
  induction expression with
  | name site spelling =>
      exact congrArg (fun tag => [(site.id, tag)]) (carried.tagOf_eq injective spelling)
  | unary site op operand inductionHypothesis =>
      change (relabel.expr (operand ())).marks scope' ++
        [(site.id, (relabel.expr (.unary site op operand)).tag scope')] = _
      rw [inductionHypothesis, tag_expr carried injective]
      rfl
  | binary site op left right leftHypothesis rightHypothesis =>
      change (relabel.expr (left ())).marks scope' ++ (relabel.expr (right ())).marks scope' ++
        [(site.id, (relabel.expr (.binary site op left right)).tag scope')] = _
      rw [leftHypothesis, rightHypothesis, tag_expr carried injective]
      rfl
  | assign site target value inductionHypothesis =>
      change (relabel.expr (value ())).marks scope' ++
        [(site.id, (relabel.expr (.assign site target value)).tag scope')] = _
      rw [inductionHypothesis, tag_expr carried injective]
      rfl
  | _ => rfl

/-- Checking a relabelled expression finds the relabelled breaches. -/
theorem breaches_expr
    (expression : Expr) :
    (relabel.expr expression).breaches scope' =
      (expression.breaches scope).map relabel.breach := by
  induction expression with
  | name site spelling => exact useBreaches_eq carried injective site.line spelling
  | unary site op operand inductionHypothesis =>
      simp only [Relabelling.expr, Expr.breaches, inductionHypothesis, tag_expr carried injective,
        List.map_append]
      split <;> rfl
  | binary site op left right leftHypothesis rightHypothesis =>
      simp only [Relabelling.expr, Expr.breaches, leftHypothesis, rightHypothesis,
        tag_expr carried injective, List.map_append]
      split <;> rfl
  | assign site target value inductionHypothesis =>
      simp only [Relabelling.expr, Expr.breaches, inductionHypothesis, tag_expr carried injective,
        Relabelling.target, useBreaches_eq carried injective, carried.tagOf_eq injective,
        List.map_append]
      split <;> rfl
  | _ => rfl

theorem marks_stmt
    (statement : Stmt) :
    (relabel.stmt statement).marks scope' = statement.marks scope := by
  induction statement with
  | seq first rest firstHypothesis restHypothesis =>
      simp only [Relabelling.stmt, Stmt.marks, firstHypothesis, restHypothesis]
  | block line body inductionHypothesis =>
      simp only [Relabelling.stmt, Stmt.marks, inductionHypothesis]
  | expr line value => exact marks_expr carried injective value
  | branch line condition yes no yesHypothesis noHypothesis =>
      simp only [Relabelling.stmt, Stmt.marks, marks_expr carried injective, yesHypothesis,
        noHypothesis]
  | loop line condition body inductionHypothesis =>
      simp only [Relabelling.stmt, Stmt.marks, marks_expr carried injective, inductionHypothesis]
  | write line value format => exact marks_expr carried injective value
  | _ => rfl

omit carried injective in
theorem conditionBreaches_eq
    (construct : Construct)
    (line : Line)
    (tag : Tag) :
    construct.conditionBreaches (relabel.line line) tag =
      (construct.conditionBreaches line tag).map relabel.breach := by
  unfold Construct.conditionBreaches
  split <;> rfl

/-- Checking a relabelled statement finds the relabelled breaches. -/
theorem breaches_stmt
    (statement : Stmt) :
    (relabel.stmt statement).breaches scope' =
      (statement.breaches scope).map relabel.breach := by
  induction statement with
  | seq first rest firstHypothesis restHypothesis =>
      simp only [Relabelling.stmt, Stmt.breaches, firstHypothesis, restHypothesis, List.map_append]
  | block line body inductionHypothesis =>
      simp only [Relabelling.stmt, Stmt.breaches, inductionHypothesis]
  | expr line value => exact breaches_expr carried injective value
  | branch line condition yes no yesHypothesis noHypothesis =>
      simp only [Relabelling.stmt, Stmt.breaches, breaches_expr carried injective,
        tag_expr carried injective, conditionBreaches_eq, yesHypothesis, noHypothesis,
        List.map_append]
  | loop line condition body inductionHypothesis =>
      simp only [Relabelling.stmt, Stmt.breaches, breaches_expr carried injective,
        tag_expr carried injective, conditionBreaches_eq, inductionHypothesis, List.map_append]
  | write line value format =>
      simp only [Relabelling.stmt, Stmt.breaches, breaches_expr carried injective,
        tag_expr carried injective, List.map_append]
      split
      · cases format <;> rfl
      · rfl
  | read line target format =>
      simp only [Relabelling.stmt, Stmt.breaches, Relabelling.target,
        useBreaches_eq carried injective, carried.tagOf_eq injective, List.map_append]
      split
      · cases format <;> rfl
      · rfl
  | _ => rfl

end Typing

/-- A relabelling that keeps the names keeps the errors. -/
theorem typeError_eq_self
    (keeps : relabel.name = id)
    (error : TypeError) :
    relabel.typeError error = error := by
  cases error <;> simp [Relabelling.typeError, keeps]

/-- The diagnostic of a relabelled breach says what that of the breach says. -/
theorem repeats_breach
    (line : Line)
    (error : TypeError) :
    relabel.Repeats (error.diagnostic line)
      ((relabel.typeError error).diagnostic (relabel.line line)) where
  kind_eq := rfl
  line_eq := rfl
  message_eq := by
    intro keeps
    rw [typeError_eq_self keeps]
    rfl

/-- A program is another one relabelled. -/
structure CarriesProgram (relabel : Relabelling) (program program' : Program) : Prop where
  scope : relabel.CarriesScope program.scope program'.scope
  body_eq : program'.body = program.body
  forest_eq : program'.forest = relabel.forest program.forest

/-- Relabelled tokens are read as the relabelled program, with the same complaints. -/
theorem carriesProgram_ofTokens
    (relabel : Relabelling)
    (injective : Function.Injective relabel.name)
    (tokens : List Token) :
    relabel.CarriesProgram (Program.ofTokens tokens).1
        (Program.ofTokens (tokens.map relabel.token)).1 ∧
      List.Forall₂ relabel.Repeats (Program.ofTokens tokens).2
        (Program.ofTokens (tokens.map relabel.token)).2 := by
  have carried := relabel.carries_ofTokens tokens
  have declared := (CarriesScope.empty relabel).declareAll injective
    (Reading.ofTokens tokens).declarations.toList
  have declarations_eq : (Reading.ofTokens (tokens.map relabel.token)).declarations.toList =
      (Reading.ofTokens tokens).declarations.toList.map relabel.declaration := by
    rw [carried.declarations_eq, Array.toList_map]
  rw [← declarations_eq] at declared
  refine ⟨⟨declared.1, congrArg List.reverse carried.body_eq, carried.forest_eq⟩, ?_⟩
  refine List.rel_append ?_ declared.2
  rw [List.forall₂_map_left_iff, List.forall₂_map_right_iff]
  exact carried.errors.imp fun _ _ repeated => repeated.diagnosed

namespace CarriesProgram

variable {program program' : Program}
  (carried : relabel.CarriesProgram program program')
include carried

theorem tree_eq : program'.tree = relabel.stmt program.tree := by
  unfold Program.tree
  rw [carried.forest_eq, carried.body_eq, sequence_forest]

/-- Checking a relabelled program gives the same tags and the same complaints. -/
theorem exists_check
    (injective : Function.Injective relabel.name)
    (wellFounded : program.WellFounded)
    (wellFounded' : program'.WellFounded) :
    ∃ tags breaches breaches', program.check = .ok (tags, breaches) ∧
      program'.check = .ok (tags, breaches') ∧
      List.Forall₂ relabel.Repeats breaches breaches' := by
  have blank_eq : TagTable.blank program'.forest = TagTable.blank program.forest := by
    simp [TagTable.blank, carried.forest_eq]
  have checked' := wellFounded'.check_eq
  rw [carried.tree_eq, blank_eq, marks_stmt carried.scope injective,
    breaches_stmt carried.scope injective, List.map_map] at checked'
  refine ⟨_, _, _, wellFounded.check_eq, checked', ?_⟩
  rw [List.forall₂_map_left_iff, List.forall₂_map_right_iff, List.forall₂_same]
  exact fun breach _ => repeats_breach breach.1 breach.2

end CarriesProgram

/-- Reading and checking relabelled tokens reports the same, on the relabelled lines. -/
theorem exists_reports
    (relabel : Relabelling)
    (injective : Function.Injective relabel.name)
    (tokens : List Token) :
    ∃ tags breaches breaches',
      (Program.ofTokens tokens).1.check = .ok (tags, breaches) ∧
      (Program.ofTokens (tokens.map relabel.token)).1.check = .ok (tags, breaches') ∧
      List.Forall₂ relabel.Repeats ((Program.ofTokens tokens).2 ++ breaches)
        ((Program.ofTokens (tokens.map relabel.token)).2 ++ breaches') := by
  obtain ⟨carried, complaints⟩ := relabel.carriesProgram_ofTokens injective tokens
  obtain ⟨tags, breaches, breaches', checked, checked', repeated⟩ := carried.exists_check injective
    (Program.wellFounded_ofTokens tokens) (Program.wellFounded_ofTokens _)
  exact ⟨tags, breaches, breaches', checked, checked', List.rel_append complaints repeated⟩

end Relabelling
end MiniLang
