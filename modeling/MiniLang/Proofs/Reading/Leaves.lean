import MiniLang.Proofs.Reading.Grammar

/-!
# Literals in tokens and in syntax trees

The numbers and strings of a program stand among its tokens in the order in which they stand in its
syntax tree, and no token is lost or added.  Whatever is selected of them is therefore the same on
both sides.
-/

namespace MiniLang

/-- Whether a token is a number or a string. -/
def Token.Kind.isLiteral : Token.Kind -> Bool
  | .int _ => true
  | .real _ => true
  | .text _ => true
  | _ => false

/-- The numbers of an expression, in order. -/
def Term.leaves : Term -> List Token.Kind
  | .int _ value => [.int value]
  | .double _ bits => [.real bits]
  | .unary _ _ operand => operand.leaves
  | .binary _ _ left right => left.leaves ++ right.leaves
  | .assign _ _ value => value.leaves
  | _ => []

/-- The numbers and strings of a statement, in order. -/
def Clause.leaves : Clause -> List Token.Kind
  | .seq first rest => first.leaves ++ rest.leaves
  | .block _ body => body.leaves
  | .expr _ value => value.leaves
  | .branch _ condition yes => condition.leaves ++ yes.leaves
  | .choice _ condition yes no => condition.leaves ++ yes.leaves ++ no.leaves
  | .loop _ condition body => condition.leaves ++ body.leaves
  | .write _ value _ => value.leaves
  | .writeText _ bytes => [.text bytes]
  | _ => []

/-- The numbers and strings among tokens. -/
def Token.leaves (tokens : List Token) : List Token.Kind :=
  (tokens.map Token.kind).filter Token.Kind.isLiteral

namespace Token

@[simp] theorem leaves_nil : leaves [] = [] := rfl

@[simp] theorem leaves_cons
    (token : Token)
    (tokens : List Token) :
    leaves (token :: tokens) =
      (if token.kind.isLiteral = true then [token.kind] else []) ++ leaves tokens := by
  rw [leaves, List.map_cons, List.filter_cons]
  split <;> rfl

@[simp] theorem leaves_append
    (front back : List Token) :
    leaves (front ++ back) = leaves front ++ leaves back := by
  rw [leaves, List.map_append, List.filter_append]
  rfl

end Token

namespace Grammar

/-- The numbers of an expression are those of its syntax tree. -/
theorem Phrase.leaves_eq
    {category : Category}
    {tokens : List Token}
    {term : Term}
    (phrase : Phrase category tokens term) :
    Token.leaves tokens = term.leaves := by
  induction phrase with
  | tighter _ inductionHypothesis => exact inductionHypothesis
  | infixed line _ _ _ leftHypothesis rightHypothesis =>
      simp [leftHypothesis, rightHypothesis, Token.Kind.isLiteral, Term.leaves]
  | assign _ _ _ _ inductionHypothesis | prefixed _ _ _ inductionHypothesis
  | cast _ _ _ _ _ inductionHypothesis | group _ _ _ inductionHypothesis =>
      simp [inductionHypothesis, Token.Kind.isLiteral, Term.leaves]
  | name | int | real | yes | no => rfl

theorem Suffix.leaves_eq
    {tokens : List Token}
    {format : Format}
    (suffix : Suffix tokens format) :
    Token.leaves tokens = [] := by
  cases suffix <;> rfl

/-- The numbers and strings of statements are those of their syntax tree. -/
theorem Sentence.leaves_eq
    {extent : Extent}
    {tokens : List Token}
    {clause : Clause}
    (sentence : Sentence extent tokens clause) :
    Token.leaves tokens = clause.leaves := by
  induction sentence with
  | none | writeText | leave => rfl
  | next _ _ firstHypothesis restHypothesis =>
      rw [Token.leaves_append, firstHypothesis, restHypothesis, Clause.leaves]
  | block _ _ _ inductionHypothesis =>
      simp [inductionHypothesis, Token.Kind.isLiteral, Clause.leaves]
  | expr _ phrase =>
      rw [Token.leaves_append, phrase.leaves_eq]
      exact List.append_nil _
  | branch _ _ _ phrase _ yesHypothesis =>
      simp [phrase.leaves_eq, yesHypothesis, Token.Kind.isLiteral, Clause.leaves]
  | choice _ _ _ _ phrase _ _ _ yesHypothesis noHypothesis =>
      simp [phrase.leaves_eq, yesHypothesis, noHypothesis, Token.Kind.isLiteral, Clause.leaves]
  | loop _ _ _ phrase _ inductionHypothesis =>
      simp [phrase.leaves_eq, inductionHypothesis, Token.Kind.isLiteral, Clause.leaves]
  | read _ _ _ _ suffix => simp [suffix.leaves_eq, Token.Kind.isLiteral, Clause.leaves]
  | write _ _ phrase suffix =>
      simp [phrase.leaves_eq, suffix.leaves_eq, Token.Kind.isLiteral, Clause.leaves]

theorem Names.leaves_eq
    {type : ValueType}
    {tokens : List Token}
    {declarations : List Declaration}
    (names : Names type tokens declarations) :
    Token.leaves tokens = [] := by
  induction names with
  | last => rfl
  | more _ _ _ _ inductionHypothesis => simp [inductionHypothesis, Token.Kind.isLiteral]

theorem Declares.leaves_eq
    {tokens : List Token}
    {declarations : List Declaration}
    (declares : Declares tokens declarations) :
    Token.leaves tokens = [] := by
  induction declares with
  | none => rfl
  | next _ _ _ names _ inductionHypothesis =>
      simp [names.leaves_eq, inductionHypothesis, Token.Kind.isLiteral]

/-- The numbers and strings of a program are those of its syntax tree. -/
theorem Derives.leaves_eq
    {tokens : List Token}
    {tree : SyntaxTree}
    (derives : Derives tokens tree) :
    Token.leaves tokens = tree.body.leaves := by
  cases derives with
  | program _ _ _ declares sentence =>
      simp [declares.leaves_eq, sentence.leaves_eq, Token.Kind.isLiteral]

/-- What is selected of the numbers and strings of a program is selected of its syntax tree. -/
theorem Derives.filterMap_eq
    {α : Type}
    {tokens : List Token}
    {tree : SyntaxTree}
    (derives : Derives tokens tree)
    (select : Token.Kind -> Option α)
    (silent : ∀ kind : Token.Kind, kind.isLiteral = false -> select kind = none) :
    tokens.filterMap (fun token => select token.kind) = tree.body.leaves.filterMap select := by
  have selected (kind : Token.Kind) :
      (if kind.isLiteral = true then select kind else none) = select kind := by
    cases literal : kind.isLiteral with
    | true => rfl
    | false => exact (silent kind literal).symm
  rw [← derives.leaves_eq, Token.leaves, List.filterMap_filter, List.filterMap_map]
  congr 1
  funext token
  exact (selected token.kind).symm

end Grammar

end MiniLang
