import MiniLang.Program

/-!
# The grammar

What a program is as a sequence of tokens, and the syntax tree that a derivation gives it.  The rules
are those of a grammar, with one category for each level of operators; they name no state of a
reading and no number of a node.

Two rules of the language are no rules of a context-free grammar.  An alternative belongs to the
nearest branch that can take it, so the statement before an alternative must not end in a branch
that has none.  A cast is told from a parenthesis by the reserved word in it.
-/

namespace MiniLang

/-- The syntax tree of an expression.  An operator has the line of its sign. -/
inductive Term where
  | name (line : Line) (spelling : String)
  | int (line : Line) (value : Int32)
  | double (line : Line) (bits : UInt64)
  | bool (line : Line) (value : Bool)
  | unary (line : Line) (op : UnaryOp) (operand : Term)
  | binary (line : Line) (op : BinaryOp) (left right : Term)
  | assign (line : Line) (target : Target) (value : Term)
  deriving DecidableEq, Repr

/-- The syntax tree of a statement, or of statements one after the other.  A statement has the line
of its first token. -/
inductive Clause where
  | done
  | seq (first rest : Clause)
  | block (line : Line) (body : Clause)
  | expr (line : Line) (value : Term)
  /-- A branch without an alternative. -/
  | branch (line : Line) (condition : Term) (yes : Clause)
  /-- A branch with an alternative. -/
  | choice (line : Line) (condition : Term) (yes no : Clause)
  | loop (line : Line) (condition : Term) (body : Clause)
  | write (line : Line) (value : Term) (format : Format)
  | writeText (line : Line) (bytes : List UInt8)
  | read (line : Line) (target : Target) (format : Format)
  | leave (line : Line)
  deriving DecidableEq, Repr

namespace Clause

/-- The strings that a statement writes, in order. -/
def texts : Clause -> List (List UInt8)
  | .seq first rest => first.texts ++ rest.texts
  | .block _ body => body.texts
  | .branch _ _ yes => yes.texts
  | .choice _ _ yes no => yes.texts ++ no.texts
  | .loop _ _ body => body.texts
  | .writeText _ bytes => [bytes]
  | _ => []

/-- Whether a statement ends in a branch without an alternative.  An alternative right after it
would belong to that branch. -/
def endsOpen : Clause -> Bool
  | .branch _ _ _ => true
  | .choice _ _ _ no => no.endsOpen
  | .loop _ _ body => body.endsOpen
  | _ => false

end Clause

/-- The syntax tree of a program. -/
structure SyntaxTree where
  declarations : List Declaration
  body : Clause
  deriving DecidableEq, Repr

namespace Grammar

/-- The categories of expressions, from the loosest to the tightest. -/
inductive Category where
  | expression
  | logical
  | relational
  | additive
  | multiplicative
  | bitwise
  | unary
  | primary
  deriving DecidableEq, Repr

namespace Category

/-- The next tighter category.  Nothing is tighter than a primary expression. -/
def tighter : Category -> Category
  | .expression => .logical
  | .logical => .relational
  | .relational => .additive
  | .additive => .multiplicative
  | .multiplicative => .bitwise
  | .bitwise => .unary
  | .unary => .primary
  | .primary => .primary

/-- The signs of the infix operators of a category. -/
def signs : Category -> List (Mark × BinaryOp)
  | .logical => [(.barBar, .or), (.ampAmp, .and)]
  | .relational =>
      [(.equalEqual, .eq), (.notEqual, .ne), (.less, .lt), (.lessEqual, .le), (.greater, .gt),
        (.greaterEqual, .ge)]
  | .additive => [(.plus, .add), (.minus, .sub)]
  | .multiplicative => [(.star, .mul), (.slash, .div)]
  | .bitwise => [(.bar, .bitOr), (.amp, .bitAnd)]
  | _ => []

end Category

/-- The signs of the prefix operators. -/
def prefixSigns : List (Mark × UnaryOp) :=
  [(.minus, .neg), (.bang, .not), (.tilde, .bitNot)]

/-- The reserved words that make a parenthesis a cast. -/
def castWords : List (Keyword × UnaryOp) :=
  [(.int, .toInt), (.double, .toDouble)]

/-- The reserved words that name types. -/
def typeWords : List (Keyword × ValueType) :=
  [(.int, .int), (.double, .double), (.bool, .bool)]

/-- The tokens of an expression of a category, and its syntax tree. -/
inductive Phrase : Category -> List Token -> Term -> Prop where
  /-- An expression of a tighter category will do. -/
  | tighter {category : Category} {tokens : List Token} {term : Term}
      (phrase : Phrase category.tighter tokens term) :
      Phrase category tokens term
  /-- An assignment has a name on its left, and groups to the right. -/
  | assign (spelling : String) (nameLine line : Line) {tokens : List Token} {value : Term}
      (phrase : Phrase .expression tokens value) :
      Phrase .expression (⟨.name spelling, nameLine⟩ :: ⟨.mark .assign, line⟩ :: tokens)
        (.assign line ⟨spelling, nameLine⟩ value)
  /-- The operators of one category group to the left. -/
  | infixed {category : Category} {mark : Mark} {op : BinaryOp} (line : Line)
      {leftTokens rightTokens : List Token} {left right : Term}
      (listed : (mark, op) ∈ category.signs)
      (leftPhrase : Phrase category leftTokens left)
      (rightPhrase : Phrase category.tighter rightTokens right) :
      Phrase category (leftTokens ++ ⟨.mark mark, line⟩ :: rightTokens)
        (.binary line op left right)
  | prefixed {mark : Mark} {op : UnaryOp} (line : Line) {tokens : List Token} {operand : Term}
      (listed : (mark, op) ∈ prefixSigns)
      (phrase : Phrase .unary tokens operand) :
      Phrase .unary (⟨.mark mark, line⟩ :: tokens) (.unary line op operand)
  | cast {word : Keyword} {op : UnaryOp} (line wordLine closeLine : Line) {tokens : List Token}
      {operand : Term}
      (listed : (word, op) ∈ castWords)
      (phrase : Phrase .unary tokens operand) :
      Phrase .unary (⟨.mark .leftParen, line⟩ :: ⟨.keyword word, wordLine⟩ ::
        ⟨.mark .rightParen, closeLine⟩ :: tokens) (.unary line op operand)
  | name (spelling : String) (line : Line) :
      Phrase .primary [⟨.name spelling, line⟩] (.name line spelling)
  | int (value : Int32) (line : Line) : Phrase .primary [⟨.int value, line⟩] (.int line value)
  | real (bits : UInt64) (line : Line) : Phrase .primary [⟨.real bits, line⟩] (.double line bits)
  | yes (line : Line) : Phrase .primary [⟨.keyword .true, line⟩] (.bool line true)
  | no (line : Line) : Phrase .primary [⟨.keyword .false, line⟩] (.bool line false)
  /-- Parentheses leave no trace in the tree. -/
  | group (openLine closeLine : Line) {tokens : List Token} {term : Term}
      (phrase : Phrase .expression tokens term) :
      Phrase .primary (⟨.mark .leftParen, openLine⟩ :: tokens ++ [⟨.mark .rightParen, closeLine⟩])
        term

/-- The tokens that follow a value or a variable to give its format. -/
inductive Suffix : List Token -> Format -> Prop where
  | plain : Suffix [] .plain
  | hex (commaLine wordLine : Line) :
      Suffix [⟨.mark .comma, commaLine⟩, ⟨.keyword .hex, wordLine⟩] .hex

/-- A single statement, or any number of them. -/
inductive Extent where
  | one
  | many
  deriving DecidableEq, Repr

/-- The tokens of statements, and their syntax tree. -/
inductive Sentence : Extent -> List Token -> Clause -> Prop where
  | none : Sentence .many [] .done
  | next {firstTokens restTokens : List Token} {first rest : Clause}
      (firstSentence : Sentence .one firstTokens first)
      (restSentence : Sentence .many restTokens rest) :
      Sentence .many (firstTokens ++ restTokens) (.seq first rest)
  | block (line closeLine : Line) {tokens : List Token} {body : Clause}
      (sentence : Sentence .many tokens body) :
      Sentence .one (⟨.mark .leftBrace, line⟩ :: tokens ++ [⟨.mark .rightBrace, closeLine⟩])
        (.block line body)
  | expr (endLine : Line) {first : Token} {tokens : List Token} {value : Term}
      (phrase : Phrase .expression (first :: tokens) value) :
      Sentence .one (first :: tokens ++ [⟨.mark .semicolon, endLine⟩]) (.expr first.line value)
  | branch (line openLine closeLine : Line) {conditionTokens yesTokens : List Token}
      {condition : Term} {yes : Clause}
      (phrase : Phrase .expression conditionTokens condition)
      (yesSentence : Sentence .one yesTokens yes) :
      Sentence .one (⟨.keyword .if, line⟩ :: ⟨.mark .leftParen, openLine⟩ :: conditionTokens ++
        ⟨.mark .rightParen, closeLine⟩ :: yesTokens) (.branch line condition yes)
  /-- The statement before the alternative leaves it to this branch. -/
  | choice (line openLine closeLine elseLine : Line)
      {conditionTokens yesTokens noTokens : List Token} {condition : Term} {yes no : Clause}
      (phrase : Phrase .expression conditionTokens condition)
      (yesSentence : Sentence .one yesTokens yes)
      (closed : yes.endsOpen = false)
      (noSentence : Sentence .one noTokens no) :
      Sentence .one (⟨.keyword .if, line⟩ :: ⟨.mark .leftParen, openLine⟩ :: conditionTokens ++
        ⟨.mark .rightParen, closeLine⟩ :: yesTokens ++ ⟨.keyword .else, elseLine⟩ :: noTokens)
        (.choice line condition yes no)
  | loop (line openLine closeLine : Line) {conditionTokens bodyTokens : List Token}
      {condition : Term} {body : Clause}
      (phrase : Phrase .expression conditionTokens condition)
      (sentence : Sentence .one bodyTokens body) :
      Sentence .one (⟨.keyword .while, line⟩ :: ⟨.mark .leftParen, openLine⟩ :: conditionTokens ++
        ⟨.mark .rightParen, closeLine⟩ :: bodyTokens) (.loop line condition body)
  | read (line nameLine endLine : Line) (spelling : String) {tokens : List Token} {format : Format}
      (suffix : Suffix tokens format) :
      Sentence .one (⟨.keyword .read, line⟩ :: ⟨.name spelling, nameLine⟩ :: tokens ++
        [⟨.mark .semicolon, endLine⟩]) (.read line ⟨spelling, nameLine⟩ format)
  | write (line endLine : Line) {valueTokens tokens : List Token} {value : Term} {format : Format}
      (phrase : Phrase .expression valueTokens value)
      (suffix : Suffix tokens format) :
      Sentence .one (⟨.keyword .write, line⟩ :: valueTokens ++ tokens ++
        [⟨.mark .semicolon, endLine⟩]) (.write line value format)
  | writeText (line textLine endLine : Line) (bytes : List UInt8) :
      Sentence .one [⟨.keyword .write, line⟩, ⟨.text bytes, textLine⟩, ⟨.mark .semicolon, endLine⟩]
        (.writeText line bytes)
  | leave (line endLine : Line) :
      Sentence .one [⟨.keyword .return, line⟩, ⟨.mark .semicolon, endLine⟩] (.leave line)

/-- The names in a declaration of variables of one type. -/
inductive Names (type : ValueType) : List Token -> List Declaration -> Prop where
  | last (spelling : String) (line : Line) :
      Names type [⟨.name spelling, line⟩] [⟨spelling, type, line⟩]
  | more (spelling : String) (line commaLine : Line) {tokens : List Token}
      {declarations : List Declaration}
      (names : Names type tokens declarations) :
      Names type (⟨.name spelling, line⟩ :: ⟨.mark .comma, commaLine⟩ :: tokens)
        (⟨spelling, type, line⟩ :: declarations)

/-- The declarations at the start of a program. -/
inductive Declares : List Token -> List Declaration -> Prop where
  | none : Declares [] []
  | next {word : Keyword} {type : ValueType} (line endLine : Line) {tokens restTokens : List Token}
      {declarations rest : List Declaration}
      (listed : (word, type) ∈ typeWords)
      (names : Names type tokens declarations)
      (declares : Declares restTokens rest) :
      Declares (⟨.keyword word, line⟩ :: tokens ++ ⟨.mark .semicolon, endLine⟩ :: restTokens)
        (declarations ++ rest)

/-- The tokens of a program, and its syntax tree. -/
inductive Derives : List Token -> SyntaxTree -> Prop where
  | program (line openLine closeLine : Line) {declarationTokens bodyTokens : List Token}
      {declarations : List Declaration} {body : Clause}
      (declares : Declares declarationTokens declarations)
      (sentence : Sentence .many bodyTokens body) :
      Derives (⟨.keyword .program, line⟩ :: ⟨.mark .leftBrace, openLine⟩ :: declarationTokens ++
        bodyTokens ++ [⟨.mark .rightBrace, closeLine⟩]) ⟨declarations, body⟩

end Grammar
end MiniLang
