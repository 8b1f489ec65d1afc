import MiniLang.Proofs.Tree.Readback
import MiniLang.Reading.Program

/-!
# Reading expressions along derivations

While the tokens of an expression are read, its operators may still wait on the stack: only the next
token shows where the expression ends.  So what holds after the tokens of an expression is said by
what the next token does.  It does the same as in a reading that has the old stack and, as the
operand read last, the tree of the derivation.
-/

namespace MiniLang

open Grammar

namespace Grammar

namespace Category

/-- The level of the infix operators of a category.  Categories without such operators are placed
around the others. -/
def rank : Category -> Nat
  | .expression => 0
  | .logical => 1
  | .relational => 2
  | .additive => 3
  | .multiplicative => 4
  | .bitwise => 5
  | .unary => 6
  | .primary => 7

theorem rank_le_tighter (category : Category) : category.rank ≤ category.tighter.rank := by
  cases category <;> decide

theorem tighter_ne_expression (category : Category) : category.tighter ≠ .expression := by
  cases category <;> decide

/-- The signs of a category are those of the infix operators of its level. -/
theorem mem_signs_iff
    {category : Category}
    {mark : Mark}
    {op : BinaryOp} :
    (mark, op) ∈ category.signs ↔ BinaryOp.ofMark? mark = some op ∧ op.level = category.rank := by
  constructor
  · intro listed
    cases category <;> simp [signs] at listed
    all_goals
      rcases listed with ⟨rfl, rfl⟩ | listed
      · exact ⟨rfl, rfl⟩
      · grind [BinaryOp.ofMark?, BinaryOp.level, rank]
  · rintro ⟨written, level_eq⟩
    cases mark <;> cases written <;> cases category <;> simp_all [signs, rank, BinaryOp.level]

/-- A category with signs is just looser than the next one. -/
theorem rank_tighter_of_signs
    {category : Category}
    {entry : Mark × BinaryOp}
    (listed : entry ∈ category.signs) :
    category.tighter.rank = category.rank + 1 ∧ category.rank ≤ 5 := by
  cases category <;> first | exact absurd listed List.not_mem_nil | exact ⟨rfl, by decide⟩

end Category

/-- Whether an expression can start with a kind of token. -/
def startsPhrase : Token.Kind -> Bool
  | .name _ | .int _ | .real _ => true
  | .keyword .true | .keyword .false => true
  | .mark .leftParen | .mark .minus | .mark .bang | .mark .tilde => true
  | _ => false

/-- An expression has a first token. -/
theorem Phrase.exists_first
    {category : Category}
    {tokens : List Token}
    {term : Term}
    (phrase : Phrase category tokens term) :
    ∃ first rest, tokens = first :: rest ∧ startsPhrase first.kind = true := by
  induction phrase with
  | tighter _ inductionHypothesis => exact inductionHypothesis
  | infixed line listed _ _ leftHypothesis rightHypothesis =>
      obtain ⟨first, rest, rfl, starts⟩ := leftHypothesis
      exact ⟨first, _, rfl, starts⟩
  | prefixed line listed phrase inductionHypothesis =>
      simp only [prefixSigns, List.mem_cons, List.not_mem_nil, or_false, Prod.mk.injEq] at listed
      refine ⟨_, _, rfl, ?_⟩
      rcases listed with ⟨rfl, _⟩ | ⟨rfl, _⟩ | ⟨rfl, _⟩ <;> rfl
  | _ => exact ⟨_, _, rfl, rfl⟩

/-- A word that makes a parenthesis a cast starts no expression. -/
theorem no_cast_of_startsPhrase
    {kind : Token.Kind}
    (starts : startsPhrase kind = true) :
    ∀ word op, (word, op) ∈ castWords -> kind ≠ .keyword word := by
  rintro word op listed rfl
  simp only [castWords, List.mem_cons, List.not_mem_nil, or_false, Prod.mk.injEq] at listed
  rcases listed with ⟨rfl, _⟩ | ⟨rfl, _⟩ <;> cases starts

end Grammar

namespace Reading

/-- The innermost frame is no operator that would take the first operand of an expression of a
category away from it. -/
def Fits (category : Category) : List Frame -> Prop
  | .unary _ _ :: _ => 6 ≤ category.rank
  | .binary op _ _ :: _ => op.level < category.rank
  | _ => True

/-- Whatever fits a category fits the next tighter one. -/
theorem Fits.tighter
    {category : Category}
    {stack : List Frame}
    (fits : Fits category stack) :
    Fits category.tighter stack := by
  have rank_le := category.rank_le_tighter
  unfold Fits at fits ⊢
  split <;> simp_all <;> omega

/-- No operator is reduced at the level of a category that fits. -/
theorem Fits.reduceOperators_eq
    {category : Category}
    {stack : List Frame}
    (fits : Fits category stack)
    (rank_le : category.rank ≤ 5)
    (forest : Forest)
    (value : ExprId) :
    reduceOperators category.rank forest stack value = (forest, stack, value) := by
  unfold Fits at fits
  unfold reduceOperators
  split
  · simp only at fits
    omega
  · next op line left outer =>
    simp only at fits
    rw [if_neg (by omega)]
  · rfl

/-- A reading waits for an expression of a category. -/
structure Awaits (reading : Reading) (category : Category) : Prop where
  mode_eq : reading.mode = .expression ∨ reading.mode = .operand ∧ category ≠ .expression
  fits : Fits category reading.stack

/-- Only where a whole expression may start is one awaited. -/
theorem Awaits.mode_expression
    {reading : Reading}
    (awaits : reading.Awaits .expression) :
    reading.mode = .expression := by
  rcases awaits.mode_eq with mode_eq | ⟨_, other⟩
  · exact mode_eq
  · exact absurd rfl other

/-- Where an expression is awaited, one of the next tighter category will do. -/
theorem Awaits.tighter
    {reading : Reading}
    {category : Category}
    (awaits : reading.Awaits category) :
    reading.Awaits category.tighter where
  mode_eq := awaits.mode_eq.imp_right fun operand => ⟨operand.1, category.tighter_ne_expression⟩
  fits := awaits.fits.tighter

/-- What has been read is a name that may be the target of an assignment. -/
def MayAssign (reading : Reading) (tokens : List Token) : Prop :=
  reading.mode = .expression ∧ ∃ spelling line, tokens = [⟨.name spelling, line⟩]

/-- A token that ends an expression of a category, which has been read from given tokens. -/
structure Ends (reading : Reading) (category : Category) (tokens : List Token) (token : Token) :
    Prop where
  level_le : ∀ op, infixOp? token = some op -> op.level ≤ category.rank
  no_assign : token.kind = .mark .assign -> category ≠ .expression ∧ ¬reading.MayAssign tokens

/-- A token that is neither an infix sign nor that of an assignment ends every expression. -/
theorem Ends.of_plain
    {reading : Reading}
    {category : Category}
    {tokens : List Token}
    {token : Token}
    (plain : infixOp? token = none)
    (no_assign : token.kind ≠ .mark .assign) :
    reading.Ends category tokens token where
  level_le _ written := absurd written (by simp [plain])
  no_assign assigns := absurd assigns no_assign

/-- After some tokens a reading goes on as if the expression with a syntax tree had just been read,
whichever token ends it. -/
def Takes (reading : Reading) (category : Category) (tokens : List Token) (term : Term) : Prop :=
  ∃ forest value mode, reading.forest.Grows forest ∧ forest.texts = reading.forest.texts ∧
    forest.HoldsTerm value term ∧
    ∀ token, reading.Ends category tokens token ->
      (reading.feedAll tokens).feed token =
        { reading with forest := forest, mode := mode }.afterOperand value token

@[simp] theorem feedAll_nil (reading : Reading) : reading.feedAll [] = reading := rfl

@[simp] theorem feedAll_cons (reading : Reading) (token : Token) (tokens : List Token) :
    reading.feedAll (token :: tokens) = (reading.feed token).feedAll tokens := rfl

@[simp] theorem feedAll_append (reading : Reading) (first second : List Token) :
    reading.feedAll (first ++ second) = (reading.feedAll first).feedAll second :=
  List.foldl_append

section AfterOperand

variable (reading : Reading) (outer : List Frame) (value : ExprId) (token : Token)

/-- A waiting prefix operator takes the operand read last, whatever follows. -/
theorem afterOperand_unary (op : UnaryOp) (line : Line) :
    { reading with stack := .unary op line :: outer }.afterOperand value token =
      { reading with
        stack := outer
        forest := (reading.forest.addExpr line (.unary op value)).2 }.afterOperand
        (reading.forest.addExpr line (.unary op value)).1 token := by
  unfold afterOperand
  cases infixOp? token <;> rfl

/-- A waiting infix operator takes the operand read last if nothing tighter follows. -/
theorem afterOperand_binary
    (op : BinaryOp)
    (line : Line)
    (left : ExprId)
    (level_le : ∀ next, infixOp? token = some next -> next.level ≤ op.level) :
    { reading with stack := .binary op line left :: outer }.afterOperand value token =
      { reading with
        stack := outer
        forest := (reading.forest.addExpr line (.binary op left value)).2 }.afterOperand
        (reading.forest.addExpr line (.binary op left value)).1 token := by
  unfold afterOperand
  cases written : infixOp? token with
  | none => rfl
  | some next =>
      dsimp only
      rw [reduceOperators, if_pos (level_le next written)]

/-- A waiting assignment takes the value read last if the expression ends. -/
theorem afterOperand_assign
    (target : Target)
    (line : Line)
    (fits : Fits .expression outer)
    (plain : infixOp? token = none)
    (no_assign : token.kind ≠ .mark .assign) :
    { reading with stack := .assign target line :: outer }.afterOperand value token =
      { reading with
        stack := outer
        forest := (reading.forest.addExpr line (.assign target value)).2 }.afterOperand
        (reading.forest.addExpr line (.assign target value)).1 token := by
  have outer_eq : ∀ forest value, reduceOperators 0 forest outer value = (forest, outer, value) :=
    fits.reduceOperators_eq (by decide)
  unfold afterOperand
  rw [plain]
  dsimp only [endExpression]
  rw [if_neg no_assign, if_neg no_assign, outer_eq]
  rfl

end AfterOperand

section Modes

variable (reading : Reading) (mode : Mode) (token : Token)

theorem report_mode (error : SyntaxError) :
    { reading with mode := mode }.report error = { reading.report error with mode := mode } := by
  unfold report
  split
  · split <;> rfl
  · rfl

/-- Closing a block does not depend on the mode. -/
theorem closeBlock_mode : { reading with mode := mode }.closeBlock = reading.closeBlock := by
  dsimp only [closeBlock]
  split <;> rfl

/-- Ending the input does not depend on the mode. -/
theorem endInput_mode : { reading with mode := mode }.endInput token = reading.endInput token := by
  rw [endInput, report_mode]
  rfl

/-- Going on after an error does not depend on the mode. -/
theorem resume_mode (next skip : Mode) :
    { reading with mode := mode }.resume token next skip = reading.resume token next skip := by
  unfold resume
  split
  · rfl
  · exact closeBlock_mode _ _
  · exact endInput_mode _ _ _
  · rfl

/-- Giving up a statement does not depend on the mode. -/
theorem fail_mode (error : SyntaxError) :
    { reading with mode := mode }.fail token error = reading.fail token error := by
  rw [fail, report_mode]
  exact resume_mode { reading.report error with
    stack := (reading.report error).stack.dropWhile fun frame => !frame.isBlock } _ _ _ _

/-- Starting an operand does not depend on the mode. -/
theorem operand_mode : { reading with mode := mode }.operand token = reading.operand token := by
  unfold operand
  cases token.kind with
  | keyword word => cases word <;> first | rfl | exact fail_mode _ _ _ _
  | mark mark => cases mark <;> first | rfl | exact fail_mode _ _ _ _
  | text bytes => exact fail_mode _ _ _ _
  | endOfFile => exact fail_mode _ _ _ _
  | _ => rfl

/-- Starting an expression does not depend on the mode. -/
theorem expression_mode :
    { reading with mode := mode }.expression token = reading.expression token := by
  unfold expression
  cases token.kind with
  | name spelling => rfl
  | _ => exact operand_mode _ _ _

end Modes

/-- Where an expression starts, the mode is that of an expression. -/
theorem expression_eq_feed (reading : Reading) (token : Token) :
    reading.expression token = { reading with mode := .expression }.feed token :=
  (expression_mode reading .expression token).symm

section Starts

variable {reading : Reading}

/-- A token that is no name starts an operand where an expression may start. -/
theorem feed_of_awaits
    {category : Category}
    (awaits : reading.Awaits category)
    {token : Token}
    (no_name : ∀ spelling, token.kind ≠ .name spelling) :
    reading.feed token = reading.operand token := by
  rcases awaits.mode_eq with mode_eq | ⟨mode_eq, _⟩
  · simp only [feed, mode_eq]
    unfold expression
    split
    · next spelling kind_eq => exact absurd kind_eq (no_name spelling)
    · rfl
  · simp only [feed, mode_eq]

/-- A mark starts an operand where an expression may start. -/
theorem feed_mark
    {category : Category}
    (awaits : reading.Awaits category)
    (mark : Mark)
    (line : Line) :
    reading.feed ⟨.mark mark, line⟩ = reading.operand ⟨.mark mark, line⟩ :=
  feed_of_awaits awaits (by simp)

/-- A prefix sign opens a frame. -/
theorem operand_prefixed
    {mark : Mark}
    {op : UnaryOp}
    (listed : (mark, op) ∈ prefixSigns)
    (line : Line) :
    reading.operand ⟨.mark mark, line⟩ =
      { reading with stack := .unary op line :: reading.stack, mode := .operand } := by
  simp only [prefixSigns, List.mem_cons, List.not_mem_nil, or_false, Prod.mk.injEq] at listed
  rcases listed with ⟨rfl, rfl⟩ | ⟨rfl, rfl⟩ | ⟨rfl, rfl⟩ <;> rfl

/-- An opening parenthesis, a reserved word for a cast and a closing parenthesis open one frame. -/
theorem feedAll_cast
    {word : Keyword}
    {op : UnaryOp}
    (listed : (word, op) ∈ castWords)
    (line wordLine closeLine : Line) :
    (reading.operand ⟨.mark .leftParen, line⟩).feedAll
        [⟨.keyword word, wordLine⟩, ⟨.mark .rightParen, closeLine⟩] =
      { reading with stack := .unary op line :: reading.stack, mode := .operand } := by
  simp only [castWords, List.mem_cons, List.not_mem_nil, or_false, Prod.mk.injEq] at listed
  rcases listed with ⟨rfl, rfl⟩ | ⟨rfl, rfl⟩ <;> rfl

/-- After an opening parenthesis an expression starts inside a new frame, unless a word makes it a
cast. -/
theorem feed_opened
    {token : Token}
    (no_cast : ∀ word op, (word, op) ∈ castWords -> token.kind ≠ .keyword word)
    (line : Line) :
    { reading with mode := .opened line }.feed token =
      { reading with stack := .group :: reading.stack, mode := .expression }.feed token := by
  have opened : { reading with mode := .opened line }.feed token =
      { reading with stack := .group :: reading.stack, mode := .opened line }.expression token := by
    change afterParen _ line token = _
    unfold afterParen
    cases kind_eq : token.kind with
    | keyword word =>
        cases word with
        | int => exact absurd kind_eq (no_cast _ .toInt (by decide))
        | double => exact absurd kind_eq (no_cast _ .toDouble (by decide))
        | _ => rfl
    | _ => rfl
  rw [opened, expression_mode { reading with stack := .group :: reading.stack }, expression_eq_feed]

/-- A name before the sign of an assignment opens a frame. -/
theorem feed_target
    (mode_eq : reading.mode = .expression)
    (spelling : String)
    (nameLine line : Line) :
    (reading.feed ⟨.name spelling, nameLine⟩).feed ⟨.mark .assign, line⟩ =
      { reading with
        stack := .assign ⟨spelling, nameLine⟩ line :: reading.stack
        mode := .expression } := by
  simp only [feed, mode_eq, expression, afterNameStart, if_true]

end Starts

section Leaves

variable {reading : Reading} {category : Category}

/-- A forest holds the node that was added last. -/
theorem getElem?_addExpr (forest : Forest) (line : Line) (form : ExprForm) :
    (forest.addExpr line form).2.exprs[(forest.addExpr line form).1]? = some ⟨line, form⟩ := by
  simp [Forest.addExpr]

/-- Tokens that lead to a complete operand are taken. -/
theorem takes_value
    {tokens : List Token}
    {term : Term}
    {forest : Forest}
    {value : ExprId}
    (reached : reading.feedAll tokens = { reading with forest := forest, mode := .value value })
    (grows : reading.forest.Grows forest)
    (texts_eq : forest.texts = reading.forest.texts)
    (held : forest.HoldsTerm value term) :
    reading.Takes category tokens term := by
  refine ⟨forest, value, .value value, grows, texts_eq, held, fun token ends => ?_⟩
  rw [reached]
  rfl

/-- A token that is an operand by itself is taken as a node of its own. -/
theorem takes_leaf
    {token : Token}
    {form : ExprForm}
    {term : Term}
    (awaits : reading.Awaits category)
    (no_name : ∀ spelling, token.kind ≠ .name spelling)
    (leaf_eq : reading.operand token = reading.leaf token.line form)
    (held : ∀ (forest : Forest) (id : ExprId), forest.exprs[id]? = some ⟨token.line, form⟩ ->
      forest.HoldsTerm id term) :
    reading.Takes category [token] term := by
  refine takes_value ?_ (.addExpr _ token.line form) rfl (held _ _ (getElem?_addExpr _ _ _))
  rw [feedAll_cons, feed_of_awaits awaits no_name, leaf_eq]
  rfl

/-- A name is taken as a node of its own, unless it turns out to be the target of an assignment. -/
theorem takes_name
    (awaits : reading.Awaits .primary)
    (spelling : String)
    (line : Line) :
    reading.Takes .primary [⟨.name spelling, line⟩] (.name line spelling) := by
  have grows := Forest.Grows.addExpr reading.forest line (.name spelling)
  have held := Forest.HoldsTerm.name (getElem?_addExpr reading.forest line (.name spelling))
  rcases awaits.mode_eq with mode_eq | ⟨mode_eq, _⟩
  · refine ⟨_, _, .nameStart ⟨spelling, line⟩, grows, rfl, held, fun next ends => ?_⟩
    have no_assign : next.kind ≠ .mark .assign := by
      intro assigns
      exact (ends.no_assign assigns).2 ⟨mode_eq, spelling, line, rfl⟩
    simp only [feedAll_cons, feedAll_nil, feed, mode_eq, expression, afterNameStart,
      if_neg no_assign]
    rfl
  · refine takes_value ?_ grows rfl held
    simp only [feedAll_cons, feedAll_nil, feed, mode_eq, operand]
    rfl

end Leaves

section Composition

variable {reading : Reading}

/-- What ends an expression ends it in the next tighter category. -/
theorem Ends.tighter
    {category : Category}
    {tokens : List Token}
    {token : Token}
    (ends : reading.Ends category tokens token) :
    reading.Ends category.tighter tokens token where
  level_le op written := Nat.le_trans (ends.level_le op written) category.rank_le_tighter
  no_assign assigns := ⟨category.tighter_ne_expression, (ends.no_assign assigns).2⟩

/-- Behind a frame that a prefix operator has opened, its operand is read. -/
theorem takes_unary
    (start : List Token)
    {op : UnaryOp}
    {line : Line}
    {tokens : List Token}
    {operand : Term}
    (opened : reading.feedAll start =
      { reading with stack := .unary op line :: reading.stack, mode := .operand })
    (takes : { reading with
      stack := .unary op line :: reading.stack
      mode := .operand }.Takes .unary tokens operand) :
    reading.Takes .unary (start ++ tokens) (.unary line op operand) := by
  obtain ⟨forest, value, mode, grows, texts_eq, held, goes⟩ := takes
  have grows' := Forest.Grows.addExpr forest line (.unary op value)
  refine ⟨_, _, mode, grows.trans grows', texts_eq,
    .unary (getElem?_addExpr _ _ _) (held.mono grows'), fun token ends => ?_⟩
  have ends' : { reading with
      stack := .unary op line :: reading.stack
      mode := .operand }.Ends .unary tokens token :=
    ⟨ends.level_le, fun _ => ⟨by decide, by rintro ⟨⟨⟩, _⟩⟩⟩
  rw [feedAll_append, opened, goes token ends']
  exact afterOperand_unary { reading with forest := forest, mode := mode } _ value token op line

/-- Behind the sign of an assignment, its value is read. -/
theorem takes_assign
    {spelling : String}
    {nameLine line : Line}
    {tokens : List Token}
    {value : Term}
    (awaits : reading.Awaits .expression)
    (takes : ∀ reading : Reading, reading.Awaits .expression ->
      reading.Takes .expression tokens value) :
    reading.Takes .expression (⟨.name spelling, nameLine⟩ :: ⟨.mark .assign, line⟩ :: tokens)
      (.assign line ⟨spelling, nameLine⟩ value) := by
  obtain ⟨forest, valueId, mode, grows, texts_eq, held, goes⟩ := takes
    { reading with
      stack := .assign ⟨spelling, nameLine⟩ line :: reading.stack
      mode := .expression } ⟨.inl rfl, trivial⟩
  have grows' := Forest.Grows.addExpr forest line (.assign ⟨spelling, nameLine⟩ valueId)
  refine ⟨_, _, mode, grows.trans grows', texts_eq,
    .assign (getElem?_addExpr _ _ _) (held.mono grows'), fun token ends => ?_⟩
  have no_assign : token.kind ≠ .mark .assign :=
    fun assigns => (ends.no_assign assigns).1 rfl
  have plain : infixOp? token = none := by
    cases written : infixOp? token with
    | none => rfl
    | some op =>
        have level_le : op.level ≤ 0 := ends.level_le op written
        cases op <;> exact absurd level_le (by decide)
  rw [feedAll_cons, feedAll_cons, feed_target awaits.mode_expression,
    goes token ⟨ends.level_le, fun assigns => absurd assigns no_assign⟩]
  exact afterOperand_assign { reading with forest := forest, mode := mode } _ valueId token _ line
    awaits.fits plain no_assign

/-- Between parentheses an expression is read in a frame of its own. -/
theorem takes_group
    {openLine closeLine : Line}
    {tokens : List Token}
    {term : Term}
    (awaits : reading.Awaits .primary)
    (phrase : Phrase .expression tokens term)
    (takes : ∀ reading : Reading, reading.Awaits .expression ->
      reading.Takes .expression tokens term) :
    reading.Takes .primary
      (⟨.mark .leftParen, openLine⟩ :: tokens ++ [⟨.mark .rightParen, closeLine⟩]) term := by
  obtain ⟨forest, value, mode, grows, texts_eq, held, goes⟩ := takes
    { reading with stack := .group :: reading.stack, mode := .expression } ⟨.inl rfl, trivial⟩
  refine takes_value ?_ grows texts_eq held
  obtain ⟨first, rest, rfl, starts⟩ := phrase.exists_first
  have opened : reading.feed ⟨.mark .leftParen, openLine⟩ =
      { reading with mode := .opened openLine } := feed_mark awaits .leftParen openLine
  rw [List.cons_append, List.cons_append, feedAll_cons, opened, feedAll_cons, feed_opened (no_cast_of_startsPhrase starts),
    ← feedAll_cons, ← List.cons_append, feedAll_append, feedAll_cons, feedAll_nil,
    goes ⟨.mark .rightParen, closeLine⟩ (.of_plain rfl (by simp))]
  rfl

/-- Behind its left operand, an infix operator opens a frame and awaits its right operand. -/
theorem exists_feed_sign
    {category : Category}
    {mark : Mark}
    {op : BinaryOp}
    {tokens : List Token}
    {left : Term}
    (listed : (mark, op) ∈ category.signs)
    (awaits : reading.Awaits category)
    (takes : reading.Takes category tokens left)
    (line : Line) :
    ∃ forest leftId, reading.forest.Grows forest ∧ forest.texts = reading.forest.texts ∧
      forest.HoldsTerm leftId left ∧
      (reading.feedAll tokens).feed ⟨.mark mark, line⟩ =
        { reading with
          stack := .binary op line leftId :: reading.stack
          forest := forest
          mode := .operand } ∧
      { reading with
        stack := .binary op line leftId :: reading.stack
        forest := forest
        mode := .operand }.Awaits category.tighter := by
  obtain ⟨written, level_eq⟩ := Category.mem_signs_iff.1 listed
  obtain ⟨rank_eq, rank_le⟩ := Category.rank_tighter_of_signs listed
  obtain ⟨forest, leftId, mode, grows, texts_eq, held, goes⟩ := takes
  -- The sign ends the left operand, and no operator below it takes that operand.
  have sign_ends : reading.Ends category tokens ⟨.mark mark, line⟩ := by
    refine ⟨fun next next_written => ?_, ?_⟩
    · obtain rfl : op = next := Option.some.inj (written.symm.trans next_written)
      exact Nat.le_of_eq level_eq
    · intro assigns
      cases assigns
      cases written
  refine ⟨forest, leftId, grows, texts_eq, held, ?_, ?_⟩
  · have sign_written : infixOp? ⟨.mark mark, line⟩ = some op := written
    rw [goes _ sign_ends]
    unfold afterOperand
    rw [sign_written]
    dsimp only
    rw [level_eq, awaits.fits.reduceOperators_eq rank_le]
  · refine ⟨.inr ⟨rfl, category.tighter_ne_expression⟩, ?_⟩
    simp only [Fits]
    omega

/-- An infix operator and its right operand are read behind its left operand. -/
theorem takes_binary
    {category : Category}
    {mark : Mark}
    {op : BinaryOp}
    {line : Line}
    {leftTokens rightTokens : List Token}
    {left right : Term}
    (listed : (mark, op) ∈ category.signs)
    (awaits : reading.Awaits category)
    (leftTakes : reading.Takes category leftTokens left)
    (rightTakes : ∀ reading : Reading, reading.Awaits category.tighter ->
      reading.Takes category.tighter rightTokens right) :
    reading.Takes category (leftTokens ++ ⟨.mark mark, line⟩ :: rightTokens)
      (.binary line op left right) := by
  obtain ⟨_, level_eq⟩ := Category.mem_signs_iff.1 listed
  obtain ⟨forest, leftId, grows, texts_eq, leftHeld, opened, rightAwaits⟩ :=
    exists_feed_sign listed awaits leftTakes line
  obtain ⟨forest', rightId, mode, grows', texts_eq', rightHeld, rightGoes⟩ :=
    rightTakes _ rightAwaits
  have grows'' := Forest.Grows.addExpr forest' line (.binary op leftId rightId)
  refine ⟨_, _, mode, grows.trans (grows'.trans grows''), texts_eq'.trans texts_eq,
    .binary (getElem?_addExpr _ _ _) (leftHeld.mono (grows'.trans grows''))
      (rightHeld.mono grows''), fun token ends => ?_⟩
  rw [feedAll_append, feedAll_cons, opened, rightGoes token ?_]
  · refine afterOperand_binary { reading with forest := forest', mode := mode } _ rightId token op
      line leftId fun next next_written => ?_
    rw [level_eq]
    exact ends.level_le next next_written
  · refine ⟨fun next next_written => ?_, fun _ => ⟨category.tighter_ne_expression, ?_⟩⟩
    · exact Nat.le_trans (ends.level_le next next_written) category.rank_le_tighter
    · rintro ⟨⟨⟩, _⟩

end Composition

end Reading

/-- A reading that waits for an expression takes the tokens of every derivation. -/
theorem Grammar.Phrase.takes
    {category : Category}
    {tokens : List Token}
    {term : Term}
    (phrase : Phrase category tokens term)
    (reading : Reading)
    (awaits : reading.Awaits category) :
    reading.Takes category tokens term := by
  induction phrase generalizing reading with
  | tighter phrase inductionHypothesis =>
      obtain ⟨forest, value, mode, grows, texts_eq, held, goes⟩ :=
        inductionHypothesis reading awaits.tighter
      exact ⟨forest, value, mode, grows, texts_eq, held, fun token ends => goes token ends.tighter⟩
  | assign spelling nameLine line phrase inductionHypothesis =>
      exact Reading.takes_assign awaits inductionHypothesis
  | infixed line listed leftPhrase rightPhrase leftHypothesis rightHypothesis =>
      exact Reading.takes_binary listed awaits (leftHypothesis reading awaits) rightHypothesis
  | prefixed line listed phrase inductionHypothesis =>
      refine Reading.takes_unary [_] ?_ (inductionHypothesis _ ⟨.inr ⟨rfl, by decide⟩, ?_⟩)
      · rw [Reading.feedAll_cons, Reading.feed_mark awaits, Reading.operand_prefixed listed]
        rfl
      · exact Nat.le_refl 6
  | cast line wordLine closeLine listed phrase inductionHypothesis =>
      refine Reading.takes_unary [_, _, _] ?_ (inductionHypothesis _ ⟨.inr ⟨rfl, by decide⟩, ?_⟩)
      · rw [Reading.feedAll_cons, Reading.feed_mark awaits]
        exact Reading.feedAll_cast listed line wordLine closeLine
      · exact Nat.le_refl 6
  | name spelling line => exact Reading.takes_name awaits spelling line
  | int value line =>
      exact Reading.takes_leaf awaits (by simp) rfl fun _ _ found => .int found
  | real bits line =>
      exact Reading.takes_leaf awaits (by simp) rfl fun _ _ found => .double found
  | yes line =>
      exact Reading.takes_leaf awaits (by simp) rfl fun _ _ found => .bool found
  | no line =>
      exact Reading.takes_leaf awaits (by simp) rfl fun _ _ found => .bool found
  | group openLine closeLine phrase inductionHypothesis =>
      exact Reading.takes_group awaits phrase inductionHypothesis

end MiniLang
