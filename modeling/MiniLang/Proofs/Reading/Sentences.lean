import MiniLang.Proofs.Reading.Phrases

/-!
# Reading statements and programs along derivations

A complete statement is put into place by the token after it.  So, as for expressions, what holds
after the tokens of a statement is said by what the next token does: it settles the statement on the
old stack.  Statements one after the other are collected in a block or in the body of the program,
and both are treated as one here.
-/

namespace MiniLang

open Grammar

namespace Reading

section Modes

variable (reading : Reading) (mode : Mode) (token : Token)

/-- Starting a statement does not depend on the mode. -/
theorem statement_mode :
    { reading with mode := mode }.statement token = reading.statement token := by
  unfold statement
  cases token.kind with
  | keyword word =>
      cases word <;> first
        | rfl
        | exact expression_mode { reading with stack := .exprStatement token.line :: reading.stack } _ _
  | mark mark =>
      cases mark <;> first
        | rfl
        | exact expression_mode { reading with stack := .exprStatement token.line :: reading.stack } _ _
  | _ =>
      exact expression_mode { reading with stack := .exprStatement token.line :: reading.stack } _ _

/-- Going on in a sequence of statements does not depend on the mode. -/
theorem sequence_mode :
    { reading with mode := mode }.sequence token = reading.sequence token := by
  unfold sequence
  split
  · exact closeBlock_mode _ _
  · exact endInput_mode _ _ _
  · exact statement_mode _ _ _

/-- Settling a statement depends neither on the mode nor on the stack of the reading, only on the
frames that are given. -/
theorem settle_mode
    (stack frames : List Frame)
    (last : StmtId) :
    settle token { reading with stack := stack, mode := mode } frames last =
      settle token reading frames last := by
  induction frames generalizing reading last with
  | nil => exact sequence_mode { reading with stack := [], body := last :: reading.body } _ _
  | cons frame outer inductionHypothesis =>
      cases frame with
      | yesBranch line condition =>
          unfold settle
          split
          · rfl
          · exact inductionHypothesis
              { reading with forest := (reading.forest.addStmt line (.branch condition last none)).2 } _
      | noBranch line condition yes =>
          exact inductionHypothesis
            { reading with
              forest := (reading.forest.addStmt line (.branch condition yes (some last))).2 } _
      | loopBody line condition =>
          exact inductionHypothesis
            { reading with forest := (reading.forest.addStmt line (.loop condition last)).2 } _
      | block line body =>
          exact sequence_mode { reading with stack := .block line (last :: body) :: outer } _ _
      | _ => exact inductionHypothesis reading last

end Modes

/-- Whether a kind of token opens a statement that is no expression statement. -/
def opensStatement : Token.Kind -> Bool
  | .mark .leftBrace => true
  | .keyword .if | .keyword .while | .keyword .read | .keyword .write | .keyword .return => true
  | _ => false

theorem opensStatement_of_startsPhrase
    {kind : Token.Kind}
    (starts : startsPhrase kind = true) :
    opensStatement kind = false := by
  cases kind with
  | keyword word => cases word <;> first | rfl | cases starts
  | mark mark => cases mark <;> first | rfl | cases starts
  | _ => rfl

/-- Every other token starts an expression statement. -/
theorem statement_eq_feed
    {token : Token}
    (plain : opensStatement token.kind = false)
    (reading : Reading) :
    reading.statement token =
      { reading with
        stack := .exprStatement token.line :: reading.stack
        mode := .expression }.feed token := by
  rw [← expression_eq_feed { reading with stack := .exprStatement token.line :: reading.stack }]
  unfold statement
  generalize token.kind = kind at plain
  cases kind with
  | keyword word => cases word <;> first | rfl | cases plain
  | mark mark => cases mark <;> first | rfl | cases plain
  | _ => rfl

/-- After some tokens a reading goes on as if the statement with a syntax tree had just been
completed, unless an alternative follows that belongs inside the statement. -/
def TakesStatement (reading : Reading) (tokens : List Token) (clause : Clause) : Prop :=
  ∃ forest id, reading.forest.Grows forest ∧
    forest.texts.constants.toList = reading.forest.texts.constants.toList ++ clause.texts ∧
    forest.HoldsClause .one reading.forest.texts.size [id] clause ∧
    ∀ token, (clause.endsOpen = true -> token.kind ≠ .keyword .else) ->
      (reading.feedAll tokens).feed token =
        settle token { reading with forest := forest } reading.stack id

/-- Strings that are added are counted. -/
theorem size_of_texts_eq
    {before after : Forest}
    {texts : List (List UInt8)}
    (texts_eq : after.texts.constants.toList = before.texts.constants.toList ++ texts) :
    after.texts.size = before.texts.size + texts.length := by
  have length_eq := congrArg List.length texts_eq
  rwa [List.length_append, Array.length_toList, Array.length_toList] at length_eq

/-- A forest holds the statement that was added last. -/
theorem getElem?_addStmt (forest : Forest) (line : Line) (form : StmtForm) :
    (forest.addStmt line form).2.stmts[(forest.addStmt line form).1]? = some ⟨line, form⟩ := by
  simp [Forest.addStmt]

section Statements

variable {reading : Reading} {tokens : List Token} {clause : Clause}

/-- Tokens that lead to a complete statement are taken. -/
theorem takesStatement_completed
    {forest : Forest}
    {id : StmtId}
    (reached : reading.feedAll tokens = { reading with forest := forest, mode := .completed id })
    (grows : reading.forest.Grows forest)
    (texts_eq : forest.texts.constants.toList =
      reading.forest.texts.constants.toList ++ clause.texts)
    (held : forest.HoldsClause .one reading.forest.texts.size [id] clause) :
    reading.TakesStatement tokens clause := by
  refine ⟨forest, id, grows, texts_eq, held, fun token _ => ?_⟩
  rw [reached]
  exact settle_mode { reading with forest := forest } _ _ _ _ _

/-- The frame that a condition leaves for the statement under it. -/
def inside (construct : Construct) (line : Line) (condition : ExprId) : Frame :=
  match construct with
  | .branch => .yesBranch line condition
  | .loop => .loopBody line condition

/-- The word of a construct and its condition are read up to the statement under the condition. -/
theorem exists_feedAll_condition
    {condition : Term}
    (mode_eq : reading.mode = .statement)
    (phrase : Phrase .expression tokens condition)
    (construct : Construct)
    (line openLine closeLine : Line) :
    ∃ forest value, reading.forest.Grows forest ∧ forest.texts = reading.forest.texts ∧
      forest.HoldsTerm value condition ∧
      reading.feedAll (⟨.keyword construct.keyword, line⟩ :: ⟨.mark .leftParen, openLine⟩ ::
          tokens ++ [⟨.mark .rightParen, closeLine⟩]) =
        { reading with
          stack := inside construct line value :: reading.stack
          forest := forest
          mode := .statement } := by
  obtain ⟨forest, value, mode, grows, texts_eq, held, goes⟩ := phrase.takes
    { reading with stack := .condition construct line :: reading.stack, mode := .expression }
    ⟨.inl rfl, trivial⟩
  have opened : (reading.feed ⟨.keyword construct.keyword, line⟩).feed
      ⟨.mark .leftParen, openLine⟩ =
      { reading with stack := .condition construct line :: reading.stack, mode := .expression } := by
    cases construct <;> simp only [feed, mode_eq] <;> rfl
  refine ⟨forest, value, grows, texts_eq, held, ?_⟩
  rw [List.cons_append, List.cons_append, feedAll_cons, feedAll_cons, opened, feedAll_append,
    feedAll_cons, feedAll_nil, goes ⟨.mark .rightParen, closeLine⟩ (.of_plain rfl (by simp))]
  cases construct <;> rfl

/-- The tokens of an expression statement. -/
theorem takesStatement_expr
    {first : Token}
    {value : Term}
    (mode_eq : reading.mode = .statement)
    (phrase : Phrase .expression (first :: tokens) value)
    (endLine : Line) :
    reading.TakesStatement (first :: tokens ++ [⟨.mark .semicolon, endLine⟩])
      (.expr first.line value) := by
  obtain ⟨forest, id, mode, grows, texts_eq, held, goes⟩ := phrase.takes
    { reading with stack := .exprStatement first.line :: reading.stack, mode := .expression }
    ⟨.inl rfl, trivial⟩
  have grows' := Forest.Grows.addStmt forest first.line (.expr id)
  have opened : reading.feed first =
      { reading with
        stack := .exprStatement first.line :: reading.stack
        mode := .expression }.feed first := by
    obtain ⟨_, _, tokens_eq, starts⟩ := phrase.exists_first
    cases tokens_eq
    simp only [feed, mode_eq]
    exact statement_eq_feed (opensStatement_of_startsPhrase starts) reading
  refine takesStatement_completed ?_ (grows.trans grows') ?_
    (.expr (getElem?_addStmt _ _ _) (held.mono grows'))
  · rw [List.cons_append, feedAll_cons, opened, ← feedAll_cons, ← List.cons_append, feedAll_append,
      feedAll_cons, feedAll_nil, goes ⟨.mark .semicolon, endLine⟩ (.of_plain rfl (by simp))]
    rfl
  · change forest.texts.constants.toList = _
    rw [texts_eq]
    exact (List.append_nil _).symm

section Constructs

variable {conditionTokens : List Token} {condition : Term}

/-- A construct is read up to what follows the statement under its condition. -/
theorem exists_guarded
    (mode_eq : reading.mode = .statement)
    (phrase : Phrase .expression conditionTokens condition)
    (takes : ∀ reading : Reading, reading.mode = .statement -> reading.TakesStatement tokens clause)
    (construct : Construct)
    (line openLine closeLine : Line) :
    ∃ forest value id, reading.forest.Grows forest ∧
      forest.texts.constants.toList = reading.forest.texts.constants.toList ++ clause.texts ∧
      forest.HoldsTerm value condition ∧
      forest.HoldsClause .one reading.forest.texts.size [id] clause ∧
      ∀ token, (clause.endsOpen = true -> token.kind ≠ .keyword .else) ->
        (reading.feedAll (⟨.keyword construct.keyword, line⟩ :: ⟨.mark .leftParen, openLine⟩ ::
          conditionTokens ++ ⟨.mark .rightParen, closeLine⟩ :: tokens)).feed token =
          settle token { reading with forest := forest }
            (inside construct line value :: reading.stack) id := by
  obtain ⟨forest, value, grows, texts_eq, held, reached⟩ :=
    exists_feedAll_condition mode_eq phrase construct line openLine closeLine
  obtain ⟨forest', id, grows', texts_eq', clauseHeld, goes⟩ := takes
    { reading with
      stack := inside construct line value :: reading.stack
      forest := forest
      mode := .statement } rfl
  dsimp only at grows' texts_eq' clauseHeld
  rw [texts_eq] at texts_eq' clauseHeld
  refine ⟨forest', value, id, grows.trans grows', texts_eq', held.mono grows', clauseHeld, ?_⟩
  intro token apart
  rw [List.append_cons, feedAll_append, reached]
  exact (goes token apart).trans (settle_mode { reading with forest := forest' } _ _ _ _ _)

/-- The tokens of a branch without an alternative. -/
theorem takesStatement_branch
    (mode_eq : reading.mode = .statement)
    (phrase : Phrase .expression conditionTokens condition)
    (takes : ∀ reading : Reading, reading.mode = .statement -> reading.TakesStatement tokens clause)
    (line openLine closeLine : Line) :
    reading.TakesStatement (⟨.keyword .if, line⟩ :: ⟨.mark .leftParen, openLine⟩ ::
      conditionTokens ++ ⟨.mark .rightParen, closeLine⟩ :: tokens)
      (.branch line condition clause) := by
  obtain ⟨forest, value, id, grows, texts_eq, held, clauseHeld, goes⟩ :=
    exists_guarded mode_eq phrase takes .branch line openLine closeLine
  have added := Forest.Grows.addStmt forest line (.branch value id none)
  refine ⟨_, _, grows.trans added, texts_eq, .branch (getElem?_addStmt _ _ _) (held.mono added)
    (clauseHeld.mono added), fun token apart => ?_⟩
  have no_else : token.kind ≠ .keyword .else := apart rfl
  have token_goes := goes token fun _ => no_else
  rwa [inside, settle, if_neg no_else] at token_goes

/-- The tokens of a branch with an alternative. -/
theorem takesStatement_choice
    {noTokens : List Token}
    {no : Clause}
    (mode_eq : reading.mode = .statement)
    (phrase : Phrase .expression conditionTokens condition)
    (takes : ∀ reading : Reading, reading.mode = .statement -> reading.TakesStatement tokens clause)
    (closed : clause.endsOpen = false)
    (noTakes : ∀ reading : Reading, reading.mode = .statement ->
      reading.TakesStatement noTokens no)
    (line openLine closeLine elseLine : Line) :
    reading.TakesStatement (⟨.keyword .if, line⟩ :: ⟨.mark .leftParen, openLine⟩ ::
      conditionTokens ++ ⟨.mark .rightParen, closeLine⟩ :: tokens ++
      ⟨.keyword .else, elseLine⟩ :: noTokens) (.choice line condition clause no) := by
  obtain ⟨forest, value, id, grows, texts_eq, held, clauseHeld, goes⟩ :=
    exists_guarded mode_eq phrase takes .branch line openLine closeLine
  have else_goes := goes ⟨.keyword .else, elseLine⟩ (by simp [closed])
  rw [inside, settle, if_pos rfl] at else_goes
  obtain ⟨forest', noId, grows', texts_eq', noHeld, noGoes⟩ := noTakes
    { reading with
      stack := .noBranch line value id :: reading.stack
      forest := forest
      mode := .statement } rfl
  dsimp only at grows' texts_eq' noHeld
  rw [size_of_texts_eq texts_eq] at noHeld
  have added := Forest.Grows.addStmt forest' line (.branch value id (some noId))
  refine ⟨_, _, grows.trans (grows'.trans added), ?_, .choice (getElem?_addStmt _ _ _)
    (held.mono (grows'.trans added)) (clauseHeld.mono (grows'.trans added)) (noHeld.mono added),
    fun token apart => ?_⟩
  · refine texts_eq'.trans ?_
    rw [texts_eq, List.append_assoc]
    rfl
  · have token_goes := noGoes token apart
    rw [settle] at token_goes
    rw [feedAll_append, feedAll_cons]
    refine Eq.trans (congrArg (fun reading => (feedAll reading noTokens).feed token) else_goes)
      (token_goes.trans ?_)
    exact settle_mode { reading with
      forest := (forest'.addStmt line (.branch value id (some noId))).2 } _ _ _ _ _

/-- The tokens of a loop. -/
theorem takesStatement_loop
    (mode_eq : reading.mode = .statement)
    (phrase : Phrase .expression conditionTokens condition)
    (takes : ∀ reading : Reading, reading.mode = .statement -> reading.TakesStatement tokens clause)
    (line openLine closeLine : Line) :
    reading.TakesStatement (⟨.keyword .while, line⟩ :: ⟨.mark .leftParen, openLine⟩ ::
      conditionTokens ++ ⟨.mark .rightParen, closeLine⟩ :: tokens)
      (.loop line condition clause) := by
  obtain ⟨forest, value, id, grows, texts_eq, held, clauseHeld, goes⟩ :=
    exists_guarded mode_eq phrase takes .loop line openLine closeLine
  have added := Forest.Grows.addStmt forest line (.loop value id)
  refine ⟨_, _, grows.trans added, texts_eq, .loop (getElem?_addStmt _ _ _) (held.mono added)
    (clauseHeld.mono added), fun token apart => ?_⟩
  have token_goes := goes token apart
  rwa [inside, settle] at token_goes

end Constructs

/-- The tokens of a statement that reads a variable. -/
theorem takesStatement_read
    {format : Format}
    (mode_eq : reading.mode = .statement)
    (suffix : Suffix tokens format)
    (line nameLine endLine : Line)
    (spelling : String) :
    reading.TakesStatement (⟨.keyword .read, line⟩ :: ⟨.name spelling, nameLine⟩ :: tokens ++
      [⟨.mark .semicolon, endLine⟩]) (.read line ⟨spelling, nameLine⟩ format) := by
  refine takesStatement_completed ?_ (.addStmt _ line (.read ⟨spelling, nameLine⟩ format))
    (List.append_nil _).symm (.read (getElem?_addStmt _ _ _))
  have opened : reading.feed ⟨.keyword .read, line⟩ = { reading with mode := .readTarget line } := by
    simp only [feed, mode_eq, statement]
  rw [List.cons_append, feedAll_cons, opened]
  cases suffix <;> rfl

/-- A value to be written starts inside a new frame. -/
theorem feed_writeStart
    {token : Token}
    (no_text : ∀ bytes, token.kind ≠ .text bytes)
    (reading : Reading)
    (line : Line) :
    { reading with mode := .writeStart line }.feed token =
      { reading with
        stack := .writeValue line :: reading.stack
        mode := .expression }.feed token := by
  have started : { reading with mode := .writeStart line }.feed token =
      { reading with
        stack := .writeValue line :: reading.stack
        mode := .writeStart line }.expression token := by
    change writeStart _ line token = _
    unfold writeStart
    split
    · next bytes kind_eq => exact absurd kind_eq (no_text bytes)
    · rfl
  rw [started, expression_mode { reading with stack := .writeValue line :: reading.stack },
    expression_eq_feed]

/-- The tokens of a statement that writes a value. -/
theorem takesStatement_write
    {valueTokens : List Token}
    {value : Term}
    {format : Format}
    (mode_eq : reading.mode = .statement)
    (phrase : Phrase .expression valueTokens value)
    (suffix : Suffix tokens format)
    (line endLine : Line) :
    reading.TakesStatement (⟨.keyword .write, line⟩ :: valueTokens ++ tokens ++
      [⟨.mark .semicolon, endLine⟩]) (.write line value format) := by
  obtain ⟨forest, id, mode, grows, texts_eq, held, goes⟩ := phrase.takes
    { reading with stack := .writeValue line :: reading.stack, mode := .expression }
    ⟨.inl rfl, trivial⟩
  have added := Forest.Grows.addStmt forest line (.write id format)
  have opened : reading.feedAll (⟨.keyword .write, line⟩ :: valueTokens) =
      { reading with
        stack := .writeValue line :: reading.stack
        mode := .expression }.feedAll valueTokens := by
    obtain ⟨first, rest, rfl, starts⟩ := phrase.exists_first
    have write_feed : reading.feed ⟨.keyword .write, line⟩ =
        { reading with mode := .writeStart line } := by
      simp only [feed, mode_eq, statement]
    have no_text : ∀ bytes, first.kind ≠ .text bytes := by
      intro bytes kind_eq
      rw [kind_eq] at starts
      cases starts
    rw [feedAll_cons, write_feed, feedAll_cons, feed_writeStart no_text]
    rfl
  refine takesStatement_completed ?_ (grows.trans added) ?_
    (.write (getElem?_addStmt _ _ _) (held.mono added))
  · rw [List.append_assoc, feedAll_append, opened]
    cases suffix with
    | plain =>
        rw [List.nil_append, feedAll_cons,
          goes ⟨.mark .semicolon, endLine⟩ (.of_plain rfl (by simp))]
        rfl
    | hex commaLine wordLine =>
        rw [List.cons_append, feedAll_cons,
          goes ⟨.mark .comma, commaLine⟩ (.of_plain rfl (by simp))]
        rfl
  · change forest.texts.constants.toList = _
    rw [texts_eq]
    exact (List.append_nil _).symm

/-- The tokens of a statement that writes a string. -/
theorem takesStatement_writeText
    (mode_eq : reading.mode = .statement)
    (line textLine endLine : Line)
    (bytes : List UInt8) :
    reading.TakesStatement
      [⟨.keyword .write, line⟩, ⟨.text bytes, textLine⟩, ⟨.mark .semicolon, endLine⟩]
      (.writeText line bytes) := by
  have held : (reading.forest.addText line bytes).2.HoldsClause .one reading.forest.texts.size
      [(reading.forest.addText line bytes).1] (.writeText line bytes) := by
    refine .writeText ?_ ?_
    · simp [Forest.addText, Forest.addStmt, TextPool.add]
    · simp [Forest.addText, Forest.addStmt, TextPool.add, TextPool.size]
  have opened : reading.feed ⟨.keyword .write, line⟩ =
      { reading with mode := .writeStart line } := by
    simp only [feed, mode_eq, statement]
  refine takesStatement_completed ?_ (.addText _ line bytes) Array.toList_push held
  rw [feedAll_cons, opened]
  rfl

/-- The tokens of the statement that leaves the program. -/
theorem takesStatement_leave
    (mode_eq : reading.mode = .statement)
    (line endLine : Line) :
    reading.TakesStatement [⟨.keyword .return, line⟩, ⟨.mark .semicolon, endLine⟩]
      (.leave line) := by
  refine takesStatement_completed ?_ (.addStmt _ line .leave) (List.append_nil _).symm
    (.leave (getElem?_addStmt _ _ _))
  have opened : reading.feed ⟨.keyword .return, line⟩ = { reading with mode := .leaveEnd line } := by
    simp only [feed, mode_eq, statement]
  rw [feedAll_cons, opened]
  rfl

end Statements

/-- A place where statements are collected, given as a reading for every forest and all statements
collected so far, last one first. -/
structure Collects (place : Forest -> List StmtId -> Reading) : Prop where
  mode_eq : ∀ forest ids, (place forest ids).mode = .sequence
  with_forest : ∀ forest forest' ids,
    { place forest ids with forest := forest' } = place forest' ids
  settle_eq : ∀ forest ids last token,
    settle token (place forest ids) (place forest ids).stack last =
      (place forest (last :: ids)).sequence token

/-- The block that has just been opened collects statements. -/
theorem collects_block (reading : Reading) (line : Line) :
    Collects fun forest ids =>
      { reading with
        stack := .block line ids :: reading.stack
        forest := forest
        mode := .sequence } where
  mode_eq _ _ := rfl
  with_forest _ _ _ := rfl
  settle_eq _ _ _ _ := rfl

/-- Where no frame is open, the body of the program collects statements. -/
theorem collects_body
    (reading : Reading)
    (stack_eq : reading.stack = []) :
    Collects fun forest ids =>
      { reading with body := ids, forest := forest, mode := .sequence } where
  mode_eq _ _ := rfl
  with_forest _ _ _ := rfl
  settle_eq forest ids last token := by
    simp only [stack_eq]
    rfl

namespace Collects

variable {place : Forest -> List StmtId -> Reading}

theorem forest_eq
    (collects : Collects place)
    (forest : Forest)
    (ids : List StmtId) :
    (place forest ids).forest = forest :=
  (congrArg Reading.forest (collects.with_forest forest forest ids)).symm

/-- The next token goes on in a sequence of statements. -/
theorem feed_eq
    (collects : Collects place)
    (forest : Forest)
    (ids : List StmtId)
    (token : Token) :
    (place forest ids).feed token = (place forest ids).sequence token := by
  simp only [feed, collects.mode_eq]

/-- A statement that is taken behind the collected ones is collected. -/
theorem exists_next
    {tokens : List Token}
    {clause : Clause}
    (collects : Collects place)
    (forest : Forest)
    (ids : List StmtId)
    (takes : { place forest ids with mode := .statement }.TakesStatement tokens clause) :
    ∃ forest' id, forest.Grows forest' ∧
      forest'.texts.constants.toList = forest.texts.constants.toList ++ clause.texts ∧
      forest'.HoldsClause .one forest.texts.size [id] clause ∧
      ∀ token, (clause.endsOpen = true -> token.kind ≠ .keyword .else) ->
        ({ place forest ids with mode := .statement }.feedAll tokens).feed token =
          (place forest' (id :: ids)).feed token := by
  obtain ⟨forest', id, grows, texts_eq, held, goes⟩ := takes
  dsimp only at grows texts_eq held
  rw [collects.forest_eq] at grows texts_eq held
  refine ⟨forest', id, grows, texts_eq, held, fun token apart => ?_⟩
  have settled := collects.settle_eq forest' ids id token
  rw [← collects.with_forest forest forest' ids] at settled
  rw [goes token apart, collects.feed_eq, ← settled]
  exact settle_mode { place forest ids with forest := forest' } .statement token _ _ _

end Collects

/-- After some tokens statements have been collected, wherever they are collected. -/
def TakesSequence (tokens : List Token) (clause : Clause) : Prop :=
  ∀ (place : Forest -> List StmtId -> Reading), Collects place -> ∀ forest ids,
    ∃ forest' added, forest.Grows forest' ∧
      forest'.texts.constants.toList = forest.texts.constants.toList ++ clause.texts ∧
      forest'.HoldsClause .many forest.texts.size added clause ∧
      ∀ token, token.kind ≠ .keyword .else ->
        ((place forest ids).feedAll tokens).feed token =
          (place forest' (added.reverse ++ ids)).feed token

/-- The tokens of a block. -/
theorem takesStatement_block
    {reading : Reading}
    {tokens : List Token}
    {body : Clause}
    (mode_eq : reading.mode = .statement)
    (takes : TakesSequence tokens body)
    (line closeLine : Line) :
    reading.TakesStatement
      (⟨.mark .leftBrace, line⟩ :: tokens ++ [⟨.mark .rightBrace, closeLine⟩])
      (.block line body) := by
  obtain ⟨forest, ids, grows, texts_eq, held, goes⟩ :=
    takes _ (collects_block reading line) reading.forest []
  have added := Forest.Grows.addStmt forest line (.block ids)
  refine takesStatement_completed ?_ (grows.trans added) texts_eq
    (.block (getElem?_addStmt _ _ _) (held.mono added))
  have opened : reading.feed ⟨.mark .leftBrace, line⟩ =
      { reading with stack := .block line [] :: reading.stack, mode := .sequence } := by
    simp only [feed, mode_eq, statement]
  have closed := goes ⟨.mark .rightBrace, closeLine⟩ (by simp)
  rw [List.append_nil] at closed
  rw [List.cons_append, feedAll_cons, opened, feedAll_append, feedAll_cons, feedAll_nil, closed]
  simp only [feed, sequence, closeBlock, complete, List.reverse_reverse]

end Reading

namespace Grammar

/-- Whether a statement can start with a kind of token. -/
def startsSentence (kind : Token.Kind) : Bool :=
  startsPhrase kind || Reading.opensStatement kind

/-- A statement has a first token. -/
theorem Sentence.exists_first
    {extent : Extent}
    {tokens : List Token}
    {clause : Clause}
    (sentence : Sentence extent tokens clause) :
    extent = .many ∧ tokens = [] ∨
      ∃ first rest, tokens = first :: rest ∧ startsSentence first.kind = true := by
  induction sentence with
  | none => exact .inl ⟨rfl, rfl⟩
  | next _ _ firstHypothesis _ =>
      obtain ⟨⟨⟩, _⟩ | ⟨first, rest, rfl, starts⟩ := firstHypothesis
      exact .inr ⟨first, _, rfl, starts⟩
  | expr endLine phrase =>
      obtain ⟨_, _, ⟨⟩, starts⟩ := phrase.exists_first
      exact .inr ⟨_, _, rfl, by rw [startsSentence, starts, Bool.true_or]⟩
  | _ => exact .inr ⟨_, _, rfl, rfl⟩

/-- A token that starts a statement is no alternative and ends no block. -/
theorem ne_of_startsSentence
    {kind : Token.Kind}
    (starts : startsSentence kind = true) :
    kind ≠ .keyword .else ∧ kind ≠ .mark .rightBrace ∧ kind ≠ .endOfFile := by
  refine ⟨?_, ?_, ?_⟩ <;> rintro rfl <;> cases starts

/-- A token that starts a statement goes on in a sequence as it would alone. -/
theorem sequence_eq_feed
    {token : Token}
    (goes_on : token.kind ≠ .mark .rightBrace ∧ token.kind ≠ .endOfFile)
    (reading : Reading) :
    reading.sequence token = { reading with mode := .statement }.feed token := by
  have statement_eq : { reading with mode := .statement }.feed token = reading.statement token :=
    Reading.statement_mode reading .statement token
  rw [statement_eq]
  unfold Reading.sequence
  split
  · next kind_eq => exact absurd kind_eq goes_on.1
  · next kind_eq => exact absurd kind_eq goes_on.2
  · rfl

/-- What a reading does with the tokens of statements. -/
def Sentence.Taken : Extent -> List Token -> Clause -> Prop
  | .one, tokens, clause =>
      ∀ reading : Reading, reading.mode = .statement -> reading.TakesStatement tokens clause
  | .many, tokens, clause => Reading.TakesSequence tokens clause

/-- One more statement is taken before others. -/
theorem Sentence.taken_next
    {firstTokens restTokens : List Token}
    {first rest : Clause}
    (firstSentence : Sentence .one firstTokens first)
    (restSentence : Sentence .many restTokens rest)
    (firstTaken : Sentence.Taken .one firstTokens first)
    (restTaken : Sentence.Taken .many restTokens rest) :
    Reading.TakesSequence (firstTokens ++ restTokens) (.seq first rest) := by
  intro place collects forest ids
  obtain ⟨forest', id, grows, texts_eq, held, goes⟩ :=
    collects.exists_next forest ids (firstTaken _ rfl)
  obtain ⟨forest'', added, grows', texts_eq', restHeld, restGoes⟩ :=
    restTaken place collects forest' (id :: ids)
  rw [Reading.size_of_texts_eq texts_eq] at restHeld
  have started : (place forest ids).feedAll firstTokens =
      { place forest ids with mode := .statement }.feedAll firstTokens := by
    obtain ⟨⟨⟩, _⟩ | ⟨token, tokens, rfl, starts⟩ := firstSentence.exists_first
    rw [Reading.feedAll_cons, collects.feed_eq,
      sequence_eq_feed (ne_of_startsSentence starts).2]
    rfl
  refine ⟨forest'', id :: added, grows.trans grows', ?_, .seq (held.mono grows') restHeld,
    fun token no_else => ?_⟩
  · rw [texts_eq', texts_eq, List.append_assoc]
    rfl
  · rw [Reading.feedAll_append, started, List.reverse_cons, List.append_assoc,
      List.singleton_append, ← restGoes token no_else]
    -- The first token after the statement collects it.
    obtain ⟨_, rfl⟩ | ⟨next, tokens, rfl, starts⟩ := restSentence.exists_first
    · exact goes token fun _ => no_else
    · rw [Reading.feedAll_cons, Reading.feedAll_cons,
        goes next fun _ => (ne_of_startsSentence starts).1]

/-- A reading takes the tokens of every derivation of statements. -/
theorem Sentence.taken
    {extent : Extent}
    {tokens : List Token}
    {clause : Clause}
    (sentence : Sentence extent tokens clause) :
    Sentence.Taken extent tokens clause := by
  induction sentence with
  | none =>
      intro place collects forest ids
      exact ⟨forest, [], .refl forest, (List.append_nil _).symm, .done _, fun _ _ => rfl⟩
  | next firstSentence restSentence firstHypothesis restHypothesis =>
      exact Sentence.taken_next firstSentence restSentence firstHypothesis restHypothesis
  | block line closeLine sentence inductionHypothesis =>
      intro reading mode_eq
      exact Reading.takesStatement_block mode_eq inductionHypothesis line closeLine
  | expr endLine phrase =>
      intro reading mode_eq
      exact Reading.takesStatement_expr mode_eq phrase endLine
  | branch line openLine closeLine phrase yesSentence yesHypothesis =>
      intro reading mode_eq
      exact Reading.takesStatement_branch mode_eq phrase yesHypothesis line openLine closeLine
  | choice line openLine closeLine elseLine phrase yesSentence closed noSentence yesHypothesis
      noHypothesis =>
      intro reading mode_eq
      exact Reading.takesStatement_choice mode_eq phrase yesHypothesis closed noHypothesis line
        openLine closeLine elseLine
  | loop line openLine closeLine phrase sentence inductionHypothesis =>
      intro reading mode_eq
      exact Reading.takesStatement_loop mode_eq phrase inductionHypothesis line openLine closeLine
  | read line nameLine endLine spelling suffix =>
      intro reading mode_eq
      exact Reading.takesStatement_read mode_eq suffix line nameLine endLine spelling
  | write line endLine phrase suffix =>
      intro reading mode_eq
      exact Reading.takesStatement_write mode_eq phrase suffix line endLine
  | writeText line textLine endLine bytes =>
      intro reading mode_eq
      exact Reading.takesStatement_writeText mode_eq line textLine endLine bytes
  | leave line endLine =>
      intro reading mode_eq
      exact Reading.takesStatement_leave mode_eq line endLine

section Declarations

variable {reading : Reading} {tokens : List Token} {declarations : List Declaration}

/-- The names of a declaration are read up to what follows the last one. -/
theorem Names.feedAll_eq
    {type : ValueType}
    (names : Names type tokens declarations)
    (mode_eq : reading.mode = .declaredName type) :
    reading.feedAll tokens =
      { reading with
        declarations := reading.declarations ++ declarations.toArray
        mode := .afterName type } := by
  induction names generalizing reading with
  | last spelling line =>
      simp only [Reading.feedAll_cons, Reading.feedAll_nil, Reading.feed, mode_eq,
        Reading.declaredName]
      rfl
  | more spelling line commaLine names inductionHypothesis =>
      have named : (reading.feed ⟨.name spelling, line⟩).feed ⟨.mark .comma, commaLine⟩ =
          { reading with
            declarations := reading.declarations.push ⟨spelling, type, line⟩
            mode := .declaredName type } := by
        simp only [Reading.feed, mode_eq, Reading.declaredName, Reading.afterName]
      rw [Reading.feedAll_cons, Reading.feedAll_cons, named, inductionHypothesis rfl]
      simp

/-- The semicolon after the names ends the declaration. -/
theorem Names.feed_end
    {type : ValueType}
    (names : Names type tokens declarations)
    (mode_eq : reading.mode = .declaredName type)
    (endLine : Line) :
    (reading.feedAll tokens).feed ⟨.mark .semicolon, endLine⟩ =
      { reading with
        declarations := reading.declarations ++ declarations.toArray
        mode := .declarations } := by
  rw [names.feedAll_eq mode_eq]
  rfl

/-- The word for a type starts a declaration. -/
theorem feed_typeWord
    {word : Keyword}
    {type : ValueType}
    (listed : (word, type) ∈ typeWords)
    (mode_eq : reading.mode = .declarations)
    (line : Line) :
    reading.feed ⟨.keyword word, line⟩ = { reading with mode := .declaredName type } := by
  simp only [typeWords, List.mem_cons, List.not_mem_nil, or_false, Prod.mk.injEq] at listed
  simp only [Reading.feed, mode_eq]
  rcases listed with ⟨rfl, rfl⟩ | ⟨rfl, rfl⟩ | ⟨rfl, rfl⟩ <;> rfl

/-- The declarations of a program are read one after the other. -/
theorem Declares.feedAll_eq
    (declares : Declares tokens declarations)
    (mode_eq : reading.mode = .declarations) :
    reading.feedAll tokens =
      { reading with declarations := reading.declarations ++ declarations.toArray } := by
  induction declares generalizing reading with
  | none => simp
  | next line endLine listed names declares inductionHypothesis =>
      rw [List.cons_append, Reading.feedAll_cons, feed_typeWord listed mode_eq,
        Reading.feedAll_append, Reading.feedAll_cons, names.feed_end rfl, inductionHypothesis rfl]
      simp [mode_eq]

end Declarations

/-- A token that names no type ends the declarations. -/
theorem feed_declarations
    {token : Token}
    (no_type : ∀ word type, (word, type) ∈ typeWords -> token.kind ≠ .keyword word)
    (reading : Reading) :
    { reading with mode := .declarations }.feed token =
      { reading with mode := .sequence }.feed token := by
  have ended : { reading with mode := .declarations }.feed token =
      { reading with mode := .declarations }.sequence token := by
    change Reading.declaration _ token = _
    unfold Reading.declaration
    cases kind_eq : token.kind with
    | keyword word =>
        cases word with
        | int => exact absurd kind_eq (no_type _ .int (by decide))
        | double => exact absurd kind_eq (no_type _ .double (by decide))
        | bool => exact absurd kind_eq (no_type _ .bool (by decide))
        | _ => rfl
    | _ => rfl
  rw [ended, Reading.sequence_mode]
  exact (Reading.sequence_mode reading .sequence token).symm

/-- A token that starts a statement names no type. -/
theorem no_type_of_startsSentence
    {kind : Token.Kind}
    (starts : startsSentence kind = true) :
    ∀ word type, (word, type) ∈ typeWords -> kind ≠ .keyword word := by
  rintro word type listed rfl
  simp only [typeWords, List.mem_cons, List.not_mem_nil, or_false, Prod.mk.injEq] at listed
  rcases listed with ⟨rfl, _⟩ | ⟨rfl, _⟩ | ⟨rfl, _⟩ <;> cases starts

/-- A list that holds the end of the file is read as it is. -/
theorem input_eq (tokens : List Token) (line : Line) :
    Reading.input (tokens ++ [⟨.endOfFile, line⟩]) = tokens ++ [⟨.endOfFile, line⟩] := by
  simp [Reading.input]

/-- The tokens of a program are read to the end without an error, and the forest holds the tree of
their derivation. -/
theorem Derives.exists_ofTokens
    {tokens : List Token}
    {tree : SyntaxTree}
    (derives : Derives tokens tree)
    (line : Line) :
    ∃ forest ids,
      Reading.ofTokens (tokens ++ [⟨.endOfFile, line⟩]) =
        { mode := .ended
          body := ids.reverse
          declarations := tree.declarations.toArray
          forest := forest } ∧
      forest.HoldsClause .many 0 ids tree.body ∧
      forest.texts.constants.toList = tree.body.texts := by
  cases derives with
  | @program wordLine openLine closeLine declarationTokens bodyTokens declarations body declares
      sentence =>
      have started : Reading.start.feedAll
          (⟨.keyword .program, wordLine⟩ :: ⟨.mark .leftBrace, openLine⟩ :: declarationTokens) =
          { declarations := declarations.toArray, mode := .declarations } := by
        rw [Reading.feedAll_cons, Reading.feedAll_cons, declares.feedAll_eq rfl]
        simp [Reading.start, Reading.feed, Reading.programWord, Reading.openingBrace]
      obtain ⟨forest, ids, _, texts_eq, held, goes⟩ := sentence.taken _
        (Reading.collects_body { declarations := declarations.toArray, mode := .sequence } rfl) {} []
      refine ⟨forest, ids, ?_, held, texts_eq⟩
      have closed := goes ⟨.mark .rightBrace, closeLine⟩ (by simp)
      rw [List.append_nil] at closed
      -- Whatever follows the declarations names no type, be it a statement or the closing brace.
      have after_declarations : Reading.feedAll
          { declarations := declarations.toArray, mode := .declarations }
          (bodyTokens ++ [⟨.mark .rightBrace, closeLine⟩]) =
          Reading.feedAll { declarations := declarations.toArray, mode := .sequence }
            (bodyTokens ++ [⟨.mark .rightBrace, closeLine⟩]) := by
        obtain ⟨_, rfl⟩ | ⟨first, rest, rfl, starts⟩ := sentence.exists_first
        · rfl
        · have first_eq := feed_declarations (no_type_of_startsSentence starts)
            { declarations := declarations.toArray }
          rw [List.cons_append, Reading.feedAll_cons, first_eq]
          rfl
      unfold Reading.ofTokens
      rw [input_eq, Reading.feedAll_append, List.append_assoc, Reading.feedAll_append, started,
        after_declarations, Reading.feedAll_append]
      exact congrArg (Reading.feed · ⟨.endOfFile, line⟩) closed

end Grammar
end MiniLang
