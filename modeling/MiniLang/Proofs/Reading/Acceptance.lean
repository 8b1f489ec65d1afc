import MiniLang.Proofs.Reading.Errors
import MiniLang.Proofs.Reading.Phrases

/-!
# Expressions that are read without an error

If a reading that waits for an expression goes on to the end of the tokens without an error, the
tokens start with an expression of the grammar, and it extends as far as it can.  The proof follows
the grammar from the tightest category to the loosest, by induction on the number of tokens; what
the reading does with the expressions found so far is known from their derivations.
-/

namespace MiniLang

open Grammar

namespace Reading

/-- The last token is the end of the file. -/
def Ended (tokens : List Token) : Prop :=
  ∃ inner line, tokens = inner ++ [⟨.endOfFile, line⟩]

/-- Behind a token that is not the last one, the last token is the same. -/
theorem Ended.tail
    {token : Token}
    {rest : List Token}
    (ended : Ended (token :: rest))
    (goes_on : rest ≠ [] ∨ token.kind ≠ .endOfFile) :
    Ended rest := by
  obtain ⟨inner, line, tokens_eq⟩ := ended
  cases inner with
  | nil =>
      cases tokens_eq
      simp at goes_on
  | cons first inner =>
      cases tokens_eq
      exact ⟨inner, line, rfl⟩

theorem Ended.drop
    {first : List Token}
    {token : Token}
    {rest : List Token}
    (ended : Ended (first ++ token :: rest)) :
    Ended (token :: rest) := by
  induction first with
  | nil => exact ended
  | cons head first inductionHypothesis =>
      exact inductionHypothesis (ended.tail (.inl (by simp)))

/-- The tokens that remain are read to the end of the file without an error. -/
structure Accepts (reading : Reading) (tokens : List Token) : Prop where
  ended : Ended tokens
  clean : ¬(reading.feedAll tokens).Broken

namespace Accepts

variable {reading : Reading} {token : Token} {first tokens rest : List Token}

theorem exists_cons (accepts : reading.Accepts tokens) : ∃ token rest, tokens = token :: rest := by
  obtain ⟨inner, line, rfl⟩ := accepts.ended
  cases inner with
  | nil => exact ⟨_, _, rfl⟩
  | cons token inner => exact ⟨_, _, rfl⟩

/-- What is accepted is accepted behind its first tokens. -/
theorem drop (accepts : reading.Accepts (first ++ token :: rest)) :
    (reading.feedAll first).Accepts (token :: rest) where
  ended := accepts.ended.drop
  clean := by
    have clean := accepts.clean
    rwa [feedAll_append] at clean

/-- The next token is accepted. -/
theorem not_broken (accepts : reading.Accepts (token :: rest)) : ¬(reading.feed token).Broken :=
  fun broken => accepts.clean (broken.feedAll rest)

/-- What is accepted is accepted behind the next token. -/
theorem next
    (accepts : reading.Accepts (token :: rest))
    (goes_on : token.kind ≠ .endOfFile) :
    (reading.feed token).Accepts rest where
  ended := accepts.ended.tail (.inr goes_on)
  clean := accepts.clean

/-- Acceptance depends only on what the next token does. -/
theorem of_feed_eq
    {other : Reading}
    (accepts : reading.Accepts (token :: rest))
    (feed_eq : reading.feed token = other.feed token) :
    other.Accepts (token :: rest) where
  ended := accepts.ended
  clean := by
    have clean := accepts.clean
    rwa [feedAll_cons, feed_eq] at clean

/-- Where every token but those of some kinds is refused, one of these follows. -/
theorem expect
    (accepts : reading.Accepts tokens)
    (good : Token.Kind -> Prop)
    (no_end : ¬good .endOfFile)
    (refused : ∀ token, ¬good token.kind -> (reading.feed token).Broken) :
    ∃ kind line rest, tokens = ⟨kind, line⟩ :: rest ∧ good kind ∧
      (reading.feed ⟨kind, line⟩).Accepts rest := by
  obtain ⟨⟨kind, line⟩, rest, rfl⟩ := accepts.exists_cons
  have isGood : good kind :=
    Classical.byContradiction fun bad => accepts.not_broken (refused ⟨kind, line⟩ bad)
  refine ⟨kind, line, rest, rfl, isGood, accepts.next ?_⟩
  rintro rfl
  exact no_end isGood

/-- Where every token but those of one kind is refused, one of that kind follows. -/
theorem expect_kind
    (accepts : reading.Accepts tokens)
    (kind : Token.Kind)
    (no_end : kind ≠ .endOfFile)
    (refused : ∀ token, token.kind ≠ kind -> (reading.feed token).Broken) :
    ∃ line rest, tokens = ⟨kind, line⟩ :: rest ∧ (reading.feed ⟨kind, line⟩).Accepts rest := by
  obtain ⟨_, line, rest, tokens_eq, rfl, accepts⟩ :=
    accepts.expect (· = kind) no_end.symm refused
  exact ⟨line, rest, tokens_eq, accepts⟩

end Accepts

/-- A token that cannot extend an expression of a category. -/
structure Stops (category : Category) (token : Token) : Prop where
  level_lt : ∀ op, infixOp? token = some op -> op.level < category.rank
  no_assign : category = .expression -> token.kind ≠ .mark .assign

/-- Infix operators are looser than prefix operators and tighter than assignments. -/
theorem level_bounds (op : BinaryOp) : 1 ≤ op.level ∧ op.level ≤ 5 := by
  cases op <;> decide

/-- No infix operator extends an operand of a prefix operator. -/
theorem stops_unary (token : Token) : Stops .unary token where
  level_lt op _ := Nat.lt_succ_of_le (level_bounds op).2
  no_assign := by simp

/-- What stops a logical expression, or any expression, is no infix sign. -/
theorem infixOp?_eq_none
    {category : Category}
    {token : Token}
    (stops : Stops category token)
    (rank_le : category.rank ≤ 1) :
    infixOp? token = none := by
  cases written : infixOp? token with
  | none => rfl
  | some op =>
      have level_lt := stops.level_lt op written
      have level_pos := (level_bounds op).1
      omega

/-- Tokens start with an expression of a category, which extends as far as it can. -/
def HasPhrase (category : Category) (tokens : List Token) : Prop :=
  ∃ inner term token rest, tokens = inner ++ token :: rest ∧ Phrase category inner term ∧
    Stops category token

/-- Whatever is accepted where an expression is awaited starts with one. -/
def Found (category : Category) (tokens : List Token) : Prop :=
  ∀ reading : Reading, reading.Awaits category -> reading.Accepts tokens ->
    HasPhrase category tokens

/-- The innermost frame waits for a whole expression. -/
def waits : List Frame -> Bool
  | .group :: _ | .condition _ _ :: _ | .writeValue _ :: _ | .exprStatement _ :: _ => true
  | _ => false

/-- A token that is no infix sign ends the expression. -/
theorem afterOperand_of_plain
    {token : Token}
    (plain : infixOp? token = none)
    (reading : Reading)
    (value : ExprId) :
    reading.afterOperand value token = reading.endExpression value token := by
  rw [afterOperand, plain]

/-- No operator and no assignment is reduced where a frame waits for a whole expression. -/
theorem endExpression_of_waits
    {token : Token}
    (no_assign : token.kind ≠ .mark .assign)
    (reading : Reading)
    (frame_waits : waits reading.stack = true)
    (value : ExprId) :
    reading.endExpression value token = reading.afterExpression value token := by
  obtain ⟨mode, stack, body, declarations, forest, errors, endReported⟩ := reading
  dsimp only [endExpression]
  rw [if_neg no_assign]
  cases stack with
  | nil => cases frame_waits
  | cons frame outer => cases frame <;> first | rfl | cases frame_waits

/-- Where a frame waits for a whole expression, one is found, and the token after it is one that the
frame does not refuse. -/
theorem Found.expect
    {tokens : List Token}
    (found : Found .expression tokens)
    {reading : Reading}
    (accepts : reading.Accepts tokens)
    (mode_eq : reading.mode = .expression)
    (frame_waits : waits reading.stack = true)
    (good : Token.Kind -> Prop)
    (no_end : ¬good .endOfFile)
    (refused : ∀ forest mode value token, ¬good token.kind ->
      ({ reading with forest := forest, mode := mode }.afterExpression value token).Broken) :
    ∃ inner term kind line rest forest mode value,
      tokens = inner ++ ⟨kind, line⟩ :: rest ∧ Phrase .expression inner term ∧ good kind ∧
      ({ reading with
        forest := forest
        mode := mode }.afterExpression value ⟨kind, line⟩).Accepts rest := by
  have awaits : reading.Awaits .expression := by
    refine ⟨.inl mode_eq, ?_⟩
    unfold Fits
    split <;> simp_all [waits]
  obtain ⟨inner, term, ⟨kind, line⟩, rest, rfl, phrase, stops⟩ := found reading awaits accepts
  obtain ⟨forest, value, mode, _, _, _, goes⟩ := phrase.takes reading awaits
  have plain := infixOp?_eq_none stops (by decide)
  have no_assign := stops.no_assign rfl
  have feed_eq : (reading.feedAll inner).feed ⟨kind, line⟩ =
      { reading with forest := forest, mode := mode }.afterExpression value ⟨kind, line⟩ := by
    rw [goes ⟨kind, line⟩ (.of_plain plain no_assign), afterOperand_of_plain plain]
    exact endExpression_of_waits no_assign { reading with forest := forest, mode := mode }
      frame_waits value
  have isGood : good kind := by
    refine Classical.byContradiction fun bad => accepts.drop.not_broken ?_
    rw [feed_eq]
    exact refused forest mode value ⟨kind, line⟩ bad
  refine ⟨inner, term, kind, line, rest, forest, mode, value, rfl, phrase, isGood, ?_⟩
  rw [← feed_eq]
  refine accepts.drop.next ?_
  rintro rfl
  exact no_end isGood

section Operands

variable {tokens : List Token}

/-- A token that is an expression by itself is found. -/
theorem hasPhrase_leaf
    {reading : Reading}
    {token : Token}
    {term : Term}
    (accepts : reading.Accepts (token :: tokens))
    (phrase : Phrase .primary [token] term)
    (goes_on : token.kind ≠ .endOfFile) :
    HasPhrase .unary (token :: tokens) := by
  obtain ⟨second, rest, rfl⟩ := (accepts.next goes_on).exists_cons
  exact ⟨[token], term, second, rest, rfl, .tighter phrase, stops_unary second⟩

/-- A token that starts no operand is refused. -/
theorem broken_operand
    {token : Token}
    (starts : startsPhrase token.kind = false)
    (reading : Reading) :
    (reading.operand token).Broken := by
  unfold operand
  cases kind_eq : token.kind with
  | keyword word => cases word <;> first | exact broken_fail _ _ _ | cases kind_eq ▸ starts
  | mark mark => cases mark <;> first | exact broken_fail _ _ _ | cases kind_eq ▸ starts
  | text bytes => exact broken_fail _ _ _
  | endOfFile => exact broken_fail _ _ _
  | _ => cases kind_eq ▸ starts

end Operands

section Categories

variable {tokens : List Token}

/-- Expressions are found in every shorter list of tokens. -/
def FoundBelow (tokens : List Token) : Prop :=
  ∀ shorter : List Token, shorter.length < tokens.length -> ∀ category : Category,
    category ≠ .primary -> Found category shorter

/-- Behind a frame that a prefix operator has opened, its operand is found. -/
theorem HasPhrase.of_unary
    (start : List Token)
    {op : UnaryOp}
    {line : Line}
    {reading : Reading}
    (build : ∀ {inner term}, Phrase .unary inner term ->
      Phrase .unary (start ++ inner) (.unary line op term))
    (found : Found .unary tokens)
    (accepts : { reading with
      stack := .unary op line :: reading.stack
      mode := .operand }.Accepts tokens) :
    HasPhrase .unary (start ++ tokens) := by
  have awaits : { reading with
      stack := .unary op line :: reading.stack
      mode := .operand }.Awaits .unary := ⟨.inr ⟨rfl, by decide⟩, Nat.le_refl 6⟩
  obtain ⟨inner, term, token, rest, rfl, phrase, stops⟩ := found _ awaits accepts
  exact ⟨start ++ inner, _, token, rest, (List.append_assoc _ _ _).symm, build phrase, stops⟩

/-- Behind an opening parenthesis an expression between parentheses is found, unless a word makes it
a cast. -/
theorem FoundBelow.hasPhrase_group
    {reading : Reading}
    {line : Line}
    (below : FoundBelow (⟨.mark .leftParen, line⟩ :: tokens))
    (accepts : { reading with
      stack := .group :: reading.stack
      mode := .expression }.Accepts tokens) :
    HasPhrase .unary (⟨.mark .leftParen, line⟩ :: tokens) := by
  have found : Found .expression tokens := below tokens (Nat.lt_succ_self _) _ (by decide)
  obtain ⟨inner, term, _, closeLine, rest, forest, mode, value, rfl, phrase, rfl, closed⟩ :=
    found.expect accepts rfl rfl (· = .mark .rightParen) (by simp) (by
      intro forest mode value token other
      simp only [afterExpression, if_neg other]
      exact broken_fail _ _ _)
  obtain ⟨token, rest', rfl⟩ := closed.exists_cons
  have group : Phrase .unary
      (⟨.mark .leftParen, line⟩ :: inner ++ [⟨.mark .rightParen, closeLine⟩]) term :=
    .tighter (.group line closeLine phrase)
  exact ⟨_, term, token, rest', by simp, group, stops_unary token⟩

/-- Behind an opening parenthesis and a word for a cast, the cast is found. -/
theorem FoundBelow.hasPhrase_cast
    {reading : Reading}
    {word : Keyword}
    {op : UnaryOp}
    {line wordLine : Line}
    (below : FoundBelow (⟨.mark .leftParen, line⟩ :: ⟨.keyword word, wordLine⟩ :: tokens))
    (listed : (word, op) ∈ castWords)
    (accepts : (reading.operand ⟨.mark .leftParen, line⟩).Accepts
      (⟨.keyword word, wordLine⟩ :: tokens)) :
    HasPhrase .unary (⟨.mark .leftParen, line⟩ :: ⟨.keyword word, wordLine⟩ :: tokens) := by
  have opened : (reading.operand ⟨.mark .leftParen, line⟩).feed ⟨.keyword word, wordLine⟩ =
      { reading with mode := .castEnd line op ⟨.keyword word, wordLine⟩ } := by
    simp only [castWords, List.mem_cons, List.not_mem_nil, or_false, Prod.mk.injEq] at listed
    rcases listed with ⟨rfl, rfl⟩ | ⟨rfl, rfl⟩ <;> rfl
  have cast_accepts := accepts.next (by simp)
  obtain ⟨closeLine, rest, rfl, closed⟩ := cast_accepts.expect_kind (.mark .rightParen) (by simp) (by
    intro token other
    rw [opened]
    simp only [feed, afterCastType, if_neg other]
    exact broken_fail _ _ _)
  rw [opened] at closed
  exact HasPhrase.of_unary [_, _, _] (fun phrase => .cast line wordLine closeLine listed phrase)
    (below rest (by simp only [List.length_cons]; omega) _ (by decide)) closed

/-- Behind a prefix sign, its operand is found. -/
theorem FoundBelow.hasPhrase_prefixed
    {reading : Reading}
    {mark : Mark}
    {line : Line}
    (below : FoundBelow (⟨.mark mark, line⟩ :: tokens))
    (op : UnaryOp)
    (listed : (mark, op) ∈ prefixSigns)
    (accepts : (reading.operand ⟨.mark mark, line⟩).Accepts tokens) :
    HasPhrase .unary (⟨.mark mark, line⟩ :: tokens) := by
  rw [operand_prefixed listed] at accepts
  exact HasPhrase.of_unary [_] (fun phrase => .prefixed line listed phrase)
    (below tokens (Nat.lt_succ_self _) _ (by decide)) accepts

/-- An operand of a prefix operator is found. -/
theorem FoundBelow.found_unary (below : FoundBelow tokens) : Found .unary tokens := by
  intro reading awaits accepts
  obtain ⟨⟨kind, line⟩, rest, rfl⟩ := accepts.exists_cons
  have starts : startsPhrase kind = true := by
    cases starts : startsPhrase kind with
    | true => rfl
    | false =>
        have no_name : ∀ spelling, kind ≠ .name spelling := by
          rintro spelling rfl
          cases starts
        refine absurd ?_ accepts.not_broken
        rw [feed_of_awaits awaits no_name]
        exact broken_operand starts reading
  cases kind with
  | name spelling => exact hasPhrase_leaf accepts (.name spelling line) (by simp)
  | int value => exact hasPhrase_leaf accepts (.int value line) (by simp)
  | real bits => exact hasPhrase_leaf accepts (.real bits line) (by simp)
  | text bytes => cases starts
  | endOfFile => cases starts
  | keyword word =>
      cases word with
      | true => exact hasPhrase_leaf accepts (.yes line) (by simp)
      | false => exact hasPhrase_leaf accepts (.no line) (by simp)
      | _ => cases starts
  | mark mark =>
      have accepts' := accepts.next (by simp)
      rw [feed_mark awaits] at accepts'
      cases mark with
      | leftParen =>
          obtain ⟨second, rest, rfl⟩ := accepts'.exists_cons
          by_cases casts : ∃ word op, (word, op) ∈ castWords ∧ second.kind = .keyword word
          · obtain ⟨word, op, listed, kind_eq⟩ := casts
            obtain ⟨_, wordLine⟩ := second
            cases kind_eq
            exact below.hasPhrase_cast listed accepts'
          · refine below.hasPhrase_group (accepts'.of_feed_eq (feed_opened ?_ line))
            intro word op listed kind_eq
            exact casts ⟨word, op, listed, kind_eq⟩
      | minus => exact below.hasPhrase_prefixed .neg (by decide) accepts'
      | bang => exact below.hasPhrase_prefixed .not (by decide) accepts'
      | tilde => exact below.hasPhrase_prefixed .bitNot (by decide) accepts'
      | _ => cases starts

/-- Behind an expression of a category, further operators of the category are found. -/
theorem FoundBelow.hasPhrase_signs
    {category : Category}
    {reading : Reading}
    (below : FoundBelow tokens)
    (signed : category.tighter.rank = category.rank + 1)
    (inner_category : category.tighter ≠ .primary)
    (awaits : reading.Awaits category)
    (no_expression : category ≠ .expression)
    (accepts : reading.Accepts tokens)
    {inner rest : List Token}
    {term : Term}
    {token : Token}
    (tokens_eq : tokens = inner ++ token :: rest)
    (phrase : Phrase category inner term)
    (stops : Stops category.tighter token) :
    HasPhrase category tokens := by
  by_cases sign : ∃ op, infixOp? token = some op ∧ category.rank ≤ op.level
  · obtain ⟨op, written, rank_le⟩ := sign
    have level_lt := stops.level_lt op written
    obtain ⟨kind, line⟩ := token
    cases kind with
    | mark mark =>
        have listed : (mark, op) ∈ category.signs :=
          Category.mem_signs_iff.2 ⟨written, by omega⟩
        obtain ⟨forest, left, _, _, _, opened, rightAwaits⟩ :=
          exists_feed_sign listed awaits (phrase.takes reading awaits) line
        have rightAccepts := (tokens_eq ▸ accepts).drop.next (by simp)
        rw [opened] at rightAccepts
        have shorter : rest.length < tokens.length := by
          rw [tokens_eq]
          simp only [List.length_append, List.length_cons]
          omega
        obtain ⟨right, rightTerm, next, rest', rest_eq, rightPhrase, rightStops⟩ :=
          below rest shorter _ inner_category _ rightAwaits rightAccepts
        have tokens_eq' : tokens = (inner ++ ⟨.mark mark, line⟩ :: right) ++ next :: rest' := by
          rw [tokens_eq, rest_eq, List.append_assoc]
          rfl
        have rest_lt : rest'.length < rest.length := by
          rw [rest_eq]
          simp only [List.length_append, List.length_cons]
          omega
        exact below.hasPhrase_signs signed inner_category awaits no_expression accepts tokens_eq'
          (.infixed line listed phrase rightPhrase) rightStops
    | _ => cases written
  · refine ⟨inner, term, token, rest, tokens_eq, phrase, ?_, fun is_expression => ?_⟩
    · intro op written
      exact Nat.lt_of_not_le fun rank_le => sign ⟨op, written, rank_le⟩
    · exact absurd is_expression no_expression
termination_by rest.length

/-- An expression of a category with infix operators is found if its operands are. -/
theorem FoundBelow.found_infixed
    {category : Category}
    (below : FoundBelow tokens)
    (signed : category.signs ≠ [])
    (found : Found category.tighter tokens) :
    Found category tokens := by
  intro reading awaits accepts
  obtain ⟨inner, term, token, rest, tokens_eq, phrase, stops⟩ :=
    found reading awaits.tighter accepts
  refine below.hasPhrase_signs ?_ ?_ awaits ?_ accepts tokens_eq (.tighter phrase) stops
  all_goals cases category <;> simp_all [Category.signs, Category.tighter, Category.rank]

/-- An expression is found. -/
theorem FoundBelow.found_expression
    (below : FoundBelow tokens)
    (found : Found .logical tokens) :
    Found .expression tokens := by
  intro reading awaits accepts
  have awaits' : reading.Awaits .logical := awaits.tighter
  obtain ⟨inner, term, token, rest, rfl, phrase, stops⟩ := found reading awaits' accepts
  have plain := infixOp?_eq_none stops (by decide)
  by_cases assigns : token.kind = .mark .assign
  · obtain ⟨_, line⟩ := token
    cases assigns
    by_cases target : reading.MayAssign inner
    · obtain ⟨mode_eq, spelling, nameLine, rfl⟩ := target
      have valueAccepts := accepts.drop.next (by simp)
      rw [feedAll_cons, feedAll_nil, feed_target mode_eq] at valueAccepts
      have valueFound : Found .expression rest := by
        refine below rest ?_ _ (by decide)
        simp only [List.length_append, List.length_cons]
        omega
      have valueAwaits : { reading with
          stack := .assign ⟨spelling, nameLine⟩ line :: reading.stack
          mode := .expression }.Awaits .expression := ⟨.inl rfl, trivial⟩
      obtain ⟨valueTokens, value, next, rest', rfl, valuePhrase, valueStops⟩ :=
        valueFound _ valueAwaits valueAccepts
      exact ⟨_ :: _ :: valueTokens, _, next, rest', rfl,
        .assign spelling nameLine line valuePhrase, valueStops⟩
    · -- What is read before the sign is no name, so the sign is refused.
      obtain ⟨forest, value, mode, _, _, _, goes⟩ := phrase.takes reading awaits'
      have ends : reading.Ends .logical inner ⟨.mark .assign, line⟩ :=
        ⟨fun op written => absurd written (by simp [plain]), fun _ => ⟨by decide, target⟩⟩
      refine absurd ?_ accepts.drop.not_broken
      rw [goes _ ends, afterOperand_of_plain plain]
      dsimp only [endExpression]
      rw [if_pos rfl]
      exact broken_fail _ _ _
  · refine ⟨inner, term, token, rest, rfl, .tighter phrase, ?_, fun _ => assigns⟩
    intro op written
    exact absurd written (by simp [plain])

/-- Where a reading waits for an expression and goes on to the end without an error, it finds one. -/
theorem found
    (category : Category)
    (no_primary : category ≠ .primary)
    (tokens : List Token) :
    Found category tokens := by
  induction length_eq : tokens.length using Nat.strongRecOn generalizing tokens category with
  | ind length inductionHypothesis =>
      have below : FoundBelow tokens := by
        intro shorter length_lt category no_primary
        exact inductionHypothesis _ (length_eq ▸ length_lt) category no_primary shorter rfl
      have unary := below.found_unary
      have bitwise : Found .bitwise tokens := below.found_infixed (by decide) unary
      have multiplicative : Found .multiplicative tokens := below.found_infixed (by decide) bitwise
      have additive : Found .additive tokens := below.found_infixed (by decide) multiplicative
      have relational : Found .relational tokens := below.found_infixed (by decide) additive
      have logical : Found .logical tokens := below.found_infixed (by decide) relational
      have expression := below.found_expression logical
      cases category with
      | primary => exact absurd rfl no_primary
      | _ => assumption

end Categories

end Reading
end MiniLang
