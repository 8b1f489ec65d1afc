import MiniLang.Proofs.Reading.Fragments
import MiniLang.Proofs.Reading.Reports

/-!
# Recovery from broken statements

Fragments that stand between the statements of a program, in its body or in any block of it, are
skipped one by one.  Each makes one error, and what is read of the rest is what would be read
without them: the same declarations, the same strings and the same tree, only under other numbers.
-/

namespace MiniLang

open Grammar

namespace Grammar

/-- Statements among which fragments have been inserted.  The first tokens are those of the
statements alone, the second ones those with the fragments; then come the syntax tree of the
statements and the number of fragments. -/
inductive Inserted : Extent -> List Token -> List Token -> Clause -> Nat -> Prop where
  | none : Inserted .many [] [] .done 0
  /-- A fragment stands before the other statements. -/
  | fragment (line : Line) {inner tokens damaged : List Token} {clause : Clause} {count : Nat}
      (fragment : Reading.Fragment inner line)
      (inserted : Inserted .many tokens damaged clause count) :
      Inserted .many tokens (inner ++ ⟨.mark .semicolon, line⟩ :: damaged) clause (count + 1)
  | next {firstTokens restTokens firstDamaged restDamaged : List Token} {first rest : Clause}
      {firstCount restCount : Nat}
      (firstInserted : Inserted .one firstTokens firstDamaged first firstCount)
      (restInserted : Inserted .many restTokens restDamaged rest restCount) :
      Inserted .many (firstTokens ++ restTokens) (firstDamaged ++ restDamaged) (.seq first rest)
        (firstCount + restCount)
  /-- A statement stays as it is. -/
  | same {tokens : List Token} {clause : Clause}
      (sentence : Sentence .one tokens clause) :
      Inserted .one tokens tokens clause 0
  | block (line closeLine : Line) {tokens damaged : List Token} {body : Clause} {count : Nat}
      (inserted : Inserted .many tokens damaged body count) :
      Inserted .one
        (⟨.mark .leftBrace, line⟩ :: tokens ++ [⟨.mark .rightBrace, closeLine⟩])
        (⟨.mark .leftBrace, line⟩ :: damaged ++ [⟨.mark .rightBrace, closeLine⟩])
        (.block line body) count
  | branch (line openLine closeLine : Line) {conditionTokens tokens damaged : List Token}
      {condition : Term} {yes : Clause} {count : Nat}
      (phrase : Phrase .expression conditionTokens condition)
      (inserted : Inserted .one tokens damaged yes count) :
      Inserted .one
        (⟨.keyword .if, line⟩ :: ⟨.mark .leftParen, openLine⟩ :: conditionTokens ++
          ⟨.mark .rightParen, closeLine⟩ :: tokens)
        (⟨.keyword .if, line⟩ :: ⟨.mark .leftParen, openLine⟩ :: conditionTokens ++
          ⟨.mark .rightParen, closeLine⟩ :: damaged)
        (.branch line condition yes) count
  | choice (line openLine closeLine elseLine : Line)
      {conditionTokens yesTokens yesDamaged noTokens noDamaged : List Token} {condition : Term}
      {yes no : Clause} {yesCount noCount : Nat}
      (phrase : Phrase .expression conditionTokens condition)
      (yesInserted : Inserted .one yesTokens yesDamaged yes yesCount)
      (closed : yes.endsOpen = false)
      (noInserted : Inserted .one noTokens noDamaged no noCount) :
      Inserted .one
        (⟨.keyword .if, line⟩ :: ⟨.mark .leftParen, openLine⟩ :: conditionTokens ++
          ⟨.mark .rightParen, closeLine⟩ :: yesTokens ++ ⟨.keyword .else, elseLine⟩ :: noTokens)
        (⟨.keyword .if, line⟩ :: ⟨.mark .leftParen, openLine⟩ :: conditionTokens ++
          ⟨.mark .rightParen, closeLine⟩ :: yesDamaged ++ ⟨.keyword .else, elseLine⟩ :: noDamaged)
        (.choice line condition yes no) (yesCount + noCount)
  | loop (line openLine closeLine : Line) {conditionTokens tokens damaged : List Token}
      {condition : Term} {body : Clause} {count : Nat}
      (phrase : Phrase .expression conditionTokens condition)
      (inserted : Inserted .one tokens damaged body count) :
      Inserted .one
        (⟨.keyword .while, line⟩ :: ⟨.mark .leftParen, openLine⟩ :: conditionTokens ++
          ⟨.mark .rightParen, closeLine⟩ :: tokens)
        (⟨.keyword .while, line⟩ :: ⟨.mark .leftParen, openLine⟩ :: conditionTokens ++
          ⟨.mark .rightParen, closeLine⟩ :: damaged)
        (.loop line condition body) count

/-- A program among whose statements fragments have been inserted. -/
inductive InsertedInto : List Token -> List Token -> SyntaxTree -> Nat -> Prop where
  | program (line openLine closeLine : Line) {declarationTokens tokens damaged : List Token}
      {declarations : List Declaration} {body : Clause} {count : Nat}
      (declares : Declares declarationTokens declarations)
      (inserted : Inserted .many tokens damaged body count) :
      InsertedInto
        (⟨.keyword .program, line⟩ :: ⟨.mark .leftBrace, openLine⟩ :: declarationTokens ++
          tokens ++ [⟨.mark .rightBrace, closeLine⟩])
        (⟨.keyword .program, line⟩ :: ⟨.mark .leftBrace, openLine⟩ :: declarationTokens ++
          damaged ++ [⟨.mark .rightBrace, closeLine⟩])
        ⟨declarations, body⟩ count

section Originals

variable {extent : Extent} {tokens damaged : List Token} {clause : Clause} {count : Nat}

/-- Without the fragments the tokens are those of the statements. -/
theorem Inserted.sentence (inserted : Inserted extent tokens damaged clause count) :
    Sentence extent tokens clause := by
  induction inserted with
  | none => exact .none
  | fragment line fragment inserted inductionHypothesis => exact inductionHypothesis
  | next _ _ firstHypothesis restHypothesis => exact .next firstHypothesis restHypothesis
  | same sentence => exact sentence
  | block line closeLine inserted inductionHypothesis =>
      exact .block line closeLine inductionHypothesis
  | branch line openLine closeLine phrase inserted inductionHypothesis =>
      exact .branch line openLine closeLine phrase inductionHypothesis
  | choice line openLine closeLine elseLine phrase yesInserted closed noInserted yesHypothesis
      noHypothesis =>
      exact .choice line openLine closeLine elseLine phrase yesHypothesis closed noHypothesis
  | loop line openLine closeLine phrase inserted inductionHypothesis =>
      exact .loop line openLine closeLine phrase inductionHypothesis

/-- Without the fragments the tokens are those of the program. -/
theorem InsertedInto.derives
    {tree : SyntaxTree}
    (inserted : InsertedInto tokens damaged tree count) :
    Derives tokens tree := by
  cases inserted with
  | program line openLine closeLine declares inserted =>
      exact .program line openLine closeLine declares inserted.sentence

/-- A kind of token that starts no alternative and no declaration, and ends no block. -/
def StartsStatement (kind : Token.Kind) : Prop :=
  kind ≠ .keyword .else ∧ (kind ≠ .mark .rightBrace ∧ kind ≠ .endOfFile) ∧
    ∀ word type, (word, type) ∈ typeWords -> kind ≠ .keyword word

theorem startsStatement_of_startsSentence
    {kind : Token.Kind}
    (starts : startsSentence kind = true) :
    StartsStatement kind :=
  ⟨(ne_of_startsSentence starts).1, (ne_of_startsSentence starts).2,
    no_type_of_startsSentence starts⟩

/-- A fragment and its semicolon start like a statement. -/
theorem exists_first_of_fragment
    {line : Line}
    (fragment : Reading.Fragment tokens line)
    (rest : List Token) :
    ∃ first others, tokens ++ ⟨.mark .semicolon, line⟩ :: rest = first :: others ∧
      StartsStatement first.kind := by
  cases tokens with
  | nil => exact ⟨_, _, rfl, by simp, by simp, by simp⟩
  | cons first tokens =>
      obtain ⟨no_else, no_type⟩ := fragment.starts first rfl
      have flat := (Reading.flat_cons.1 fragment.flat).1
      refine ⟨first, _, rfl, no_else, ⟨?_, ?_⟩, no_type⟩ <;>
        · intro kind_eq
          rw [kind_eq] at flat
          cases flat

/-- Statements with fragments start like statements. -/
theorem Inserted.exists_first (inserted : Inserted extent tokens damaged clause count) :
    extent = .many ∧ damaged = [] ∨
      ∃ first rest, damaged = first :: rest ∧ StartsStatement first.kind := by
  induction inserted with
  | none => exact .inl ⟨rfl, rfl⟩
  | fragment line fragment => exact .inr (exists_first_of_fragment fragment _)
  | next _ _ firstHypothesis _ =>
      obtain ⟨⟨⟩, _⟩ | ⟨first, rest, rfl, starts⟩ := firstHypothesis
      exact .inr ⟨first, _, rfl, starts⟩
  | same sentence =>
      obtain ⟨⟨⟩, _⟩ | ⟨first, rest, rfl, starts⟩ := sentence.exists_first
      exact .inr ⟨first, rest, rfl, startsStatement_of_startsSentence starts⟩
  | _ => exact .inr ⟨_, _, rfl, startsStatement_of_startsSentence rfl⟩

end Originals

end Grammar

namespace Reading

/-- After some tokens a reading goes on as if the statement with a syntax tree had just been
completed, with a number of errors more. -/
def Recovers (reading : Reading) (tokens : List Token) (clause : Clause) (count : Nat) : Prop :=
  ∃ forest id new, new.size = count ∧ reading.forest.Grows forest ∧
    forest.texts.constants.toList = reading.forest.texts.constants.toList ++ clause.texts ∧
    forest.HoldsClause .one reading.forest.texts.size [id] clause ∧
    ∀ token, (clause.endsOpen = true -> token.kind ≠ .keyword .else) ->
      (reading.feedAll tokens).feed token =
        settle token { reading with forest := forest, errors := reading.errors ++ new }
          reading.stack id

/-- What is taken without an error is taken. -/
theorem TakesStatement.recovers
    {reading : Reading}
    {tokens : List Token}
    {clause : Clause}
    (takes : reading.TakesStatement tokens clause) :
    reading.Recovers tokens clause 0 := by
  obtain ⟨forest, id, grows, texts_eq, held, goes⟩ := takes
  refine ⟨forest, id, #[], rfl, grows, texts_eq, held, ?_⟩
  rwa [Array.append_empty]

/-- A place where statements are collected, whatever errors there are. -/
structure Gathers (place : Array SyntaxError -> Forest -> List StmtId -> Reading) : Prop where
  collects : ∀ errors, Collects (place errors)
  with_errors : ∀ errors errors' forest ids,
    { place errors forest ids with errors := errors' } = place errors' forest ids
  is_nested : ∀ errors forest ids, nested (place errors forest ids).stack = true
  level : ∀ errors forest ids,
    blocks (place errors forest ids).stack = (place errors forest ids).stack

/-- The block that has just been opened collects statements. -/
theorem gathers_block
    {reading : Reading}
    (is_nested : nested reading.stack = true)
    (line : Line) :
    Gathers fun errors forest ids =>
      { reading with
        stack := .block line ids :: reading.stack
        forest := forest
        errors := errors
        mode := .sequence } where
  collects errors := collects_block { reading with errors := errors } line
  with_errors _ _ _ _ := rfl
  is_nested _ _ _ := is_nested
  level _ _ _ := rfl

/-- Where no frame is open, the body of the program collects statements. -/
theorem gathers_body
    (reading : Reading)
    (stack_eq : reading.stack = []) :
    Gathers fun errors forest ids =>
      { reading with body := ids, forest := forest, errors := errors, mode := .sequence } where
  collects errors := collects_body { reading with errors := errors } stack_eq
  with_errors _ _ _ _ := rfl
  is_nested _ _ _ := by simp [stack_eq, nested]
  level _ _ _ := by simp [stack_eq, blocks]

namespace Gathers

variable {place : Array SyntaxError -> Forest -> List StmtId -> Reading}

/-- A place is known by its errors, its forest and the statements collected in it. -/
theorem with_both
    (gathers : Gathers place)
    (errors errors' : Array SyntaxError)
    (forest forest' : Forest)
    (ids : List StmtId) :
    { place errors forest ids with forest := forest', errors := errors' } =
      place errors' forest' ids := by
  have moved := gathers.with_errors errors errors' forest' ids
  rw [← (gathers.collects errors).with_forest forest] at moved
  exact moved

/-- Where a statement may start, a token that starts one goes on as it would alone. -/
theorem feedAll_eq
    (gathers : Gathers place)
    {first : Token}
    (starts : StartsStatement first.kind)
    (errors : Array SyntaxError)
    (forest : Forest)
    (ids : List StmtId)
    (rest : List Token) :
    (place errors forest ids).feedAll (first :: rest) =
      { place errors forest ids with mode := .statement }.feedAll (first :: rest) := by
  rw [feedAll_cons, (gathers.collects errors).feed_eq, sequence_eq_feed starts.2.1, ← feedAll_cons]

/-- A statement that is taken behind the collected ones is collected. -/
theorem exists_next
    {tokens : List Token}
    {clause : Clause}
    {count : Nat}
    (gathers : Gathers place)
    (errors : Array SyntaxError)
    (forest : Forest)
    (ids : List StmtId)
    (recovers : { place errors forest ids with mode := .statement }.Recovers tokens clause count) :
    ∃ forest' id new, new.size = count ∧ forest.Grows forest' ∧
      forest'.texts.constants.toList = forest.texts.constants.toList ++ clause.texts ∧
      forest'.HoldsClause .one forest.texts.size [id] clause ∧
      ∀ token, (clause.endsOpen = true -> token.kind ≠ .keyword .else) ->
        ({ place errors forest ids with mode := .statement }.feedAll tokens).feed token =
          (place (errors ++ new) forest' (id :: ids)).feed token := by
  obtain ⟨forest', id, new, size_eq, grows, texts_eq, held, goes⟩ := recovers
  have errors_eq : (place errors forest ids).errors = errors :=
    (congrArg Reading.errors (gathers.with_errors errors errors forest ids)).symm
  dsimp only at grows texts_eq held
  rw [(gathers.collects errors).forest_eq] at grows texts_eq held
  refine ⟨forest', id, new, size_eq, grows, texts_eq, held, fun token apart => ?_⟩
  have collects := gathers.collects (errors ++ new)
  have settled := collects.settle_eq forest' ids id token
  rw [← gathers.with_both errors (errors ++ new) forest forest' ids] at settled
  rw [goes token apart, collects.feed_eq, ← settled]
  dsimp only
  rw [errors_eq]
  exact settle_mode { place errors forest ids with
    forest := forest'
    errors := errors ++ new } .statement token _ _ _

/-- A fragment makes one error and leaves expressions behind. -/
theorem exists_fragment
    {tokens : List Token}
    {line : Line}
    (gathers : Gathers place)
    (fragment : Fragment tokens line)
    (errors : Array SyntaxError)
    (forest : Forest)
    (ids : List StmtId) :
    ∃ forest' error, forest.Grows forest' ∧ forest'.texts = forest.texts ∧
      (place errors forest ids).feedAll (tokens ++ [⟨.mark .semicolon, line⟩]) =
        place (errors.push error) forest' ids := by
  have errors_eq : (place errors forest ids).errors = errors :=
    (congrArg Reading.errors (gathers.with_errors errors errors forest ids)).symm
  have collects := gathers.collects errors
  obtain ⟨forest', error, grows, texts_eq, read_eq⟩ :=
    fragment.givesUp { place errors forest ids with mode := .statement } rfl
      (gathers.is_nested errors forest ids)
  dsimp only at grows texts_eq read_eq
  rw [collects.forest_eq] at grows texts_eq
  refine ⟨forest', error, grows, texts_eq, ?_⟩
  obtain ⟨first, rest, tokens_eq, starts⟩ := exists_first_of_fragment fragment []
  rw [tokens_eq] at read_eq ⊢
  rw [gathers.feedAll_eq starts, read_eq, gathers.level, errors_eq, ← collects.mode_eq forest ids]
  exact gathers.with_both errors (errors.push error) forest forest' ids

end Gathers

/-- After some tokens statements have been collected, wherever they are collected, with a number of
errors more. -/
def RecoversSequence (tokens : List Token) (clause : Clause) (count : Nat) : Prop :=
  ∀ place : Array SyntaxError -> Forest -> List StmtId -> Reading, Gathers place ->
    ∀ errors forest ids, ∃ forest' added new, new.size = count ∧ forest.Grows forest' ∧
      forest'.texts.constants.toList = forest.texts.constants.toList ++ clause.texts ∧
      forest'.HoldsClause .many forest.texts.size added clause ∧
      ∀ token, token.kind ≠ .keyword .else ->
        ((place errors forest ids).feedAll tokens).feed token =
          (place (errors ++ new) forest' (added.reverse ++ ids)).feed token

/-- Wherever a statement has to start, it is taken with a number of errors. -/
def RecoversAlways (tokens : List Token) (clause : Clause) (count : Nat) : Prop :=
  ∀ reading : Reading, reading.mode = .statement -> nested reading.stack = true ->
    reading.Recovers tokens clause count

section Constructs

variable {reading : Reading} {tokens : List Token} {clause : Clause} {count : Nat}
  (mode_eq : reading.mode = .statement) (is_nested : nested reading.stack = true)

include mode_eq is_nested

/-- A block with fragments among its statements. -/
theorem recovers_block
    (recovers : RecoversSequence tokens clause count)
    (line closeLine : Line) :
    reading.Recovers
      (⟨.mark .leftBrace, line⟩ :: tokens ++ [⟨.mark .rightBrace, closeLine⟩])
      (.block line clause) count := by
  obtain ⟨forest, ids, new, size_eq, grows, texts_eq, held, goes⟩ :=
    recovers _ (gathers_block is_nested line) reading.errors reading.forest []
  have added := Forest.Grows.addStmt forest line (.block ids)
  have opened : reading.feed ⟨.mark .leftBrace, line⟩ =
      { reading with stack := .block line [] :: reading.stack, mode := .sequence } := by
    simp only [feed, mode_eq, statement]
  have closed := goes ⟨.mark .rightBrace, closeLine⟩ (by simp)
  rw [List.append_nil] at closed
  have reached : reading.feedAll
      (⟨.mark .leftBrace, line⟩ :: tokens ++ [⟨.mark .rightBrace, closeLine⟩]) =
      { reading with
        forest := (forest.addStmt line (.block ids)).2
        errors := reading.errors ++ new
        mode := .completed (forest.addStmt line (.block ids)).1 } := by
    rw [List.cons_append, feedAll_cons, opened, feedAll_append, feedAll_cons, feedAll_nil, closed]
    simp only [feed, sequence, closeBlock, complete, List.reverse_reverse]
  refine ⟨_, _, new, size_eq, grows.trans added, texts_eq,
    .block (getElem?_addStmt _ _ _) (held.mono added), fun token _ => ?_⟩
  rw [reached]
  exact settle_mode { reading with
    forest := (forest.addStmt line (.block ids)).2
    errors := reading.errors ++ new } _ _ _ _ _

section Conditions

variable {conditionTokens : List Token} {condition : Term}
  (phrase : Phrase .expression conditionTokens condition)
  (recovers : RecoversAlways tokens clause count) (line openLine closeLine : Line)

include phrase recovers

/-- A construct is read up to what follows the statement under its condition. -/
theorem exists_guarded_recovery (construct : Construct) :
    ∃ forest value id new, new.size = count ∧ reading.forest.Grows forest ∧
      forest.texts.constants.toList = reading.forest.texts.constants.toList ++ clause.texts ∧
      forest.HoldsTerm value condition ∧
      forest.HoldsClause .one reading.forest.texts.size [id] clause ∧
      ∀ token, (clause.endsOpen = true -> token.kind ≠ .keyword .else) ->
        (reading.feedAll (⟨.keyword construct.keyword, line⟩ :: ⟨.mark .leftParen, openLine⟩ ::
          conditionTokens ++ ⟨.mark .rightParen, closeLine⟩ :: tokens)).feed token =
          settle token { reading with forest := forest, errors := reading.errors ++ new }
            (inside construct line value :: reading.stack) id := by
  obtain ⟨forest, value, grows, texts_eq, held, reached⟩ :=
    exists_feedAll_condition mode_eq phrase construct line openLine closeLine
  have insideNested : nested (inside construct line value :: reading.stack) = true := by
    cases construct <;> exact is_nested
  obtain ⟨forest', id, new, size_eq, grows', texts_eq', clauseHeld, goes⟩ := recovers
    { reading with
      stack := inside construct line value :: reading.stack
      forest := forest
      mode := .statement } rfl insideNested
  dsimp only at grows' texts_eq' clauseHeld
  rw [texts_eq] at texts_eq' clauseHeld
  refine ⟨forest', value, id, new, size_eq, grows.trans grows', texts_eq', held.mono grows',
    clauseHeld, fun token apart => ?_⟩
  rw [List.append_cons, feedAll_append, reached]
  exact (goes token apart).trans (settle_mode { reading with
    forest := forest'
    errors := reading.errors ++ new } _ _ _ _ _)

/-- A branch without an alternative, with fragments in it. -/
theorem recovers_branch :
    reading.Recovers (⟨.keyword .if, line⟩ :: ⟨.mark .leftParen, openLine⟩ ::
      conditionTokens ++ ⟨.mark .rightParen, closeLine⟩ :: tokens)
      (.branch line condition clause) count := by
  obtain ⟨forest, value, id, new, size_eq, grows, texts_eq, held, clauseHeld, goes⟩ :=
    exists_guarded_recovery mode_eq is_nested phrase recovers line openLine closeLine .branch
  have added := Forest.Grows.addStmt forest line (.branch value id none)
  refine ⟨_, _, new, size_eq, grows.trans added, texts_eq, .branch (getElem?_addStmt _ _ _)
    (held.mono added) (clauseHeld.mono added), fun token apart => ?_⟩
  have no_else : token.kind ≠ .keyword .else := apart rfl
  have token_goes := goes token fun _ => no_else
  rwa [inside, settle, if_neg no_else] at token_goes

/-- A loop with fragments in it. -/
theorem recovers_loop :
    reading.Recovers (⟨.keyword .while, line⟩ :: ⟨.mark .leftParen, openLine⟩ ::
      conditionTokens ++ ⟨.mark .rightParen, closeLine⟩ :: tokens)
      (.loop line condition clause) count := by
  obtain ⟨forest, value, id, new, size_eq, grows, texts_eq, held, clauseHeld, goes⟩ :=
    exists_guarded_recovery mode_eq is_nested phrase recovers line openLine closeLine .loop
  have added := Forest.Grows.addStmt forest line (.loop value id)
  refine ⟨_, _, new, size_eq, grows.trans added, texts_eq, .loop (getElem?_addStmt _ _ _)
    (held.mono added) (clauseHeld.mono added), fun token apart => ?_⟩
  have token_goes := goes token apart
  rwa [inside, settle] at token_goes

/-- A branch with an alternative, with fragments in either. -/
theorem recovers_choice
    {noTokens : List Token}
    {no : Clause}
    {noCount : Nat}
    (closed : clause.endsOpen = false)
    (noRecovers : RecoversAlways noTokens no noCount)
    (elseLine : Line) :
    reading.Recovers (⟨.keyword .if, line⟩ :: ⟨.mark .leftParen, openLine⟩ ::
      conditionTokens ++ ⟨.mark .rightParen, closeLine⟩ :: tokens ++
      ⟨.keyword .else, elseLine⟩ :: noTokens) (.choice line condition clause no)
      (count + noCount) := by
  obtain ⟨forest, value, id, new, size_eq, grows, texts_eq, held, clauseHeld, goes⟩ :=
    exists_guarded_recovery mode_eq is_nested phrase recovers line openLine closeLine .branch
  have else_goes := goes ⟨.keyword .else, elseLine⟩ (by simp [closed])
  rw [inside, settle, if_pos rfl] at else_goes
  obtain ⟨forest', noId, noNew, noSize_eq, grows', texts_eq', noHeld, noGoes⟩ := noRecovers
    { reading with
      stack := .noBranch line value id :: reading.stack
      forest := forest
      errors := reading.errors ++ new
      mode := .statement } rfl is_nested
  dsimp only at grows' texts_eq' noHeld
  rw [size_of_texts_eq texts_eq] at noHeld
  have added := Forest.Grows.addStmt forest' line (.branch value id (some noId))
  refine ⟨_, _, new ++ noNew, ?_, grows.trans (grows'.trans added), ?_,
    .choice (getElem?_addStmt _ _ _) (held.mono (grows'.trans added))
      (clauseHeld.mono (grows'.trans added)) (noHeld.mono added), fun token apart => ?_⟩
  · rw [Array.size_append, size_eq, noSize_eq]
  · refine texts_eq'.trans ?_
    rw [texts_eq, List.append_assoc]
    rfl
  · have token_goes := noGoes token apart
    rw [settle] at token_goes
    rw [feedAll_append, feedAll_cons, ← Array.append_assoc]
    refine Eq.trans (congrArg (fun reading => (feedAll reading noTokens).feed token) else_goes)
      (token_goes.trans ?_)
    exact settle_mode { reading with
      forest := (forest'.addStmt line (.branch value id (some noId))).2
      errors := reading.errors ++ new ++ noNew } _ _ _ _ _

end Conditions

end Constructs

end Reading

namespace Grammar

/-- What a reading does with statements among which fragments have been inserted. -/
def Inserted.Taken : Extent -> List Token -> Clause -> Nat -> Prop
  | .one, damaged, clause, count => Reading.RecoversAlways damaged clause count
  | .many, damaged, clause, count => Reading.RecoversSequence damaged clause count

/-- One more statement is taken before others. -/
theorem Inserted.taken_next
    {firstTokens restTokens firstDamaged restDamaged : List Token}
    {first rest : Clause}
    {firstCount restCount : Nat}
    (firstInserted : Inserted .one firstTokens firstDamaged first firstCount)
    (restInserted : Inserted .many restTokens restDamaged rest restCount)
    (firstTaken : Reading.RecoversAlways firstDamaged first firstCount)
    (restTaken : Reading.RecoversSequence restDamaged rest restCount) :
    Reading.RecoversSequence (firstDamaged ++ restDamaged) (.seq first rest)
      (firstCount + restCount) := by
  intro place gathers errors forest ids
  obtain ⟨forest', id, new, size_eq, grows, texts_eq, held, goes⟩ :=
    gathers.exists_next errors forest ids (firstTaken _ rfl (gathers.is_nested errors forest ids))
  obtain ⟨forest'', added, new', size_eq', grows', texts_eq', restHeld, restGoes⟩ :=
    restTaken place gathers (errors ++ new) forest' (id :: ids)
  rw [Reading.size_of_texts_eq texts_eq] at restHeld
  have started : (place errors forest ids).feedAll firstDamaged =
      { place errors forest ids with mode := .statement }.feedAll firstDamaged := by
    obtain ⟨⟨⟩, _⟩ | ⟨token, tokens, rfl, starts⟩ := firstInserted.exists_first
    exact gathers.feedAll_eq starts errors forest ids tokens
  refine ⟨forest'', id :: added, new ++ new', ?_, grows.trans grows', ?_,
    .seq (held.mono grows') restHeld, fun token no_else => ?_⟩
  · rw [Array.size_append, size_eq, size_eq']
  · rw [texts_eq', texts_eq, List.append_assoc]
    rfl
  · rw [Reading.feedAll_append, started, List.reverse_cons, List.append_assoc,
      List.singleton_append, ← Array.append_assoc, ← restGoes token no_else]
    -- The first token after the statement collects it.
    obtain ⟨_, rfl⟩ | ⟨next, tokens, rfl, starts⟩ := restInserted.exists_first
    · exact goes token fun _ => no_else
    · rw [Reading.feedAll_cons, Reading.feedAll_cons, goes next fun _ => starts.1]

/-- A fragment is skipped before other statements. -/
theorem Inserted.taken_fragment
    {inner damaged : List Token}
    {clause : Clause}
    {count : Nat}
    {line : Line}
    (fragment : Reading.Fragment inner line)
    (taken : Reading.RecoversSequence damaged clause count) :
    Reading.RecoversSequence (inner ++ ⟨.mark .semicolon, line⟩ :: damaged) clause (count + 1) := by
  intro place gathers errors forest ids
  obtain ⟨forest', error, grows, texts_eq, skipped⟩ :=
    gathers.exists_fragment fragment errors forest ids
  obtain ⟨forest'', added, new, size_eq, grows', texts_eq', held, goes⟩ :=
    taken place gathers (errors.push error) forest' ids
  rw [texts_eq] at texts_eq' held
  refine ⟨forest'', added, #[error] ++ new, ?_, grows.trans grows', texts_eq', held, ?_⟩
  · rw [Array.size_append, size_eq, Nat.add_comm]
    rfl
  · intro token no_else
    rw [List.append_cons, Reading.feedAll_append, skipped, goes token no_else, ← Array.append_assoc,
      Array.append_singleton]

/-- A reading takes statements among which fragments have been inserted. -/
theorem Inserted.taken
    {extent : Extent}
    {tokens damaged : List Token}
    {clause : Clause}
    {count : Nat}
    (inserted : Inserted extent tokens damaged clause count) :
    Inserted.Taken extent damaged clause count := by
  induction inserted with
  | none =>
      intro place gathers errors forest ids
      exact ⟨forest, [], #[], rfl, .refl forest, (List.append_nil _).symm, .done _, by simp⟩
  | fragment line fragment inserted inductionHypothesis =>
      exact Inserted.taken_fragment fragment inductionHypothesis
  | next firstInserted restInserted firstHypothesis restHypothesis =>
      exact Inserted.taken_next firstInserted restInserted firstHypothesis restHypothesis
  | same sentence =>
      intro reading mode_eq _
      exact (sentence.taken reading mode_eq).recovers
  | block line closeLine inserted inductionHypothesis =>
      intro reading mode_eq is_nested
      exact Reading.recovers_block mode_eq is_nested inductionHypothesis line closeLine
  | branch line openLine closeLine phrase inserted inductionHypothesis =>
      intro reading mode_eq is_nested
      exact Reading.recovers_branch mode_eq is_nested phrase inductionHypothesis line openLine
        closeLine
  | choice line openLine closeLine elseLine phrase yesInserted closed noInserted yesHypothesis
      noHypothesis =>
      intro reading mode_eq is_nested
      exact Reading.recovers_choice mode_eq is_nested phrase yesHypothesis line openLine closeLine
        closed noHypothesis elseLine
  | loop line openLine closeLine phrase inserted inductionHypothesis =>
      intro reading mode_eq is_nested
      exact Reading.recovers_loop mode_eq is_nested phrase inductionHypothesis line openLine
        closeLine

/-- A program with fragments is read to the end, with one error for each of them, and the forest
holds the tree of the derivation without them. -/
theorem InsertedInto.exists_ofTokens
    {tokens damaged : List Token}
    {tree : SyntaxTree}
    {count : Nat}
    (inserted : InsertedInto tokens damaged tree count)
    (line : Line) :
    ∃ forest ids errors, errors.size = count ∧
      Reading.ofTokens (damaged ++ [⟨.endOfFile, line⟩]) =
        { mode := .ended
          body := ids.reverse
          declarations := tree.declarations.toArray
          forest := forest
          errors := errors } ∧
      forest.HoldsClause .many 0 ids tree.body ∧
      forest.texts.constants.toList = tree.body.texts := by
  cases inserted with
  | @program wordLine openLine closeLine declarationTokens bodyTokens bodyDamaged declarations body
      count declares inserted =>
      have started : Reading.start.feedAll
          (⟨.keyword .program, wordLine⟩ :: ⟨.mark .leftBrace, openLine⟩ :: declarationTokens) =
          { declarations := declarations.toArray, mode := .declarations } := by
        rw [Reading.feedAll_cons, Reading.feedAll_cons, declares.feedAll_eq rfl]
        simp [Reading.start, Reading.feed, Reading.programWord, Reading.openingBrace]
      obtain ⟨forest, ids, errors, size_eq, _, texts_eq, held, goes⟩ := inserted.taken _
        (Reading.gathers_body { declarations := declarations.toArray, mode := .sequence } rfl)
        #[] {} []
      refine ⟨forest, ids, errors, size_eq, ?_, held, texts_eq⟩
      have closed := goes ⟨.mark .rightBrace, closeLine⟩ (by simp)
      rw [List.append_nil, Array.empty_append] at closed
      -- What follows the declarations names no type, be it a statement, a fragment or the brace.
      have after_declarations : Reading.feedAll
          { declarations := declarations.toArray, mode := .declarations }
          (bodyDamaged ++ [⟨.mark .rightBrace, closeLine⟩]) =
          Reading.feedAll { declarations := declarations.toArray, mode := .sequence }
            (bodyDamaged ++ [⟨.mark .rightBrace, closeLine⟩]) := by
        obtain ⟨_, rfl⟩ | ⟨first, rest, rfl, starts⟩ := inserted.exists_first
        · rfl
        · have first_eq := feed_declarations starts.2.2 { declarations := declarations.toArray }
          rw [List.cons_append, Reading.feedAll_cons, first_eq]
          rfl
      unfold Reading.ofTokens
      rw [input_eq, Reading.feedAll_append, List.append_assoc, Reading.feedAll_append, started,
        after_declarations, Reading.feedAll_append]
      exact congrArg (Reading.feed · ⟨.endOfFile, line⟩) closed

end Grammar

/-- Fragments between the statements of a program, in its body or in any block of it, are skipped.
Each makes exactly one error, and the program that is read has the declarations, the variables, the
strings and the tree of the program without them. -/
theorem fragments_skipped
    {tokens damaged : List Token}
    {tree : SyntaxTree}
    {count : Nat}
    (inserted : InsertedInto tokens damaged tree count)
    (line : Line) :
    let original := Program.ofTokens (tokens ++ [⟨.endOfFile, line⟩])
    let recovered := Program.ofTokens (damaged ++ [⟨.endOfFile, line⟩])
    (recovered.2.filter fun diagnostic => diagnostic.kind == .syntactic).length = count ∧
      recovered.1.declarations = original.1.declarations ∧
      recovered.1.scope = original.1.scope ∧
      recovered.1.forest.texts = original.1.forest.texts ∧
      (∀ other, original.1.ReadsBack other ↔ other = tree) ∧
      ∀ other, recovered.1.ReadsBack other ↔ other = tree := by
  intro original recovered
  have originalBack : original.1.ReadsBack tree :=
    Program.readsBack_of_derives inserted.derives line
  obtain ⟨forest, ids, errors, size_eq, read_eq, held, texts_eq⟩ := inserted.exists_ofTokens line
  have recoveredBack : recovered.1.ReadsBack tree := by
    unfold recovered Program.ofTokens Program.assemble
    rw [read_eq]
    refine ⟨List.toList_toArray, ?_, texts_eq⟩
    dsimp only
    rwa [List.reverse_reverse]
  have declarations_eq : recovered.1.declarations = original.1.declarations :=
    recoveredBack.declarations_eq.trans originalBack.declarations_eq.symm
  have unique : ∀ {program : Program}, program.ReadsBack tree ->
      ∀ other, program.ReadsBack other ↔ other = tree := by
    intro program readBack other
    constructor
    · intro otherBack
      exact otherBack.unique readBack
    · rintro rfl
      exact readBack
  refine ⟨?_, declarations_eq, ?_, ?_, unique originalBack, unique recoveredBack⟩
  · rw [Program.filter_syntactic, read_eq, List.length_map, Array.length_toList, size_eq]
  · change (Scope.empty.declareAll recovered.1.declarations).1 =
      (Scope.empty.declareAll original.1.declarations).1
    rw [declarations_eq]
  · have texts_eq' := recoveredBack.texts_eq.trans originalBack.texts_eq.symm
    exact congrArg TextPool.mk (Array.toList_inj.1 texts_eq')

/-- A loop over a block. -/
def plainLoop : List Token :=
  [⟨.keyword .program, 1⟩, ⟨.mark .leftBrace, 1⟩,
    ⟨.keyword .int, 2⟩, ⟨.name "x", 2⟩, ⟨.mark .semicolon, 2⟩,
    ⟨.keyword .while, 4⟩, ⟨.mark .leftParen, 4⟩, ⟨.name "x", 4⟩, ⟨.mark .rightParen, 4⟩,
    ⟨.mark .leftBrace, 4⟩, ⟨.name "x", 6⟩, ⟨.mark .semicolon, 6⟩, ⟨.mark .rightBrace, 7⟩,
    ⟨.mark .rightBrace, 9⟩]

/-- The same loop with two operands before it, a parenthesis around nothing but a type in its block,
and a lone semicolon behind it. -/
def littered : List Token :=
  [⟨.keyword .program, 1⟩, ⟨.mark .leftBrace, 1⟩,
    ⟨.keyword .int, 2⟩, ⟨.name "x", 2⟩, ⟨.mark .semicolon, 2⟩,
    ⟨.int 1, 3⟩, ⟨.int 2, 3⟩, ⟨.mark .semicolon, 3⟩,
    ⟨.keyword .while, 4⟩, ⟨.mark .leftParen, 4⟩, ⟨.name "x", 4⟩, ⟨.mark .rightParen, 4⟩,
    ⟨.mark .leftBrace, 4⟩,
    ⟨.mark .leftParen, 5⟩, ⟨.keyword .int, 5⟩, ⟨.name "x", 5⟩, ⟨.mark .semicolon, 5⟩,
    ⟨.name "x", 6⟩, ⟨.mark .semicolon, 6⟩, ⟨.mark .rightBrace, 7⟩,
    ⟨.mark .semicolon, 8⟩,
    ⟨.mark .rightBrace, 9⟩]

/-- The tree of the loop. -/
def plainLoopTree : SyntaxTree where
  declarations := [⟨"x", .int, 2⟩]
  body := .seq (.loop 4 (.name 4 "x") (.block 4 (.seq (.expr 6 (.name 6 "x")) .done))) .done

theorem littered_inserted : InsertedInto plainLoop littered plainLoopTree 3 := by
  have operands : Reading.Fragment [⟨.int 1, 3⟩, ⟨.int 2, 3⟩] 3 :=
    Reading.fragment_of_errors (by decide) (by decide) (by decide)
  have parenthesis :
      Reading.Fragment [⟨.mark .leftParen, 5⟩, ⟨.keyword .int, 5⟩, ⟨.name "x", 5⟩] 5 :=
    Reading.fragment_of_errors (by decide) (by decide) (by decide)
  have nothing : Reading.Fragment [] 8 :=
    Reading.fragment_of_errors (by decide) (by decide) (by decide)
  have named : ∀ line, Phrase .expression [⟨.name "x", line⟩] (.name line "x") := fun line =>
    (Phrase.name "x" line).of_primary .expression
  have body : Inserted .many _ _ _ _ :=
    .fragment 5 parenthesis (.next (.same (.expr 6 (named 6))) .none)
  exact .program 1 1 9 (.next 2 2 (by decide) (.last "x" 2) .none)
    (.fragment 3 operands
      (.next (.loop 4 4 4 (named 4) (.block 4 7 body)) (.fragment 8 nothing .none)))

/-- All three fragments are skipped, and the tree is that of the plain loop. -/
theorem littered_recovered :
    InsertedInto plainLoop littered plainLoopTree 3 ∧
      ((Program.ofTokens (littered ++ [⟨.endOfFile, 10⟩])).2.filter
        fun diagnostic => diagnostic.kind == .syntactic).length = 3 ∧
      ∀ other, (Program.ofTokens (littered ++ [⟨.endOfFile, 10⟩])).1.ReadsBack other ↔
        other = plainLoopTree := by
  obtain ⟨count_eq, _, _, _, _, readsBack⟩ := fragments_skipped littered_inserted 10
  exact ⟨littered_inserted, count_eq, readsBack⟩

end MiniLang
