import MiniLang.Proofs.Reading.Acceptance
import MiniLang.Proofs.Reading.Sentences
import MiniLang.Proofs.Scope

/-!
# Programs that are read without an error

Reading accepts exactly the programs of the grammar, and what it builds is the tree of the
derivation.  One direction follows derivations, the other one the tokens that remain: whatever is
accepted where a statement may start begins with a statement of the grammar.
-/

namespace MiniLang

open Grammar

namespace Reading

/-- Tokens start with a statement, which takes every alternative that could belong to it. -/
def HasSentence (tokens : List Token) : Prop :=
  ∃ inner clause token rest, tokens = inner ++ token :: rest ∧ Sentence .one inner clause ∧
    (clause.endsOpen = true -> token.kind ≠ .keyword .else)

/-- Tokens start with statements up to a closing brace. -/
def HasSequence (tokens : List Token) : Prop :=
  ∃ inner clause line rest, tokens = inner ++ ⟨.mark .rightBrace, line⟩ :: rest ∧
    Sentence .many inner clause

/-- Whatever is accepted where a statement has to start begins with one. -/
def FoundOne (tokens : List Token) : Prop :=
  ∀ reading : Reading, reading.mode = .statement -> reading.Accepts tokens -> HasSentence tokens

/-- Whatever is accepted where statements are collected begins with statements and a brace. -/
def FoundMany (tokens : List Token) : Prop :=
  ∀ place : Forest -> List StmtId -> Reading, Collects place -> ∀ forest ids,
    (place forest ids).Accepts tokens -> HasSequence tokens

/-- A statement that no alternative can follow is found. -/
theorem HasSentence.of_closed
    {reading : Reading}
    {inner rest : List Token}
    {clause : Clause}
    (sentence : Sentence .one inner clause)
    (closed : clause.endsOpen = false)
    (accepts : reading.Accepts rest) :
    HasSentence (inner ++ rest) := by
  obtain ⟨token, rest, rfl⟩ := accepts.exists_cons
  refine ⟨inner, clause, token, rest, rfl, sentence, fun isOpen => ?_⟩
  rw [closed] at isOpen
  cases isOpen

section Parts

variable {reading : Reading} {tokens : List Token}

/-- The semicolon that ends a statement is found. -/
theorem HasSentence.of_semicolon
    (inner : List Token)
    {clause : Clause}
    (accepts : reading.Accepts tokens)
    (refused : ∀ token, token.kind ≠ .mark .semicolon -> (reading.feed token).Broken)
    (sentence : ∀ endLine, Sentence .one (inner ++ [⟨.mark .semicolon, endLine⟩]) clause)
    (closed : clause.endsOpen = false) :
    HasSentence (inner ++ tokens) := by
  obtain ⟨endLine, rest, rfl, rest_accepts⟩ :=
    accepts.expect_kind (.mark .semicolon) (by simp) refused
  rw [List.append_cons]
  exact .of_closed (sentence endLine) closed rest_accepts

/-- Where the word for a format has to stand, it is found with the end of the statement. -/
theorem HasSentence.of_format
    (inner : List Token)
    {transfer : Transfer}
    {clause : Clause}
    (accepts : reading.Accepts tokens)
    (mode_eq : reading.mode = .formatWord transfer)
    (sentence : ∀ wordLine endLine, Sentence .one
      (inner ++ [⟨.keyword .hex, wordLine⟩, ⟨.mark .semicolon, endLine⟩]) clause)
    (closed : clause.endsOpen = false) :
    HasSentence (inner ++ tokens) := by
  obtain ⟨wordLine, rest, rfl, rest_accepts⟩ := accepts.expect_kind (.keyword .hex) (by simp) (by
    intro token other
    simp only [feed, mode_eq, formatWord, if_neg other]
    exact broken_fail _ _ _)
  have worded : reading.feed ⟨.keyword .hex, wordLine⟩ =
      { reading with mode := .formatEnd transfer } := by
    simp only [feed, mode_eq, formatWord, if_true]
  rw [worded] at rest_accepts
  rw [List.append_cons]
  refine .of_semicolon _ rest_accepts ?_ (fun endLine => ?_) closed
  · intro token other
    simp only [feed, formatEnd, if_neg other]
    exact broken_fail _ _ _
  · rw [List.append_assoc]
    exact sentence wordLine endLine

/-- Behind the word of a construct its condition is found. -/
theorem exists_condition
    {line : Line}
    (construct : Construct)
    (mode_eq : reading.mode = .statement)
    (accepts : reading.Accepts (⟨.keyword construct.keyword, line⟩ :: tokens)) :
    ∃ inner condition openLine closeLine rest forest value,
      tokens = ⟨.mark .leftParen, openLine⟩ :: inner ++ ⟨.mark .rightParen, closeLine⟩ :: rest ∧
      Phrase .expression inner condition ∧
      { reading with
        stack := inside construct line value :: reading.stack
        forest := forest
        mode := .statement }.Accepts rest := by
  have opened : reading.feed ⟨.keyword construct.keyword, line⟩ =
      { reading with mode := .openCondition construct line } := by
    cases construct <;> simp only [feed, mode_eq] <;> rfl
  have accepts' := accepts.next (by simp)
  rw [opened] at accepts'
  obtain ⟨openLine, rest, rfl, started⟩ := accepts'.expect_kind (.mark .leftParen) (by simp) (by
    intro token other
    simp only [feed, openCondition, if_neg other]
    exact broken_fail _ _ _)
  obtain ⟨inner, condition, _, closeLine, rest, forest, mode, value, rfl, phrase, rfl, closed⟩ :=
    (found .expression (by decide) rest).expect started rfl rfl (· = .mark .rightParen) (by simp) (by
      intro forest mode value token other
      simp only [afterExpression, if_neg other]
      exact broken_fail _ _ _)
  refine ⟨inner, condition, openLine, closeLine, rest, forest, value, rfl, phrase, ?_⟩
  cases construct <;> exact closed

end Parts

section Statements

variable {reading : Reading} {tokens : List Token} {line : Line}

/-- Statements are found in every shorter list of tokens. -/
structure SentencesBelow (tokens : List Token) : Prop where
  one : ∀ shorter : List Token, shorter.length < tokens.length -> FoundOne shorter
  many : ∀ shorter : List Token, shorter.length < tokens.length -> FoundMany shorter

/-- A block is found behind its brace. -/
theorem SentencesBelow.hasSentence_block
    (below : SentencesBelow (⟨.mark .leftBrace, line⟩ :: tokens))
    (mode_eq : reading.mode = .statement)
    (accepts : reading.Accepts (⟨.mark .leftBrace, line⟩ :: tokens)) :
    HasSentence (⟨.mark .leftBrace, line⟩ :: tokens) := by
  have opened : reading.feed ⟨.mark .leftBrace, line⟩ =
      { reading with stack := .block line [] :: reading.stack, mode := .sequence } := by
    simp only [feed, mode_eq, statement]
  have accepts' := accepts.next (by simp)
  rw [opened] at accepts'
  obtain ⟨inner, body, closeLine, rest, rfl, sentence⟩ :=
    below.many tokens (Nat.lt_succ_self _) _ (collects_block reading line) reading.forest [] accepts'
  have closed := accepts'.drop.next (by simp)
  have block : Sentence .one
      (⟨.mark .leftBrace, line⟩ :: inner ++ [⟨.mark .rightBrace, closeLine⟩]) (.block line body) :=
    .block line closeLine sentence
  have found := HasSentence.of_closed block rfl closed
  rwa [List.append_assoc] at found

/-- A branch is found behind its word, with its alternative if there is one. -/
theorem SentencesBelow.hasSentence_branch
    (below : SentencesBelow (⟨.keyword .if, line⟩ :: tokens))
    (mode_eq : reading.mode = .statement)
    (accepts : reading.Accepts (⟨.keyword .if, line⟩ :: tokens)) :
    HasSentence (⟨.keyword .if, line⟩ :: tokens) := by
  obtain ⟨inner, condition, openLine, closeLine, rest, forest, value, rfl, phrase, yesAccepts⟩ :=
    exists_condition .branch mode_eq accepts
  dsimp only [inside] at yesAccepts
  obtain ⟨yesTokens, yes, ⟨kind, elseLine⟩, rest', rfl, yesSentence, apart⟩ :=
    below.one rest (by simp only [List.length_append, List.length_cons]; omega) _ rfl yesAccepts
  by_cases isElse : kind = .keyword .else
  · subst isElse
    have closed : yes.endsOpen = false := by
      cases isOpen : yes.endsOpen with
      | false => rfl
      | true => exact absurd rfl (apart isOpen)
    obtain ⟨forest', yesId, _, _, _, goes⟩ := yesSentence.taken
      { reading with
        stack := .yesBranch line value :: reading.stack
        forest := forest
        mode := .statement } rfl
    have noAccepts := yesAccepts.drop.next (by simp)
    rw [goes ⟨.keyword .else, elseLine⟩ apart, settle, if_pos rfl] at noAccepts
    obtain ⟨noTokens, no, next, rest, rfl, noSentence, noApart⟩ :=
      below.one rest' (by simp only [List.length_append, List.length_cons]; omega) _ rfl noAccepts
    exact ⟨_, _, next, rest, by simp, .choice line openLine closeLine elseLine phrase yesSentence
      closed noSentence, noApart⟩
  · exact ⟨_, _, ⟨kind, elseLine⟩, rest', by simp,
      .branch line openLine closeLine phrase yesSentence, fun _ => isElse⟩

/-- A loop is found behind its word. -/
theorem SentencesBelow.hasSentence_loop
    (below : SentencesBelow (⟨.keyword .while, line⟩ :: tokens))
    (mode_eq : reading.mode = .statement)
    (accepts : reading.Accepts (⟨.keyword .while, line⟩ :: tokens)) :
    HasSentence (⟨.keyword .while, line⟩ :: tokens) := by
  obtain ⟨inner, condition, openLine, closeLine, rest, forest, value, rfl, phrase, bodyAccepts⟩ :=
    exists_condition .loop mode_eq accepts
  obtain ⟨bodyTokens, body, token, rest', rfl, sentence, apart⟩ :=
    below.one rest (by simp only [List.length_append, List.length_cons]; omega) _ rfl bodyAccepts
  exact ⟨_, _, token, rest', by simp, .loop line openLine closeLine phrase sentence, apart⟩

/-- A statement that reads a variable is found behind its word. -/
theorem hasSentence_read
    (mode_eq : reading.mode = .statement)
    (accepts : reading.Accepts (⟨.keyword .read, line⟩ :: tokens)) :
    HasSentence (⟨.keyword .read, line⟩ :: tokens) := by
  have opened : reading.feed ⟨.keyword .read, line⟩ = { reading with mode := .readTarget line } := by
    simp only [feed, mode_eq, statement]
  have named := accepts.next (by simp)
  rw [opened] at named
  obtain ⟨_, nameLine, rest, rfl, ⟨spelling, rfl⟩, formatted⟩ :=
    named.expect (fun kind => ∃ spelling, kind = .name spelling) (by simp) (by
      intro token other
      change (readTarget _ line token).Broken
      unfold readTarget
      split
      · next spelling kind_eq => exact absurd ⟨spelling, kind_eq⟩ other
      · exact broken_fail _ _ _)
  obtain ⟨_, endLine, rest, rfl, kind_eq | kind_eq, rest_accepts⟩ :=
    formatted.expect (fun kind => kind = .mark .semicolon ∨ kind = .mark .comma) (by simp) (by
      intro token other
      change (readEnd _ line _ token).Broken
      unfold readEnd
      split
      · next kind_eq => exact absurd (.inl kind_eq) other
      · next kind_eq => exact absurd (.inr kind_eq) other
      · exact broken_fail _ _ _)
  · subst kind_eq
    exact .of_closed (.read line nameLine endLine spelling .plain) rfl rest_accepts
  · subst kind_eq
    exact HasSentence.of_format [_, _, _] rest_accepts rfl
      (fun wordLine endLine' => .read line nameLine endLine' spelling (.hex endLine wordLine)) rfl

/-- A statement that writes is found behind its word. -/
theorem hasSentence_write
    (mode_eq : reading.mode = .statement)
    (accepts : reading.Accepts (⟨.keyword .write, line⟩ :: tokens)) :
    HasSentence (⟨.keyword .write, line⟩ :: tokens) := by
  have opened : reading.feed ⟨.keyword .write, line⟩ =
      { reading with mode := .writeStart line } := by
    simp only [feed, mode_eq, statement]
  have started := accepts.next (by simp)
  rw [opened] at started
  obtain ⟨⟨kind, textLine⟩, rest, rfl⟩ := started.exists_cons
  by_cases text : ∃ bytes, kind = .text bytes
  · obtain ⟨bytes, rfl⟩ := text
    have text_accepts := started.next (by simp)
    refine HasSentence.of_semicolon [_, _] text_accepts ?_
      (fun endLine => .writeText line textLine endLine bytes) rfl
    intro token other
    change (textEnd _ line bytes token).Broken
    unfold textEnd
    split
    · next kind_eq => exact absurd kind_eq other
    · exact broken_fail _ _ _
    · exact broken_fail _ _ _
  · have valued := started.of_feed_eq (feed_writeStart (fun bytes kind_eq => text ⟨bytes, kind_eq⟩)
      reading line)
    obtain ⟨inner, value, kind, endLine, rest', forest, mode, id, tokens_eq, phrase,
        kind_eq | kind_eq, rest_accepts⟩ :=
      (found .expression (by decide) _).expect valued rfl rfl
        (fun kind => kind = .mark .semicolon ∨ kind = .mark .comma) (by simp) (by
          intro forest mode value token other
          dsimp only [afterExpression]
          split
          · next kind_eq => exact absurd (.inl kind_eq) other
          · next kind_eq => exact absurd (.inr kind_eq) other
          · exact broken_fail _ _ _)
    · subst kind_eq
      have written := HasSentence.of_closed (.write line endLine phrase .plain) rfl rest_accepts
      rw [tokens_eq]
      simpa using written
    · subst kind_eq
      rw [tokens_eq, ← List.cons_append, List.append_cons]
      have written : ∀ wordLine endLine', Sentence .one
          ((⟨.keyword .write, line⟩ :: inner ++ [⟨.mark .comma, endLine⟩]) ++
            [⟨.keyword .hex, wordLine⟩, ⟨.mark .semicolon, endLine'⟩]) (.write line value .hex) := by
        intro wordLine endLine'
        simpa using Sentence.write line endLine' phrase (.hex endLine wordLine)
      exact HasSentence.of_format _ rest_accepts rfl written rfl

/-- The statement that leaves the program is found behind its word. -/
theorem hasSentence_leave
    (mode_eq : reading.mode = .statement)
    (accepts : reading.Accepts (⟨.keyword .return, line⟩ :: tokens)) :
    HasSentence (⟨.keyword .return, line⟩ :: tokens) := by
  have opened : reading.feed ⟨.keyword .return, line⟩ = { reading with mode := .leaveEnd line } := by
    simp only [feed, mode_eq, statement]
  have ended := accepts.next (by simp)
  rw [opened] at ended
  refine HasSentence.of_semicolon [_] ended ?_ (fun endLine => .leave line endLine) rfl
  intro token other
  simp only [feed, leaveEnd, if_neg other]
  exact broken_fail _ _ _

/-- Where no other statement opens, an expression statement is found. -/
theorem hasSentence_expr
    {token : Token}
    (plain : opensStatement token.kind = false)
    (mode_eq : reading.mode = .statement)
    (accepts : reading.Accepts (token :: tokens)) :
    HasSentence (token :: tokens) := by
  have started : reading.feed token =
      { reading with
        stack := .exprStatement token.line :: reading.stack
        mode := .expression }.feed token := by
    simp only [feed, mode_eq]
    exact statement_eq_feed plain reading
  obtain ⟨inner, value, _, endLine, rest, forest, mode, id, tokens_eq, phrase, rfl, ended⟩ :=
    (found .expression (by decide) _).expect (accepts.of_feed_eq started) rfl rfl
      (· = .mark .semicolon) (by simp) (by
        intro forest mode value token other
        simp only [afterExpression, if_neg other]
        exact broken_fail _ _ _)
  obtain ⟨first, inner, rfl, _⟩ := phrase.exists_first
  cases tokens_eq
  have sentence : Sentence .one (token :: inner ++ [⟨.mark .semicolon, endLine⟩])
      (.expr token.line value) := .expr endLine phrase
  have found := HasSentence.of_closed sentence rfl ended
  rwa [List.append_assoc] at found

/-- A statement is found. -/
theorem SentencesBelow.foundOne (below : SentencesBelow tokens) : FoundOne tokens := by
  intro reading mode_eq accepts
  obtain ⟨⟨kind, line⟩, rest, rfl⟩ := accepts.exists_cons
  cases opens : opensStatement kind with
  | false => exact hasSentence_expr opens mode_eq accepts
  | true =>
      cases kind with
      | mark mark =>
          cases mark with
          | leftBrace => exact below.hasSentence_block mode_eq accepts
          | _ => cases opens
      | keyword word =>
          cases word with
          | «if» => exact below.hasSentence_branch mode_eq accepts
          | «while» => exact below.hasSentence_loop mode_eq accepts
          | read => exact hasSentence_read mode_eq accepts
          | write => exact hasSentence_write mode_eq accepts
          | «return» => exact hasSentence_leave mode_eq accepts
          | _ => cases opens
      | _ => cases opens

/-- Statements are found up to the brace after them. -/
theorem SentencesBelow.foundMany (below : SentencesBelow tokens) : FoundMany tokens := by
  intro place collects forest ids accepts
  obtain ⟨⟨kind, line⟩, rest, rfl⟩ := accepts.exists_cons
  by_cases closes : kind = .mark .rightBrace
  · subst closes
    exact ⟨[], .done, line, rest, rfl, .none⟩
  · have no_end : kind ≠ .endOfFile := by
      rintro rfl
      refine accepts.not_broken ?_
      rw [collects.feed_eq]
      exact broken_report _ _
    have started := (collects.feed_eq forest ids ⟨kind, line⟩).trans
      (sequence_eq_feed ⟨closes, no_end⟩ (place forest ids))
    have first_accepts := accepts.of_feed_eq started
    obtain ⟨firstTokens, first, token, rest', tokens_eq, sentence, apart⟩ :=
      below.foundOne _ rfl first_accepts
    obtain ⟨forest', id, _, _, _, goes⟩ := collects.exists_next forest ids (sentence.taken _ rfl)
    rw [tokens_eq] at first_accepts ⊢
    have rest_accepts := first_accepts.drop.of_feed_eq (goes token apart)
    have shorter : (token :: rest').length < (⟨kind, line⟩ :: rest : List Token).length := by
      obtain ⟨⟨⟩, _⟩ | ⟨head, tail, rfl, _⟩ := sentence.exists_first
      rw [tokens_eq]
      simp only [List.length_append, List.length_cons]
      omega
    obtain ⟨restTokens, clause, closeLine, rest, rest_eq, restSentence⟩ :=
      below.many _ shorter place collects forest' (id :: ids) rest_accepts
    refine ⟨firstTokens ++ restTokens, .seq first clause, closeLine, rest, ?_,
      .next sentence restSentence⟩
    rw [rest_eq, List.append_assoc]

end Statements

/-- Statements are found in all tokens. -/
theorem sentencesBelow (tokens : List Token) : SentencesBelow tokens := by
  induction length_eq : tokens.length using Nat.strongRecOn generalizing tokens with
  | ind length inductionHypothesis =>
      refine ⟨fun shorter length_lt => ?_, fun shorter length_lt => ?_⟩
      · exact (inductionHypothesis _ (length_eq ▸ length_lt) shorter rfl).foundOne
      · exact (inductionHypothesis _ (length_eq ▸ length_lt) shorter rfl).foundMany

section Programs

/-- The names of a declaration are found up to its semicolon. -/
theorem exists_names
    {reading : Reading}
    {tokens : List Token}
    {type : ValueType}
    (mode_eq : reading.mode = .declaredName type)
    (accepts : reading.Accepts tokens) :
    ∃ inner declarations endLine rest, tokens = inner ++ ⟨.mark .semicolon, endLine⟩ :: rest ∧
      Names type inner declarations := by
  obtain ⟨_, nameLine, rest, tokens_eq, ⟨spelling, rfl⟩, named⟩ :=
    accepts.expect (fun kind => ∃ spelling, kind = .name spelling) (by simp) (by
      intro token other
      simp only [feed, mode_eq]
      unfold declaredName
      split
      · next spelling kind_eq => exact absurd ⟨spelling, kind_eq⟩ other
      · exact broken_failDeclaration _ _ _)
  have named_eq : reading.feed ⟨.name spelling, nameLine⟩ =
      { reading with
        declarations := reading.declarations.push ⟨spelling, type, nameLine⟩
        mode := .afterName type } := by
    simp only [feed, mode_eq, declaredName]
  rw [named_eq] at named
  obtain ⟨_, line, rest', rest_eq, kind_eq | kind_eq, rest_accepts⟩ :=
    named.expect (fun kind => kind = .mark .semicolon ∨ kind = .mark .comma) (by simp) (by
      intro token other
      change (afterName _ type token).Broken
      unfold afterName
      split
      · next kind_eq => exact absurd (.inr kind_eq) other
      · next kind_eq => exact absurd (.inl kind_eq) other
      · exact broken_failDeclaration _ _ _)
  · subst kind_eq
    exact ⟨[_], _, line, rest', by rw [tokens_eq, rest_eq]; rfl, .last spelling nameLine⟩
  · subst kind_eq
    have shorter : rest'.length < tokens.length := by
      rw [tokens_eq, rest_eq]
      simp only [List.length_cons]
      omega
    obtain ⟨inner, declarations, endLine, rest, rfl, names⟩ := exists_names rfl rest_accepts
    exact ⟨_ :: _ :: inner, _, endLine, rest, by rw [tokens_eq, rest_eq]; rfl,
      .more spelling nameLine line names⟩
termination_by tokens.length

/-- The declarations of a program are found up to what names no type. -/
theorem exists_declarations
    {reading : Reading}
    {tokens : List Token}
    (mode_eq : reading.mode = .declarations)
    (accepts : reading.Accepts tokens) :
    ∃ inner declarations rest, tokens = inner ++ rest ∧ Declares inner declarations ∧
      { reading with
        declarations := reading.declarations ++ declarations.toArray
        mode := .sequence }.Accepts rest := by
  obtain ⟨⟨kind, line⟩, rest, tokens_eq⟩ := accepts.exists_cons
  by_cases types : ∃ word type, (word, type) ∈ typeWords ∧ kind = .keyword word
  · obtain ⟨word, type, listed, rfl⟩ := types
    rw [tokens_eq] at accepts
    have named := accepts.next (by simp)
    rw [feed_typeWord listed mode_eq] at named
    obtain ⟨inner, declarations, endLine, rest', rest_eq, names⟩ := exists_names rfl named
    rw [rest_eq] at named
    have declared := named.drop.next (by simp)
    rw [names.feed_end rfl endLine] at declared
    have shorter : rest'.length < tokens.length := by
      rw [tokens_eq, rest_eq]
      simp only [List.length_append, List.length_cons]
      omega
    obtain ⟨inner', declarations', rest'', rest_eq', declares, found⟩ :=
      exists_declarations rfl declared
    refine ⟨_, _, rest'', ?_, .next line endLine listed names declares, ?_⟩
    · rw [tokens_eq, rest_eq, rest_eq']
      simp
    · simpa using found
  · have no_type : ∀ word type, (word, type) ∈ typeWords -> kind ≠ .keyword word :=
      fun word type listed kind_eq => types ⟨word, type, listed, kind_eq⟩
    have feed_eq : reading.feed ⟨kind, line⟩ =
        { reading with mode := .sequence }.feed ⟨kind, line⟩ := by
      have ended : { reading with mode := .declarations }.feed ⟨kind, line⟩ =
          { reading with mode := .sequence }.feed ⟨kind, line⟩ := feed_declarations no_type reading
      rwa [← mode_eq] at ended
    refine ⟨[], [], tokens, rfl, .none, ?_⟩
    rw [tokens_eq] at accepts ⊢
    simpa using accepts.of_feed_eq feed_eq
termination_by tokens.length

/-- Tokens that are read from the start without an error are a program up to the end of the file. -/
theorem exists_derives
    {tokens : List Token}
    (accepts : start.Accepts tokens) :
    ∃ inner tree line rest, tokens = inner ++ ⟨.endOfFile, line⟩ :: rest ∧ Derives inner tree := by
  obtain ⟨wordLine, _, rfl, worded⟩ := accepts.expect_kind (.keyword .program) (by simp) (by
    intro token other
    change (programWord start token).Broken
    unfold programWord
    split
    · next kind_eq => exact absurd kind_eq other
    · exact broken_report _ _
    · exact (broken_report _ _).declaration token)
  obtain ⟨openLine, _, rfl, opened⟩ := worded.expect_kind (.mark .leftBrace) (by simp) (by
    intro token other
    change (openingBrace _ token).Broken
    unfold openingBrace
    rw [if_neg other]
    exact (broken_report _ _).declaration token)
  obtain ⟨declarationTokens, declarations, rest, rfl, declares, declared⟩ :=
    exists_declarations rfl opened
  have body_accepts : Accepts { declarations := declarations.toArray, mode := .sequence } rest := by
    simpa [start, feed, programWord, openingBrace] using declared
  have collects := collects_body { declarations := declarations.toArray, mode := .sequence } rfl
  obtain ⟨bodyTokens, body, closeLine, rest, rfl, sentence⟩ :=
    (sentencesBelow rest).foundMany _ collects {} [] body_accepts
  obtain ⟨forest, ids, _, _, _, goes⟩ := sentence.taken _ collects {} []
  have closed := body_accepts.drop.next (by simp)
  rw [goes ⟨.mark .rightBrace, closeLine⟩ (by simp)] at closed
  obtain ⟨⟨kind, line⟩, rest, rfl⟩ := closed.exists_cons
  have isEnd : kind = .endOfFile := by
    refine Classical.byContradiction fun other => closed.not_broken ?_
    change (afterProgram _ ⟨kind, line⟩).Broken
    unfold afterProgram
    split
    · next kind_eq => exact absurd kind_eq other
    · exact broken_report _ _
  subst isEnd
  exact ⟨_, _, line, rest, by simp, .program wordLine openLine closeLine declares sentence⟩

end Programs

end Reading

namespace Program

/-- A reading reports no breach of the grammar if and only if it has no errors. -/
theorem no_syntactic_iff {tokens : List Token} :
    (∀ diagnostic ∈ (Program.ofTokens tokens).2, diagnostic.kind ≠ .syntactic) ↔
      (Reading.ofTokens tokens).errors = #[] := by
  unfold Program.ofTokens assemble
  dsimp only
  constructor
  · intro none_syntactic
    rw [← Array.toList_eq_nil_iff, List.eq_nil_iff_forall_not_mem]
    intro error present
    exact none_syntactic error.diagnostic
      (List.mem_append_left _ (List.mem_map_of_mem present)) rfl
  · intro errors_eq diagnostic listed
    rw [errors_eq] at listed
    have semantic := Scope.semantic_of_mem_declareAll listed
    rw [semantic]
    decide

/-- The tree of a derivation is read back out of the program that its tokens are read to. -/
theorem readsBack_of_derives
    {tokens : List Token}
    {tree : SyntaxTree}
    (derives : Derives tokens tree)
    (line : Line) :
    (Program.ofTokens (tokens ++ [⟨.endOfFile, line⟩])).1.ReadsBack tree := by
  obtain ⟨forest, ids, read_eq, held, texts_eq⟩ := derives.exists_ofTokens line
  unfold Program.ofTokens assemble
  rw [read_eq]
  refine ⟨List.toList_toArray, ?_, texts_eq⟩
  dsimp only
  rwa [List.reverse_reverse]

end Program

namespace Grammar

/-- Tokens before the end of the file that are read without an error have a derivation. -/
theorem exists_derives_of_errors
    {tokens : List Token}
    {line : Line}
    (no_end : ∀ token ∈ tokens, token.kind ≠ .endOfFile)
    (errors_eq : (Reading.ofTokens (tokens ++ [⟨.endOfFile, line⟩])).errors = #[]) :
    ∃ tree, Derives tokens tree := by
  unfold Reading.ofTokens at errors_eq
  rw [input_eq] at errors_eq
  have accepts : Reading.start.Accepts (tokens ++ [⟨.endOfFile, line⟩]) :=
    ⟨⟨tokens, line, rfl⟩, Reading.not_broken_of_errors errors_eq⟩
  obtain ⟨inner, tree, endLine, rest, tokens_eq, derives⟩ := Reading.exists_derives accepts
  -- The end of the file that was found is the last token: no other token is one.
  rcases List.append_eq_append_iff.1 tokens_eq with ⟨middle, inner_eq, rest_eq⟩ |
    ⟨middle, inner_eq, rest_eq⟩
  · have middle_eq : middle = [] := by
      cases middle with
      | nil => rfl
      | cons head middle => simp at rest_eq
    rw [middle_eq, List.append_nil] at inner_eq
    exact ⟨tree, inner_eq ▸ derives⟩
  · have middle_eq : middle = [] := by
      cases middle with
      | nil => rfl
      | cons head middle =>
          obtain ⟨rfl, _⟩ := List.cons.inj rest_eq
          exact absurd rfl (no_end ⟨.endOfFile, endLine⟩ (inner_eq ▸ by simp))
    rw [middle_eq, List.append_nil] at inner_eq
    exact ⟨tree, inner_eq ▸ derives⟩

end Grammar

/-- Reading accepts exactly the grammar: no breach of it is reported if and only if the tokens before
the end of the file have a derivation.  What is then read back out of the program, with the lines of
statements and operators, is the tree of that derivation and no other. -/
theorem reading_accepts_exactly_grammar
    (tokens : List Token)
    (line : Line)
    (no_end : ∀ token ∈ tokens, token.kind ≠ .endOfFile) :
    ((∀ diagnostic ∈ (Program.ofTokens (tokens ++ [⟨.endOfFile, line⟩])).2,
        diagnostic.kind ≠ .syntactic) ↔ ∃ tree, Derives tokens tree) ∧
      ∀ tree, Derives tokens tree -> ∀ other,
        (Program.ofTokens (tokens ++ [⟨.endOfFile, line⟩])).1.ReadsBack other ↔ other = tree := by
  refine ⟨Program.no_syntactic_iff.trans ⟨exists_derives_of_errors no_end, ?_⟩, ?_⟩
  · rintro ⟨tree, derives⟩
    obtain ⟨forest, ids, read_eq, _, _⟩ := derives.exists_ofTokens line
    rw [read_eq]
  · intro tree derives other
    have readBack := Program.readsBack_of_derives derives line
    constructor
    · intro otherBack
      exact otherBack.unique readBack
    · rintro rfl
      exact readBack

/-- A program with one alternative for two branches. -/
def danglingElse : List Token :=
  [⟨.keyword .program, 1⟩, ⟨.mark .leftBrace, 1⟩,
    ⟨.keyword .int, 1⟩, ⟨.name "x", 1⟩, ⟨.mark .semicolon, 1⟩,
    ⟨.keyword .if, 2⟩, ⟨.mark .leftParen, 2⟩, ⟨.keyword .true, 2⟩, ⟨.mark .rightParen, 2⟩,
    ⟨.keyword .if, 3⟩, ⟨.mark .leftParen, 3⟩, ⟨.name "x", 3⟩, ⟨.mark .less, 3⟩, ⟨.int 1, 3⟩,
    ⟨.mark .rightParen, 3⟩,
    ⟨.name "x", 4⟩, ⟨.mark .assign, 4⟩, ⟨.name "x", 4⟩, ⟨.mark .minus, 4⟩, ⟨.int 1, 4⟩,
    ⟨.mark .minus, 5⟩, ⟨.int 2, 5⟩, ⟨.mark .semicolon, 5⟩,
    ⟨.keyword .else, 6⟩, ⟨.keyword .write, 6⟩, ⟨.name "x", 6⟩, ⟨.mark .comma, 6⟩,
    ⟨.keyword .hex, 6⟩, ⟨.mark .semicolon, 6⟩,
    ⟨.mark .rightBrace, 7⟩]

/-- Its syntax tree, in which the inner branch has the alternative. -/
def danglingElseTree : SyntaxTree where
  declarations := [⟨"x", .int, 1⟩]
  body :=
    .seq (.branch 2 (.bool 2 true)
      (.choice 3 (.binary 3 .lt (.name 3 "x") (.int 3 1))
        (.expr 4 (.assign 4 ⟨"x", 4⟩
          (.binary 5 .sub (.binary 4 .sub (.name 4 "x") (.int 4 1)) (.int 5 2))))
        (.write 6 (.name 6 "x") .hex))) .done

/-- A primary expression is an expression of every category. -/
theorem Grammar.Phrase.of_primary
    {tokens : List Token}
    {term : Term}
    (phrase : Phrase .primary tokens term)
    (category : Category) :
    Phrase category tokens term := by
  have unary : Phrase .unary tokens term := .tighter phrase
  have bitwise : Phrase .bitwise tokens term := .tighter unary
  have multiplicative : Phrase .multiplicative tokens term := .tighter bitwise
  have additive : Phrase .additive tokens term := .tighter multiplicative
  have relational : Phrase .relational tokens term := .tighter additive
  have logical : Phrase .logical tokens term := .tighter relational
  have expression : Phrase .expression tokens term := .tighter logical
  cases category <;> assumption

theorem danglingElse_derives : Derives danglingElse danglingElseTree := by
  have declares : Declares _ [⟨"x", .int, 1⟩] :=
    .next 1 1 (by decide : (Keyword.int, ValueType.int) ∈ typeWords) (.last "x" 1) .none
  have less : Phrase .relational _ _ :=
    .infixed 3 (by decide : (Mark.less, BinaryOp.lt) ∈ Category.relational.signs)
      ((Phrase.name "x" 3).of_primary _) ((Phrase.int 1 3).of_primary _)
  have first : Phrase .additive _ _ :=
    .infixed 4 (by decide : (Mark.minus, BinaryOp.sub) ∈ Category.additive.signs)
      ((Phrase.name "x" 4).of_primary _) ((Phrase.int 1 4).of_primary _)
  have second : Phrase .additive _ _ :=
    .infixed 5 (by decide : (Mark.minus, BinaryOp.sub) ∈ Category.additive.signs)
      first ((Phrase.int 2 5).of_primary _)
  have assign : Sentence .one _ _ :=
    .expr 5 (.assign "x" 4 4 (.tighter (.tighter (.tighter second))))
  have write : Sentence .one _ _ :=
    .write 6 6 ((Phrase.name "x" 6).of_primary .expression) (.hex 6 6)
  have choice : Sentence .one _ _ :=
    .choice 3 3 3 6 (.tighter (.tighter less)) assign rfl write
  have branch : Sentence .one _ _ :=
    .branch 2 2 2 ((Phrase.yes 2).of_primary .expression) choice
  exact .program 1 1 7 declares (.next branch .none)

/-- The alternative of the program belongs to the inner branch, and differences group to the left. -/
theorem danglingElse_readsBack :
    (∀ token ∈ danglingElse, token.kind ≠ .endOfFile) ∧
      (∀ diagnostic ∈ (Program.ofTokens (danglingElse ++ [⟨.endOfFile, 7⟩])).2,
        diagnostic.kind ≠ .syntactic) ∧
      ∀ other, (Program.ofTokens (danglingElse ++ [⟨.endOfFile, 7⟩])).1.ReadsBack other ↔
        other = danglingElseTree := by
  have no_end : ∀ token ∈ danglingElse, token.kind ≠ .endOfFile := by decide
  obtain ⟨accepted, readBack⟩ := reading_accepts_exactly_grammar danglingElse 7 no_end
  exact ⟨no_end, accepted.2 ⟨_, danglingElse_derives⟩, readBack _ danglingElse_derives⟩

end MiniLang
