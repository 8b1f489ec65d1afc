import MiniLang.Proofs.Reading.Recognition
import MiniLang.Proofs.Reading.Shape

/-!
# Broken statements

Tokens up to a semicolon that hold no other semicolon and no brace are either a statement or are
given up as a whole.  In the second case one error is reported, the semicolon ends the silence after
it, and the expressions that were built stay behind in the forest; nothing else changes.

That the tokens are a statement wherever they are read to their semicolon without an error is known
from the grammar: braces and the end of the file can be put behind them, and what is then accepted
begins with a statement.  Statements hold as many opening braces as closing ones, so this statement
ends at the semicolon.
-/

namespace MiniLang

open Grammar

namespace Reading

/-- No token ends a statement or opens or closes a block. -/
def Flat (tokens : List Token) : Prop :=
  ∀ token ∈ tokens, isFlat token.kind = true

@[simp] theorem flat_nil : Flat [] := by
  simp [Flat]

@[simp] theorem flat_cons {token : Token} {tokens : List Token} :
    Flat (token :: tokens) ↔ isFlat token.kind = true ∧ Flat tokens := by
  simp [Flat]

@[simp] theorem flat_append {first second : List Token} :
    Flat (first ++ second) ↔ Flat first ∧ Flat second := by
  simp only [Flat, List.mem_append]
  constructor
  · intro flat
    exact ⟨fun token present => flat token (.inl present),
      fun token present => flat token (.inr present)⟩
  · rintro ⟨firstFlat, secondFlat⟩ token (present | present)
    · exact firstFlat token present
    · exact secondFlat token present

/-- How many braces of a kind some tokens hold. -/
def braces (mark : Mark) (tokens : List Token) : Nat :=
  tokens.countP fun token => token.kind == .mark mark

@[simp] theorem braces_append (mark : Mark) (first second : List Token) :
    braces mark (first ++ second) = braces mark first + braces mark second :=
  List.countP_append

@[simp] theorem braces_cons (mark : Mark) (token : Token) (tokens : List Token) :
    braces mark (token :: tokens) =
      braces mark tokens + if token.kind == .mark mark then 1 else 0 :=
  List.countP_cons

@[simp] theorem braces_nil (mark : Mark) : braces mark [] = 0 := rfl

/-- Tokens that are flat hold no braces. -/
theorem Flat.braces_eq_zero
    {tokens : List Token}
    (flat : Flat tokens)
    {mark : Mark}
    (isBrace : mark = .leftBrace ∨ mark = .rightBrace) :
    braces mark tokens = 0 := by
  refine List.countP_eq_zero.2 fun token present holds => ?_
  have isFlat := flat token present
  rw [beq_iff_eq.1 holds] at isFlat
  rcases isBrace with rfl | rfl <;> cases isFlat

end Reading

namespace Grammar

/-- An expression holds no semicolon and no brace. -/
theorem Phrase.flat
    {category : Category}
    {tokens : List Token}
    {term : Term}
    (phrase : Phrase category tokens term) :
    Reading.Flat tokens := by
  induction phrase with
  | tighter _ inductionHypothesis => exact inductionHypothesis
  | infixed line listed _ _ leftHypothesis rightHypothesis =>
      have sign : Reading.infixOp? ⟨.mark _, line⟩ = some _ := (Category.mem_signs_iff.1 listed).1
      simp only [Reading.flat_append, Reading.flat_cons]
      exact ⟨leftHypothesis, Reading.isFlat_of_infixOp? sign, rightHypothesis⟩
  | prefixed line listed phrase inductionHypothesis =>
      simp only [prefixSigns, List.mem_cons, List.not_mem_nil, or_false, Prod.mk.injEq] at listed
      rcases listed with ⟨rfl, _⟩ | ⟨rfl, _⟩ | ⟨rfl, _⟩ <;>
        exact Reading.flat_cons.2 ⟨rfl, inductionHypothesis⟩
  | _ => simp_all [Reading.isFlat]

theorem Suffix.flat
    {tokens : List Token}
    {format : Format}
    (suffix : Suffix tokens format) :
    Reading.Flat tokens := by
  cases suffix <;> simp [Reading.isFlat]

/-- Statements hold as many opening braces as closing ones. -/
theorem Sentence.braces_eq
    {extent : Extent}
    {tokens : List Token}
    {clause : Clause}
    (sentence : Sentence extent tokens clause) :
    Reading.braces .leftBrace tokens = Reading.braces .rightBrace tokens := by
  have flat : ∀ inner, Reading.Flat inner ->
      Reading.braces .leftBrace inner = 0 ∧ Reading.braces .rightBrace inner = 0 :=
    fun inner flat => ⟨flat.braces_eq_zero (.inl rfl), flat.braces_eq_zero (.inr rfl)⟩
  induction sentence with
  | none => rfl
  | next _ _ firstHypothesis restHypothesis =>
      rw [Reading.braces_append, Reading.braces_append, firstHypothesis, restHypothesis]
  | block line closeLine sentence inductionHypothesis =>
      simp [inductionHypothesis]
  | expr endLine phrase =>
      obtain ⟨none_open, none_close⟩ := flat _ phrase.flat
      rw [Reading.braces_append, Reading.braces_append, none_open, none_close]
      rfl
  | branch line openLine closeLine phrase yesSentence yesHypothesis =>
      simp [flat _ phrase.flat, yesHypothesis]
  | choice line openLine closeLine elseLine phrase yesSentence closed noSentence yesHypothesis
      noHypothesis =>
      simp [flat _ phrase.flat, yesHypothesis, noHypothesis]
  | loop line openLine closeLine phrase sentence inductionHypothesis =>
      simp [flat _ phrase.flat, inductionHypothesis]
  | read line nameLine endLine spelling suffix => simp [flat _ suffix.flat]
  | write line endLine phrase suffix => simp [flat _ phrase.flat, flat _ suffix.flat]
  | writeText line textLine endLine bytes => rfl
  | leave line endLine => rfl

/-- A single statement ends with a semicolon or a closing brace. -/
theorem Sentence.exists_last
    {extent : Extent}
    {tokens : List Token}
    {clause : Clause}
    (sentence : Sentence extent tokens clause)
    (single : extent = .one) :
    ∃ first last, tokens = first ++ [last] ∧ Reading.isFlat last.kind = false := by
  induction sentence with
  | none => cases single
  | next => cases single
  | branch line openLine closeLine phrase yesSentence yesHypothesis =>
      obtain ⟨first, last, rfl, ends⟩ := yesHypothesis rfl
      exact ⟨_, last, by rw [List.append_cons, ← List.append_assoc], ends⟩
  | choice line openLine closeLine elseLine phrase yesSentence closed noSentence yesHypothesis
      noHypothesis =>
      obtain ⟨first, last, rfl, ends⟩ := noHypothesis rfl
      exact ⟨_, last, by rw [List.append_cons, ← List.append_assoc], ends⟩
  | loop line openLine closeLine phrase sentence inductionHypothesis =>
      obtain ⟨first, last, rfl, ends⟩ := inductionHypothesis rfl
      exact ⟨_, last, by rw [List.append_cons, ← List.append_assoc], ends⟩
  | writeText line textLine endLine bytes => exact ⟨[_, _], _, rfl, rfl⟩
  | leave line endLine => exact ⟨[_], _, rfl, rfl⟩
  | _ => exact ⟨_, _, rfl, rfl⟩

end Grammar

namespace Reading

section Closing

variable (line : Line)

/-- A closing brace puts a complete statement into place and ends the block around it, or the
program. -/
theorem settle_close
    (reading : Reading)
    (frames : List Frame)
    (last : StmtId) :
    (settle ⟨.mark .rightBrace, line⟩ reading frames last).ledger = reading.ledger ∧
      ((settle ⟨.mark .rightBrace, line⟩ reading frames last).mode = .closed ∨
        ∃ id, (settle ⟨.mark .rightBrace, line⟩ reading frames last).mode = .completed id ∧
          (settle ⟨.mark .rightBrace, line⟩ reading frames last).stack.length < frames.length) := by
  have outward : ∀ {result : Reading} {outer : List Frame} (frame : Frame),
      (result.ledger = reading.ledger ∧
        (result.mode = .closed ∨
          ∃ id, result.mode = .completed id ∧ result.stack.length < outer.length)) ->
      result.ledger = reading.ledger ∧
        (result.mode = .closed ∨
          ∃ id, result.mode = .completed id ∧ result.stack.length < (frame :: outer).length) := by
    rintro result outer frame ⟨ledger_eq, closed | ⟨id, completed, shorter⟩⟩
    · exact ⟨ledger_eq, .inl closed⟩
    · exact ⟨ledger_eq, .inr ⟨id, completed, Nat.lt_succ_of_lt shorter⟩⟩
  induction frames generalizing reading last with
  | nil => exact ⟨rfl, .inl rfl⟩
  | cons frame outer inductionHypothesis =>
      cases frame with
      | block blockLine body => exact ⟨rfl, .inr ⟨_, rfl, Nat.lt_succ_self _⟩⟩
      | _ => exact outward _ (inductionHypothesis _ _ outward)

/-- Behind a complete statement closing braces and the end of the file can follow without an error.
-/
theorem exists_closing
    (reading : Reading)
    (id : StmtId)
    (mode_eq : reading.mode = .completed id) :
    ∃ closers, (∀ token ∈ closers, token.kind = .mark .rightBrace) ∧
      (reading.feedAll (closers ++ [⟨.endOfFile, line⟩])).ledger = reading.ledger := by
  induction length_eq : reading.stack.length using Nat.strongRecOn generalizing reading id with
  | ind length inductionHypothesis =>
      have fed : reading.feed ⟨.mark .rightBrace, line⟩ =
          settle ⟨.mark .rightBrace, line⟩ reading reading.stack id := by
        simp only [feed, mode_eq]
      obtain ⟨ledger_eq, closed | ⟨id', completed, shorter⟩⟩ :=
        settle_close line reading reading.stack id
      · refine ⟨[⟨.mark .rightBrace, line⟩], by simp, ?_⟩
        rw [List.singleton_append, feedAll_cons, fed, feedAll_cons, feedAll_nil]
        simp only [feed, closed, afterProgram]
        exact ledger_eq
      · obtain ⟨closers, allClose, ledger_eq'⟩ :=
          inductionHypothesis _ (length_eq ▸ shorter) _ id' completed rfl
        refine ⟨⟨.mark .rightBrace, line⟩ :: closers, by simpa using allClose, ?_⟩
        rw [List.cons_append, feedAll_cons, fed, ledger_eq', ledger_eq]

end Closing

/-- A statement has been given up: one error more, the frames up to the innermost block dropped, and
expressions left behind in the forest. -/
def GivesUp (before : Reading) (mode : Mode) (after : Reading) : Prop :=
  ∃ forest error, before.forest.Grows forest ∧ forest.texts = before.forest.texts ∧
    after =
      { before with
        mode := mode
        stack := blocks before.stack
        forest := forest
        errors := before.errors.push error }

namespace GivesUp

variable {before middle after : Reading} {mode : Mode}

/-- Work done before a statement is given up is lost with it. -/
theorem of_works
    (works : before.Works middle)
    (givesUp : GivesUp (middle.logged before.ledger) mode after) :
    GivesUp before mode after := by
  obtain ⟨forest, error, grows, texts_eq, rfl⟩ := givesUp
  refine ⟨forest, error, works.grows.trans grows, texts_eq.trans works.texts_eq, ?_⟩
  simp only [logged, works.blocks_eq, works.body_eq, works.declarations_eq]
  rfl

/-- Where a token is refused, the statement is given up at it. -/
theorem of_fail
    {token : Token}
    (reading : Reading)
    {error : SyntaxError}
    (goes_on : error.atEnd = false)
    (resumed : ∀ reading : Reading,
      reading.resumeStatement token = { reading with mode := mode }) :
    GivesUp reading mode (reading.fail token error) := by
  refine ⟨reading.forest, error, .refl _, rfl, ?_⟩
  rw [fail_eq_resume, resumed]
  unfold report
  rw [if_neg (by simp [goes_on])]

end GivesUp

/-- A flat token is skipped behind an error. -/
theorem resumeStatement_of_flat
    {token : Token}
    (flat : isFlat token.kind = true)
    (reading : Reading) :
    reading.resumeStatement token = { reading with mode := .skipping } := by
  unfold resumeStatement resume
  split
  · next isEnd => simp [isEnd, isFlat] at flat
  · next isClosing => simp [isClosing, isFlat] at flat
  · next isEnd => simp [isEnd, isFlat] at flat
  · rfl

/-- A semicolon ends the silence behind an error. -/
theorem resumeStatement_semicolon (line : Line) (reading : Reading) :
    reading.resumeStatement ⟨.mark .semicolon, line⟩ = { reading with mode := .sequence } := rfl

/-- Behind an error everything up to a semicolon is skipped. -/
theorem feedAll_skipping
    {tokens : List Token}
    (flat : Flat tokens)
    (line : Line)
    {reading : Reading}
    (mode_eq : reading.mode = .skipping) :
    reading.feedAll (tokens ++ [⟨.mark .semicolon, line⟩]) =
      { reading with mode := .sequence } := by
  induction tokens with
  | nil =>
      simp only [List.nil_append, feedAll_cons, feedAll_nil, feed, mode_eq]
      rfl
  | cons token tokens inductionHypothesis =>
      obtain ⟨tokenFlat, flat⟩ := flat_cons.1 flat
      have skipped : reading.feed token = reading := by
        simp only [feed, mode_eq, resumeStatement_of_flat tokenFlat]
        rw [← mode_eq]
      rw [List.cons_append, feedAll_cons, skipped, inductionHypothesis flat]

/-- The token that a mode keeps is not the end of the file. -/
def GoesOn (reading : Reading) : Prop :=
  ∀ line op type, reading.mode = .castEnd line op type -> type.kind ≠ .endOfFile

/-- Some tokens lead to a complete statement, whatever errors there were before, without another. -/
def Completes (reading : Reading) (tokens : List Token) : Prop :=
  ∀ ledger, ∃ id, ((reading.logged ledger).feedAll tokens).mode = .completed id ∧
    ((reading.logged ledger).feedAll tokens).ledger = ledger

section Runs

variable {reading : Reading} {result : Array SyntaxError × Bool -> Reading}

/-- A flat token goes on with a statement, or the statement is given up at it. -/
theorem Effect.works_or_givesUp
    {token : Token}
    (effect : Effect token reading result)
    (goes_on : reading.GoesOn)
    (flat : isFlat token.kind = true) :
    (∃ after, reading.Works after ∧ after.Inside ∧ after.mode.Recalls token ∧
      ∀ ledger, result ledger = after.logged ledger) ∨
    GivesUp reading .skipping (result reading.ledger) := by
  have resumed := resumeStatement_of_flat flat
  cases effect with
  | works after works inside _ recalls => exact .inl ⟨after, works, inside, recalls, fun _ => rfl⟩
  | fails after error works points =>
      have no_end : token.kind ≠ .endOfFile := by
        intro isEnd
        rw [isEnd] at flat
        cases flat
      exact .inr (.of_works works (.of_fail _ (points.atEnd_eq_false no_end) resumed))
  | castFails line op type mode_eq =>
      refine .inr (.of_fail reading ?_ resumed)
      exact beq_eq_false_iff_ne.2 (goes_on line op type mode_eq)
  | ends after line form works is_nested isEnd =>
      rw [isEnd] at flat
      cases flat
  | writes line bytes mode_eq isEnd =>
      rw [isEnd] at flat
      cases flat
  | opens mode_eq isOpening =>
      rw [isOpening] at flat
      cases flat

/-- At a semicolon a statement is complete, or it is given up. -/
theorem Effect.givesUp_or_completes
    {line : Line}
    (effect : Effect ⟨.mark .semicolon, line⟩ reading result)
    (goes_on : reading.GoesOn) :
    GivesUp reading .sequence (result reading.ledger) ∨
      ∀ ledger, ∃ id, (result ledger).mode = .completed id ∧ (result ledger).ledger = ledger := by
  have resumed := resumeStatement_semicolon line
  cases effect with
  | works after works inside flat => cases flat
  | fails after error works points =>
      exact .inl (.of_works works (.of_fail _ (points.atEnd_eq_false (by simp)) resumed))
  | castFails line' op type mode_eq =>
      refine .inl (.of_fail reading ?_ resumed)
      exact beq_eq_false_iff_ne.2 (goes_on line' op type mode_eq)
  | ends => exact .inr fun _ => ⟨_, rfl, rfl⟩
  | writes => exact .inr fun _ => ⟨_, rfl, rfl⟩
  | opens mode_eq isOpening => cases isOpening

/-- Flat tokens and a semicolon are read to a complete statement, or given up as a whole. -/
theorem givesUp_or_completes
    {tokens : List Token}
    (flat : Flat tokens)
    (inside : reading.Inside)
    (goes_on : reading.GoesOn)
    (line : Line) :
    GivesUp reading .sequence (reading.feedAll (tokens ++ [⟨.mark .semicolon, line⟩])) ∨
      reading.Completes (tokens ++ [⟨.mark .semicolon, line⟩]) := by
  induction tokens generalizing reading with
  | nil => exact (Effect.feed inside ⟨.mark .semicolon, line⟩).givesUp_or_completes goes_on
  | cons token tokens inductionHypothesis =>
      obtain ⟨tokenFlat, flat⟩ := flat_cons.1 flat
      obtain ⟨after, works, inside', recalls, feed_eq⟩ |
          ⟨forest, error, grows, texts_eq, feed_eq⟩ :=
        (Effect.feed inside token).works_or_givesUp goes_on tokenFlat
      · have goes_on' : (after.logged reading.ledger).GoesOn := by
          intro castLine op type mode_eq isEnd
          rw [mode_logged] at mode_eq
          rw [mode_eq] at recalls
          rw [← recalls, isEnd] at tokenFlat
          cases tokenFlat
        have fed : reading.feed token = after.logged reading.ledger := feed_eq reading.ledger
        rw [List.cons_append, feedAll_cons, fed]
        have worked : (after.logged reading.ledger).Inside := inside'
        refine (inductionHypothesis flat worked goes_on').imp (.of_works works) ?_
        intro completes ledger
        rw [feedAll_cons, feed_eq]
        exact completes ledger
      · refine .inl ⟨forest, error, grows, texts_eq, ?_⟩
        have fed : reading.feed token = _ := feed_eq
        rw [List.cons_append, feedAll_cons, fed, feedAll_skipping flat line rfl]

end Runs

/-- Tokens that may stand between two statements by mistake: with a semicolon behind them they are
no statement, they hold no other semicolon and no brace, and they start neither with the word for an
alternative nor with the word for a type. -/
structure Fragment (tokens : List Token) (line : Line) : Prop where
  flat : Flat tokens
  starts : ∀ token ∈ tokens.head?, token.kind ≠ .keyword .else ∧
    ∀ word type, (word, type) ∈ typeWords -> token.kind ≠ .keyword word
  no_sentence : ∀ clause, ¬Sentence .one (tokens ++ [⟨.mark .semicolon, line⟩]) clause

section Fragments

variable {tokens : List Token} {line : Line}

/-- Closing braces that belong to a statement without an opening one are none at all. -/
theorem Flat.eq_nil_of_closes
    {closers : List Token}
    {clause : Clause}
    (flat : Flat tokens)
    (allClose : ∀ token ∈ closers, token.kind = .mark .rightBrace)
    (sentence : Sentence .one (tokens ++ [⟨.mark .semicolon, line⟩] ++ closers) clause) :
    closers = [] := by
  have balance := sentence.braces_eq
  have none_open : braces .leftBrace closers = 0 := by
    refine List.countP_eq_zero.2 fun other present => ?_
    rw [allClose other present]
    decide
  have all_close : braces .rightBrace closers = closers.length := by
    refine List.countP_eq_length.2 fun other present => ?_
    rw [allClose other present]
    decide
  rw [braces_append, braces_append, braces_append, braces_append, flat.braces_eq_zero (.inl rfl),
    flat.braces_eq_zero (.inr rfl), none_open, all_close] at balance
  change 0 = 0 + closers.length at balance
  exact List.length_eq_zero_iff.1 (by omega)

/-- A statement with which flat tokens, a semicolon and closing braces begin ends at the
semicolon. -/
theorem sentence_of_closers
    {closers inner rest : List Token}
    {token : Token}
    {clause : Clause}
    (flat : Flat tokens)
    (allClose : ∀ token ∈ closers, token.kind = .mark .rightBrace)
    (sentence : Sentence .one inner clause)
    (tokens_eq : tokens ++ [⟨.mark .semicolon, line⟩] ++ (closers ++ [⟨.endOfFile, line⟩]) =
      inner ++ token :: rest) :
    Sentence .one (tokens ++ [⟨.mark .semicolon, line⟩]) clause := by
  obtain ⟨first, last, rfl, ends⟩ := sentence.exists_last rfl
  rcases List.append_eq_append_iff.1 tokens_eq with ⟨middle, inner_eq, closers_eq⟩ |
    ⟨middle, tokens_eq, _⟩
  · have middle_close : ∀ other ∈ middle, other.kind = .mark .rightBrace := by
      rcases List.append_eq_append_iff.1 closers_eq with ⟨others, middle_eq, end_eq⟩ |
        ⟨others, closers_eq, _⟩
      · have others_eq : others = [] := by
          cases others with
          | nil => rfl
          | cons => simp at end_eq
        rw [middle_eq, others_eq, List.append_nil]
        exact allClose
      · intro other present
        exact allClose other (closers_eq ▸ List.mem_append_left _ present)
    rw [inner_eq] at sentence
    have middle_eq := flat.eq_nil_of_closes middle_close sentence
    rwa [middle_eq, List.append_nil] at sentence
  · -- No token before the semicolon ends a statement.
    have middle_eq : middle = [] := by
      rcases List.eq_nil_or_concat middle with rfl | ⟨others, final, rfl⟩
      · rfl
      · rw [List.concat_eq_append, ← List.append_assoc] at tokens_eq
        have tokens_eq := (List.append_inj' tokens_eq rfl).1
        have lastFlat := flat last (by simp [tokens_eq])
        rw [ends] at lastFlat
        cases lastFlat
    rw [middle_eq, List.append_nil] at tokens_eq
    rwa [tokens_eq]

/-- A fragment is given up where a statement has to start. -/
theorem Fragment.givesUp
    (fragment : Fragment tokens line)
    (reading : Reading)
    (mode_eq : reading.mode = .statement)
    (is_nested : nested reading.stack = true) :
    GivesUp reading .sequence (reading.feedAll (tokens ++ [⟨.mark .semicolon, line⟩])) := by
  have inside : reading.Inside := by
    unfold Inside
    rw [mode_eq]
    exact is_nested
  have goes_on : reading.GoesOn := by
    intro castLine op type cast
    rw [mode_eq] at cast
    cases cast
  refine (givesUp_or_completes fragment.flat inside goes_on line).resolve_right fun completes => ?_
  obtain ⟨id, completed, ledger_eq⟩ := completes (#[], false)
  obtain ⟨closers, allClose, closed_eq⟩ := exists_closing line _ id completed
  rw [← feedAll_append, ledger_eq] at closed_eq
  have accepts : (reading.logged (#[], false)).Accepts
      (tokens ++ [⟨.mark .semicolon, line⟩] ++ (closers ++ [⟨.endOfFile, line⟩])) := by
    refine ⟨⟨_, line, (List.append_assoc _ _ _).symm⟩, ?_⟩
    intro broken
    unfold Broken Meets at broken
    rw [closed_eq] at broken
    simp [someError] at broken
  obtain ⟨inner, clause, token, rest, tokens_eq, sentence, _⟩ :=
    (sentencesBelow _).foundOne (reading.logged (#[], false)) mode_eq accepts
  exact fragment.no_sentence clause (sentence_of_closers fragment.flat allClose sentence tokens_eq)

/-- Tokens that are read with an error are no statement. -/
theorem fragment_of_errors
    (flat : ∀ token ∈ tokens, isFlat token.kind = true)
    (starts : ∀ token ∈ tokens.head?, token.kind ≠ .keyword .else ∧
      ∀ entry ∈ typeWords, token.kind ≠ .keyword entry.1)
    (errors_ne : (feedAll { mode := .statement }
      (tokens ++ [⟨.mark .semicolon, line⟩, ⟨.mark .rightBrace, line⟩])).errors ≠ #[]) :
    Fragment tokens line where
  flat := flat
  starts token first := by
    obtain ⟨no_else, no_type⟩ := starts token first
    exact ⟨no_else, fun word type listed => no_type (word, type) listed⟩
  no_sentence clause sentence := by
    obtain ⟨forest, id, _, _, _, goes⟩ := sentence.taken { mode := .statement } rfl
    have closed := goes ⟨.mark .rightBrace, line⟩ (by simp)
    have quiet := (settle_close line { mode := .statement, forest := forest } [] id).1
    refine errors_ne ?_
    rw [List.append_cons, feedAll_append, feedAll_cons, feedAll_nil, closed]
    exact congrArg Prod.fst quiet

end Fragments

end Reading

end MiniLang
