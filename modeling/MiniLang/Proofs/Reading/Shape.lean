import MiniLang.Proofs.Reading.Steps

/-!
# The shape of a reading

The open frames always fit the mode.  Inside a statement they lead out to a frame that waits for a
statement, so every token has one of the effects that are listed for it; elsewhere all of them wait
for a statement.  At the end of the file every reading ends, and nothing that follows counts.
-/

namespace MiniLang
namespace Reading

/-- Whether a mode stands between statements, or outside of them. -/
def Mode.isOuter : Mode -> Bool
  | .programWord | .openingBrace | .declarations | .declaredName _ | .afterName _
  | .skippingDeclaration | .sequence | .completed _ | .skipping | .closed | .ended => true
  | _ => false

/-- Between statements, or outside of them, all open frames wait for a statement. -/
structure Outside (reading : Reading) : Prop where
  isOuter : reading.mode.isOuter = true
  is_nested : nested reading.stack = true

/-- The open frames fit the mode. -/
def Shaped (reading : Reading) : Prop :=
  reading.Inside ∨ reading.Outside

/-- Inside a statement, the frames that stay when it is given up wait for a statement. -/
theorem Inside.nested_blocks
    {reading : Reading}
    (inside : reading.Inside) :
    nested (blocks reading.stack) = true := by
  unfold Inside at inside
  split at inside <;> first
    | exact nested_blocks_of_hosts inside
    | exact Reading.nested_blocks inside
    | cases inside

namespace Outside

variable {reading : Reading} (is_nested : nested reading.stack = true)

include is_nested

theorem closeBlock : reading.closeBlock.Outside := by
  unfold Reading.closeBlock
  split
  · next stack_eq =>
    refine ⟨rfl, ?_⟩
    rw [stack_eq] at is_nested
    exact is_nested
  · exact ⟨rfl, is_nested⟩

theorem endInput (token : Token) : (reading.endInput token).Outside :=
  ⟨rfl, by simpa [Reading.endInput] using is_nested⟩

theorem resume
    {next skip : Mode}
    (next_outer : next.isOuter = true)
    (skip_outer : skip.isOuter = true)
    (token : Token) :
    (reading.resume token next skip).Outside := by
  unfold Reading.resume
  split
  · exact ⟨next_outer, is_nested⟩
  · exact closeBlock is_nested
  · exact endInput is_nested token
  · exact ⟨skip_outer, is_nested⟩

end Outside

theorem outside_fail
    {reading : Reading}
    (is_nested : nested (blocks reading.stack) = true)
    (token : Token)
    (error : SyntaxError) :
    (reading.fail token error).Outside := by
  refine Outside.resume ?_ rfl rfl token
  rwa [← blocks, stack_report]

/-- After any effect the frames fit the mode. -/
theorem Effect.shaped
    {token : Token}
    {reading : Reading}
    {result : Array SyntaxError × Bool -> Reading}
    (effect : Effect token reading result)
    (inside : reading.Inside)
    (ledger : Array SyntaxError × Bool) :
    (result ledger).Shaped := by
  cases effect with
  | works after works inside' => exact .inl inside'
  | fails after error works points =>
      refine .inr (outside_fail ?_ token error)
      exact works.blocks_eq ▸ inside.nested_blocks
  | castFails line op type mode_eq =>
      refine .inr (outside_fail ?_ token _)
      exact inside.nested_blocks
  | ends after line form works is_nested => exact .inr ⟨rfl, is_nested⟩
  | writes line bytes mode_eq =>
      unfold Inside at inside
      rw [mode_eq] at inside
      exact .inr ⟨rfl, inside⟩
  | opens mode_eq =>
      unfold Inside at inside
      rw [mode_eq] at inside
      exact .inr ⟨rfl, inside⟩

/-- Where a statement may start, a token has an effect, whatever the mode. -/
theorem effect_statement
    {reading : Reading}
    (is_nested : nested reading.stack = true)
    (token : Token) :
    Effect token { reading with mode := .statement } fun ledger =>
      (reading.logged ledger).statement token := by
  have effect : Effect token { reading with mode := .statement } fun ledger =>
      ({ reading with mode := .statement }.logged ledger).statement token := by
    apply Effect.statement rfl
    exact is_nested
  exact effect.of_eq fun ledger => (statement_mode (reading.logged ledger) .statement token).symm

namespace Shaped

variable {reading : Reading} (token : Token)

theorem sequence (is_nested : nested reading.stack = true) :
    (reading.sequence token).Shaped := by
  unfold Reading.sequence
  split
  · exact .inr (.closeBlock is_nested)
  · exact .inr (.endInput is_nested token)
  · exact (effect_statement is_nested token).shaped is_nested reading.ledger

theorem settle
    {frames : List Frame}
    (is_nested : nested frames = true)
    (last : StmtId) :
    (Reading.settle token reading frames last).Shaped := by
  induction frames generalizing reading last with
  | nil =>
      apply sequence
      rfl
  | cons frame outer inductionHypothesis =>
      cases frame with
      | yesBranch line test =>
          unfold Reading.settle
          split
          · exact .inl is_nested
          · exact inductionHypothesis is_nested _
      | block line body =>
          apply sequence
          exact is_nested
      | _ => first | exact inductionHypothesis is_nested _ | cases is_nested

theorem declaration (is_nested : nested reading.stack = true) :
    (reading.declaration token).Shaped := by
  unfold Reading.declaration
  split
  · split
    · exact .inr ⟨rfl, is_nested⟩
    · exact sequence token is_nested
  · exact sequence token is_nested

theorem programWord (is_nested : nested reading.stack = true) :
    (reading.programWord token).Shaped := by
  have reported : nested (reading.report (.missingWord token .program)).stack = true := by
    rwa [stack_report]
  unfold Reading.programWord
  split
  · exact .inr ⟨rfl, is_nested⟩
  · exact .inr ⟨rfl, reported⟩
  · exact declaration token reported

theorem openingBrace (is_nested : nested reading.stack = true) :
    (reading.openingBrace token).Shaped := by
  unfold Reading.openingBrace
  split
  · exact .inr ⟨rfl, is_nested⟩
  · apply declaration
    rwa [stack_report]

theorem failDeclaration
    (is_nested : nested reading.stack = true)
    (error : SyntaxError) :
    (reading.failDeclaration token error).Shaped := by
  refine .inr (.resume ?_ rfl rfl token)
  rwa [stack_report]

theorem declaredName
    (is_nested : nested reading.stack = true)
    (type : ValueType) :
    (reading.declaredName type token).Shaped := by
  unfold Reading.declaredName
  split
  · exact .inr ⟨rfl, is_nested⟩
  · exact failDeclaration token is_nested _

theorem afterName
    (is_nested : nested reading.stack = true)
    (type : ValueType) :
    (reading.afterName type token).Shaped := by
  unfold Reading.afterName
  split
  · exact .inr ⟨rfl, is_nested⟩
  · exact .inr ⟨rfl, is_nested⟩
  · exact failDeclaration token is_nested _

theorem afterProgram (is_nested : nested reading.stack = true) :
    (reading.afterProgram token).Shaped := by
  unfold Reading.afterProgram
  split
  · exact .inr ⟨rfl, is_nested⟩
  · exact .inr ⟨rfl, by simpa using is_nested⟩

/-- Reading a token keeps the frames fitting the mode. -/
theorem feed (shaped : reading.Shaped) : (reading.feed token).Shaped := by
  obtain inside | ⟨outer, is_nested⟩ := shaped
  · exact (Effect.feed inside token).shaped inside reading.ledger
  · unfold Reading.feed
    cases mode_eq : reading.mode <;> simp only [mode_eq] at outer ⊢
    case programWord => exact programWord token is_nested
    case openingBrace => exact openingBrace token is_nested
    case declarations => exact declaration token is_nested
    case declaredName type => exact declaredName token is_nested type
    case afterName type => exact afterName token is_nested type
    case skippingDeclaration => exact .inr (.resume is_nested rfl rfl token)
    case sequence => exact sequence token is_nested
    case completed last => exact settle token is_nested last
    case skipping => exact .inr (.resume is_nested rfl rfl token)
    case closed => exact afterProgram token is_nested
    case ended => exact .inr ⟨by rw [mode_eq]; rfl, is_nested⟩
    all_goals cases outer

theorem feedAll
    (shaped : reading.Shaped)
    (tokens : List Token) :
    (reading.feedAll tokens).Shaped := by
  induction tokens generalizing reading with
  | nil => exact shaped
  | cons token rest inductionHypothesis => exact inductionHypothesis (shaped.feed token)

theorem start : Reading.start.Shaped :=
  .inr ⟨rfl, rfl⟩

end Shaped

section EndOfFile

variable {reading : Reading} {token : Token} (isEnd : token.kind = .endOfFile)

include isEnd

theorem mode_resume_end (next skip : Mode) :
    (reading.resume token next skip).mode = .ended := by
  unfold resume
  rw [isEnd]
  rfl

theorem mode_sequence_end : (reading.sequence token).mode = .ended := by
  unfold sequence
  rw [isEnd]
  rfl

theorem mode_declaration_end : (reading.declaration token).mode = .ended := by
  unfold declaration
  rw [isEnd]
  exact mode_sequence_end isEnd

theorem mode_settle_end
    (frames : List Frame)
    (last : StmtId) :
    (settle token reading frames last).mode = .ended := by
  induction frames generalizing reading last with
  | nil => exact mode_sequence_end isEnd
  | cons frame outer inductionHypothesis =>
      cases frame with
      | yesBranch line test =>
          unfold settle
          rw [if_neg (by rw [isEnd]; simp)]
          exact inductionHypothesis _
      | block line body => exact mode_sequence_end isEnd
      | _ => exact inductionHypothesis _

/-- No effect survives the end of the file. -/
theorem Effect.mode_end
    {result : Array SyntaxError × Bool -> Reading}
    (effect : Effect token reading result)
    (ledger : Array SyntaxError × Bool) :
    (result ledger).mode = .ended := by
  cases effect with
  | works after works inside flat =>
      rw [isEnd] at flat
      cases flat
  | fails => exact mode_resume_end isEnd _ _
  | castFails => exact mode_resume_end isEnd _ _
  | ends after line form works is_nested isSemicolon => cases isEnd.symm.trans isSemicolon
  | writes line bytes mode_eq isSemicolon => cases isEnd.symm.trans isSemicolon
  | opens mode_eq isOpening => cases isEnd.symm.trans isOpening

/-- At the end of the file a reading ends. -/
theorem Shaped.mode_feed_end (shaped : reading.Shaped) : (reading.feed token).mode = .ended := by
  obtain inside | ⟨outer, _⟩ := shaped
  · exact (Effect.feed inside token).mode_end isEnd reading.ledger
  · unfold Reading.feed
    cases mode_eq : reading.mode <;> simp only [mode_eq] at outer ⊢
    case programWord =>
      unfold Reading.programWord
      rw [isEnd]
      exact mode_declaration_end isEnd
    case openingBrace =>
      unfold Reading.openingBrace
      rw [if_neg (by rw [isEnd]; simp)]
      exact mode_declaration_end isEnd
    case declarations => exact mode_declaration_end isEnd
    case declaredName type =>
      unfold Reading.declaredName
      rw [isEnd]
      exact mode_resume_end isEnd _ _
    case afterName type =>
      unfold Reading.afterName
      rw [isEnd]
      exact mode_resume_end isEnd _ _
    case skippingDeclaration => exact mode_resume_end isEnd _ _
    case sequence => exact mode_sequence_end isEnd
    case completed last => exact mode_settle_end isEnd _ last
    case skipping => exact mode_resume_end isEnd _ _
    case closed =>
      unfold Reading.afterProgram
      rw [isEnd]
    all_goals cases outer

end EndOfFile

/-- What follows the end of a reading does not count. -/
theorem feedAll_of_ended
    {reading : Reading}
    (mode_eq : reading.mode = .ended)
    (tokens : List Token) :
    reading.feedAll tokens = reading := by
  induction tokens with
  | nil => rfl
  | cons token rest inductionHypothesis =>
      have stays : reading.feed token = reading := by simp only [feed, mode_eq]
      rw [feedAll_cons, stays, inductionHypothesis]

/-- A list of tokens has an end: it is empty, which is read like the end of a file, or the end of
the file is among them. -/
def Terminated (tokens : List Token) : Prop :=
  tokens = [] ∨ ∃ token ∈ tokens, token.kind = .endOfFile

/-- The tokens before the first end of the file. -/
def beforeEnd (tokens : List Token) : List Token :=
  tokens.takeWhile fun token => token.kind != .endOfFile

theorem kind_ne_of_mem_beforeEnd
    {tokens : List Token}
    {token : Token}
    (present : token ∈ beforeEnd tokens) :
    token.kind ≠ .endOfFile := by
  have kept := List.all_eq_true.1 (List.all_takeWhile (l := tokens)) token present
  simpa using kept

/-- Of tokens that have an end, those before it are read, and the end itself. -/
theorem Terminated.exists_input
    {tokens : List Token}
    (terminated : Terminated tokens) :
    ∃ line rest, input tokens = beforeEnd tokens ++ ⟨.endOfFile, line⟩ :: rest := by
  obtain rfl | ⟨token, present, isEnd⟩ := terminated
  · exact ⟨0, [], rfl⟩
  · have found : tokens.any (fun token => token.kind == .endOfFile) = true :=
      List.any_eq_true.2 ⟨token, present, by simp [isEnd]⟩
    have input_eq : input tokens = tokens := by
      unfold input
      split
      · next nothing => simp_all
      · rw [if_pos found]
    have split_eq : beforeEnd tokens ++ tokens.dropWhile (fun token => token.kind != .endOfFile) =
        tokens := List.takeWhile_append_dropWhile
    cases dropped : tokens.dropWhile (fun token => token.kind != .endOfFile) with
    | nil =>
        rw [dropped, List.append_nil] at split_eq
        exact absurd isEnd (kind_ne_of_mem_beforeEnd (split_eq ▸ present))
    | cons first rest =>
        obtain ⟨kind, line⟩ := first
        have isFirst : (⟨kind, line⟩ : Token).kind = .endOfFile := by
          have head :=
            List.head?_dropWhile_not (fun token : Token => token.kind != .endOfFile) tokens
          simpa [dropped] using head
        cases isFirst
        exact ⟨line, rest, by rw [input_eq, ← dropped, split_eq]⟩

/-- Tokens that have an end are read up to it, and there the reading ends. -/
theorem Terminated.exists_ofTokens
    {tokens : List Token}
    (terminated : Terminated tokens) :
    ∃ line rest, input tokens = beforeEnd tokens ++ ⟨.endOfFile, line⟩ :: rest ∧
      ofTokens tokens = start.feedAll (beforeEnd tokens ++ [⟨.endOfFile, line⟩]) ∧
      (ofTokens tokens).mode = .ended := by
  obtain ⟨line, rest, input_eq⟩ := terminated.exists_input
  have ended : (start.feedAll (beforeEnd tokens ++ [⟨.endOfFile, line⟩])).mode = .ended := by
    rw [feedAll_append]
    exact (Shaped.start.feedAll (beforeEnd tokens)).mode_feed_end rfl
  have read_eq : ofTokens tokens = start.feedAll (beforeEnd tokens ++ [⟨.endOfFile, line⟩]) := by
    unfold ofTokens
    rw [input_eq, List.append_cons, feedAll_append]
    exact feedAll_of_ended ended rest
  exact ⟨line, rest, input_eq, read_eq, read_eq ▸ ended⟩

end Reading
end MiniLang
