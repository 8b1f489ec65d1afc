import MiniLang.Proofs.Reading.Shape
import MiniLang.Proofs.Scope

/-!
# How many errors a reading reports, and where

Every error is about the token that is being read, or, where a cast turns out not to be one, about
the token before it.  So the errors go forward through the tokens.

After an error a reading keeps quiet until a semicolon or a closing brace.  Each mode has an
allowance of errors that may have been reported beyond the semicolons and closing braces read so
far; reading a token never spends more than the next mode allows.
-/

namespace MiniLang
namespace Reading

/-- Whether a token ends the silence after an error. -/
def isStop (token : Token) : Bool :=
  token.kind == .mark .semicolon || token.kind == .mark .rightBrace

/-- How many errors may have been reported beyond the semicolons and closing braces read so far. -/
def Mode.allowance : Mode -> Nat
  | .programWord | .openingBrace => 0
  | .skipping | .skippingDeclaration => 2
  | .ended => 3
  | _ => 1

/-- Taking a token leads from some errors to a reading that has new ones, all about this token, and
no more of them than the next mode allows. -/
structure Logs (token : Token) (spent : Nat) (errors : Array SyntaxError) (after : Reading) :
    Prop where
  exists_new : ∃ new : List SyntaxError, after.errors.toList = errors.toList ++ new ∧
    (∀ error ∈ new, error.PointsAt token) ∧
    spent + new.length <= after.mode.allowance + (isStop token).toNat
  recalls : after.mode.Recalls token

theorem Mode.recalls_of_isOuter
    {mode : Mode}
    (isOuter : mode.isOuter = true)
    (token : Token) :
    mode.Recalls token := by
  cases mode with
  | castEnd => cases isOuter
  | _ => trivial

/-- Inside a statement one error is allowed. -/
theorem Inside.allowance_eq
    {reading : Reading}
    (inside : reading.Inside) :
    reading.mode.allowance = 1 := by
  unfold Inside at inside
  cases mode_eq : reading.mode <;> rw [mode_eq] at inside <;> first | rfl | cases inside

/-- A report adds the error, if it adds any. -/
theorem errors_report (reading : Reading) (error : SyntaxError) :
    (reading.report error).errors = reading.errors ∨
      (reading.report error).errors = reading.errors.push error := by
  unfold report
  split
  · split
    · exact .inl rfl
    · exact .inr rfl
  · exact .inr rfl

namespace Logs

variable {token : Token} {spent : Nat} {errors : Array SyntaxError} {reading after : Reading}

/-- Nothing is reported. -/
theorem silent
    (errors_eq : after.errors = errors)
    (allowed : spent <= after.mode.allowance + (isStop token).toNat)
    (recalls : after.mode.Recalls token) :
    Logs token spent errors after :=
  ⟨⟨[], by simp [errors_eq], by simp, allowed⟩, recalls⟩

/-- One error is reported before. -/
theorem of_report
    {error : SyntaxError}
    (logs : Logs token (spent + 1) (reading.report error).errors after)
    (points : error.PointsAt token) :
    Logs token spent reading.errors after := by
  obtain ⟨⟨new, new_eq, about, allowed⟩, recalls⟩ := logs
  obtain same | pushed := reading.errors_report error
  · rw [same] at new_eq
    exact ⟨⟨new, new_eq, about, by omega⟩, recalls⟩
  · rw [pushed, Array.toList_push, List.append_assoc] at new_eq
    refine ⟨⟨error :: new, new_eq, ?_, by rw [List.length_cons]; omega⟩, recalls⟩
    intro other listed
    obtain rfl | listed := List.mem_cons.1 listed
    · exact points
    · exact about other listed

/-- A reading that ends may have three errors. -/
theorem endInput
    (reading : Reading)
    (token : Token)
    (few : spent <= 2) :
    Logs token spent reading.errors (reading.endInput token) := by
  refine of_report (silent rfl ?_ trivial) (.unexpected token _)
  change spent + 1 <= 3 + _
  omega

theorem closeBlock
    (reading : Reading)
    (isClosing : token.kind = .mark .rightBrace)
    (few : spent <= 2) :
    Logs token spent reading.errors reading.closeBlock := by
  have stops : (isStop token).toNat = 1 := by simp [isStop, isClosing]
  unfold Reading.closeBlock
  split
  all_goals
    refine silent rfl ?_ trivial
    rw [stops]
    exact few

/-- After an error a reading keeps quiet up to a stop. -/
theorem resume
    (reading : Reading)
    {next skip : Mode}
    (next_outer : next.isOuter = true ∧ next.allowance = 1)
    (skip_outer : skip.isOuter = true ∧ skip.allowance = 2)
    (few : spent <= 2)
    (token : Token) :
    Logs token spent reading.errors (reading.resume token next skip) := by
  unfold Reading.resume
  split
  · next isEnd =>
    have stops : (isStop token).toNat = 1 := by simp [isStop, isEnd]
    refine silent rfl ?_ (Mode.recalls_of_isOuter next_outer.1 token)
    dsimp only
    omega
  · next isClosing => exact closeBlock reading isClosing few
  · exact endInput reading token few
  · refine silent rfl ?_ (Mode.recalls_of_isOuter skip_outer.1 token)
    dsimp only
    omega

/-- Behind the report of an error the statement is given up. -/
theorem resume_fail
    (reading : Reading)
    (error : SyntaxError)
    (few : spent <= 2)
    (token : Token) :
    Logs token spent (reading.report error).errors (reading.fail token error) :=
  resume { reading.report error with stack := blocks (reading.report error).stack } ⟨rfl, rfl⟩
    ⟨rfl, rfl⟩ few token

/-- The token is about the type that a parenthesis opened with, and the error in front is about it.
-/
def AtCast (token : Token) (spent : Nat) (before : Reading) (errors : Array SyntaxError)
    (after : Reading) : Prop :=
  ∃ line op type error, before.mode = .castEnd line op type ∧ error.PointsAt type ∧
    Logs token (spent + 1) (errors.push error) after

/-- Inside a statement the errors that a token makes are about it, but for one in front of them that
may be about the type before it. -/
theorem of_effect
    {result : Array SyntaxError × Bool -> Reading}
    (effect : Effect token reading result)
    (few : spent <= 1)
    (ledger : Array SyntaxError × Bool) :
    Logs token spent ledger.1 (result ledger) ∨
      AtCast token spent reading ledger.1 (result ledger) := by
  cases effect with
  | works after works inside flat recalls =>
      refine .inl (silent rfl ?_ recalls)
      rw [mode_logged, inside.allowance_eq]
      omega
  | fails after error works points =>
      exact .inl (of_report (resume_fail (after.logged ledger) error (by omega) token) points)
  | castFails line op type mode_eq =>
      have resumed : ∀ spent, spent <= 2 -> _ := fun spent few =>
        resume_fail (reading.logged ledger) (.missingExpression type) few token
      obtain same | pushed := errors_report (reading.logged ledger) (.missingExpression type)
      · rw [same] at resumed
        exact .inl (resumed spent (by omega))
      · rw [pushed] at resumed
        exact .inr ⟨line, op, type, _, mode_eq, .unexpected type _, resumed (spent + 1) (by omega)⟩
  | ends => exact .inl (silent rfl (Nat.le_add_right_of_le few) trivial)
  | writes => exact .inl (silent rfl (Nat.le_add_right_of_le few) trivial)
  | opens => exact .inl (silent rfl (Nat.le_add_right_of_le few) trivial)

section Between

variable (reading) (is_nested : nested reading.stack = true) (token)

include is_nested

theorem sequence (few : spent <= 1) :
    Logs token spent reading.errors (reading.sequence token) := by
  unfold Reading.sequence
  split
  · next isClosing => exact closeBlock reading isClosing (by omega)
  · exact endInput reading token (by omega)
  · refine (of_effect (effect_statement is_nested token) few reading.ledger).resolve_right ?_
    rintro ⟨line, op, type, error, mode_eq, _⟩
    cases mode_eq

theorem declaration (few : spent <= 1) :
    Logs token spent reading.errors (reading.declaration token) := by
  unfold Reading.declaration
  split
  · split
    · exact silent rfl (Nat.le_add_right_of_le few) trivial
    · exact sequence token reading is_nested few
  · exact sequence token reading is_nested few

theorem programWord : Logs token 0 reading.errors (reading.programWord token) := by
  unfold Reading.programWord
  split
  · exact silent rfl (Nat.zero_le _) trivial
  · exact of_report (silent rfl (Nat.le_add_right _ _) trivial) (.unexpected token _)
  · exact of_report (declaration token _ (by rwa [stack_report]) (Nat.le_refl 1))
      (.unexpected token _)

theorem openingBrace : Logs token 0 reading.errors (reading.openingBrace token) := by
  unfold Reading.openingBrace
  split
  · exact silent rfl (Nat.zero_le _) trivial
  · exact of_report (declaration token _ (by rwa [stack_report]) (Nat.le_refl 1))
      (.unexpected token _)

omit is_nested in
theorem failDeclaration
    {error : SyntaxError}
    (points : error.PointsAt token) :
    Logs token 1 reading.errors (reading.failDeclaration token error) :=
  of_report (resume _ ⟨rfl, rfl⟩ ⟨rfl, rfl⟩ (Nat.le_refl 2) token) points

omit is_nested in
theorem declaredName (type : ValueType) :
    Logs token 1 reading.errors (reading.declaredName type token) := by
  unfold Reading.declaredName
  split
  · exact silent rfl (Nat.le_add_right _ _) trivial
  · exact failDeclaration token reading (.unexpected token _)

omit is_nested in
theorem afterName (type : ValueType) :
    Logs token 1 reading.errors (reading.afterName type token) := by
  unfold Reading.afterName
  split
  · exact silent rfl (Nat.le_add_right _ _) trivial
  · exact silent rfl (Nat.le_add_right _ _) trivial
  · exact failDeclaration token reading (.unexpected token _)

omit is_nested in
theorem afterProgram : Logs token 1 reading.errors (reading.afterProgram token) := by
  have few : 1 <= Mode.ended.allowance := by decide
  have fewer : 2 <= Mode.ended.allowance := by decide
  unfold Reading.afterProgram
  split
  · exact silent rfl (Nat.le_add_right_of_le few) trivial
  · next goes_on =>
    exact of_report (silent rfl (Nat.le_add_right_of_le fewer) trivial) (.trailing token goes_on)

end Between

theorem settle
    (reading : Reading)
    (token : Token)
    {frames : List Frame}
    (is_nested : nested frames = true)
    (last : StmtId) :
    Logs token 1 reading.errors (Reading.settle token reading frames last) := by
  induction frames generalizing reading last with
  | nil =>
      exact sequence token { reading with stack := [], body := last :: reading.body } rfl
        (Nat.le_refl 1)
  | cons frame outer inductionHypothesis =>
      cases frame with
      | yesBranch line test =>
          unfold Reading.settle
          split
          · exact silent rfl (Nat.le_add_right _ _) trivial
          · exact inductionHypothesis { reading with
              forest := (reading.forest.addStmt line (.branch test last none)).2 } is_nested _
      | noBranch line test yes =>
          exact inductionHypothesis { reading with
            forest := (reading.forest.addStmt line (.branch test yes (some last))).2 } is_nested _
      | loopBody line test =>
          exact inductionHypothesis { reading with
            forest := (reading.forest.addStmt line (.loop test last)).2 } is_nested _
      | block line body =>
          exact sequence token { reading with stack := .block line (last :: body) :: outer }
            is_nested (Nat.le_refl 1)
      | _ => cases is_nested

/-- Outside of statements the errors that a token makes are about it. -/
theorem of_outside
    (outside : reading.Outside)
    (token : Token) :
    Logs token reading.mode.allowance reading.errors (reading.feed token) := by
  obtain ⟨outer, is_nested⟩ := outside
  unfold Reading.feed
  cases mode_eq : reading.mode <;> simp only [mode_eq] at outer ⊢
  case programWord => exact programWord token reading is_nested
  case openingBrace => exact openingBrace token reading is_nested
  case declarations => exact declaration token reading is_nested (Nat.le_refl 1)
  case declaredName type => exact declaredName token reading type
  case afterName type => exact afterName token reading type
  case skippingDeclaration => exact resume reading ⟨rfl, rfl⟩ ⟨rfl, rfl⟩ (Nat.le_refl 2) token
  case sequence => exact sequence token reading is_nested (Nat.le_refl 1)
  case completed last => exact settle reading token is_nested last
  case skipping => exact resume reading ⟨rfl, rfl⟩ ⟨rfl, rfl⟩ (Nat.le_refl 2) token
  case closed => exact afterProgram token reading
  case ended =>
    exact silent rfl (by rw [mode_eq]; exact Nat.le_add_right _ _) (by rw [mode_eq]; trivial)
  all_goals cases outer

/-- The errors that a token makes are about it, but for one in front of them that may be about the
type before it. -/
theorem feed
    (shaped : reading.Shaped)
    (token : Token) :
    Logs token reading.mode.allowance reading.errors (reading.feed token) ∨
      AtCast token reading.mode.allowance reading reading.errors (reading.feed token) := by
  obtain inside | outside := shaped
  · exact of_effect (Effect.feed inside token) (Nat.le_of_eq inside.allowance_eq) reading.ledger
  · exact .inl (of_outside outside token)

end Logs

/-- At least so many errors have been reported. -/
def atLeast (count : Nat) : ErrorLaw where
  Holds ledger := count <= ledger.1.size
  report reading error _ enough := by
    unfold report
    split
    · split
      · exact enough
      · exact Nat.le_trans enough (by simp [ledger])
    · exact Nat.le_trans enough (by simp [ledger])

/-- That the tokens end too early is among the errors at most once. -/
def endsOnce : ErrorLaw where
  Holds ledger := ledger.1.countP SyntaxError.atEnd = ledger.2.toNat
  report reading error _ once := by
    unfold report
    split
    · next isEnd =>
      split
      · exact once
      · next fresh =>
        simp_all [ledger]
    · next goes_on =>
      simp_all [ledger]

/-- How many errors have been reported when some tokens have been read. -/
def reportCount (tokens : List Token) : Nat :=
  (start.feedAll tokens).errors.size

/-- Further tokens take no error back. -/
theorem reportCount_append (tokens more : List Token) :
    reportCount tokens <= reportCount (tokens ++ more) := by
  have kept : (start.feedAll tokens).Meets (atLeast (reportCount tokens)) := Nat.le_refl _
  have kept' := kept.feedAll more
  rwa [← feedAll_append] at kept'

/-- Errors in the order in which they are reported, each with the place of a token.  The places
never go back; the error is about the token at its place, and it is reported when that token is read
or the one behind it. -/
structure Located (tokens : List Token) (history : List (SyntaxError × Nat)) : Prop where
  ordered : history.Pairwise fun first second => first.2 <= second.2
  points : ∀ entry ∈ history, ∃ token, tokens[entry.2]? = some token ∧ entry.1.PointsAt token
  reported : ∀ number entry, history[number]? = some entry ->
    reportCount (tokens.take entry.2) <= number ∧ number < reportCount (tokens.take (entry.2 + 2))

namespace Located

variable {tokens : List Token} {history : List (SyntaxError × Nat)}

theorem place_lt
    (located : Located tokens history)
    {entry : SyntaxError × Nat}
    (listed : entry ∈ history) :
    entry.2 < tokens.length := by
  obtain ⟨token, found, _⟩ := located.points entry listed
  exact (List.getElem?_eq_some_iff.1 found).1

/-- What has been located stays where it is when further tokens are read. -/
theorem append_tokens
    (located : Located tokens history)
    (more : List Token) :
    Located (tokens ++ more) history where
  ordered := located.ordered
  points entry listed := by
    obtain ⟨token, found, points⟩ := located.points entry listed
    refine ⟨token, ?_, points⟩
    rwa [List.getElem?_append_left (located.place_lt listed)]
  reported number entry found := by
    obtain ⟨early, late⟩ := located.reported number entry found
    have inside := located.place_lt (List.mem_of_getElem? found)
    constructor
    · rwa [List.take_append_of_le_length (Nat.le_of_lt inside)]
    · rw [List.take_append]
      exact Nat.lt_of_lt_of_le late (reportCount_append _ _)

/-- Errors about one token that lies behind all others are located together. -/
theorem append_errors
    (located : Located tokens history)
    {errors : List SyntaxError}
    (place : Nat)
    {token : Token}
    (found : tokens[place]? = some token)
    (points : ∀ error ∈ errors, error.PointsAt token)
    (behind : ∀ entry ∈ history, entry.2 <= place)
    (early : reportCount (tokens.take place) <= history.length)
    (late : history.length + errors.length <= reportCount (tokens.take (place + 2))) :
    Located tokens (history ++ errors.map fun error => (error, place)) where
  ordered := by
    refine List.pairwise_append.2 ⟨located.ordered, ?_, ?_⟩
    · rw [List.pairwise_map]
      exact List.pairwise_of_forall fun _ _ => Nat.le_refl _
    · intro first listed second added
      obtain ⟨error, _, rfl⟩ := List.mem_map.1 added
      exact behind first listed
  points entry listed := by
    obtain listed | added := List.mem_append.1 listed
    · exact located.points entry listed
    · obtain ⟨error, present, rfl⟩ := List.mem_map.1 added
      exact ⟨token, found, points error present⟩
  reported number entry numbered := by
    rcases Nat.lt_or_ge number history.length with before | after
    · rw [List.getElem?_append_left before] at numbered
      exact located.reported number entry numbered
    · rw [List.getElem?_append_right after] at numbered
      obtain ⟨error, listed, rfl⟩ := List.mem_map.1 (List.mem_of_getElem? numbered)
      have within := (List.getElem?_eq_some_iff.1 numbered).1
      rw [List.length_map] at within
      exact ⟨by dsimp only; omega, by dsimp only; omega⟩

end Located

/-- All errors of a reading are located, and there are no more of them than its mode allows. -/
structure Tracked (tokens : List Token) (history : List (SyntaxError × Nat)) : Prop where
  located : Located tokens history
  errors_eq : (start.feedAll tokens).errors.toList = history.map Prod.fst
  allowed : history.length <= (start.feedAll tokens).mode.allowance + tokens.countP isStop
  recalls : ∀ line op type, (start.feedAll tokens).mode = .castEnd line op type ->
    ∃ earlier, tokens = earlier ++ [type]

theorem Tracked.length_eq
    {tokens : List Token}
    {history : List (SyntaxError × Nat)}
    (tracked : Tracked tokens history) :
    history.length = reportCount tokens := by
  rw [reportCount, ← Array.length_toList, tracked.errors_eq, List.length_map]

section Steps

variable {tokens : List Token} {token : Token} {history : List (SyntaxError × Nat)}

/-- Where all errors up to a token are located, so are the new ones about it. -/
theorem Logs.exists_tracked
    {spent : Nat}
    {errors : Array SyntaxError}
    (logs : Logs token spent errors (start.feedAll (tokens ++ [token])))
    (located : Located (tokens ++ [token]) history)
    (errors_eq : errors.toList = history.map Prod.fst)
    (behind : ∀ entry ∈ history, entry.2 <= tokens.length)
    (early : reportCount tokens <= history.length)
    (paid : history.length <= spent + tokens.countP isStop) :
    ∃ history', Tracked (tokens ++ [token]) history' := by
  obtain ⟨⟨new, new_eq, about, allowed⟩, recalls⟩ := logs
  rw [errors_eq] at new_eq
  have count_eq : reportCount (tokens ++ [token]) = history.length + new.length := by
    rw [reportCount, ← Array.length_toList, new_eq, List.length_append, List.length_map]
  have taken : (tokens ++ [token]).take tokens.length = tokens := List.take_left
  have taken_all : (tokens ++ [token]).take (tokens.length + 2) = tokens ++ [token] :=
    List.take_of_length_le (by simp)
  have stops_eq : [token].countP isStop = (isStop token).toNat := by
    cases stops : isStop token <;> simp [stops]
  refine ⟨_, located.append_errors tokens.length (by simp) about behind ?_ ?_, ?_, ?_, ?_⟩
  · rwa [taken]
  · exact Nat.le_of_eq (by rw [taken_all, count_eq])
  · rw [new_eq, List.map_append, List.map_map]
    exact congrArg _ (List.map_id new).symm
  · rw [List.length_append, List.length_map, List.countP_append, stops_eq]
    omega
  · intro line op type mode_eq
    rw [mode_eq] at recalls
    exact ⟨tokens, by rw [recalls]⟩

/-- One more token keeps all errors located. -/
theorem Tracked.step
    (tracked : Tracked tokens history)
    (token : Token) :
    ∃ history', Tracked (tokens ++ [token]) history' := by
  have fed : start.feedAll (tokens ++ [token]) = (start.feedAll tokens).feed token := by
    rw [feedAll_append]
    rfl
  have located := tracked.located.append_tokens [token]
  have before : ∀ entry ∈ history, entry.2 < tokens.length := fun entry listed =>
    tracked.located.place_lt listed
  have count_eq := tracked.length_eq
  obtain logs | ⟨line, op, type, error, mode_eq, points, logs⟩ :=
    Logs.feed (Shaped.start.feedAll tokens) token
  · rw [← fed] at logs
    exact logs.exists_tracked located tracked.errors_eq
      (fun entry listed => Nat.le_of_lt (before entry listed)) (Nat.le_of_eq count_eq.symm)
      tracked.allowed
  · rw [← fed] at logs
    obtain ⟨earlier, rfl⟩ := tracked.recalls line op type mode_eq
    have found : (earlier ++ [type] ++ [token])[earlier.length]? = some type := by simp
    have about : ∀ other ∈ [error], other.PointsAt type := by simpa using points
    have early :
        reportCount ((earlier ++ [type] ++ [token]).take earlier.length) <= history.length := by
      rw [List.append_assoc, List.take_left, count_eq]
      exact reportCount_append _ _
    have late : history.length + [error].length <=
        reportCount ((earlier ++ [type] ++ [token]).take (earlier.length + 2)) := by
      rw [List.take_of_length_le (by simp)]
      obtain ⟨new, new_eq, _, _⟩ := logs.exists_new
      rw [reportCount, ← Array.length_toList, new_eq, Array.toList_push, tracked.errors_eq]
      simp
    have cast := located.append_errors earlier.length found about
      (fun entry listed => Nat.le_of_lt_succ (by simpa using before entry listed)) early late
    refine logs.exists_tracked cast ?_ ?_ ?_ ?_
    · rw [Array.toList_push, tracked.errors_eq, List.map_append]
      rfl
    · intro entry listed
      simp only [List.map_cons, List.map_nil, List.mem_append, List.mem_singleton] at listed
      obtain listed | rfl := listed
      · exact Nat.le_of_lt (before entry listed)
      · simp
    · rw [← count_eq]
      simp
    · have allowed := tracked.allowed
      rw [List.length_append, List.length_map, List.length_singleton]
      omega

end Steps

/-- The errors of every reading are located, and there are no more of them than its mode allows. -/
theorem exists_tracked (tokens : List Token) : ∃ history, Tracked tokens history := by
  have extended :
      ∀ first history, Tracked first history -> ∃ history', Tracked (first ++ tokens) history' := by
    induction tokens with
    | nil =>
        intro first history tracked
        exact ⟨history, by rwa [List.append_nil]⟩
    | cons token rest inductionHypothesis =>
        intro first history tracked
        obtain ⟨history', tracked'⟩ := tracked.step token
        rw [List.append_cons]
        exact inductionHypothesis _ history' tracked'
  refine extended [] [] ⟨⟨.nil, by simp, by simp⟩, rfl, Nat.le_refl _, ?_⟩
  intro line op type mode_eq
  cases mode_eq

end Reading

namespace Program

/-- The breaches of the grammar among the diagnostics are the errors of the reading. -/
theorem filter_syntactic (tokens : List Token) :
    (Program.ofTokens tokens).2.filter (fun diagnostic => diagnostic.kind == .syntactic) =
      (Reading.ofTokens tokens).errors.toList.map SyntaxError.diagnostic := by
  have errors_kept : ∀ errors : List SyntaxError,
      (errors.map SyntaxError.diagnostic).filter (fun diagnostic => diagnostic.kind == .syntactic) =
        errors.map SyntaxError.diagnostic := by
    intro errors
    refine List.filter_eq_self.2 fun diagnostic listed => ?_
    obtain ⟨error, _, rfl⟩ := List.mem_map.1 listed
    rfl
  have others_dropped : ∀ complaints : List Diagnostic,
      (∀ diagnostic ∈ complaints, diagnostic.kind = .semantic) ->
      complaints.filter (fun diagnostic => diagnostic.kind == .syntactic) = [] := by
    intro complaints semantic
    refine List.filter_eq_nil_iff.2 fun diagnostic listed => ?_
    rw [semantic diagnostic listed]
    decide
  unfold Program.ofTokens Program.assemble
  dsimp only
  rw [List.filter_append, errors_kept, others_dropped _ fun _ => Scope.semantic_of_mem_declareAll,
    List.append_nil]

end Program

/-- Where the lines of the tokens never go back, neither do those of located errors. -/
theorem Reading.Located.lines_ordered
    {tokens : List Token}
    {history : List (SyntaxError × Nat)}
    (located : Located tokens history)
    (lines : tokens.Pairwise fun first second => first.line <= second.line) :
    (history.map fun entry => entry.1.diagnostic.line).Pairwise (· <= ·) := by
  rw [List.pairwise_map]
  refine located.ordered.imp_of_mem fun {first second} listed listed' placed => ?_
  obtain ⟨token, found, points⟩ := located.points first listed
  obtain ⟨token', found', points'⟩ := located.points second listed'
  change first.1.line <= second.1.line
  rw [points.line_eq, points'.line_eq]
  obtain ⟨inside, rfl⟩ := List.getElem?_eq_some_iff.1 found
  obtain ⟨inside', rfl⟩ := List.getElem?_eq_some_iff.1 found'
  rcases Nat.lt_or_eq_of_le placed with before | same
  · exact List.pairwise_iff_getElem.1 lines _ _ inside inside' before
  · simp only [same]
    exact Nat.le_refl _

/-- Reading ends at the end of the file, with few errors and in order.  At most one error says that
the tokens end too early; beyond three, each error is paid for by a semicolon or a closing brace
before the end of the file; and the tokens that the errors are about never go back. -/
theorem errors_bounded_in_order
    (tokens : List Token)
    (terminated : Reading.Terminated tokens) :
    Reading.ofTokens tokens =
        Reading.start.feedAll
          ((Reading.input tokens).take ((Reading.beforeEnd tokens).length + 1)) ∧
      (Reading.ofTokens tokens).mode = .ended ∧
      ∃ history : List (SyntaxError × Nat),
        (Program.ofTokens tokens).2.filter (fun diagnostic => diagnostic.kind == .syntactic) =
          history.map (fun entry => entry.1.diagnostic) ∧
        history.countP (fun entry => entry.1.atEnd) <= 1 ∧
        history.length <= 3 + (Reading.beforeEnd tokens).countP Reading.isStop ∧
        Reading.Located (Reading.input tokens) history ∧
        ((Reading.input tokens).Pairwise (fun first second => first.line <= second.line) ->
          (history.map fun entry => entry.1.diagnostic.line).Pairwise (· <= ·)) := by
  obtain ⟨line, rest, input_eq, read_eq, mode_eq⟩ := terminated.exists_ofTokens
  have taken : (Reading.input tokens).take ((Reading.beforeEnd tokens).length + 1) =
      Reading.beforeEnd tokens ++ [⟨.endOfFile, line⟩] := by
    rw [input_eq, List.append_cons]
    exact List.take_left' (by simp)
  obtain ⟨history, tracked⟩ :=
    Reading.exists_tracked (Reading.beforeEnd tokens ++ [⟨.endOfFile, line⟩])
  have errors_eq := tracked.errors_eq
  have allowed := tracked.allowed
  rw [← read_eq] at errors_eq allowed
  have located : Reading.Located (Reading.input tokens) history := by
    rw [input_eq, List.append_cons]
    exact tracked.located.append_tokens rest
  refine ⟨by rw [taken, read_eq], mode_eq, history, ?_, ?_, ?_, located, located.lines_ordered⟩
  · rw [Program.filter_syntactic, errors_eq, List.map_map]
    rfl
  · have started : Reading.start.Meets Reading.endsOnce := rfl
    have once : (Reading.ofTokens tokens).errors.countP SyntaxError.atEnd =
        (Reading.ofTokens tokens).endReported.toNat := started.feedAll (Reading.input tokens)
    rw [← Array.countP_toList, errors_eq, List.countP_map] at once
    exact Nat.le_trans (Nat.le_of_eq once) (Bool.toNat_le _)
  · rw [mode_eq, List.countP_append] at allowed
    exact allowed

/-- A cast without a program around it that stops behind its type. -/
def unfinishedCast : List Token :=
  [⟨.mark .minus, 1⟩, ⟨.mark .leftParen, 1⟩, ⟨.keyword .int, 2⟩, ⟨.endOfFile, 3⟩]

/-- It makes three errors without any semicolon or brace: as many as there can be. -/
theorem unfinishedCast_errors :
    Reading.Terminated unfinishedCast ∧
      (Reading.input unfinishedCast).Pairwise (fun first second => first.line <= second.line) ∧
      (Reading.ofTokens unfinishedCast).mode = .ended ∧
      ∃ history : List (SyntaxError × Nat),
        history.length = 3 + (Reading.beforeEnd unfinishedCast).countP Reading.isStop ∧
        history.countP (fun entry => entry.1.atEnd) <= 1 ∧
        Reading.Located (Reading.input unfinishedCast) history ∧
        (history.map fun entry => entry.1.diagnostic.line).Pairwise (· <= ·) := by
  have terminated : Reading.Terminated unfinishedCast := .inr ⟨⟨.endOfFile, 3⟩, by decide, rfl⟩
  have lines : (Reading.input unfinishedCast).Pairwise
      (fun first second => first.line <= second.line) := by decide
  obtain ⟨_, ended, history, syntactic_eq, once, _, located, ordered⟩ :=
    errors_bounded_in_order unfinishedCast terminated
  have length_eq := congrArg List.length syntactic_eq
  rw [List.length_map] at length_eq
  exact ⟨terminated, lines, ended, history, length_eq.symm, once, located, ordered lines⟩

end MiniLang
