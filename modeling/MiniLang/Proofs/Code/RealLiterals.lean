import MiniLang.Proofs.Code.RealOperands
import MiniLang.Proofs.Relabelling.Names
import MiniLang.Proofs.Token.Spelling

/-!
# Real literals from source to code

A real literal is rounded once, when it is scanned.  From there on its bit pattern is handed on as
it is: the tokens of a source text that compiles hold the patterns of its syntax tree, and the words
of the generated text spell those that its instructions take.
-/

namespace MiniLang

/-! ## Scanning a literal -/

namespace Lexeme

/-- Wherever a text is a piece of a source text, it is scanned to one token and to complaints with
given messages, on the line where it starts. -/
def Yields (text : List Char) (kind : Token.Kind) (messages : List String) : Prop :=
  ∀ (source : String) (front back : List Piece) (piece : Piece),
    Tiles [] source.toList (front ++ piece :: back) -> piece.text = text ->
    (Token.scan source).tokens =
        front.filterMap Piece.token? ++ ⟨kind, lineAfter piece.before⟩ ::
          back.filterMap Piece.token? ++ [⟨.endOfFile, lineAfter source.toList⟩] ∧
      (Token.scan source).diagnostics =
        front.filterMap Piece.diagnostic? ++
          messages.map (Diagnostic.mk .lexical (lineAfter piece.before)) ++
          back.filterMap Piece.diagnostic?

/-- A text is scanned to one token and to complaints with given messages, by itself and as a piece
of any source text. -/
structure ScansTo (text : List Char) (kind : Token.Kind) (messages : List String) : Prop where
  tokens_eq : (Token.scan (String.ofList text)).tokens = [⟨kind, 1⟩, ⟨.endOfFile, 1⟩]
  diagnostics_eq : (Token.scan (String.ofList text)).diagnostics =
    messages.map (Diagnostic.mk .lexical 1)
  within : Yields text kind messages

section Lexemes

variable {rule : Rule} {text : List Char} {outcome : Outcome} {kind : Token.Kind}

/-- A lexeme comes to what it stands for, wherever it is. -/
theorem Munch.yields
    (munch : Munch rule text [])
    (denotes : Denotes rule text outcome)
    (kind_eq : outcome.kind? = some kind) :
    Yields text kind outcome.message?.toList := by
  intro source front back piece tiles text_eq
  have stands : Piece.Stands ⟨some rule, [], text, outcome⟩ := .lexeme rfl munch denotes
  have outcome_eq : piece.outcome = outcome :=
    (tiles.stands piece (by simp)).outcome_eq stands text_eq
  have token_eq : piece.token? = some ⟨kind, lineAfter piece.before⟩ := by
    rw [Piece.token?, outcome_eq, kind_eq]
    rfl
  have diagnostic_eq : [piece].filterMap Piece.diagnostic? =
      outcome.message?.toList.map (Diagnostic.mk .lexical (lineAfter piece.before)) := by
    rw [List.filterMap_cons, Piece.diagnostic?, outcome_eq]
    cases outcome.message? <;> rfl
  obtain ⟨tokens_eq, diagnostics_eq⟩ := scan_of_tiles tiles
  constructor
  · rw [tokens_eq, List.filterMap_append, List.filterMap_cons_some token_eq]
  · rw [diagnostics_eq, List.append_cons, List.filterMap_append, List.filterMap_append,
      diagnostic_eq]

/-- A token other than a string is scanned to what it stands for. -/
theorem Munch.scansTo
    (munch : Munch rule text [])
    (denotes : Denotes rule text outcome)
    (kind_eq : outcome.kind? = some kind)
    (token : rule.isToken = true)
    (unquoted : rule ≠ .text) :
    ScansTo text kind outcome.message?.toList := by
  have within := munch.yields denotes kind_eq
  have line : '\n' ∉ text := by
    intro listed
    cases Rule.isBlank_eq_false munch.matched token unquoted '\n' listed
  have tiles : Tiles [] (text ++ []) ([] ++ ⟨some rule, [], text, outcome⟩ :: []) :=
    .lexeme munch denotes (.done _)
  rw [List.append_nil, ← String.toList_ofList (l := text)] at tiles
  obtain ⟨tokens_eq, diagnostics_eq⟩ :=
    within (String.ofList text) [] [] _ tiles String.toList_ofList
  have line_eq : lineAfter text = 1 := by
    rw [lineAfter, List.count_eq_zero_of_not_mem line]
    rfl
  rw [String.toList_ofList, line_eq] at tokens_eq
  exact ⟨tokens_eq, diagnostics_eq.trans (List.append_nil _), within⟩

end Lexemes

section Literals

variable {whole fraction : List Char}

/-- A real literal is a lexeme by itself. -/
theorem munch_real
    (integer : Matches .integer whole)
    (nonempty : fraction ≠ [])
    (run : ∀ digit ∈ fraction, isDigit digit = true) :
    Munch .real (whole ++ '.' :: fraction) [] :=
  munch_alone (Rule.matches_real.2 ⟨whole, fraction, rfl, integer, nonempty, run⟩) (by rintro ⟨⟩)

/-- A real literal in range is scanned to the nearest number. -/
theorem exists_scansTo_nearest
    (integer : Matches .integer whole)
    (nonempty : fraction ≠ [])
    (run : ∀ digit ∈ fraction, isDigit digit = true)
    (finite : fractionValue whole fraction < Binary64.overflow) :
    ∃ bits, Binary64.Nearest bits (fractionValue whole fraction) ∧
      ScansTo (whole ++ '.' :: fraction) (.real bits) [] := by
  obtain ⟨bits, denotes, nearest⟩ :=
    exists_denotes_nearest (isDigit_of_integer integer) finite
  exact ⟨bits, nearest, (munch_real integer nonempty run).scansTo denotes rfl rfl (by rintro ⟨⟩)⟩

/-- A real literal out of range is scanned to a zero, with one complaint. -/
theorem scansTo_zero
    (integer : Matches .integer whole)
    (nonempty : fraction ≠ [])
    (run : ∀ digit ∈ fraction, isDigit digit = true)
    (huge : Binary64.overflow ≤ fractionValue whole fraction) :
    ScansTo (whole ++ '.' :: fraction) (.real 0)
      [outOfRange "real" (whole ++ '.' :: fraction)] :=
  (munch_real integer nonempty run).scansTo (denotes_zero (isDigit_of_integer integer) huge) rfl rfl
    (by rintro ⟨⟩)

end Literals

/-- The names that scanning gives are words. -/
theorem isWordPart_of_mem_names
    {source name : String}
    (listed : name ∈ Token.names (Token.scan source).tokens) :
    ∀ character ∈ name.toList, isWordPart character = true := by
  obtain ⟨pieces, tiles, -⟩ := exists_tiles [] source.toList
  obtain ⟨token, present, spelled⟩ := List.mem_filterMap.1 listed
  rw [(scan_of_tiles tiles).1] at present
  rcases List.mem_append.1 present with present | present
  · obtain ⟨piece, placed, found⟩ := List.mem_filterMap.1 present
    obtain ⟨kind, kind_eq, rfl⟩ := Option.map_eq_some_iff.1 found
    cases tiles.stands piece placed with
    | lexeme _ munch denotes =>
        generalize piece.outcome = outcome at denotes kind_eq
        generalize piece.text = text at munch denotes
        cases denotes <;> cases kind_eq <;> cases spelled
        obtain ⟨first, tail, rfl, letter, parts⟩ := Rule.matches_name.1 munch.matched
        rw [String.toList_ofList]
        exact List.forall_mem_cons.2 ⟨by simp [isWordPart, letter], parts⟩
    | stray _ _ _ outcome_eq =>
        rw [outcome_eq] at kind_eq
        cases kind_eq
  · cases List.mem_singleton.1 present
    cases spelled

end Lexeme

/-! ## Literals among the pieces -/

namespace Lexeme

/-- The bit pattern of a piece whose token is a real literal. -/
def Piece.real? (piece : Piece) : Option UInt64 :=
  piece.token?.bind fun token => token.kind.real?

/-- A piece of a source text is a real literal in range, and the number is nearest to it. -/
def Piece.RoundsTo (piece : Piece) (bits : UInt64) : Prop :=
  ∃ whole fraction, piece.text = whole ++ '.' :: fraction ∧
    Matches .integer whole ∧ (∀ digit ∈ fraction, isDigit digit = true) ∧
    fractionValue whole fraction < Binary64.overflow ∧
    Binary64.Nearest bits (fractionValue whole fraction)

/-- A lexeme that is no real literal stands for no real. -/
theorem Denotes.real?_eq_none
    {rule : Rule}
    {text : List Char}
    {outcome : Outcome}
    (denotes : Denotes rule text outcome)
    (other : rule ≠ .real)
    (line : Line) :
    (outcome.kind?.map fun kind => Token.mk kind line).bind (fun token => token.kind.real?) =
      none := by
  cases denotes with
  | real | hugeReal => exact absurd rfl other
  | _ => rfl

/-- A real literal that stands without a complaint is in range, and stands for the nearest
number. -/
theorem Piece.exists_roundsTo
    {piece : Piece}
    (matched : Matches Rule.real.pattern piece.text)
    (denotes : Denotes .real piece.text piece.outcome)
    (quiet : piece.diagnostic? = none) :
    ∃ bits, piece.real? = some bits ∧ piece.RoundsTo bits := by
  obtain ⟨whole, fraction, text_eq, integer, -, run⟩ := Rule.matches_real.1 matched
  have digits := isDigit_of_integer integer
  rw [text_eq] at denotes
  by_cases finite : fractionValue whole fraction < Binary64.overflow
  · obtain ⟨bits, denotes', nearest⟩ := exists_denotes_nearest digits finite
    refine ⟨bits, ?_, whole, fraction, text_eq, integer, run, finite, nearest⟩
    rw [Piece.real?, Piece.token?, denotes.unique denotes']
    rfl
  · have outcome_eq := denotes.unique (denotes_zero digits (not_lt.1 finite))
    rw [Piece.diagnostic?, outcome_eq] at quiet
    cases quiet

/-- Where a reader reads something off the chosen pieces alone, the chosen pieces are related to what
is read, one by one. -/
theorem forall₂_filterMap
    {β : Type}
    {related : Piece -> β -> Prop}
    (chosen : Piece -> Bool)
    (read? : Piece -> Option β)
    {pieces : List Piece}
    (hit : ∀ piece ∈ pieces, chosen piece = true ->
      ∃ result, read? piece = some result ∧ related piece result)
    (miss : ∀ piece ∈ pieces, chosen piece = false -> read? piece = none) :
    List.Forall₂ related (pieces.filter chosen) (pieces.filterMap read?) := by
  induction pieces with
  | nil => exact .nil
  | cons piece pieces inductionHypothesis =>
      obtain ⟨ownHit, hit⟩ := List.forall_mem_cons.1 hit
      obtain ⟨ownMiss, miss⟩ := List.forall_mem_cons.1 miss
      have later := inductionHypothesis hit miss
      cases picked : chosen piece with
      | true =>
          obtain ⟨result, read_eq, relates⟩ := ownHit picked
          rw [List.filter_cons_of_pos picked, List.filterMap_cons_some read_eq]
          exact .cons relates later
      | false =>
          rw [List.filter_cons_of_neg (by simp [picked]), List.filterMap_cons_none (ownMiss picked)]
          exact later

/-- The real literals of a text without complaints are rounded to its real tokens, one by one. -/
theorem forall₂_roundsTo
    {pieces : List Piece}
    (stands : ∀ piece ∈ pieces, piece.Stands)
    (quiet : ∀ piece ∈ pieces, piece.diagnostic? = none) :
    List.Forall₂ Piece.RoundsTo (pieces.filter fun piece => piece.rule = some .real)
      (pieces.filterMap Piece.real?) := by
  refine forall₂_filterMap _ _ (fun piece listed chosen => ?_) fun piece listed refused => ?_
  · have rule_eq := of_decide_eq_true chosen
    cases stands piece listed with
    | stray free => cases free.symm.trans rule_eq
    | lexeme found munch denotes =>
        cases found.symm.trans rule_eq
        exact Piece.exists_roundsTo munch.matched denotes (quiet piece listed)
  · have other := of_decide_eq_false refused
    cases stands piece listed with
    | stray _ _ _ outcome_eq =>
        rw [Piece.real?, Piece.token?, outcome_eq]
        rfl
    | lexeme found munch denotes =>
        refine denotes.real?_eq_none ?_ _
        rintro rfl
        exact other found

end Lexeme

/-- The real literals of a program are those of its syntax tree. -/
theorem Grammar.Derives.reals_eq
    {tokens : List Token}
    {tree : SyntaxTree}
    (derives : Derives tokens tree) :
    tokens.filterMap (fun token => token.kind.real?) = tree.body.reals := by
  refine derives.filterMap_eq Token.Kind.real? fun kind other => ?_
  cases kind with
  | real => cases other
  | _ => rfl

/-! ## Source texts that compile -/

open CodeText

/-- A word is not parted by the separators of the generated text. -/
theorem CodeText.solid_of_isWordPart
    {text : List Char}
    (parts : ∀ character ∈ text, Lexeme.isWordPart character = true) :
    Solid text := by
  intro character listed
  have part := parts character listed
  cases separates : isSeparator character with
  | false => rfl
  | true =>
      simp only [isSeparator, Bool.or_eq_true, decide_eq_true_eq] at separates
      rcases separates with rfl | rfl <;> cases part

/-- A source text that compiles is scanned and checked without complaints. -/
theorem exists_accepted_of_success
    {source : String}
    {limit : Nat}
    {lines : List String}
    (succeeds : compile source limit = .success lines) :
    (Token.scan source).diagnostics = [] ∧
      ∃ tags code, (Program.ofTokens (Token.scan source).tokens).1.check = .ok (tags, []) ∧
        (Program.ofTokens (Token.scan source).tokens).1.generate tags = .ok code ∧
        code.lines = lines := by
  obtain ⟨tags, breaches, checked, ⟨clean, code, generated, ends⟩ | ⟨-, ends⟩⟩ :=
    exists_compile source
  · have lines_eq := (ends limit).symm.trans succeeds
    obtain ⟨before, rfl⟩ := List.append_eq_nil_iff.1 clean
    exact ⟨(List.append_eq_nil_iff.1 before).1, tags, code, checked, generated,
      by injection lines_eq⟩
  · rw [ends limit] at succeeds
    cases succeeds

open Lexeme in
/-- Real literals are correctly rounded and exactly transmitted.  A literal of any length whose
ratio is in range is scanned to the pattern of the one number nearest to it, and to no complaint; a
literal out of range is scanned to a zero and one complaint.  In a source text that compiles, the
literals are rounded one by one to the patterns of the syntax tree, and the words of the code that
are `0x` and sixteen digits spell those patterns that the instructions take, in order. -/
theorem real_literals_exact :
    (∀ whole fraction : List Char, Matches .integer whole -> fraction ≠ [] ->
      (∀ digit ∈ fraction, isDigit digit = true) ->
      (fractionValue whole fraction < Binary64.overflow ->
        ∃ bits, (∀ other, Binary64.Nearest other (fractionValue whole fraction) ↔ other = bits) ∧
          ScansTo (whole ++ '.' :: fraction) (.real bits) []) ∧
      (Binary64.overflow ≤ fractionValue whole fraction ->
        ScansTo (whole ++ '.' :: fraction) (.real 0)
          [outOfRange "real" (whole ++ '.' :: fraction)])) ∧
      ∀ (source : String) (limit : Nat) (lines : List String),
        compile source limit = .success lines ->
        ∃ pieces tokens line tree, Tiles [] source.toList pieces ∧
          (Token.scan source).tokens = tokens ++ [⟨.endOfFile, line⟩] ∧
          Grammar.Derives tokens tree ∧
          List.Forall₂ Piece.RoundsTo (pieces.filter fun piece => piece.rule = some .real)
            tree.body.reals ∧
          lines.flatMap linePatterns = tree.body.realOperands ∧
          tree.body.realOperands ⊆ tree.body.reals := by
  constructor
  · intro whole fraction integer nonempty run
    refine ⟨fun finite => ?_, scansTo_zero integer nonempty run⟩
    obtain ⟨bits, nearest, scans⟩ := exists_scansTo_nearest integer nonempty run finite
    refine ⟨bits, fun other => ?_, scans⟩
    constructor
    · intro also
      exact also.unique nearest
    · rintro rfl
      exact nearest
  · intro source limit lines succeeds
    obtain ⟨tokens, line, tree, -, -, tokens_eq, derives, -⟩ := exists_derives_of_success succeeds
    obtain ⟨quiet, tags, code, accepts, generated, rfl⟩ := exists_accepted_of_success succeeds
    obtain ⟨pieces, tiles, -⟩ := exists_tiles [] source.toList
    obtain ⟨scanned, complaints⟩ := scan_of_tiles tiles
    have readBack := Program.readsBack_of_derives derives line
    rw [← tokens_eq] at readBack
    have rounded : List.Forall₂ Piece.RoundsTo
        (pieces.filter fun piece => piece.rule = some .real) tree.body.reals := by
      rw [tokens_eq] at scanned
      rw [complaints, List.filterMap_eq_nil_iff] at quiet
      rw [← derives.reals_eq, (List.append_inj' scanned rfl).1, List.filterMap_filterMap]
      exact forall₂_roundsTo tiles.stands quiet
    refine ⟨pieces, tokens, line, tree, tiles, tokens_eq, derives, rounded, ?_,
      tree.body.realOperands_subset⟩
    refine (Program.wellFounded_ofTokens _).flatMap_linePatterns readBack accepts generated ?_
    intro item present name named
    exact solid_of_isWordPart
      (isWordPart_of_mem_names (Relabelling.mem_names_of_item generated present named))

/-- The digits of a number half way between two neighbours. -/
def midpoint : List Char :=
  "9007199254740993".toList

/-- A program that stores this number in two variables. -/
def midpointSource : String :=
  "program \x7b double x, y; x = y = 9007199254740993.0; \x7d"

open Lexeme in
/-- A literal half way between two neighbours is rounded to the even one, whose pattern stands in the
code.  A one with 309 zeros is out of range. -/
theorem midpoint_literal_exact :
    ((∀ other, Binary64.Nearest other (fractionValue midpoint ['0']) ↔
          other = 0x4340000000000000) ∧
        ScansTo (midpoint ++ ['.', '0']) (.real 0x4340000000000000) []) ∧
      ScansTo ('1' :: List.replicate 309 '0' ++ ['.', '0']) (.real 0)
        [outOfRange "real" ('1' :: List.replicate 309 '0' ++ ['.', '0'])] ∧
      ∃ lines, ∃ tree : SyntaxTree, compile midpointSource 1 = .success lines ∧
        tree.body.reals = [0x4340000000000000] ∧
        lines.flatMap linePatterns = tree.body.realOperands := by
  have fraction_digits : ∀ digit ∈ ['0'], isDigit digit = true := List.all_eq_true.1 rfl
  have zero_eq : numeral 10 ['0'] = 0 := rfl
  refine ⟨?_, ?_, ?_⟩
  · have integer : Matches .integer midpoint :=
      matches_integer.2 (.inr ⟨'9', _, rfl, by decide, List.all_eq_true.1 rfl⟩)
    have whole_eq : numeral 10 midpoint = 9007199254740993 := by decide +kernel
    have in_range : fractionValue midpoint ['0'] < Binary64.overflow := by
      rw [fractionValue, whole_eq, zero_eq, Nat.cast_zero, zero_div, add_zero, Binary64.overflow,
        lt_sub_iff_add_lt]
      exact_mod_cast (by decide +kernel : 9007199254740993 + 2 ^ 970 < 2 ^ 1024)
    obtain ⟨bits, nearest, scans⟩ :=
      (real_literals_exact.1 midpoint ['0'] integer (by simp) fraction_digits).1 in_range
    have tokens_eq : (Token.scan (String.ofList (midpoint ++ ['.', '0']))).tokens =
        [⟨.real 0x4340000000000000, 1⟩, ⟨.endOfFile, 1⟩] := by
      decide +kernel
    cases tokens_eq.symm.trans scans.tokens_eq
    exact ⟨nearest, scans⟩
  · refine (real_literals_exact.1 ('1' :: List.replicate 309 '0') ['0'] ?_ (by simp)
      fraction_digits).2 ?_
    · refine matches_integer.2 (.inr ⟨'1', _, rfl, by decide, fun digit listed => ?_⟩)
      cases List.eq_of_mem_replicate listed
      rfl
    · have whole_eq : numeral 10 ('1' :: List.replicate 309 '0') = 10 ^ 309 := by decide +kernel
      have beyond : Binary64.overflow ≤ 10 ^ 309 := by
        refine (sub_le_self _ (pow_nonneg (by norm_num) 970)).trans ?_
        exact_mod_cast (by decide +kernel : 2 ^ 1024 ≤ 10 ^ 309)
      rw [fractionValue, whole_eq, zero_eq, Nat.cast_zero, zero_div, add_zero, Nat.cast_pow]
      exact beyond
  · have isSuccess : (compile midpointSource 1).isSuccess = true := by decide +kernel
    obtain ⟨lines, succeeds⟩ := Outcome.exists_of_isSuccess isSuccess
    obtain ⟨pieces, tokens, line, tree, -, tokens_eq, derives, -, patterns_eq, -⟩ :=
      real_literals_exact.2 midpointSource 1 lines succeeds
    have reals_eq : tokens.filterMap (fun token => token.kind.real?) = [0x4340000000000000] := by
      have scanned_eq : (Token.scan midpointSource).tokens.filterMap
          (fun token => token.kind.real?) = [0x4340000000000000] := by
        decide +kernel
      rw [tokens_eq, List.filterMap_append] at scanned_eq
      exact (List.append_nil _).symm.trans scanned_eq
    exact ⟨lines, tree, succeeds, derives.reals_eq.symm.trans reals_eq, patterns_eq⟩

end MiniLang
