import Mathlib.Data.List.Basic
import MiniLang.Proofs.Source.Lines
import MiniLang.Proofs.Token.Meaning

/-!
# Scanning tiles the source text

A tiling cuts a text into longest lexemes and stray characters, each with what it stands for.
Every text has exactly one tiling, and scanning reads off it: the tokens and the complaints of its
pieces, in their order, with the lines on which the pieces start.
-/

namespace MiniLang
namespace Lexeme

/-- A piece of a tiling. -/
structure Piece where
  /-- The rule of the lexeme, nothing for a stray character. -/
  rule : Option Rule
  /-- All of the source text before the piece. -/
  before : List Char
  text : List Char
  outcome : Outcome

/-- A text that stands after another one is cut into pieces. -/
inductive Tiles : List Char -> List Char -> List Piece -> Prop
  | done (before : List Char) : Tiles before [] []
  | lexeme {before text rest : List Char} {rule : Rule} {outcome : Outcome} {pieces : List Piece}
      (munch : Munch rule text rest)
      (denotes : Denotes rule text outcome)
      (after : Tiles (before ++ text) rest pieces) :
      Tiles before (text ++ rest) (⟨some rule, before, text, outcome⟩ :: pieces)
  | stray {before rest : List Char} {character : Char} {pieces : List Piece}
      (stray : Stray (character :: rest))
      (after : Tiles (before ++ [character]) rest pieces) :
      Tiles before (character :: rest)
        (⟨none, before, [character],
          .problem ("unrecognized symbol '" ++ String.ofList [character] ++ "'")⟩ :: pieces)

/-- The line on which a text goes on after a part of it: one more than the line feeds of that part,
as far as lines are told apart. -/
def lineAfter (before : List Char) : Line :=
  min (1 + before.count '\n') Line.last

/-- The token of a piece, on the line where the piece starts. -/
def Piece.token? (piece : Piece) : Option Token :=
  piece.outcome.kind?.map fun kind => ⟨kind, lineAfter piece.before⟩

/-- The complaint about a piece, on the line where the piece starts. -/
def Piece.diagnostic? (piece : Piece) : Option Diagnostic :=
  piece.outcome.message?.map fun message => ⟨.lexical, lineAfter piece.before, message⟩

namespace Tiles

theorem flatMap_text
    {before rest : List Char}
    {pieces : List Piece}
    (tiles : Tiles before rest pieces) :
    pieces.flatMap Piece.text = rest := by
  induction tiles with
  | done => rfl
  | lexeme munch denotes after inductionHypothesis => rw [List.flatMap_cons, inductionHypothesis]
  | stray stray after inductionHypothesis =>
    rw [List.flatMap_cons, inductionHypothesis, List.singleton_append]

theorem text_ne_nil
    {before rest : List Char}
    {pieces : List Piece}
    (tiles : Tiles before rest pieces) :
    ∀ piece ∈ pieces, piece.text ≠ [] := by
  induction tiles with
  | done => simp
  | lexeme munch denotes after inductionHypothesis =>
    exact List.forall_mem_cons.mpr ⟨Rule.ne_nil munch.matched, inductionHypothesis⟩
  | stray stray after inductionHypothesis =>
    exact List.forall_mem_cons.mpr ⟨List.cons_ne_nil _ _, inductionHypothesis⟩

/-- What stands before a piece is a part of the source text. -/
theorem before_prefix
    {before rest : List Char}
    {pieces : List Piece}
    (tiles : Tiles before rest pieces) :
    ∀ piece ∈ pieces, piece.before <+: before ++ rest := by
  induction tiles with
  | done => simp
  | lexeme munch denotes after inductionHypothesis =>
    rw [← List.append_assoc]
    exact List.forall_mem_cons.mpr
      ⟨List.append_assoc .. ▸ List.prefix_append .., inductionHypothesis⟩
  | @stray before rest character pieces stray after inductionHypothesis =>
    rw [List.append_cons]
    exact List.forall_mem_cons.mpr
      ⟨List.append_assoc .. ▸ List.prefix_append .., inductionHypothesis⟩

/-- A text has one tiling at most. -/
theorem unique
    {before rest : List Char}
    {pieces others : List Piece}
    (one : Tiles before rest pieces)
    (other : Tiles before rest others) :
    pieces = others := by
  induction one generalizing others with
  | done before =>
    generalize shape : [] = rest at other
    cases other with
    | done => rfl
    | lexeme munch =>
      exact absurd (List.append_eq_nil_iff.mp shape.symm).1 (Rule.ne_nil munch.matched)
    | stray => cases shape
  | @lexeme before text rest rule outcome pieces munch denotes after inductionHypothesis =>
    generalize shape : text ++ rest = whole at other
    cases other with
    | done => exact absurd (List.append_eq_nil_iff.mp shape).1 (Rule.ne_nil munch.matched)
    | lexeme munch' denotes' after' =>
      obtain ⟨rfl, rfl, rfl⟩ := munch.unique munch' shape
      rw [denotes.unique denotes', inductionHypothesis after']
    | stray stray => exact absurd munch (stray.not_munch shape.symm)
  | @stray before rest character pieces stray after inductionHypothesis =>
    generalize shape : character :: rest = whole at other
    cases other with
    | done => cases shape
    | lexeme munch => exact absurd munch (stray.not_munch shape)
    | stray _ after' =>
      cases shape
      rw [inductionHypothesis after']

end Tiles

theorem cutFrom_skip
    (skip : Nat)
    (characters : List Char)
    (offset : Nat)
    (found : Array Span) :
    cutFrom skip characters offset found =
      cutFrom 0 (characters.drop skip)
        (offset + Source.byteLength (characters.take skip)) found := by
  induction characters generalizing skip offset with
  | nil => cases skip <;> simp [cutFrom]
  | cons character rest inductionHypothesis =>
    cases skip with
    | zero => simp
    | succ skip => simp [cutFrom, inductionHypothesis skip, Nat.add_assoc]

theorem cutFrom_found
    (skip : Nat)
    (characters : List Char)
    (offset : Nat)
    (found : Array Span) :
    (cutFrom skip characters offset found).toList =
      found.toList ++ (cutFrom skip characters offset #[]).toList := by
  induction characters generalizing skip offset found with
  | nil => cases skip <;> simp [cutFrom]
  | cons character rest inductionHypothesis =>
    cases skip with
    | zero =>
      simp only [cutFrom]
      rw [inductionHypothesis _ _ (found.push _), inductionHypothesis _ _ (#[].push _)]
      simp
    | succ skip => simpa only [cutFrom] using inductionHypothesis skip _ found

/-- A text is cut by taking its chosen piece, or its first character if there is none. -/
theorem cutFrom_step
    {characters : List Char}
    (nonempty : characters ≠ [])
    (offset : Nat) :
    let width := max (best characters).2 1
    (cutFrom 0 characters offset #[]).toList =
      ⟨(best characters).1, offset, characters.take width⟩ ::
        (cutFrom 0 (characters.drop width)
          (offset + Source.byteLength (characters.take width)) #[]).toList := by
  obtain ⟨character, rest, rfl⟩ := List.exists_cons_of_ne_nil nonempty
  have width : max (best (character :: rest)).2 1 = ((best (character :: rest)).2 - 1) + 1 := by
    omega
  rw [width, cutFrom, cutFrom_skip, cutFrom_found]
  simp [Nat.add_assoc]

/-- A piece as the scanner cuts it. -/
def Piece.span (piece : Piece) : Span :=
  ⟨(piece.rule.map Rule.cls).getD .unknown, Source.byteLength piece.before, piece.text⟩

/-- The scanner cuts a tiling, and gives its pieces what they stand for. -/
theorem exists_tiles_cut
    (before rest : List Char) :
    ∃ pieces, Tiles before rest pieces ∧
      (cutFrom 0 rest (Source.byteLength before) #[]).toList = pieces.map Piece.span ∧
      ∀ piece ∈ pieces, piece.span.outcome = piece.outcome := by
  -- No piece is empty, so less is left after each of them.
  induction size : rest.length using Nat.strongRecOn generalizing before rest with
  | ind length inductionHypothesis =>
    by_cases empty : rest = []
    · subst empty
      exact ⟨[], .done before, by simp [cutFrom], by simp⟩
    · rw [cutFrom_step empty, ← Source.byteLength_append]
      rcases stray_or_munch rest with ⟨chosen, stray⟩ | ⟨rule, chosen, munch⟩
      · obtain ⟨character, tail, rfl⟩ := List.exists_cons_of_ne_nil empty
        obtain ⟨pieces, tiles, same, denote⟩ :=
          inductionHypothesis tail.length (by simp [← size]) (before ++ [character]) tail rfl
        refine ⟨_, .stray stray tiles, ?_, List.forall_mem_cons.mpr ⟨rfl, denote⟩⟩
        rw [chosen]
        exact congrArg (List.cons _) same
      · have positive : (best rest).2 ≠ 0 := by
          intro none
          exact Rule.ne_nil munch.matched (by rw [none, List.take_zero])
        have width : max (best rest).2 1 = (best rest).2 := by omega
        obtain ⟨pieces, tiles, same, denote⟩ := inductionHypothesis (rest.drop (best rest).2).length
          (by have := List.length_pos_iff.mpr empty; rw [List.length_drop]; omega)
          (before ++ rest.take (best rest).2) (rest.drop (best rest).2) rfl
        have next := Tiles.lexeme munch (munch.denotes (Source.byteLength before)) tiles
        rw [List.take_append_drop] at next
        refine ⟨_, next, ?_, List.forall_mem_cons.mpr ⟨rfl, denote⟩⟩
        rw [width, chosen, same]
        rfl

/-- The pieces that scanning cuts are a tiling. -/
theorem exists_tiles
    (before rest : List Char) :
    ∃ pieces, Tiles before rest pieces ∧
      (cutFrom 0 rest (Source.byteLength before) #[]).toList.map
          (fun span => (span.start, span.outcome)) =
        pieces.map (fun piece => (Source.byteLength piece.before, piece.outcome)) := by
  obtain ⟨pieces, tiles, same, denote⟩ := exists_tiles_cut before rest
  refine ⟨pieces, tiles, ?_⟩
  rw [same, List.map_map]
  apply List.map_congr_left
  intro piece present
  exact congrArg (Prod.mk _) (denote piece present)

theorem lineOf_eq_lineAfter
    {before characters : List Char}
    (part : before <+: characters) :
    (Source.LineIndex.ofChars characters).lineOf (Source.byteLength before) = lineAfter before := by
  obtain ⟨after, rfl⟩ := part
  rw [Source.LineIndex.lineOf_byteLength, Line.ofIndex, lineAfter, Nat.add_comm]

/-- What is read off the starts and outcomes of the spans is read off a tiling. -/
theorem filterMap_spans
    {β : Type}
    {characters : List Char}
    {spans : List Span}
    {pieces : List Piece}
    (tiles : Tiles [] characters pieces)
    (same : spans.map (fun span => (span.start, span.outcome)) =
      pieces.map (fun piece => (Source.byteLength piece.before, piece.outcome)))
    (read : Line -> Outcome -> Option β) :
    spans.filterMap (fun span =>
        read ((Source.LineIndex.ofChars characters).lineOf span.start) span.outcome) =
      pieces.filterMap fun piece => read (lineAfter piece.before) piece.outcome := by
  have moved := congrArg (List.filterMap fun place : Nat × Outcome =>
    read ((Source.LineIndex.ofChars characters).lineOf place.1) place.2) same
  rw [List.filterMap_map, List.filterMap_map] at moved
  refine moved.trans (List.filterMap_congr fun piece member => ?_)
  exact congrArg (read · piece.outcome) (lineOf_eq_lineAfter (tiles.before_prefix piece member))

/-- Scanning reads off a tiling. -/
theorem scan_of_tiles
    {source : String}
    {pieces : List Piece}
    (tiles : Tiles [] source.toList pieces) :
    (Token.scan source).tokens =
        pieces.filterMap Piece.token? ++ [⟨.endOfFile, lineAfter source.toList⟩] ∧
      (Token.scan source).diagnostics = pieces.filterMap Piece.diagnostic? := by
  obtain ⟨pieces', tiles', spans_eq⟩ := exists_tiles [] source.toList
  cases tiles'.unique tiles
  constructor
  · rw [Token.scan]
    dsimp only
    rw [lineOf_eq_lineAfter (List.prefix_refl _)]
    exact congrArg (· ++ _) (filterMap_spans tiles spans_eq fun line outcome =>
      outcome.kind?.map fun kind => Token.mk kind line)
  · exact filterMap_spans tiles spans_eq fun line outcome =>
      outcome.message?.map fun message => Diagnostic.mk .lexical line message

end Lexeme

open Lexeme in
/-- A source text has one tiling, into longest lexemes and stray characters.  Its tokens are those
that the pieces stand for, in their order and with the end of the file behind them; what is wrong
with it is what is wrong with the pieces, in their order.  Everything stands on the line that the
line feeds before its piece lead to. -/
theorem scan_tiles_source
    (source : String) :
    ∃ pieces : List Piece,
      (Tiles [] source.toList pieces ∧
        ∀ others, Tiles [] source.toList others -> others = pieces) ∧
      (pieces.flatMap Piece.text = source.toList ∧ ∀ piece ∈ pieces, piece.text ≠ []) ∧
      (Token.scan source).tokens =
        pieces.filterMap Piece.token? ++ [⟨.endOfFile, lineAfter source.toList⟩] ∧
      (Token.scan source).diagnostics = pieces.filterMap Piece.diagnostic? := by
  obtain ⟨pieces, tiles, -⟩ := exists_tiles [] source.toList
  exact ⟨pieces, ⟨tiles, fun others other => other.unique tiles⟩,
    ⟨tiles.flatMap_text, tiles.text_ne_nil⟩, scan_of_tiles tiles⟩

end MiniLang
