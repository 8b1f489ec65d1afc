import Mathlib.Data.List.Infix
import MiniLang.Proofs.Source.Bytes
import MiniLang.Proofs.Token.Spacing

/-!
# Quotation

How a text is written as a string literal, and that scanning reads it back.  The inside of such a
literal is scanned to its closing quote whatever comes behind it.  Blanks and marks around it are
pieces of their own, as long as none of the marks opens a comment that reaches the literal.
-/

namespace MiniLang
namespace Lexeme

/-- How a character is written in a string literal. -/
def quotedChar (character : Char) : List Char :=
  if character = '\n' then ['\\', 'n']
  else if character = '"' ∨ character = '\\' then ['\\', character]
  else [character]

/-- A text written as a string literal. -/
def quotation (text : String) : String :=
  String.ofList ('"' :: text.toList.flatMap quotedChar ++ ['"'])

theorem quoted_admitted
    (text : List Char) :
    Inside (text.flatMap quotedChar) ∧ Escapes (text.flatMap quotedChar) text := by
  induction text with
  | nil => exact ⟨.nil, .nil⟩
  | cons character rest inductionHypothesis =>
      obtain ⟨admitted, escapes⟩ := inductionHypothesis
      rw [List.flatMap_cons, quotedChar]
      split
      · next feed =>
          subst feed
          exact ⟨.escaped (by decide) admitted, .feed escapes⟩
      · next no_feed =>
          split
          · next special =>
              have no_letter : character ≠ 'n' := by rcases special with rfl | rfl <;> decide
              exact ⟨.escaped no_feed admitted, .other no_letter escapes⟩
          · next plain =>
              rw [not_or] at plain
              exact ⟨.plain ⟨plain.1, plain.2, no_feed⟩ admitted, .plain plain.2 escapes⟩

/-- A string literal is scanned to its closing quote, whatever comes behind it. -/
theorem Inside.munch
    {inside : List Char}
    (admitted : Inside inside)
    (after : List Char) :
    Munch .text ('"' :: inside ++ ['"']) after := by
  have matched : Matches Rule.text.pattern ('"' :: inside ++ ['"']) :=
    Rule.matches_text.2 ⟨inside, rfl, admitted⟩
  refine ⟨matched, ?_, ?_⟩
  · rintro other piece ⟨rest, shape⟩ also
    have bound := Rule.length_le_longest also rest
    have cls_eq := Rule.classOf_eq also
    obtain ⟨first, tail, rfl⟩ := List.exists_cons_of_ne_nil (Rule.ne_nil also)
    obtain ⟨rfl, -⟩ := List.cons.inj shape
    rw [shape, List.append_assoc] at bound
    -- What starts with a quote is a literal, closed or not.
    rw [classOf_quote] at cls_eq
    split at cls_eq
    · rw [← cls_eq] at bound
      have body : textBody (inside ++ '"' :: after) 0 = inside.length := by
        simp [textBody_append admitted, textBody]
      simp only [List.cons_append, List.nil_append, Class.longest, body] at bound
      simp only [List.length_append, List.length_cons, List.length_nil] at bound ⊢
      omega
    · rw [← cls_eq, List.singleton_append, longest_text admitted] at bound
      simpa using bound
  · intro other also
    have same := (Rule.classOf_eq also).symm.trans (Rule.classOf_eq matched)
    cases other <;> cases same
    exact .inl rfl

/-- A character that stands in a mark. -/
def isPunctuation (character : Char) : Bool :=
  Mark.all.any fun sign => sign.spelling.toList.contains character

/-- A blank or a character that stands in a mark. -/
def isSeparator (character : Char) : Bool :=
  isBlank character || isPunctuation character

/-- Whatever is true of the characters of all marks is true of a character that stands in one. -/
theorem of_isPunctuation
    (test : Char -> Bool)
    (tested : (Mark.all.all fun sign => sign.spelling.toList.all test) = true)
    {character : Char}
    (punctuation : isPunctuation character = true) :
    test character = true := by
  obtain ⟨sign, listed, spelled⟩ := List.any_eq_true.1 punctuation
  exact List.all_eq_true.1 (List.all_eq_true.1 tested sign listed) character
    (List.contains_iff_mem.1 spelled)

/-- Every character of a mark is a mark by itself. -/
theorem exists_mark_of_isPunctuation
    {character : Char}
    (punctuation : isPunctuation character = true) :
    ∃ sign : Mark, sign.spelling.toList = [character] := by
  have alone := of_isPunctuation
    (fun character => (Mark.ofSpelling? (String.ofList [character])).isSome) (by decide) punctuation
  obtain ⟨sign, found⟩ := Option.isSome_iff_exists.1 alone
  exact ⟨sign, by rw [← Mark.ofSpelling?_eq_some.1 found, String.toList_ofList]⟩

/-- A lexeme that starts with a separator is blank, a comment or a mark. -/
theorem Rule.eq_of_isSeparator
    {rule : Rule}
    {first : Char}
    {tail : List Char}
    (matched : Matches rule.pattern (first :: tail))
    (separator : isSeparator first = true) :
    rule = .blank ∨ rule = .comment ∨ ∃ sign, rule = .mark sign := by
  have cls_eq := classOf_eq matched
  have known : rule.cls = .blank ∨ rule.cls = .comment ∨ rule.cls = .mark := by
    rw [← cls_eq, classOf]
    rcases Bool.or_eq_true_iff.1 separator with blank | punctuation
    · rw [if_pos blank]
      exact .inl rfl
    · have other := of_isPunctuation
        (fun character => !isBlank character && !isLetter character && !isDigit character &&
          character != '"') (by decide) punctuation
      simp only [Bool.and_eq_true, Bool.not_eq_true', bne_iff_ne] at other
      obtain ⟨⟨⟨no_blank, no_letter⟩, no_digit⟩, no_quote⟩ := other
      simp only [no_blank, no_letter, no_digit, if_neg no_quote, Bool.false_eq_true, if_false]
      split
      · exact .inr (.inl rfl)
      · exact .inr (.inr rfl)
  cases rule with
  | blank => exact .inl rfl
  | comment => exact .inr (.inl rfl)
  | mark sign => exact .inr (.inr ⟨sign, rfl⟩)
  | _ => rcases known with same | same | same <;> cases same

/-- Every comment in a text ends in it. -/
def LeavesComments (text : List Char) : Prop :=
  ∀ tail ∈ text.tails, ['/', '/'] <+: tail -> '\n' ∈ tail

instance (text : List Char) : Decidable (LeavesComments text) :=
  inferInstanceAs (Decidable (∀ tail ∈ text.tails, _))

theorem LeavesComments.of_append
    {front back : List Char}
    (leaves : LeavesComments (front ++ back)) :
    LeavesComments back := by
  intro tail listed
  rw [List.mem_tails] at listed
  exact leaves tail ((List.mem_tails _ _).2 (listed.trans (List.suffix_append front back)))

/-- A lexeme that starts among separators ends among them, before the quote that follows. -/
theorem Munch.prefix_of_separators
    {rule : Rule}
    {text rest before tail : List Char}
    (munch : Munch rule text rest)
    (shape : text ++ rest = before ++ '"' :: tail)
    (nonempty : before ≠ [])
    (separators : ∀ character ∈ before, isSeparator character = true)
    (leaves : LeavesComments before) :
    text <+: before := by
  rcases List.append_eq_append_iff.1 shape with ⟨middle, before_eq, -⟩ | ⟨middle, text_eq, tail_eq⟩
  · exact ⟨middle, before_eq.symm⟩
  · cases middle with
    | nil => exact ⟨[], by rw [text_eq, List.append_nil, List.append_nil]⟩
    | cons quote middle =>
        exfalso
        obtain ⟨rfl, -⟩ := List.cons.inj tail_eq
        obtain ⟨first, before, rfl⟩ := List.exists_cons_of_ne_nil nonempty
        have matched := munch.matched
        have quote_mem : '"' ∈ text := by simp [text_eq]
        rw [text_eq, List.cons_append] at matched
        rcases Rule.eq_of_isSeparator matched (separators first List.mem_cons_self) with
          rfl | rfl | ⟨sign, rfl⟩
        · have blank := (Rule.matches_blank.1 munch.matched).2 _ quote_mem
          cases blank
        · obtain ⟨comment, comment_eq, same_line⟩ := Rule.matches_comment.1 matched
          cases before with
          | nil => cases comment_eq
          | cons second before =>
              cases comment_eq
              have feed := leaves _ ((List.mem_tails _ _).2 (List.suffix_refl _))
                (List.prefix_append ['/', '/'] before)
              have feed : '\n' ∈ before := by simpa using feed
              exact same_line '\n' (List.mem_append_left _ feed) rfl
        · rw [matches_literal.1 munch.matched] at quote_mem
          have no_quote : sign.spelling.toList.contains '"' = false := by cases sign <;> rfl
          rw [List.contains_iff_mem.2 quote_mem] at no_quote
          cases no_quote

/-- A separator is never a stray character. -/
theorem Stray.not_isSeparator
    {first : Char}
    {rest : List Char}
    (stray : Stray (first :: rest)) :
    isSeparator first = false := by
  refine Bool.eq_false_iff.2 fun separator => ?_
  have front : [first] <+: first :: rest := List.prefix_append [first] rest
  rcases Bool.or_eq_true_iff.1 separator with blank | punctuation
  · exact stray .blank [first] front (Rule.matches_blank.2 ⟨List.cons_ne_nil _ _, by simpa⟩)
  · obtain ⟨sign, spelled⟩ := exists_mark_of_isPunctuation punctuation
    exact stray (.mark sign) [first] front (matches_literal.2 spelled.symm)

/-- A piece comes to nothing or to a mark. -/
def Piece.IsPlain (piece : Piece) : Prop :=
  piece.outcome = .nothing ∨ ∃ sign, piece.outcome = .token (.mark sign)

theorem Munch.isPlain
    {rule : Rule}
    {before text rest : List Char}
    {outcome : Outcome}
    (munch : Munch rule text rest)
    (denotes : Denotes rule text outcome)
    (separators : ∀ character ∈ text, isSeparator character = true) :
    Piece.IsPlain ⟨some rule, before, text, outcome⟩ := by
  obtain ⟨first, tail, rfl⟩ := List.exists_cons_of_ne_nil (Rule.ne_nil munch.matched)
  rcases Rule.eq_of_isSeparator munch.matched (separators first List.mem_cons_self) with
    rfl | rfl | ⟨sign, rfl⟩
  · cases denotes
    exact .inl rfl
  · cases denotes
    exact .inl rfl
  · cases denotes
    exact .inr ⟨sign, rfl⟩

/-- Separators are tiled by blanks, comments and marks. -/
theorem Tiles.isPlain
    {before rest : List Char}
    {pieces : List Piece}
    (tiles : Tiles before rest pieces)
    (separators : ∀ character ∈ rest, isSeparator character = true) :
    ∀ piece ∈ pieces, piece.IsPlain := by
  induction tiles with
  | done => simp
  | lexeme munch denotes after inductionHypothesis =>
      rw [List.forall_mem_append] at separators
      exact List.forall_mem_cons.2
        ⟨munch.isPlain denotes separators.1, inductionHypothesis separators.2⟩
  | stray stray after inductionHypothesis =>
      have separator := separators _ List.mem_cons_self
      rw [stray.not_isSeparator] at separator
      cases separator

/-- A literal among separators is one piece, and the others are blanks, comments and marks. -/
theorem Tiles.exists_literal
    {passed whole before inside resolved after : List Char}
    {pieces : List Piece}
    (tiles : Tiles passed whole pieces)
    (shape : whole = before ++ ('"' :: inside ++ ['"']) ++ after)
    (admitted : Inside inside)
    (escapes : Escapes inside resolved)
    (separatorsBefore : ∀ character ∈ before, isSeparator character = true)
    (leaves : LeavesComments before)
    (separatorsAfter : ∀ character ∈ after, isSeparator character = true) :
    ∃ front literal back, pieces = front ++ literal :: back ∧
      (∀ piece ∈ front, piece.IsPlain) ∧ (∀ piece ∈ back, piece.IsPlain) ∧
      literal.outcome = .token (.text (resolved.flatMap String.utf8EncodeChar)) := by
  -- The tiling is followed through what stands before the literal, piece by piece.
  induction tiles generalizing before with
  | done => simp at shape
  | @lexeme passed text rest rule outcome pieces munch denotes tiles inductionHypothesis =>
      by_cases nonempty : before = []
      · subst nonempty
        rw [List.nil_append] at shape
        obtain ⟨rfl, rfl, rfl⟩ := munch.unique (admitted.munch after) shape
        refine ⟨[], _, pieces, rfl, by simp, tiles.isPlain separatorsAfter, ?_⟩
        exact denotes.unique (.text escapes)
      · have shape' : text ++ rest = before ++ '"' :: (inside ++ ['"'] ++ after) := by
          rw [shape]
          simp
        obtain ⟨later, rfl⟩ :=
          munch.prefix_of_separators shape' nonempty separatorsBefore leaves
        have rest_eq : rest = later ++ ('"' :: inside ++ ['"']) ++ after := by
          simpa using shape
        rw [List.forall_mem_append] at separatorsBefore
        obtain ⟨front, literal, back, rfl, frontPlain, backPlain, outcome_eq⟩ :=
          inductionHypothesis rest_eq separatorsBefore.2 leaves.of_append
        have headPlain : Piece.IsPlain ⟨some rule, passed, text, outcome⟩ :=
          munch.isPlain denotes separatorsBefore.1
        exact ⟨_ :: front, literal, back, rfl, List.forall_mem_cons.2 ⟨headPlain, frontPlain⟩,
          backPlain, outcome_eq⟩
  | @stray passed rest character pieces stray tiles inductionHypothesis =>
      cases before with
      | nil => exact absurd (admitted.munch after) (stray.not_munch shape)
      | cons first before =>
          obtain ⟨rfl, -⟩ := List.cons.inj shape
          have separator := separatorsBefore _ List.mem_cons_self
          rw [stray.not_isSeparator] at separator
          cases separator

/-- Pieces that come to nothing or to marks give marks only, and no complaint. -/
theorem exists_marks
    {pieces : List Piece}
    (plain : ∀ piece ∈ pieces, piece.IsPlain) :
    ∃ signs : List Mark,
      (pieces.filterMap Piece.token?).map Token.kind = signs.map Token.Kind.mark ∧
        pieces.filterMap Piece.diagnostic? = [] := by
  induction pieces with
  | nil => exact ⟨[], rfl, rfl⟩
  | cons piece pieces inductionHypothesis =>
      rw [List.forall_mem_cons] at plain
      obtain ⟨signs, kinds_eq, quiet⟩ := inductionHypothesis plain.2
      rcases plain.1 with nothing | ⟨sign, marked⟩
      · have token_eq : piece.token? = none := by rw [Piece.token?, nothing]; rfl
        have diagnostic_eq : piece.diagnostic? = none := by rw [Piece.diagnostic?, nothing]; rfl
        refine ⟨signs, ?_, ?_⟩
        · rw [List.filterMap_cons_none token_eq, kinds_eq]
        · rw [List.filterMap_cons_none diagnostic_eq, quiet]
      · have token_eq : piece.token? = some ⟨.mark sign, lineAfter piece.before⟩ := by
          rw [Piece.token?, marked]
          rfl
        have diagnostic_eq : piece.diagnostic? = none := by rw [Piece.diagnostic?, marked]; rfl
        refine ⟨sign :: signs, ?_, ?_⟩
        · rw [List.filterMap_cons_some token_eq, List.map_cons, kinds_eq, List.map_cons]
        · rw [List.filterMap_cons_none diagnostic_eq, quiet]

/-- A text written as a string literal among blanks and marks is scanned to one string token with
its bytes, to marks, and to no complaint. -/
theorem scan_quotation
    (text : String)
    {before after : String}
    (separators : ∀ character ∈ before.toList ++ after.toList, isSeparator character = true)
    (leaves : LeavesComments before.toList) :
    (Token.scan (before ++ quotation text ++ after)).diagnostics = [] ∧
      ∃ front back : List Mark,
        (Token.scan (before ++ quotation text ++ after)).tokens.map Token.kind =
          front.map Token.Kind.mark ++ .text text.toUTF8.data.toList ::
            back.map Token.Kind.mark ++ [.endOfFile] := by
  obtain ⟨pieces, tiles, -⟩ := exists_tiles [] (before ++ quotation text ++ after).toList
  obtain ⟨admitted, escapes⟩ := quoted_admitted text.toList
  have shape : (before ++ quotation text ++ after).toList =
      before.toList ++ ('"' :: text.toList.flatMap quotedChar ++ ['"']) ++ after.toList := by
    rw [String.toList_append, String.toList_append, quotation, String.toList_ofList]
  rw [List.forall_mem_append] at separators
  obtain ⟨front, literal, back, rfl, frontPlain, backPlain, outcome_eq⟩ :=
    tiles.exists_literal shape admitted escapes separators.1 leaves separators.2
  obtain ⟨frontSigns, frontKinds, frontQuiet⟩ := exists_marks frontPlain
  obtain ⟨backSigns, backKinds, backQuiet⟩ := exists_marks backPlain
  obtain ⟨tokens_eq, diagnostics_eq⟩ := scan_of_tiles tiles
  rw [← Source.utf8_eq] at outcome_eq
  have token_eq : literal.token? =
      some ⟨.text text.toUTF8.data.toList, lineAfter literal.before⟩ := by
    rw [Piece.token?, outcome_eq]
    rfl
  have diagnostic_eq : literal.diagnostic? = none := by rw [Piece.diagnostic?, outcome_eq]; rfl
  constructor
  · rw [diagnostics_eq, List.filterMap_append, frontQuiet, List.nil_append,
      List.filterMap_cons_none diagnostic_eq, backQuiet]
  · refine ⟨frontSigns, backSigns, ?_⟩
    rw [tokens_eq, List.filterMap_append, List.filterMap_cons_some token_eq]
    simp [frontKinds, backKinds]

end Lexeme
end MiniLang
