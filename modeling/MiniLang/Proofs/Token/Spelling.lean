import MiniLang.Proofs.Token.Quotation
import MiniLang.Proofs.Token.Reals

/-!
# Scanning undoes spelling

Tokens that are spelled out one after another, with blanks and comments between them, are scanned
to the same tokens again.  A blank behind a spelling ends its lexeme, since no lexeme other than a
comment or a string goes on over a blank.  Without anything in between, two spellings stay apart as
long as nothing longer than the first one can be read where it starts.
-/

namespace MiniLang
namespace Lexeme

/-! ## Spellings and separators -/

/-- The texts that spell a token. -/
inductive Spells : List Char -> Token.Kind -> Prop where
  | keyword (word : Keyword) : Spells word.spelling.toList (.keyword word)
  | mark (sign : Mark) : Spells sign.spelling.toList (.mark sign)
  | name {text : List Char}
      (matched : Matches Rule.name.pattern text)
      (free : ∀ word : Keyword, text ≠ word.spelling.toList) :
      Spells text (.name (String.ofList text))
  | decimal {digits : List Char} {value : Int32}
      (matched : Matches Rule.decimal.pattern digits)
      (same : value.toInt = numeral 10 digits) :
      Spells digits (.int value)
  | hexadecimal {sign : Char} {digits : List Char} {value : Int32}
      (matched : Matches Rule.hexadecimal.pattern ('0' :: sign :: digits))
      (same : value.toUInt32.toNat = numeral 16 digits) :
      Spells ('0' :: sign :: digits) (.int value)
  | real {whole fraction : List Char} {bits : UInt64}
      (integer : Matches .integer whole)
      (nonempty : fraction ≠ [])
      (run : ∀ digit ∈ fraction, isDigit digit = true)
      (finite : fractionValue whole fraction < Binary64.overflow)
      (nearest : Binary64.Nearest bits (fractionValue whole fraction)) :
      Spells (whole ++ '.' :: fraction) (.real bits)
  | text {inside resolved : List Char}
      (admitted : Inside inside)
      (escapes : Escapes inside resolved) :
      Spells ('"' :: inside ++ ['"']) (.text (resolved.flatMap String.utf8EncodeChar))

/-- Blanks, and comments up to the ends of their lines. -/
inductive Layout : List Char -> Prop where
  | nil : Layout []
  | blank {character : Char} {rest : List Char}
      (blank : isBlank character = true)
      (after : Layout rest) :
      Layout (character :: rest)
  | comment {body rest : List Char}
      (line : ∀ character ∈ body, character ≠ '\n')
      (after : Layout rest) :
      Layout ('/' :: '/' :: body ++ '\n' :: rest)

/-- Blanks and comments that start with a blank. -/
structure Separator (text : List Char) : Prop where
  layout : Layout text
  opens : ∃ first rest, text = first :: rest ∧ isBlank first = true

/-- Whether the lexemes of a rule are tokens. -/
def Rule.isToken : Rule -> Bool
  | .blank => false
  | .comment => false
  | .openText => false
  | _ => true

/-- No token and no comment is longer than a spelling where the spelling starts. -/
def Apart (spelling rest : List Char) : Prop :=
  ∀ (rule : Rule) (piece : List Char), rule.isToken = true ∨ rule = .comment ->
    piece <+: spelling ++ rest -> Matches rule.pattern piece -> piece.length ≤ spelling.length

/-- A spelling follows a rule, and stands for its token by this rule. -/
theorem Spells.exists_rule
    {text : List Char}
    {kind : Token.Kind}
    (spells : Spells text kind) :
    ∃ rule : Rule, rule.isToken = true ∧ Matches rule.pattern text ∧
      Denotes rule text (.token kind) ∧
      (rule = .name -> ∀ word : Keyword, text ≠ word.spelling.toList) := by
  cases spells with
  | keyword word =>
      exact ⟨.keyword word, rfl, matches_literal.2 rfl, .keyword word _, by rintro ⟨⟩⟩
  | mark sign => exact ⟨.mark sign, rfl, matches_literal.2 rfl, .mark sign _, by rintro ⟨⟩⟩
  | name matched free => exact ⟨.name, rfl, matched, .name text, fun _ => free⟩
  | decimal matched same => exact ⟨.decimal, rfl, matched, .decimal same, by rintro ⟨⟩⟩
  | hexadecimal matched same =>
      exact ⟨.hexadecimal, rfl, matched, .hexadecimal same, by rintro ⟨⟩⟩
  | real integer nonempty run finite nearest =>
      refine ⟨.real, rfl, Rule.matches_real.2 ⟨_, _, rfl, integer, nonempty, run⟩, ?_, by rintro ⟨⟩⟩
      obtain ⟨bits, denotes, also⟩ := exists_denotes_nearest (isDigit_of_integer integer) finite
      cases also.unique nearest
      exact denotes
  | text admitted escapes =>
      exact ⟨.text, rfl, Rule.matches_text.2 ⟨_, rfl, admitted⟩, .text escapes, by rintro ⟨⟩⟩

/-! ## Longest lexemes -/

/-- What is read at the front of a text either ends in its first part or goes on behind it. -/
theorem length_le_or_next
    {piece text rest : List Char}
    (front : piece <+: text ++ rest) :
    piece.length ≤ text.length ∨
      ∃ next more tail, piece = text ++ next :: more ∧ rest = next :: tail := by
  obtain ⟨after, shape⟩ := front
  rcases List.append_eq_append_iff.1 shape with ⟨middle, rfl, -⟩ | ⟨middle, rfl, rfl⟩
  · exact .inl (List.prefix_append _ _).length_le
  · cases middle with
    | nil => exact .inl (by rw [List.append_nil])
    | cons next more => exact .inr ⟨next, more, _, rfl, rfl⟩

/-- What is read at the front of a text has its first character. -/
theorem exists_first
    {piece text rest : List Char}
    (front : piece <+: text ++ rest)
    (nonempty : piece ≠ [])
    (nonempty' : text ≠ []) :
    ∃ first tail tail', piece = first :: tail ∧ text = first :: tail' := by
  obtain ⟨first, tail, rfl⟩ := List.exists_cons_of_ne_nil nonempty
  obtain ⟨first', tail', rfl⟩ := List.exists_cons_of_ne_nil nonempty'
  obtain ⟨rfl, -⟩ := List.cons_prefix_cons.1 front
  exact ⟨first, tail, tail', rfl, rfl⟩

/-- A lexeme is blank by its first character. -/
theorem Rule.isBlank_first_iff
    {rule : Rule}
    {first : Char}
    {tail : List Char}
    (matched : Matches rule.pattern (first :: tail)) :
    isBlank first = true ↔ rule = .blank := by
  constructor
  · intro blank
    have cls_eq := classOf_eq matched
    rw [classOf, if_pos blank] at cls_eq
    cases rule <;> cases cls_eq
    rfl
  · rintro rfl
    exact (matches_blank.1 matched).2 first List.mem_cons_self

/-- A lexeme is a string, closed or not, by its first character. -/
theorem Rule.quote_first_iff
    {rule : Rule}
    {first : Char}
    {tail : List Char}
    (matched : Matches rule.pattern (first :: tail)) :
    first = '"' ↔ rule = .text ∨ rule = .openText := by
  constructor
  · rintro rfl
    have cls_eq := classOf_eq matched
    rw [classOf_quote] at cls_eq
    split at cls_eq
    · cases rule <;> cases cls_eq
      exact .inr rfl
    · cases rule <;> cases cls_eq
      exact .inl rfl
  · rintro (rfl | rfl)
    · obtain ⟨inside, shape, -⟩ := matches_text.1 matched
      exact (List.cons.inj shape).1
    · obtain ⟨inside, shape, -⟩ := matches_openText.1 matched
      exact (List.cons.inj shape).1

theorem isBlank_of_isHexDigit
    {character : Char}
    (digit : isHexDigit character = true) :
    isBlank character = false := by
  cases blank : isBlank character with
  | false => rfl
  | true =>
      simp only [isBlank, Bool.or_eq_true, beq_iff_eq] at blank
      rcases blank with (((rfl | rfl) | rfl) | rfl) | rfl <;> cases digit

/-- No token other than a string holds a blank. -/
theorem Rule.isBlank_eq_false
    {rule : Rule}
    {text : List Char}
    (matched : Matches rule.pattern text)
    (token : rule.isToken = true)
    (unquoted : rule ≠ .text) :
    ∀ character ∈ text, isBlank character = false := by
  have word {text : List Char} (matched : Matches Rule.name.pattern text) :
      ∀ character ∈ text, isBlank character = false := by
    obtain ⟨character, tail, rfl, letter, parts⟩ := matches_name.1 matched
    refine List.forall_mem_cons.2 ⟨isBlank_of_isWordPart (by simp [isWordPart, letter]), ?_⟩
    exact fun part listed => isBlank_of_isWordPart (parts part listed)
  have number {digits : List Char} (run : ∀ digit ∈ digits, isDigit digit = true) :
      ∀ character ∈ digits, isBlank character = false := by
    intro digit listed
    exact isBlank_of_isWordPart (by simp [isWordPart, run digit listed])
  cases rule with
  | keyword spelled =>
      obtain rfl := matches_literal.1 matched
      exact word (matches_name_of_keyword spelled)
  | name => exact word matched
  | decimal => exact number (isDigit_of_integer matched)
  | hexadecimal =>
      obtain ⟨sign, digits, rfl, known, -, run⟩ := matches_hexadecimal.1 matched
      have sign_solid : isBlank sign = false := by rcases known with rfl | rfl <;> rfl
      rw [List.forall_mem_cons, List.forall_mem_cons]
      exact ⟨rfl, sign_solid, fun digit listed => isBlank_of_isHexDigit (run digit listed)⟩
  | real =>
      obtain ⟨whole, fraction, rfl, integer, -, run⟩ := matches_real.1 matched
      rw [List.forall_mem_append, List.forall_mem_cons]
      exact ⟨number (isDigit_of_integer integer), rfl, number run⟩
  | mark sign =>
      obtain rfl := matches_literal.1 matched
      have solid : (sign.spelling.toList.all fun character => !isBlank character) = true := by
        cases sign <;> rfl
      intro character listed
      exact Bool.not_eq_true _ ▸ (Bool.not_eq_eq_eq_not.1 (List.all_eq_true.1 solid character listed))
  | text => exact absurd rfl unquoted
  | blank | comment | openText => cases token

/-- A text is a longest lexeme of a rule that matches it, unless it is a reserved word and the rule
is that of names. -/
theorem munch_of_longest
    {rule : Rule}
    {text rest : List Char}
    (matched : Matches rule.pattern text)
    (free : rule = .name -> ∀ word : Keyword, text ≠ word.spelling.toList)
    (longest : ∀ (other : Rule) (piece : List Char), piece <+: text ++ rest ->
      Matches other.pattern piece -> piece.length ≤ text.length) :
    Munch rule text rest := by
  obtain ⟨preferred, -, preferred_matched, alone⟩ := Rule.exists_preferred matched
  have rule_eq : rule = preferred := by
    rcases alone rule matched with same | ⟨named, word, rfl⟩
    · exact same
    · exact absurd (matches_literal.1 preferred_matched) (free named word)
  subst rule_eq
  exact ⟨matched, longest, alone⟩

/-- A text by itself is a lexeme of a rule other than that of names that matches it. -/
theorem munch_alone
    {rule : Rule}
    {text : List Char}
    (matched : Matches rule.pattern text)
    (other : rule ≠ .name) :
    Munch rule text [] := by
  refine munch_of_longest matched (fun named => absurd named other) fun _ piece front _ => ?_
  rw [List.append_nil] at front
  exact front.length_le

/-- A string is read where another token starts only if that token is a string. -/
theorem Rule.eq_text_of_first
    {rule other : Rule}
    {first : Char}
    {tail tail' : List Char}
    (matched : Matches rule.pattern (first :: tail))
    (token : rule.isToken = true)
    (also : Matches other.pattern (first :: tail'))
    (quoted : other = .text ∨ other = .openText) :
    rule = .text := by
  have quote := (quote_first_iff also).2 quoted
  rcases (quote_first_iff matched).1 quote with rfl | rfl
  · rfl
  · cases token

/-- A spelling that stays apart from what follows is a longest lexeme. -/
theorem Apart.munch
    {rule : Rule}
    {text rest : List Char}
    (apart : Apart text rest)
    (matched : Matches rule.pattern text)
    (token : rule.isToken = true)
    (free : rule = .name -> ∀ word : Keyword, text ≠ word.spelling.toList) :
    Munch rule text rest := by
  by_cases quoted : rule = .text
  · subst quoted
    obtain ⟨inside, rfl, admitted⟩ := Rule.matches_text.1 matched
    exact admitted.munch rest
  · refine munch_of_longest matched free fun other piece front also => ?_
    obtain ⟨first, tail, tail', rfl, rfl⟩ :=
      exists_first front (Rule.ne_nil also) (Rule.ne_nil matched)
    -- Blanks and open strings do not count, but the first character rules them out.
    cases other with
    | blank =>
        have blank := (Rule.isBlank_first_iff also).2 rfl
        obtain rfl := (Rule.isBlank_first_iff matched).1 blank
        cases token
    | openText => exact absurd (Rule.eq_text_of_first matched token also (.inr rfl)) quoted
    | comment => exact apart _ _ (.inr rfl) front also
    | _ => exact apart _ _ (.inl rfl) front also

/-- A spelling stays apart from a blank, and from the end of the text. -/
theorem apart_of_blank
    {rule : Rule}
    {text rest : List Char}
    (matched : Matches rule.pattern text)
    (token : rule.isToken = true)
    (ends : ∀ next tail, rest = next :: tail -> isBlank next = true) :
    Apart text rest := by
  by_cases quoted : rule = .text
  · subst quoted
    obtain ⟨inside, rfl, admitted⟩ := Rule.matches_text.1 matched
    exact fun other piece _ front also => (admitted.munch rest).longest other piece front also
  · intro other piece counts front also
    refine (length_le_or_next front).resolve_right ?_
    rintro ⟨next, more, tail, rfl, rest_eq⟩
    have blank := ends next tail rest_eq
    obtain ⟨first, after, rfl⟩ := List.exists_cons_of_ne_nil (Rule.ne_nil matched)
    rcases counts with counts | rfl
    · have unquoted : other ≠ .text := fun text_eq =>
        quoted (Rule.eq_text_of_first matched token also (.inl text_eq))
      have solid := Rule.isBlank_eq_false also counts unquoted next (by simp)
      rw [blank] at solid
      cases solid
    · obtain ⟨run, shape, -⟩ := Rule.matches_comment.1 also
      obtain ⟨rfl, after_eq⟩ := List.cons.inj shape
      cases after with
      | nil =>
          obtain ⟨rfl, -⟩ := List.cons.inj after_eq
          cases blank
      | cons second after =>
          obtain ⟨rfl, -⟩ := List.cons.inj after_eq
          have cls_eq : Class.comment = rule.cls := Rule.classOf_eq matched
          cases rule <;> cases cls_eq
          cases token

/-- A run of blanks is a longest lexeme where no blank follows it. -/
theorem munch_blank
    {run rest : List Char}
    (nonempty : run ≠ [])
    (blanks : ∀ character ∈ run, isBlank character = true)
    (ends : ∀ next tail, rest = next :: tail -> isBlank next = false) :
    Munch .blank run rest := by
  refine munch_of_longest (Rule.matches_blank.2 ⟨nonempty, blanks⟩) (by rintro ⟨⟩) ?_
  intro other piece front also
  refine (length_le_or_next front).resolve_right ?_
  rintro ⟨next, more, tail, rfl, rest_eq⟩
  obtain ⟨first, after, rfl⟩ := List.exists_cons_of_ne_nil nonempty
  obtain rfl := (Rule.isBlank_first_iff also).1 (blanks first List.mem_cons_self)
  have blank := (Rule.matches_blank.1 also).2 next (by simp)
  rw [ends next tail rest_eq] at blank
  cases blank

/-- No blank follows a longest run of blanks. -/
theorem Munch.isBlank_next
    {run rest : List Char}
    (munch : Munch .blank run rest) :
    ∀ next tail, rest = next :: tail -> isBlank next = false := by
  rintro next tail rfl
  refine Bool.eq_false_iff.2 fun blank => ?_
  obtain ⟨-, blanks⟩ := Rule.matches_blank.1 munch.matched
  have longer : Matches Rule.blank.pattern (run ++ [next]) := by
    refine Rule.matches_blank.2 ⟨by simp, List.forall_mem_append.2 ⟨blanks, ?_⟩⟩
    exact List.forall_mem_singleton.2 blank
  have front : run ++ [next] <+: run ++ next :: tail := ⟨tail, by simp⟩
  have bound := munch.longest .blank _ front longer
  simp at bound

/-- A comment is a longest lexeme up to the end of its line. -/
theorem munch_comment
    {body : List Char}
    (line : ∀ character ∈ body, character ≠ '\n')
    (rest : List Char) :
    Munch .comment ('/' :: '/' :: body) ('\n' :: rest) := by
  refine munch_of_longest (Rule.matches_comment.2 ⟨body, rfl, line⟩) (by rintro ⟨⟩) ?_
  intro other piece front also
  refine (length_le_or_next front).resolve_right ?_
  rintro ⟨next, more, tail, rfl, rest_eq⟩
  obtain ⟨rfl, -⟩ := List.cons.inj rest_eq
  have cls_eq : Class.comment = other.cls := Rule.classOf_eq also
  cases other <;> cases cls_eq
  obtain ⟨run, shape, same_line⟩ := Rule.matches_comment.1 also
  have run_eq : body ++ '\n' :: more = run := by simpa using shape
  exact same_line '\n' (run_eq ▸ by simp) rfl

/-! ## Reading without complaints -/

/-- A text that stands after another one is scanned to tokens, and to no complaint. -/
def Reads (before text : List Char) (tokens : List Token) : Prop :=
  ∃ pieces, Tiles before text pieces ∧ pieces.filterMap Piece.token? = tokens ∧
    pieces.filterMap Piece.diagnostic? = []

namespace Reads

variable {before text rest : List Char} {tokens : List Token} {rule : Rule}

theorem scan_eq
    (reads : Reads [] text tokens) :
    Token.scan (String.ofList text) = ⟨tokens ++ [⟨.endOfFile, lineAfter text⟩], []⟩ := by
  obtain ⟨pieces, tiles, tokens_eq, quiet⟩ := reads
  rw [← String.toList_ofList (l := text)] at tiles
  obtain ⟨scanned, complaints⟩ := scan_of_tiles tiles
  rw [tokens_eq, String.toList_ofList] at scanned
  rw [quiet] at complaints
  cases scan_eq : Token.scan (String.ofList text) with
  | mk scannedTokens diagnostics =>
      rw [scan_eq] at scanned complaints
      rw [← scanned, ← complaints]

/-- A lexeme that comes to nothing goes before what is read. -/
theorem silent
    (reads : Reads (before ++ text) rest tokens)
    (munch : Munch rule text rest)
    (denotes : Denotes rule text .nothing) :
    Reads before (text ++ rest) tokens := by
  obtain ⟨pieces, tiles, tokens_eq, quiet⟩ := reads
  exact ⟨_, .lexeme munch denotes tiles, tokens_eq, quiet⟩

/-- A lexeme that is a token goes before what is read. -/
theorem token
    {kind : Token.Kind}
    (reads : Reads (before ++ text) rest tokens)
    (munch : Munch rule text rest)
    (denotes : Denotes rule text (.token kind)) :
    Reads before (text ++ rest) (⟨kind, lineAfter before⟩ :: tokens) := by
  obtain ⟨pieces, tiles, tokens_eq, quiet⟩ := reads
  exact ⟨_, .lexeme munch denotes tiles, congrArg (List.cons _) tokens_eq, quiet⟩

/-- A blank joins the run of blanks at the front of a text, or is one by itself. -/
theorem blank
    {character : Char}
    (reads : Reads (before ++ [character]) text tokens)
    (blank : isBlank character = true) :
    Reads before (character :: text) tokens := by
  obtain ⟨pieces, tiles, tokens_eq, quiet⟩ := reads
  have alone (ends : ∀ next tail, text = next :: tail -> isBlank next = false) :
      Reads before ([character] ++ text) tokens :=
    silent ⟨pieces, tiles, tokens_eq, quiet⟩ (munch_blank (by simp) (by simpa) ends) (.blank _)
  cases tiles with
  | done => exact alone (by simp)
  | @lexeme _ run rest rule outcome pieces munch denotes after =>
      obtain ⟨first, tail, rfl⟩ := List.exists_cons_of_ne_nil (Rule.ne_nil munch.matched)
      by_cases joins : rule = .blank
      · subst joins
        cases denotes
        obtain ⟨-, blanks⟩ := Rule.matches_blank.1 munch.matched
        have joined : Munch .blank (character :: first :: tail) rest :=
          munch_blank (by simp) (List.forall_mem_cons.2 ⟨blank, blanks⟩) munch.isBlank_next
        rw [List.append_assoc] at after
        exact silent ⟨pieces, after, tokens_eq, quiet⟩ joined (.blank _)
      · refine alone fun next tail' shape => ?_
        obtain ⟨rfl, -⟩ := List.cons.inj shape
        exact Bool.eq_false_iff.2 fun blank => joins ((Rule.isBlank_first_iff munch.matched).1 blank)
  | @stray _ rest first pieces stray after =>
      refine alone fun next tail' shape => ?_
      obtain ⟨rfl, -⟩ := List.cons.inj shape
      refine Bool.eq_false_iff.2 fun blank => ?_
      exact stray .blank [first] (List.prefix_append [first] rest)
        (Rule.matches_blank.2 ⟨by simp, by simpa⟩)

/-- Blanks and comments leave no trace. -/
theorem layout
    {space : List Char}
    (layout : Layout space)
    (reads : Reads (before ++ space) text tokens) :
    Reads before (space ++ text) tokens := by
  induction layout generalizing before with
  | nil => rwa [List.append_nil] at reads
  | @blank character rest blank after inductionHypothesis =>
      refine Reads.blank (inductionHypothesis ?_) blank
      rwa [List.append_assoc]
  | @comment body rest line after inductionHypothesis =>
      have ended : Reads (before ++ '/' :: '/' :: body) ('\n' :: rest ++ text) tokens := by
        refine Reads.blank (inductionHypothesis ?_) rfl
        simpa using reads
      have commented := ended.silent (munch_comment line _) (.comment _)
      rwa [← List.append_assoc] at commented

end Reads

/-! ## Written tokens -/

/-- A token as it is written: its spelling, and what separates it from the next one. -/
structure Entry where
  spelling : List Char
  kind : Token.Kind
  separator : List Char

/-- The text of a written token. -/
def Entry.text (entry : Entry) : List Char :=
  entry.spelling ++ entry.separator

/-- The same token with nothing between it and the next one. -/
def Entry.joined (entry : Entry) : Entry :=
  { entry with separator := [] }

/-- The text of written tokens. -/
def written (entries : List Entry) : List Char :=
  entries.flatMap Entry.text

/-- The tokens that are written after a text, on the lines where they start, and the end of the
file. -/
def placed (before : List Char) : List Entry -> List Token
  | [] => [⟨.endOfFile, lineAfter before⟩]
  | entry :: entries => ⟨entry.kind, lineAfter before⟩ :: placed (before ++ entry.text) entries

theorem kind_placed
    (before : List Char)
    (entries : List Entry) :
    (placed before entries).map Token.kind = entries.map Entry.kind ++ [.endOfFile] := by
  induction entries generalizing before with
  | nil => rfl
  | cons entry entries inductionHypothesis =>
      rw [placed, List.map_cons, inductionHypothesis]
      rfl

/-- Every written token stays apart from what is written behind it. -/
inductive Spaced : List Entry -> Prop where
  | nil : Spaced []
  | cons {entry : Entry} {entries : List Entry}
      (spells : Spells entry.spelling entry.kind)
      (layout : Layout entry.separator)
      (apart : Apart entry.spelling (entry.separator ++ written entries))
      (after : Spaced entries) :
      Spaced (entry :: entries)

/-- A separator keeps a token apart from everything behind it. -/
theorem Spaced.cons_separator
    {entry : Entry}
    {entries : List Entry}
    (after : Spaced entries)
    (spells : Spells entry.spelling entry.kind)
    (separator : Separator entry.separator) :
    Spaced (entry :: entries) := by
  refine .cons spells separator.layout ?_ after
  obtain ⟨rule, token, matched, -⟩ := spells.exists_rule
  refine apart_of_blank matched token fun next tail shape => ?_
  obtain ⟨first, rest, separator_eq, blank⟩ := separator.opens
  rw [separator_eq] at shape
  obtain ⟨rfl, -⟩ := List.cons.inj shape
  exact blank

theorem Spaced.append
    {front back : List Entry}
    (spelled : ∀ entry ∈ front,
      Spells entry.spelling entry.kind ∧ Separator entry.separator)
    (spaced : Spaced back) :
    Spaced (front ++ back) := by
  induction front with
  | nil => exact spaced
  | cons entry entries inductionHypothesis =>
      obtain ⟨⟨spells, separator⟩, spelled⟩ := List.forall_mem_cons.1 spelled
      exact (inductionHypothesis spelled).cons_separator spells separator

/-- Written tokens that stay apart are read again. -/
theorem Spaced.reads
    {entries : List Entry}
    (spaced : Spaced entries)
    (before : List Char) :
    ∃ tokens, Reads before (written entries) tokens ∧
      tokens ++ [⟨.endOfFile, lineAfter (before ++ written entries)⟩] = placed before entries := by
  induction spaced generalizing before with
  | nil =>
      refine ⟨[], ⟨[], .done before, rfl, rfl⟩, ?_⟩
      rw [written, List.flatMap_nil, List.append_nil]
      rfl
  | @cons entry entries spells layout apart after inductionHypothesis =>
      obtain ⟨rule, token, matched, denotes, free⟩ := spells.exists_rule
      obtain ⟨tokens, reads, placed_eq⟩ := inductionHypothesis (before ++ entry.text)
      rw [Entry.text, ← List.append_assoc] at reads
      have here := (Reads.layout layout reads).token (apart.munch matched token free) denotes
      refine ⟨⟨entry.kind, lineAfter before⟩ :: tokens, ?_, ?_⟩
      · rwa [written, List.flatMap_cons, Entry.text, List.append_assoc]
      · rw [placed, ← placed_eq, written, List.flatMap_cons, List.append_assoc]
        rfl

/-- Scanning finds written tokens that stay apart. -/
theorem scan_spaced
    {lead : List Char}
    {entries : List Entry}
    (leading : Layout lead)
    (spaced : Spaced entries) :
    Token.scan (String.ofList (lead ++ written entries)) = ⟨placed lead entries, []⟩ := by
  obtain ⟨tokens, reads, placed_eq⟩ := spaced.reads lead
  have whole : Reads [] (lead ++ written entries) tokens := Reads.layout leading reads
  rw [whole.scan_eq, placed_eq]

/-- Scanning undoes spelling.  Tokens that are spelled out with separators between and around them are
scanned to the same tokens and the end of the file, without a complaint.  Two neighbours may also
stand without a separator, if no token and no comment longer than the first spelling starts where
it does. -/
theorem scanning_undoes_spelling
    (lead : List Char)
    (entries : List Entry)
    (leading : Layout lead)
    (spelled : ∀ entry ∈ entries, Spells entry.spelling entry.kind ∧ Separator entry.separator) :
    (Token.scan (String.ofList (lead ++ written entries)) = ⟨placed lead entries, []⟩ ∧
        (placed lead entries).map Token.kind = entries.map Entry.kind ++ [.endOfFile]) ∧
      ∀ front first second back, entries = front ++ first :: second :: back ->
        Apart first.spelling (written (second :: back)) ->
        Token.scan (String.ofList (lead ++ written (front ++ first.joined :: second :: back))) =
            ⟨placed lead (front ++ first.joined :: second :: back), []⟩ ∧
          (placed lead (front ++ first.joined :: second :: back)).map Token.kind =
            entries.map Entry.kind ++ [.endOfFile] := by
  have spaced {entries : List Entry}
      (spelled : ∀ entry ∈ entries, Spells entry.spelling entry.kind ∧ Separator entry.separator) :
      Spaced entries := by
    have whole := Spaced.append spelled .nil
    rwa [List.append_nil] at whole
  refine ⟨⟨scan_spaced leading (spaced spelled), kind_placed lead entries⟩, ?_⟩
  rintro front first second back rfl apart
  obtain ⟨front_spelled, spelled⟩ := List.forall_mem_append.1 spelled
  obtain ⟨⟨spells, -⟩, back_spelled⟩ := List.forall_mem_cons.1 spelled
  have joined_spaced : Spaced (first.joined :: second :: back) :=
    .cons spells .nil apart (spaced back_spelled)
  refine ⟨scan_spaced leading (Spaced.append front_spelled joined_spaced), ?_⟩
  rw [kind_placed, List.map_append, List.map_append]
  rfl

/-- Tokens that write a string with two slashes in it, with a comment after the first of them. -/
def slashes : List Entry :=
  [⟨Keyword.write.spelling.toList, .keyword .write, ' ' :: '/' :: '/' :: "one".toList ++ ['\n']⟩,
    ⟨'"' :: "//".toList.flatMap quotedChar ++ ['"'],
      .text ("//".toList.flatMap String.utf8EncodeChar), ['\t']⟩,
    ⟨Mark.semicolon.spelling.toList, .mark .semicolon, [' ']⟩]

theorem slashes_read_back :
    Token.scan "write //one\n\"//\"\t; " = ⟨placed [] slashes, []⟩ ∧
      (Token.scan "write //one\n\"//\"; ").tokens.map Token.kind =
        [.keyword .write, .text [47, 47], .mark .semicolon, .endOfFile] := by
  have blank {character : Char} (blank : isBlank character = true) : Separator [character] :=
    ⟨.blank blank .nil, character, [], rfl, blank⟩
  have comment : Separator (' ' :: '/' :: '/' :: "one".toList ++ ['\n']) :=
    ⟨.blank rfl (.comment (by simp) .nil), ' ', _, rfl, rfl⟩
  obtain ⟨admitted, escapes⟩ := quoted_admitted "//".toList
  have spelled : ∀ entry ∈ slashes,
      Spells entry.spelling entry.kind ∧ Separator entry.separator := by
    simp only [slashes, List.forall_mem_cons]
    exact ⟨⟨.keyword .write, comment⟩, ⟨.text admitted escapes, blank rfl⟩,
      ⟨.mark .semicolon, blank rfl⟩, by simp⟩
  obtain ⟨⟨scanned, -⟩, joins⟩ := scanning_undoes_spelling [] slashes .nil spelled
  obtain ⟨joined, kinds⟩ := joins [_] _ _ [] rfl
    fun other piece _ front also => (admitted.munch _).longest other piece front also
  exact ⟨scanned, (congrArg (fun scan => scan.tokens.map Token.kind) joined).trans kinds⟩

end Lexeme
end MiniLang
