import MiniLang.Proofs.Token.Patterns

/-!
# The longest lexeme

The length computed for a class is that of the longest piece at the front of a text that the class
admits.  The class of a lexeme can be told from the lexeme alone, so the longest piece at the front
of a text belongs to one class only, and within it to one rule, reserved words going before names.
-/

namespace MiniLang
namespace Lexeme

section Runs

variable {test : Char -> Bool}

theorem countWhile_append
    {front : List Char}
    (passes : ∀ character ∈ front, test character = true)
    (rest : List Char) :
    countWhile test (front ++ rest) = front.length + countWhile test rest := by
  rw [countWhile, List.takeWhile_append_of_pos passes, List.length_append, countWhile]

theorem passes_take_countWhile
    (test : Char -> Bool)
    (characters : List Char) :
    ∀ character ∈ characters.take (countWhile test characters), test character = true := by
  have taken : characters.take (countWhile test characters) = characters.takeWhile test :=
    (List.prefix_iff_eq_take.mp (List.takeWhile_prefix test)).symm
  rw [taken]
  exact List.all_eq_true.mp List.all_takeWhile

theorem countWhile_pos
    (characters : List Char) :
    0 < countWhile test characters ↔ characters.head?.any test = true := by
  cases characters with
  | nil => simp [countWhile]
  | cons character rest => cases passes : test character <;> simp [countWhile, passes]

/-- A run goes on where a text that starts with it is read. -/
theorem any_head?_append
    {front : List Char}
    (nonempty : front ≠ [])
    (passes : ∀ character ∈ front, test character = true)
    (rest : List Char) :
    (front ++ rest).head?.any test = true := by
  rw [← countWhile_pos, countWhile_append passes]
  exact Nat.add_pos_left (List.length_pos_iff.mpr nonempty) _

/-- The run at the front of a text is not empty if its first character passes. -/
theorem take_countWhile_ne_nil
    {characters : List Char}
    (started : characters.head?.any test = true) :
    characters.take (countWhile test characters) ≠ [] := by
  have positive := (countWhile_pos characters).mpr started
  intro empty
  rcases List.take_eq_nil_iff.mp empty with none | rfl
  · omega
  · cases started

end Runs

/-- What the scanning of a string literal passes is the inside of one. -/
theorem textBody_spec
    (characters : List Char)
    (passed : Nat) :
    ∃ inside after, characters = inside ++ after ∧ Inside inside ∧
      textBody characters passed = passed + inside.length := by
  fun_induction textBody characters passed with
  | case1 rest passed => exact ⟨[], _, rfl, .nil, rfl⟩
  | case2 character rest passed same_line inductionHypothesis =>
    obtain ⟨inside, after, rfl, admitted, length⟩ := inductionHypothesis
    exact ⟨'\\' :: character :: inside, after, rfl, .escaped same_line admitted,
      by simp only [length, List.length_cons]; omega⟩
  | case3 character rest passed unescaped stops => exact ⟨[], _, rfl, .nil, rfl⟩
  | case4 character rest passed unescaped goes_on inductionHypothesis =>
    obtain ⟨inside, after, rfl, admitted, length⟩ := inductionHypothesis
    exact ⟨character :: inside, after, rfl, .plain (by simpa using goes_on) admitted,
      by simp only [length, List.length_cons]; omega⟩
  | case5 passed => exact ⟨[], [], rfl, .nil, rfl⟩

theorem inside_take_textBody
    (characters : List Char) :
    Inside (characters.take (textBody characters 0)) := by
  obtain ⟨inside, after, rfl, admitted, length⟩ := textBody_spec characters 0
  rwa [length, Nat.zero_add, List.take_left]

/-- Scanning passes over the inside of a string literal and goes on behind it. -/
theorem textBody_append
    {inside : List Char}
    (admitted : Inside inside)
    (rest : List Char)
    (passed : Nat) :
    textBody (inside ++ rest) passed = textBody rest (passed + inside.length) := by
  induction admitted generalizing passed with
  | nil => rfl
  | plain ordinary after inductionHypothesis =>
    simp [textBody, ordinary, inductionHypothesis, Nat.add_assoc, Nat.add_comm 1]
  | escaped same_line after inductionHypothesis =>
    simp [textBody, same_line, inductionHypothesis, Nat.add_assoc, Nat.add_comm 2]

theorem le_textBody
    (characters : List Char)
    (passed : Nat) :
    passed ≤ textBody characters passed := by
  obtain ⟨inside, after, _, _, length⟩ := textBody_spec characters passed
  omega

theorem length_le_decimalLength
    {front : List Char}
    (integer : Matches .integer front)
    (rest : List Char) :
    front.length ≤ decimalLength (front ++ rest) := by
  rcases matches_integer.mp integer with rfl | ⟨character, tail, rfl, ⟨digit, nonzero⟩, digits⟩
  · exact Nat.le_refl 1
  · simp only [List.cons_append, decimalLength, digit, if_true, countWhile_append digits,
      List.length_cons]
    omega

/-- An integer that no digit follows is read to its end. -/
theorem decimalLength_append
    {front rest : List Char}
    (integer : Matches .integer front)
    (stops : rest.head?.any isDigit = false) :
    decimalLength (front ++ rest) = front.length := by
  rcases matches_integer.mp integer with rfl | ⟨character, tail, rfl, ⟨digit, nonzero⟩, digits⟩
  · rfl
  · have none_left : ¬0 < countWhile isDigit rest := by
      rw [countWhile_pos, stops]
      exact Bool.false_ne_true
    simp only [List.cons_append, decimalLength, digit, if_true, countWhile_append digits,
      List.length_cons]
    omega

theorem matches_take_decimalLength
    {characters : List Char}
    (positive : 0 < decimalLength characters) :
    Matches .integer (characters.take (decimalLength characters)) := by
  rw [matches_integer]
  fun_cases decimalLength characters with
  | case1 rest => exact .inl rfl
  | case2 character rest nonzero digit =>
    refine .inr ⟨character, rest.take (countWhile isDigit rest), ?_, ⟨digit, ?_⟩,
      passes_take_countWhile _ rest⟩
    · rw [Nat.add_comm, List.take_succ_cons]
    · exact fun zero => nonzero zero
  | case3 character rest nonzero other => simp [decimalLength, other] at positive
  | case4 => cases positive

theorem length_le_markLength
    (sign : Mark)
    (rest : List Char) :
    sign.spelling.toList.length ≤ markLength (sign.spelling.toList ++ rest) := by
  have single {only : Char} (spelled : (Mark.ofSpelling? (String.ofList [only])).isSome) :
      1 ≤ markLength ([only] ++ rest) := by
    cases rest with
    | nil => simp only [List.append_nil, markLength, spelled, if_true, Nat.le_refl]
    | cons second rest =>
      simp only [List.cons_append, List.nil_append, markLength, spelled, if_true]
      split <;> omega
  have double {first second : Char}
      (spelled : (Mark.ofSpelling? (String.ofList [first, second])).isSome) :
      2 ≤ markLength ([first, second] ++ rest) := by
    simp only [List.cons_append, List.nil_append, markLength, spelled, if_true, Nat.le_refl]
  cases sign
  case barBar | ampAmp | equalEqual | notEqual | lessEqual | greaterEqual => exact double rfl
  all_goals exact single rfl

theorem exists_mark
    {characters : List Char}
    (positive : 0 < markLength characters) :
    ∃ sign : Mark, characters.take (markLength characters) = sign.spelling.toList := by
  have spelled {text : List Char} (known : (Mark.ofSpelling? (String.ofList text)).isSome) :
      ∃ sign : Mark, text = sign.spelling.toList := by
    obtain ⟨sign, found⟩ := Option.isSome_iff_exists.mp known
    exact ⟨sign, by rw [← Mark.ofSpelling?_eq_some.mp found, String.toList_ofList]⟩
  revert positive
  fun_cases markLength characters with
  | case1 first second rest pair => exact fun _ => spelled pair
  | case2 first second rest no_pair single => exact fun _ => spelled single
  | case3 => exact fun none => absurd none (Nat.lt_irrefl 0)
  | case4 only single => exact fun _ => spelled single
  | case5 => exact fun none => absurd none (Nat.lt_irrefl 0)
  | case6 => exact fun none => absurd none (Nat.lt_irrefl 0)

theorem longest_real
    {whole after : List Char}
    (integer : Matches .integer whole)
    (started : after.head?.any isDigit = true) :
    Class.real.longest (whole ++ '.' :: after) = whole.length + 1 + countWhile isDigit after := by
  have length : decimalLength (whole ++ '.' :: after) = whole.length :=
    decimalLength_append integer rfl
  have positive : whole.length ≠ 0 := by
    rcases matches_integer.mp integer with rfl | ⟨character, tail, rfl, _⟩ <;> simp
  simp only [Class.longest, length, List.drop_left, started, if_true]

theorem exists_real
    {characters : List Char}
    (positive : 0 < Class.real.longest characters) :
    ∃ whole after, characters = whole ++ '.' :: after ∧ Matches .integer whole ∧
      after.head?.any isDigit = true := by
  simp only [Class.longest] at positive
  split at positive
  · cases positive
  · next length after dropped nonzero =>
    split at positive
    · next started =>
      refine ⟨characters.take (decimalLength characters), after, ?_,
        matches_take_decimalLength (Nat.pos_of_ne_zero nonzero), started⟩
      rw [← dropped, List.take_append_drop]
    · cases positive
  · cases positive

theorem longest_text
    {inside : List Char}
    (admitted : Inside inside)
    (rest : List Char) :
    Class.text.longest ('"' :: inside ++ '"' :: rest) = inside.length + 2 := by
  have body : textBody (inside ++ '"' :: rest) 0 = inside.length := by
    simp [textBody_append admitted, textBody]
  have closed : (inside ++ '"' :: rest)[inside.length]? = some '"' := by simp
  simp only [List.cons_append, Class.longest, body, closed, if_true]

/-- What a rule matches at the front of a text is no longer than the longest piece of its class. -/
theorem Rule.length_le_longest
    {rule : Rule}
    {piece : List Char}
    (matched : Matches rule.pattern piece)
    (rest : List Char) :
    piece.length ≤ rule.cls.longest (piece ++ rest) := by
  -- Reserved words are scanned like names.
  have word {piece : List Char} (matched : Matches Rule.name.pattern piece) :
      piece.length ≤ Class.word.longest (piece ++ rest) := by
    obtain ⟨character, tail, rfl, letter, parts⟩ := matches_name.mp matched
    simp only [List.cons_append, Class.longest, letter, if_true, countWhile_append parts,
      List.length_cons]
    omega
  cases rule with
  | blank =>
    obtain ⟨_, blanks⟩ := matches_blank.mp matched
    simp only [cls, Class.longest, countWhile_append blanks]
    omega
  | comment =>
    obtain ⟨tail, rfl, run⟩ := matches_comment.mp matched
    have same_line : ∀ character ∈ tail, (character != '\n') = true := by simpa using run
    simp only [cls, List.cons_append, Class.longest, countWhile_append same_line,
      List.length_cons]
    omega
  | keyword spelled =>
    obtain rfl := matches_literal.mp matched
    exact word (matches_name_of_keyword spelled)
  | name => exact word matched
  | decimal => exact length_le_decimalLength matched rest
  | hexadecimal =>
    obtain ⟨sign, digits, rfl, known, nonempty, run⟩ := matches_hexadecimal.mp matched
    have marked : (sign == 'x' || sign == 'X') = true := by simpa using known
    simp only [cls, List.cons_append, Class.longest, marked, any_head?_append nonempty run,
      Bool.and_self, if_true, countWhile_append run, List.length_cons]
    omega
  | real =>
    obtain ⟨whole, fraction, rfl, integer, nonempty, run⟩ := matches_real.mp matched
    rw [List.append_assoc, List.cons_append, cls,
      longest_real integer (any_head?_append nonempty run rest), countWhile_append run,
      List.length_append, List.length_cons]
    omega
  | text =>
    obtain ⟨inside, rfl, admitted⟩ := matches_text.mp matched
    rw [List.append_assoc, List.singleton_append, cls, longest_text admitted]
    simp
  | openText =>
    obtain ⟨inside, rfl, admitted⟩ := matches_openText.mp matched
    have passed := le_textBody rest (0 + inside.length)
    simp only [cls, List.cons_append, Class.longest, textBody_append admitted, List.length_cons]
    omega
  | mark sign =>
    obtain rfl := matches_literal.mp matched
    exact length_le_markLength sign rest

/-- The longest piece of a class at the front of a text belongs to the class. -/
theorem Class.admits_take_longest
    {cls : Class}
    {characters : List Char}
    (positive : 0 < cls.longest characters) :
    cls.Admits (characters.take (cls.longest characters)) := by
  have nothing {conclusion : Prop} (none : 0 < 0) : conclusion := absurd none (Nat.lt_irrefl 0)
  -- The digits before the point are themselves a longest piece, so reals are settled first.
  have real (positive : 0 < Class.real.longest characters) :
      Class.real.Admits (characters.take (Class.real.longest characters)) := by
    obtain ⟨whole, after, rfl, integer, started⟩ := exists_real positive
    rw [longest_real integer started]
    refine ⟨.real, rfl, Rule.matches_real.mpr
      ⟨whole, _, ?_, integer, take_countWhile_ne_nil started, passes_take_countWhile _ after⟩⟩
    rw [Nat.add_assoc, List.take_length_add_append, Nat.add_comm 1, List.take_succ_cons]
  revert positive
  fun_cases Class.longest cls characters with
  | case1 =>
    intro positive
    refine ⟨.blank, rfl, Rule.matches_blank.mpr ⟨?_, passes_take_countWhile _ characters⟩⟩
    exact take_countWhile_ne_nil ((countWhile_pos characters).mp positive)
  | case2 rest =>
    intro _
    have run := passes_take_countWhile (· != '\n') rest
    refine ⟨.comment, rfl, Rule.matches_comment.mpr ⟨_, ?_, by simpa using run⟩⟩
    rw [Nat.add_comm, List.take_succ_cons, List.take_succ_cons]
  | case3 character rest letter =>
    intro _
    refine ⟨.name, rfl, Rule.matches_name.mpr
      ⟨character, _, ?_, letter, passes_take_countWhile _ rest⟩⟩
    rw [Nat.add_comm, List.take_succ_cons]
  | case4 => exact nothing
  | case5 => exact fun positive => ⟨.decimal, rfl, matches_take_decimalLength positive⟩
  | case6 sign rest shape =>
    intro _
    simp only [Bool.and_eq_true, Bool.or_eq_true, beq_iff_eq] at shape
    refine ⟨.hexadecimal, rfl, Rule.matches_hexadecimal.mpr
      ⟨sign, _, ?_, shape.1, take_countWhile_ne_nil shape.2, passes_take_countWhile _ rest⟩⟩
    rw [Nat.add_comm, List.take_succ_cons, List.take_succ_cons]
  | case7 => exact nothing
  | case8 | case9 | case10 | case11 => exact real
  | case12 rest body closed =>
    intro _
    refine ⟨.text, rfl, Rule.matches_text.mpr ⟨_, ?_, inside_take_textBody rest⟩⟩
    rw [List.take_succ_cons, List.take_add_one, closed]
    rfl
  | case13 => exact nothing
  | case14 rest =>
    intro _
    refine ⟨.openText, rfl, Rule.matches_openText.mpr ⟨_, ?_, inside_take_textBody rest⟩⟩
    rw [Nat.add_comm, List.take_succ_cons]
  | case15 characters =>
    intro positive
    obtain ⟨sign, spelled⟩ := exists_mark positive
    exact ⟨.mark sign, rfl, matches_literal.mpr spelled⟩
  | case16 => exact nothing

theorem isBlank_of_isWordPart
    {character : Char}
    (part : isWordPart character = true) :
    isBlank character = false := by
  cases blank : isBlank character with
  | false => rfl
  | true =>
    simp only [isBlank, Bool.or_eq_true, beq_iff_eq] at blank
    rcases blank with (((rfl | rfl) | rfl) | rfl) | rfl <;> cases part

theorem isLetter_of_isDigit
    {character : Char}
    (digit : isDigit character = true) :
    isLetter character = false := by
  cases letter : isLetter character with
  | false => rfl
  | true =>
    simp only [isDigit, isLetter, Bool.and_eq_true, Bool.or_eq_true, decide_eq_true_eq,
      Char.le_def] at digit letter
    grind

/-- The class of a number, told from what follows its first digit. -/
def numberClass (tail : List Char) : Class :=
  if '.' ∈ tail then .real
  else if tail.head?.any isLetter then .hexadecimal
  else .decimal

/-- The class of a lexeme, told from the lexeme alone. -/
def classOf : List Char -> Class
  | [] => .unknown
  | first :: tail =>
    if isBlank first then .blank
    else if isLetter first then .word
    else if isDigit first then numberClass tail
    else if first = '"' then if textBody tail 0 = tail.length then .openText else .text
    else if tail.head? = some '/' then .comment
    else .mark

theorem classOf_number
    {digit : Char}
    (first : isDigit digit = true)
    (tail : List Char) :
    classOf (digit :: tail) = numberClass tail := by
  have part : isWordPart digit = true := by simp [isWordPart, first]
  simp [classOf, isBlank_of_isWordPart part, isLetter_of_isDigit first, first]

theorem classOf_quote
    (tail : List Char) :
    classOf ('"' :: tail) =
      if textBody tail 0 = tail.length then .openText else .text :=
  rfl

theorem not_mem_of_fails
    {test : Char -> Bool}
    {characters : List Char}
    {character : Char}
    (passes : ∀ character ∈ characters, test character = true)
    (fails : test character = false) :
    character ∉ characters := by
  intro member
  rw [passes character member] at fails
  cases fails

/-- No lexeme has two classes. -/
theorem Rule.classOf_eq
    {rule : Rule}
    {text : List Char}
    (matched : Matches rule.pattern text) :
    classOf text = rule.cls := by
  have word {text : List Char} (matched : Matches Rule.name.pattern text) :
      classOf text = .word := by
    obtain ⟨character, tail, rfl, letter, parts⟩ := matches_name.mp matched
    have part : isWordPart character = true := by simp [isWordPart, letter]
    simp [classOf, letter, isBlank_of_isWordPart part]
  cases rule with
  | blank =>
    obtain ⟨nonempty, blanks⟩ := matches_blank.mp matched
    obtain ⟨character, tail, rfl⟩ := List.exists_cons_of_ne_nil nonempty
    simp [classOf, blanks character List.mem_cons_self, cls]
  | comment =>
    obtain ⟨tail, rfl, run⟩ := matches_comment.mp matched
    rfl
  | keyword spelled =>
    obtain rfl := matches_literal.mp matched
    exact word (matches_name_of_keyword spelled)
  | name => exact word matched
  | decimal =>
    rcases matches_integer.mp matched with rfl | ⟨digit, tail, rfl, ⟨first, _⟩, digits⟩
    · rfl
    · have no_point : '.' ∉ tail := not_mem_of_fails digits rfl
      have no_letter : tail.head?.any isLetter = false := by
        cases tail with
        | nil => rfl
        | cons second tail => exact isLetter_of_isDigit (digits second List.mem_cons_self)
      simp [classOf_number first, numberClass, no_point, no_letter, cls]
  | hexadecimal =>
    obtain ⟨sign, digits, rfl, known, _, run⟩ := matches_hexadecimal.mp matched
    have letter : isLetter sign = true := by
      rcases known with rfl | rfl <;> rfl
    have no_point : '.' ∉ sign :: digits := by
      rw [List.mem_cons, not_or]
      exact ⟨(fun point => by rw [← point] at letter; cases letter), not_mem_of_fails run rfl⟩
    rw [classOf_number rfl, numberClass, if_neg no_point, if_pos (by simpa using letter), cls]
  | real =>
    obtain ⟨whole, fraction, rfl, integer, _⟩ := matches_real.mp matched
    obtain ⟨digit, tail, rfl, first⟩ :
        ∃ digit tail, whole = digit :: tail ∧ isDigit digit = true := by
      rcases matches_integer.mp integer with rfl | ⟨digit, tail, rfl, ⟨first, _⟩, _⟩
      · exact ⟨_, _, rfl, rfl⟩
      · exact ⟨_, _, rfl, first⟩
    rw [List.cons_append, classOf_number first, numberClass, if_pos (by simp), cls]
  | text =>
    obtain ⟨inside, rfl, admitted⟩ := matches_text.mp matched
    have body : textBody (inside ++ ['"']) 0 = inside.length := by
      simp [textBody_append admitted, textBody]
    rw [List.cons_append, classOf_quote, if_neg (by simp [body]), cls]
  | openText =>
    obtain ⟨inside, rfl, admitted⟩ := matches_openText.mp matched
    have body : textBody inside 0 = inside.length := by
      simpa [textBody] using textBody_append admitted [] 0
    rw [classOf_quote, if_pos body, cls]
  | mark sign =>
    obtain rfl := matches_literal.mp matched
    cases sign <;> rfl

/-- The rest of a text starts with a lexeme of a rule, and no rule has a longer one there.  No other
rule matches that lexeme, except that reserved words could be names. -/
structure Munch (rule : Rule) (text rest : List Char) : Prop where
  matched : Matches rule.pattern text
  longest : ∀ (other : Rule) (piece : List Char), piece <+: text ++ rest ->
    Matches other.pattern piece -> piece.length ≤ text.length
  alone : ∀ other : Rule, Matches other.pattern text ->
    other = rule ∨ other = .name ∧ ∃ word, rule = .keyword word

/-- No rule matches anything at the front of a text. -/
def Stray (characters : List Char) : Prop :=
  ∀ (rule : Rule) (piece : List Char), piece <+: characters -> ¬Matches rule.pattern piece

theorem Rule.ne_nil
    {rule : Rule}
    {text : List Char}
    (matched : Matches rule.pattern text) :
    text ≠ [] := by
  rintro rfl
  have same := classOf_eq matched
  cases rule <;> cases same

/-- Of the rules that match a text, one goes before all the others. -/
theorem Rule.exists_preferred
    {rule : Rule}
    {text : List Char}
    (matched : Matches rule.pattern text) :
    ∃ preferred : Rule, preferred.cls = rule.cls ∧ Matches preferred.pattern text ∧
      ∀ other : Rule, Matches other.pattern text ->
        other = preferred ∨ other = .name ∧ ∃ word, preferred = .keyword word := by
  have same_class {other : Rule} (also : Matches other.pattern text) : other.cls = rule.cls :=
    (classOf_eq also).symm.trans (classOf_eq matched)
  -- Only the rules for words share texts, so the choice matters only for reserved words.
  by_cases reserved : ∃ word : Keyword, Matches (Rule.keyword word).pattern text
  · obtain ⟨word, spelled⟩ := reserved
    refine ⟨.keyword word, same_class spelled, spelled, fun other also => ?_⟩
    have same := (same_class also).trans (same_class spelled).symm
    cases other <;> cases same
    · exact .inl (keyword_unique also spelled ▸ rfl)
    · exact .inr ⟨rfl, word, rfl⟩
  · refine ⟨rule, rfl, matched, fun other also => .inl ?_⟩
    have same := same_class also
    cases rule
    case keyword word => exact absurd ⟨word, matched⟩ reserved
    case name =>
      cases other <;> cases same
      · exact absurd ⟨_, also⟩ reserved
      · rfl
    case mark =>
      cases other <;> cases same
      exact mark_unique also matched ▸ rfl
    all_goals
      cases other <;> cases same
      rfl

/-- The longest lexeme at the front of a text, its rule and what follows it are determined. -/
theorem Munch.unique
    {rule rule' : Rule}
    {text rest text' rest' : List Char}
    (one : Munch rule text rest)
    (other : Munch rule' text' rest')
    (same : text ++ rest = text' ++ rest') :
    rule = rule' ∧ text = text' ∧ rest = rest' := by
  have shorter : text.length ≤ text'.length :=
    other.longest rule text (same ▸ List.prefix_append text rest) one.matched
  have longer : text'.length ≤ text.length :=
    one.longest rule' text' (same ▸ List.prefix_append text' rest') other.matched
  obtain ⟨rfl, rfl⟩ := List.append_inj same (Nat.le_antisymm shorter longer)
  refine ⟨?_, rfl, rfl⟩
  rcases one.alone rule' other.matched with first | ⟨is_name, word, rfl⟩
  · exact first.symm
  · rcases other.alone _ one.matched with second | ⟨second, _⟩
    · exact second
    · cases second

theorem Stray.not_munch
    {rule : Rule}
    {characters text rest : List Char}
    (stray : Stray characters)
    (same : characters = text ++ rest) :
    ¬Munch rule text rest := by
  intro munch
  exact stray rule text (same ▸ List.prefix_append text rest) munch.matched

/-- A step of the choice between classes keeps the longer of two pieces. -/
theorem foldl_longest
    (characters : List Char)
    (classes : List Class)
    (chosen : Class × Nat) :
    let result := classes.foldl
      (fun chosen cls =>
        if chosen.2 < cls.longest characters then (cls, cls.longest characters) else chosen) chosen
    (chosen.2 ≤ result.2 ∧ ∀ cls ∈ classes, cls.longest characters ≤ result.2) ∧
      (result = chosen ∨ ∃ cls, result = (cls, cls.longest characters) ∧ 0 < result.2) := by
  induction classes generalizing chosen with
  | nil => simp
  | cons cls rest inductionHypothesis =>
    simp only [List.foldl_cons, List.forall_mem_cons]
    split
    · next longer =>
      obtain ⟨⟨kept, bounds⟩, source⟩ := inductionHypothesis (cls, cls.longest characters)
      refine ⟨⟨by omega, kept, bounds⟩, .inr ?_⟩
      rcases source with same | found
      · exact ⟨cls, same, by omega⟩
      · exact found
    · next shorter =>
      obtain ⟨⟨kept, bounds⟩, source⟩ := inductionHypothesis chosen
      exact ⟨⟨kept, by omega, bounds⟩, source⟩

theorem longest_le_best
    (cls : Class)
    (characters : List Char) :
    cls.longest characters ≤ (best characters).2 := by
  have bounds := (foldl_longest characters Class.all (.unknown, 0)).1.2
  cases cls
  case unknown => exact Nat.zero_le _
  all_goals exact bounds _ (by decide)

theorem best_cases
    (characters : List Char) :
    best characters = (.unknown, 0) ∨
      ∃ cls : Class, best characters = (cls, cls.longest characters) ∧ 0 < (best characters).2 :=
  (foldl_longest characters Class.all (.unknown, 0)).2

/-- What a rule matches at the front of a text is no longer than the piece that is chosen. -/
theorem length_le_best
    {rule : Rule}
    {piece characters : List Char}
    (front : piece <+: characters)
    (matched : Matches rule.pattern piece) :
    piece.length ≤ (best characters).2 := by
  obtain ⟨rest, rfl⟩ := front
  exact Nat.le_trans (Rule.length_le_longest matched rest) (longest_le_best _ _)

/-- If nothing is chosen, the text starts with a stray character; otherwise it starts with a
longest lexeme. -/
theorem stray_or_munch
    (characters : List Char) :
    (best characters = (.unknown, 0) ∧ Stray characters) ∨
      ∃ rule : Rule, (best characters).1 = rule.cls ∧
        Munch rule (characters.take (best characters).2) (characters.drop (best characters).2) := by
  rcases best_cases characters with none | ⟨cls, chosen, positive⟩
  · refine .inl ⟨none, fun rule piece front matched => Rule.ne_nil matched ?_⟩
    have short := length_le_best front matched
    rw [none] at short
    exact List.length_eq_zero_iff.mp (Nat.le_zero.mp short)
  · have length : (best characters).2 = cls.longest characters := by rw [chosen]
    obtain ⟨rule, rfl, matched⟩ := Class.admits_take_longest (length ▸ positive)
    obtain ⟨preferred, same, matched, alone⟩ := Rule.exists_preferred matched
    refine .inr ⟨preferred, by rw [chosen, same], ?_, ?_, ?_⟩
    · rwa [length]
    · intro other piece front also
      rw [List.take_append_drop] at front
      rw [List.length_take]
      exact Nat.le_min.mpr ⟨length_le_best front also, front.length_le⟩
    · rwa [length]

end Lexeme
end MiniLang
