import MiniLang.Proofs.Code.Slots

/-!
# Renaming variables renames slots

A renaming that keeps the names of a program apart changes nothing in its code but the names of
slots, and nothing in what is reported but the wording.

A renaming is only asked to keep the names of the given tokens apart.  Another one that agrees with
it there and keeps all names apart gives the same tokens, so the general facts on relabellings apply.
The same device shows that neither the scope nor the code of a program holds a name that its tokens
do not spell: such a name could be replaced by a longer one without any change to the tokens.
-/

namespace MiniLang

/-- The names that tokens spell. -/
def Token.names (tokens : List Token) : List String :=
  tokens.filterMap fun token =>
    match token.kind with
    | .name spelling => some spelling
    | _ => none

namespace Relabelling

/-- Lines stay and names are replaced. -/
def ofNames (rename : String -> String) : Relabelling :=
  ⟨rename, id, rfl⟩

/-- Only the names that tokens spell count when the tokens are renamed. -/
theorem map_ofNames_congr
    {rename rename' : String -> String}
    {tokens : List Token}
    (agree : ∀ name ∈ Token.names tokens, rename name = rename' name) :
    tokens.map (ofNames rename).token = tokens.map (ofNames rename').token := by
  apply List.map_congr_left
  intro token present
  have kind_eq : (ofNames rename).kind token.kind = (ofNames rename').kind token.kind := by
    cases spelled : token.kind with
    | name spelling =>
        have listed : spelling ∈ Token.names tokens :=
          List.mem_filterMap.2 ⟨token, present, by rw [spelled]⟩
        exact congrArg Token.Kind.name (agree spelling listed)
    | _ => rfl
  exact congrArg (Token.mk · token.line) kind_eq

theorem map_ofNames_id
    (tokens : List Token) :
    tokens.map (ofNames id).token = tokens := by
  have token_eq (token : Token) : (ofNames id).token token = token :=
    congrArg (Token.mk · token.line) ((ofNames id).kind_eq_self rfl token.kind)
  rw [funext token_eq, List.map_id']

/-- A text that is longer than every replacement of a name. -/
def overhang (rename : String -> String) (names : List String) : String :=
  names.foldr (fun name rest => rename name ++ rest) "_"

theorem overhang_pos
    (rename : String -> String)
    (names : List String) :
    0 < (overhang rename names).length := by
  induction names with
  | nil => exact (by decide : 0 < "_".length)
  | cons name rest inductionHypothesis =>
      rw [overhang, List.foldr_cons, String.length_append]
      exact Nat.add_pos_right _ inductionHypothesis

theorem length_lt_overhang
    (rename : String -> String)
    {names : List String}
    {name : String}
    (listed : name ∈ names) :
    (rename name).length < (overhang rename names).length := by
  induction names with
  | nil => cases listed
  | cons other rest inductionHypothesis =>
      rw [overhang, List.foldr_cons, String.length_append]
      rcases List.mem_cons.1 listed with rfl | listed
      · exact Nat.lt_add_of_pos_right (overhang_pos rename rest)
      · exact Nat.lt_of_lt_of_le (inductionHypothesis listed) (Nat.le_add_left _ _)

/-- A renaming of some names that keeps all other names away from them. -/
def apart (rename : String -> String) (names : List String) (name : String) : String :=
  if name ∈ names then rename name else overhang rename names ++ name

section Apart

variable {rename : String -> String} {names : List String}

theorem apart_eq
    {name : String}
    (listed : name ∈ names) :
    apart rename names name = rename name :=
  if_pos listed

/-- A name outside does not become the replacement of a listed name. -/
theorem apart_ne
    {name other : String}
    (unlisted : name ∉ names)
    (listed : other ∈ names) :
    apart rename names name ≠ rename other := by
  intro equal
  rw [apart, if_neg unlisted] at equal
  have longer := length_lt_overhang rename listed
  rw [← equal, String.length_append] at longer
  omega

theorem apart_injective
    (injective : ∀ name ∈ names, ∀ other ∈ names, rename name = rename other -> name = other) :
    Function.Injective (apart rename names) := by
  intro name other equal
  by_cases listed : name ∈ names
  · by_cases other_listed : other ∈ names
    · rw [apart_eq listed, apart_eq other_listed] at equal
      exact injective name listed other other_listed equal
    · rw [apart_eq listed] at equal
      exact absurd equal.symm (apart_ne other_listed listed)
  · by_cases other_listed : other ∈ names
    · rw [apart_eq other_listed] at equal
      exact absurd equal (apart_ne listed other_listed)
    · rw [apart, apart, if_neg listed, if_neg other_listed, String.append_right_inj] at equal
      exact equal

/-- A name that stays where listed names stay is listed. -/
theorem mem_of_apart_id_eq
    {name : String}
    (stays : apart id names name = name) :
    name ∈ names := by
  by_contra unlisted
  rw [apart, if_neg unlisted] at stays
  have length_eq := congrArg String.length stays
  rw [String.length_append] at length_eq
  have positive := overhang_pos id names
  omega

end Apart

section Spelled

variable (tokens : List Token)

/-- Tokens do not show what becomes of names that they do not spell. -/
theorem map_apart_id : tokens.map (ofNames (apart id (Token.names tokens))).token = tokens := by
  rw [map_ofNames_congr fun name listed => apart_eq listed]
  exact map_ofNames_id tokens

theorem apart_id_injective : Function.Injective (apart id (Token.names tokens)) :=
  apart_injective fun _ _ _ _ equal => equal

theorem carriesProgram_self :
    (ofNames (apart id (Token.names tokens))).CarriesProgram (Program.ofTokens tokens).1
      (Program.ofTokens tokens).1 := by
  have carried := ((ofNames (apart id (Token.names tokens))).carriesProgram_ofTokens
    (apart_id_injective tokens) tokens).1
  rwa [map_apart_id] at carried

variable {tokens}

/-- Every declared name is spelled by a token. -/
theorem mem_names_of_entry
    {declaration : Declaration}
    (declared : declaration ∈ (Program.ofTokens tokens).1.scope.entries.toList) :
    declaration.name ∈ Token.names tokens := by
  have entries_eq := congrArg Array.toList (carriesProgram_self tokens).scope.entries_eq
  rw [Array.toList_map] at entries_eq
  conv_lhs at entries_eq => rw [← List.map_id (Array.toList _)]
  have stays := List.map_inj_left.1 entries_eq declaration declared
  exact mem_of_apart_id_eq (congrArg Declaration.name stays.symm)

/-- Every slot in the code of a program is that of a name that is spelled by a token. -/
theorem mem_names_of_item
    {tags : TagTable}
    {code : CodeModule}
    (generated : (Program.ofTokens tokens).1.generate tags = .ok code)
    {item : Item}
    (present : item ∈ code.items)
    {name : String}
    (named : item.slotName? = some name) :
    name ∈ Token.names tokens := by
  have items_eq := ((carriesProgram_self tokens).items_eq (apart_id_injective tokens)
    (fun _ _ => rfl) generated generated).1
  conv_lhs at items_eq => rw [← List.map_id code.items]
  have stays := List.map_inj_left.1 items_eq item present
  have slotName_eq : (item.rename (apart id (Token.names tokens))).slotName? =
      item.slotName?.map (apart id (Token.names tokens)) := by
    cases item with
    | label => rfl
    | instr instruction => cases instruction <;> rfl
  have named' := (congrArg Item.slotName? stays).trans slotName_eq
  rw [id, named, Option.map_some, Option.some.injEq] at named'
  exact mem_of_apart_id_eq named'.symm

end Spelled

end Relabelling

open Relabelling

/-- Where a diagnostic stands and of which kind it is. -/
def Diagnostic.place (diagnostic : Diagnostic) : Kind × Line :=
  (diagnostic.kind, diagnostic.line)

theorem Relabelling.place_eq
    {rename : String -> String}
    {diagnostics diagnostics' : List Diagnostic}
    (repeated : List.Forall₂ (ofNames rename).Repeats diagnostics diagnostics') :
    diagnostics'.map Diagnostic.place = diagnostics.map Diagnostic.place := by
  induction repeated with
  | nil => rfl
  | cons first rest inductionHypothesis =>
      rw [List.map_cons, List.map_cons, inductionHypothesis, Diagnostic.place, Diagnostic.place,
        first.kind_eq, first.line_eq]
      rfl

/-- Renaming variables only renames slots.  If the names of tokens are replaced so that different
ones stay different, then as many problems are reported, of the same kinds, on the same lines and in
the same order.  If there are none, the code is the same apart from the names of slots; and if names
are words, then the lines of the code are the same apart from the words after the marks of slots. -/
theorem renaming_changes_only_slots
    (tokens : List Token)
    (rename : String -> String)
    (injective : ∀ name ∈ Token.names tokens, ∀ other ∈ Token.names tokens,
      rename name = rename other -> name = other) :
    ∃ tags breaches breaches',
      (Program.ofTokens tokens).1.check = .ok (tags, breaches) ∧
      (Program.ofTokens (tokens.map (ofNames rename).token)).1.check = .ok (tags, breaches') ∧
      ((Program.ofTokens (tokens.map (ofNames rename).token)).2 ++ breaches').map
          Diagnostic.place =
        ((Program.ofTokens tokens).2 ++ breaches).map Diagnostic.place ∧
      ((Program.ofTokens tokens).2 ++ breaches = [] ->
        ∃ code code', (Program.ofTokens tokens).1.generate tags = .ok code ∧
          (Program.ofTokens (tokens.map (ofNames rename).token)).1.generate tags = .ok code' ∧
          code'.texts = code.texts ∧
          code'.items = code.items.map (Item.rename rename) ∧
          ((∀ name ∈ Token.names tokens, ∀ character ∈ name.toList,
              Lexeme.isWordPart character = true) ->
            code'.lines = code.lines.map (CodeText.renameLine rename))) := by
  have tokens_eq : tokens.map (ofNames rename).token =
      tokens.map (ofNames (apart rename (Token.names tokens))).token :=
    map_ofNames_congr fun name listed => (apart_eq listed).symm
  have apart_inj := apart_injective injective
  rw [tokens_eq]
  obtain ⟨tags, breaches, breaches', checked, checked', repeated⟩ :=
    (ofNames (apart rename (Token.names tokens))).exists_reports apart_inj tokens
  have placed := place_eq repeated
  refine ⟨tags, breaches, breaches', checked, checked', placed, fun clean => ?_⟩
  rw [clean, List.map_nil, List.map_eq_nil_iff] at placed
  obtain ⟨-, rfl⟩ := List.append_eq_nil_iff.1 clean
  obtain ⟨-, rfl⟩ := List.append_eq_nil_iff.1 placed
  obtain ⟨code, generated⟩ := (Program.wellFounded_ofTokens tokens).exists_generate checked
  obtain ⟨code', generated'⟩ := (Program.wellFounded_ofTokens _).exists_generate checked'
  have carried := ((ofNames (apart rename (Token.names tokens))).carriesProgram_ofTokens apart_inj
    tokens).1
  obtain ⟨items_eq, texts_eq⟩ := carried.items_eq apart_inj
    (fun declaration declared => apart_eq (mem_names_of_entry declared)) generated generated'
  refine ⟨code, code', generated, generated', texts_eq, items_eq, fun word_parts => ?_⟩
  rw [CodeText.map_renameLine_lines]
  · rw [← texts_eq, ← items_eq]
  · intro constant present
    obtain ⟨-, -, -, -, -, texts⟩ := Program.stmtCode_of_generate generated
    rw [texts] at present
    obtain ⟨⟨bytes, number⟩, -, rfl⟩ := List.mem_map.1 present
    exact .append (by decide) (CodeText.quiet_repr number)
  · intro item present name named
    exact word_parts name (mem_names_of_item generated present named)

/-- The tokens of a program that copies a variable it has read. -/
def copyTokens : List Token :=
  [⟨.keyword .program, 1⟩, ⟨.mark .leftBrace, 1⟩, ⟨.keyword .int, 1⟩, ⟨.name "x", 1⟩,
    ⟨.mark .comma, 1⟩, ⟨.name "y", 1⟩, ⟨.mark .semicolon, 1⟩, ⟨.keyword .read, 2⟩, ⟨.name "x", 2⟩,
    ⟨.mark .semicolon, 2⟩, ⟨.name "y", 3⟩, ⟨.mark .assign, 3⟩, ⟨.name "x", 3⟩,
    ⟨.mark .semicolon, 3⟩, ⟨.mark .rightBrace, 4⟩, ⟨.endOfFile, 4⟩]

/-- Two names swapped. -/
def swapNames (name : String) : String :=
  if name = "x" then "y" else "x"

/-- Swapping the two names swaps their slots in the lines of the code. -/
theorem copy_with_swapped_names :
    (∀ name ∈ Token.names copyTokens, ∀ other ∈ Token.names copyTokens,
        swapNames name = swapNames other -> name = other) ∧
      ∃ tags code code', (Program.ofTokens copyTokens).1.check = .ok (tags, []) ∧
        (Program.ofTokens copyTokens).1.generate tags = .ok code ∧
        (Program.ofTokens (copyTokens.map (ofNames swapNames).token)).1.generate tags = .ok code' ∧
        code'.lines = code.lines.map (CodeText.renameLine swapNames) := by
  have injective : ∀ name ∈ Token.names copyTokens, ∀ other ∈ Token.names copyTokens,
      swapNames name = swapNames other -> name = other := by decide +kernel
  have readable : (Program.ofTokens copyTokens).2 = [] := by decide +kernel
  have accepted : (Program.ofTokens copyTokens).1.check.toOption.map Prod.snd = some [] := by
    decide +kernel
  have words : ∀ name ∈ Token.names copyTokens, name.toList.all Lexeme.isWordPart = true := by
    decide +kernel
  obtain ⟨tags, breaches, breaches', checked, -, -, generates⟩ :=
    renaming_changes_only_slots copyTokens swapNames injective
  rw [checked] at accepted
  cases accepted
  obtain ⟨code, code', generated, generated', -, -, lines_eq⟩ := generates (by rw [readable]; rfl)
  exact ⟨injective, tags, code, code', checked, generated, generated',
    lines_eq fun name listed => List.all_eq_true.1 (words name listed)⟩

end MiniLang
