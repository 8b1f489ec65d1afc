import MiniLang.Proofs.Token.Tiling

/-!
# Blanks and comments between lexemes

What a piece of a tiling comes to can be told from its text alone, without what stands around it.
Blanks and comments come to nothing.  So two source texts whose other pieces are spelled alike have
the same tokens on whatever lines, and the same complaints.
-/

namespace MiniLang
namespace Lexeme

/-- A piece is a run of blanks or a comment. -/
def Piece.isSpace (piece : Piece) : Bool :=
  piece.rule = some .blank || piece.rule = some .comment

/-- How a piece comes about: it is a lexeme of its rule with what that stands for, or a stray
character. -/
inductive Piece.Stands (piece : Piece) : Prop
  | lexeme {rule : Rule} {rest : List Char}
      (rule_eq : piece.rule = some rule)
      (munch : Munch rule piece.text rest)
      (denotes : Denotes rule piece.text piece.outcome)
  | stray {character : Char} {rest : List Char}
      (rule_eq : piece.rule = none)
      (text_eq : piece.text = [character])
      (stray : Stray (character :: rest))
      (outcome_eq : piece.outcome =
        .problem ("unrecognized symbol '" ++ String.ofList [character] ++ "'"))

theorem Tiles.stands
    {before rest : List Char}
    {pieces : List Piece}
    (tiles : Tiles before rest pieces) :
    ∀ piece ∈ pieces, piece.Stands := by
  induction tiles with
  | done => simp
  | lexeme munch denotes after inductionHypothesis =>
      exact List.forall_mem_cons.2 ⟨.lexeme rfl munch denotes, inductionHypothesis⟩
  | stray stray after inductionHypothesis =>
      exact List.forall_mem_cons.2 ⟨.stray rfl rfl stray rfl, inductionHypothesis⟩

/-- A lexeme follows the same rule wherever it stands. -/
theorem Munch.rule_eq
    {rule rule' : Rule}
    {text rest rest' : List Char}
    (munch : Munch rule text rest)
    (munch' : Munch rule' text rest') :
    rule = rule' := by
  rcases munch.alone rule' munch'.matched with same | ⟨-, word, rfl⟩
  · exact same.symm
  · rcases munch'.alone _ munch.matched with same | ⟨is_name, -⟩
    · exact same
    · cases is_name

/-- A stray character is no lexeme anywhere. -/
theorem Stray.not_munch_singleton
    {character : Char}
    {rest rest' : List Char}
    {rule : Rule}
    (stray : Stray (character :: rest)) :
    ¬Munch rule [character] rest' := by
  intro munch
  exact stray rule [character] (List.prefix_append [character] rest) munch.matched

namespace Piece.Stands

variable {piece piece' : Piece}

/-- What a piece comes to is told by its text. -/
theorem outcome_eq
    (stands : piece.Stands)
    (stands' : piece'.Stands)
    (text_eq : piece.text = piece'.text) :
    piece.outcome = piece'.outcome := by
  cases stands with
  | lexeme _ munch denotes =>
      rw [text_eq] at munch denotes
      cases stands' with
      | lexeme _ munch' denotes' =>
          cases munch.rule_eq munch'
          exact denotes.unique denotes'
      | stray _ text'_eq stray' =>
          rw [text'_eq] at munch
          exact absurd munch stray'.not_munch_singleton
  | stray _ single stray outcome_eq =>
      rw [single] at text_eq
      cases stands' with
      | lexeme _ munch' =>
          rw [← text_eq] at munch'
          exact absurd munch' stray.not_munch_singleton
      | stray _ single' _ outcome'_eq =>
          rw [single', List.cons.injEq] at text_eq
          rw [outcome_eq, outcome'_eq, text_eq.1]

/-- Blanks and comments come to nothing. -/
theorem outcome_of_isSpace
    (stands : piece.Stands)
    (space : piece.isSpace = true) :
    piece.outcome = .nothing := by
  cases stands with
  | lexeme rule_eq _ denotes =>
      generalize piece.outcome = outcome at denotes
      generalize piece.text = text at denotes
      cases denotes with
      | blank | comment => rfl
      | _ => simp [Piece.isSpace, rule_eq] at space
  | stray rule_eq => simp [Piece.isSpace, rule_eq] at space

end Piece.Stands

/-- Pieces that are spelled alike come to the same. -/
theorem map_outcome_eq
    {pieces pieces' : List Piece}
    (stands : ∀ piece ∈ pieces, piece.Stands)
    (stands' : ∀ piece ∈ pieces', piece.Stands)
    (spelled : pieces.map Piece.text = pieces'.map Piece.text) :
    pieces.map Piece.outcome = pieces'.map Piece.outcome := by
  induction pieces generalizing pieces' with
  | nil => rw [List.map_eq_nil_iff.1 spelled.symm]
  | cons piece rest inductionHypothesis =>
      cases pieces' with
      | nil => cases spelled
      | cons piece' rest' =>
          obtain ⟨text_eq, rest_spelled⟩ := List.cons.inj spelled
          obtain ⟨first_stands, rest_stands⟩ := List.forall_mem_cons.1 stands
          obtain ⟨first_stands', rest_stands'⟩ := List.forall_mem_cons.1 stands'
          rw [List.map_cons, List.map_cons, first_stands.outcome_eq first_stands' text_eq,
            inductionHypothesis rest_stands rest_stands' rest_spelled]

/-- Blanks and comments can be left out where what comes to nothing does not count. -/
theorem Tiles.filterMap_outcome
    {β : Type}
    {before rest : List Char}
    {pieces : List Piece}
    (tiles : Tiles before rest pieces)
    {read : Outcome -> Option β}
    (silent : read .nothing = none) :
    pieces.filterMap (fun piece => read piece.outcome) =
      ((pieces.filter fun piece => !piece.isSpace).map Piece.outcome).filterMap read := by
  rw [List.filterMap_map, List.filterMap_filter]
  apply List.filterMap_congr
  intro piece present
  cases space : piece.isSpace with
  | false => rfl
  | true =>
      rw [(tiles.stands piece present).outcome_of_isSpace space, silent]
      rfl

/-- Two source texts differ only in blanks and comments: of their tilings, the other pieces are
spelled alike, in the same order. -/
def SameApartFromSpace (source source' : String) : Prop :=
  ∃ pieces pieces', Tiles [] source.toList pieces ∧ Tiles [] source'.toList pieces' ∧
    (pieces.filter fun piece => !piece.isSpace).map Piece.text =
      (pieces'.filter fun piece => !piece.isSpace).map Piece.text

/-- The spellings that the scanner cuts from a source text, without blanks and comments. -/
def spellings (source : String) : List (List Char) :=
  ((cut source.toList).toList.filter fun span =>
    !(span.cls = .blank || span.cls = .comment)).map Span.text

theorem Tiles.spellings_eq
    {source : String}
    {pieces : List Piece}
    (tiles : Tiles [] source.toList pieces) :
    spellings source = (pieces.filter fun piece => !piece.isSpace).map Piece.text := by
  obtain ⟨pieces', tiles', cut_eq, -⟩ := exists_tiles_cut [] source.toList
  cases tiles'.unique tiles
  rw [Source.byteLength_nil] at cut_eq
  have space_eq (piece : Piece) :
      (piece.span.cls = .blank || piece.span.cls = .comment : Bool) = piece.isSpace := by
    obtain ⟨rule, before, text, outcome⟩ := piece
    cases rule with
    | none => rfl
    | some rule => cases rule <;> rfl
  unfold spellings cut
  rw [cut_eq, List.filter_map, List.map_map]
  simp only [Function.comp_def, space_eq]
  rfl

/-- Whether texts differ only in blanks and comments can be told by scanning them. -/
theorem sameApartFromSpace_iff
    {source source' : String} :
    SameApartFromSpace source source' ↔ spellings source = spellings source' := by
  constructor
  · rintro ⟨pieces, pieces', tiles, tiles', spelled⟩
    rw [tiles.spellings_eq, tiles'.spellings_eq, spelled]
  · intro spelled
    obtain ⟨pieces, tiles, -⟩ := exists_tiles [] source.toList
    obtain ⟨pieces', tiles', -⟩ := exists_tiles [] source'.toList
    rw [tiles.spellings_eq, tiles'.spellings_eq] at spelled
    exact ⟨pieces, pieces', tiles, tiles', spelled⟩

instance (source source' : String) : Decidable (SameApartFromSpace source source') :=
  decidable_of_iff _ sameApartFromSpace_iff.symm

/-- Texts that differ only in blanks and comments have tokens of the same kinds, and the same is
wrong with them. -/
theorem SameApartFromSpace.scan_eq
    {source source' : String}
    (same : SameApartFromSpace source source') :
    (Token.scan source).tokens.map Token.kind = (Token.scan source').tokens.map Token.kind ∧
      (Token.scan source).diagnostics.map Diagnostic.message =
        (Token.scan source').diagnostics.map Diagnostic.message := by
  obtain ⟨pieces, pieces', tiles, tiles', spelled⟩ := same
  have outcomes_eq := map_outcome_eq
    (fun piece present => tiles.stands piece (List.mem_filter.1 present).1)
    (fun piece present => tiles'.stands piece (List.mem_filter.1 present).1) spelled
  have read_eq {β : Type} (read : Outcome -> Option β) (silent : read .nothing = none) :
      pieces.filterMap (fun piece => read piece.outcome) =
        pieces'.filterMap fun piece => read piece.outcome := by
    rw [tiles.filterMap_outcome silent, tiles'.filterMap_outcome silent, outcomes_eq]
  have kind_eq (piece : Piece) : piece.token?.map Token.kind = piece.outcome.kind? := by
    simp [Piece.token?, Function.comp_def]
  have message_eq (piece : Piece) :
      piece.diagnostic?.map Diagnostic.message = piece.outcome.message? := by
    simp [Piece.diagnostic?, Function.comp_def]
  rw [(scan_of_tiles tiles).1, (scan_of_tiles tiles).2, (scan_of_tiles tiles').1,
    (scan_of_tiles tiles').2]
  simp only [List.map_append, List.map_filterMap, kind_eq, message_eq]
  rw [read_eq Outcome.kind? rfl]
  exact ⟨rfl, read_eq Outcome.message? rfl⟩

end Lexeme
end MiniLang
