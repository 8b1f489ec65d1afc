import MiniLang.Proofs.Code.PrintableLines
import MiniLang.Proofs.Reading.Reports
import MiniLang.Proofs.Scope.FirstDeclarations
import MiniLang.Proofs.Typing.Findings

/-!
# Diagnostics stay on one line

A message quotes the source text only in parts that hold no line feed.  A complaint about a lexeme
quotes a number or a character that is not blank.  All other messages are printable, since they are
made of fixed words, numerals and the names that tokens spell.
-/

namespace MiniLang

section Parts

theorem Keyword.printable_spelling (word : Keyword) : Printable word.spelling := by
  cases word <;> decide

theorem Mark.printable_spelling (sign : Mark) : Printable sign.spelling := by
  cases sign <;> decide

theorem UnaryOp.printable_sign (op : UnaryOp) : Printable op.sign := by
  cases op <;> decide

theorem Tag.printable_title (tag : Tag) : Printable tag.title := by
  cases tag with
  | value type => exact type.keyword.printable_spelling
  | undeclared => decide
  | incalculable => decide

/-- A token is named by a printable text, if its own name is printable. -/
theorem Token.Kind.printable_describe
    {kind : Token.Kind}
    (named : ∀ spelling, kind = .name spelling -> Printable spelling) :
    Printable kind.describe := by
  have quoted {text : String} (printable : Printable text) : Printable ("'" ++ text ++ "'") :=
    (Printable.append (by decide) printable).append (by decide)
  cases kind with
  | keyword word => exact quoted word.printable_spelling
  | mark sign => exact quoted sign.printable_spelling
  | int value => exact .append (by decide) (printable_repr_int _)
  | real bits => exact .append (by decide) (Binary64.printable_text bits)
  | text bytes => exact (by decide : Printable "string literal")
  | name spelling => exact .append (by decide) (named spelling rfl)
  | endOfFile => decide

end Parts

section Grammar

/-- What reading expects in place of a token is printable. -/
theorem SyntaxError.Worded.printable_expected
    {found : Token}
    {expected : String}
    (worded : (SyntaxError.unexpected found expected).Worded) :
    Printable expected := by
  generalize shape : SyntaxError.unexpected found expected = error at worded
  cases worded with
  | missing _ mark =>
      obtain ⟨-, rfl⟩ := SyntaxError.unexpected.inj shape
      exact Token.Kind.printable_describe (by simp)
  | missingWord _ word =>
      obtain ⟨-, rfl⟩ := SyntaxError.unexpected.inj shape
      exact Token.Kind.printable_describe (by simp)
  | missingName _ =>
      obtain ⟨-, rfl⟩ := SyntaxError.unexpected.inj shape
      decide
  | missingExpression _ =>
      obtain ⟨-, rfl⟩ := SyntaxError.unexpected.inj shape
      decide
  | badTarget _ => exact SyntaxError.noConfusion shape
  | hexText _ => exact SyntaxError.noConfusion shape
  | trailing _ => exact SyntaxError.noConfusion shape

/-- An error is printable if the token is that it points at. -/
theorem SyntaxError.PointsAt.printable_message
    {error : SyntaxError}
    {token : Token}
    (points : error.PointsAt token)
    (worded : error.Worded)
    (described : Printable token.kind.describe) :
    Printable error.message := by
  cases points with
  | unexpected _ expected =>
      exact ((Printable.append (by decide) described).append (by decide)).append
        worded.printable_expected
  | badTarget line =>
      exact (by decide : Printable "left-hand side of assignment must be a variable")
  | hexText line => exact (by decide : Printable "hex format cannot be applied to a string")
  | trailing _ goes_on => exact (Printable.append (by decide) described).append (by decide)

namespace Reading

/-- Every error has one of the wordings that reading uses. -/
def allWorded : ErrorLaw where
  Holds ledger := ∀ error ∈ ledger.1.toList, error.Worded
  report reading error worded all := by
    have pushed : ∀ other ∈ (reading.errors.push error).toList, other.Worded := by
      intro other listed
      rw [Array.toList_push, List.mem_append, List.mem_singleton] at listed
      rcases listed with earlier | rfl
      · exact all other earlier
      · exact worded
    unfold report
    split
    · split
      · exact all
      · exact pushed
    · exact pushed

/-- Nothing is read but the given tokens and the end of the file. -/
theorem mem_of_mem_input
    {tokens : List Token}
    {token : Token}
    (read : token ∈ input tokens) :
    token ∈ tokens ∨ token.kind = .endOfFile := by
  unfold input at read
  split at read
  · obtain rfl := List.mem_singleton.1 read
    exact .inr rfl
  · next last last_eq =>
    split at read
    · exact .inl read
    · rcases List.mem_append.1 read with given | repeated
      · exact .inl given
      · rw [List.eq_of_mem_replicate repeated]
        exact .inl (List.mem_of_getLast? last_eq)

end Reading

variable {tokens : List Token}

/-- The breaches of the grammar are printable if the names among the tokens are. -/
theorem Reading.printable_error
    (named : ∀ name ∈ Token.names tokens, Printable name)
    {error : SyntaxError}
    (reported : error ∈ (ofTokens tokens).errors.toList) :
    Printable error.message := by
  have started : start.Meets allWorded := fun _ listed => absurd listed (by simp [ledger, start])
  have worded := started.feedAll (input tokens) error reported
  obtain ⟨history, tracked⟩ := exists_tracked (input tokens)
  unfold ofTokens at reported
  rw [tracked.errors_eq] at reported
  obtain ⟨entry, listed, rfl⟩ := List.mem_map.1 reported
  obtain ⟨token, found, points⟩ := tracked.located.points entry listed
  refine points.printable_message worded (Token.Kind.printable_describe fun spelling spelled => ?_)
  rcases mem_of_mem_input (List.mem_of_getElem? found) with given | ends
  · exact named spelling (List.mem_filterMap.2 ⟨token, given, by rw [spelled]⟩)
  · cases spelled.symm.trans ends

end Grammar

section Names

/-- The name that an expression mentions. -/
def ExprForm.name? : ExprForm -> Option String
  | .name spelling => some spelling
  | .assign target _ => some target.name
  | _ => none

/-- The name that a statement mentions. -/
def StmtForm.name? : StmtForm -> Option String
  | .read target _ => some target.name
  | _ => none

namespace Relabelling

variable {tokens : List Token} {name : String}

/-- Every name in an expression is spelled by a token. -/
theorem mem_names_of_exprNode
    {id : ExprId}
    {node : ExprNode}
    (found : (Program.ofTokens tokens).1.forest.exprs[id]? = some node)
    (mentioned : node.form.name? = some name) :
    name ∈ Token.names tokens := by
  have stays := found
  rw [(carriesProgram_self tokens).forest_eq, forest, Array.getElem?_map, found] at stays
  have name_eq (relabel : Relabelling) (form : ExprForm) :
      (relabel.exprForm form).name? = form.name?.map relabel.name := by
    cases form <;> rfl
  have mentioned' := congrArg (fun node : ExprNode => node.form.name?) (Option.some.inj stays)
  rw [exprNode, name_eq, mentioned] at mentioned'
  exact mem_of_apart_id_eq (Option.some.inj mentioned')

/-- Every name in a statement is spelled by a token. -/
theorem mem_names_of_stmtNode
    {id : StmtId}
    {node : StmtNode}
    (found : (Program.ofTokens tokens).1.forest.stmts[id]? = some node)
    (mentioned : node.form.name? = some name) :
    name ∈ Token.names tokens := by
  have stays := found
  rw [(carriesProgram_self tokens).forest_eq, forest, Array.getElem?_map, found] at stays
  have name_eq (relabel : Relabelling) (form : StmtForm) :
      (relabel.stmtForm form).name? = form.name?.map relabel.name := by
    cases form <;> rfl
  have mentioned' := congrArg (fun node : StmtNode => node.form.name?) (Option.some.inj stays)
  rw [stmtNode, name_eq, mentioned] at mentioned'
  exact mem_of_apart_id_eq (Option.some.inj mentioned')

/-- Every name in a declaration is spelled by a token, also if the declaration does not count. -/
theorem mem_names_of_declaration
    {declaration : Declaration}
    (read : declaration ∈ (Reading.ofTokens tokens).declarations.toList) :
    declaration.name ∈ Token.names tokens := by
  have carried := (ofNames (apart id (Token.names tokens))).carries_ofTokens tokens
  rw [map_apart_id] at carried
  have declarations_eq := congrArg Array.toList carried.declarations_eq
  rw [Array.toList_map] at declarations_eq
  conv_lhs at declarations_eq => rw [← List.map_id (Array.toList _)]
  have stays := List.map_inj_left.1 declarations_eq declaration read
  exact mem_of_apart_id_eq (congrArg Declaration.name stays.symm)

end Relabelling

end Names

section Types

variable {scope : Scope} {tags : TagTable} {line : Line} {offence : Line × TypeError}

/-- The breach of a rule by an expression is printable if the name in the expression is. -/
theorem ExprForm.Offends.printable_message
    {form : ExprForm}
    (offends : form.Offends scope tags line offence)
    (named : ∀ name, form.name? = some name -> Printable name) :
    Printable offence.2.message := by
  cases offends with
  | name missing => exact .append (by decide) (named _ rfl)
  | unary tagged illegal =>
      exact ((Printable.append (by decide) (UnaryOp.printable_sign _)).append (by decide)).append
        (Tag.printable_title _)
  | binary leftTagged rightTagged illegal =>
      exact ((((Printable.append (by decide) (Mark.printable_spelling _)).append (by decide)).append
        (Tag.printable_title _)).append (by decide)).append (Tag.printable_title _)
  | target missing => exact .append (by decide) (named _ rfl)
  | assign found tagged illegal =>
      exact ((((Printable.append (by decide) (Tag.printable_title _)).append (by decide)).append
        (named _ rfl)).append (by decide)).append (Tag.printable_title _)

/-- The breach of a rule by a statement is printable if the name in the statement is. -/
theorem StmtForm.Offends.printable_message
    {form : StmtForm}
    (offends : form.Offends scope tags line offence)
    (named : ∀ name, form.name? = some name -> Printable name) :
    Printable offence.2.message := by
  cases offends with
  | condition tests tagged illegal =>
      exact ((Keyword.printable_spelling _).append (by decide)).append (Tag.printable_title _)
  | write tagged illegal => exact .append (by decide) (Tag.printable_title _)
  | hexWrite tagged illegal => exact .append (by decide) (Tag.printable_title _)
  | target missing => exact .append (by decide) (named _ rfl)
  | read found illegal =>
      exact ((Printable.append (by decide) (named _ rfl)).append (by decide)).append
        (Tag.printable_title _)
  | hexRead found illegal =>
      exact ((Printable.append (by decide) (named _ rfl)).append (by decide)).append
        (Tag.printable_title _)

end Types

namespace Program

variable {tokens : List Token} (named : ∀ name ∈ Token.names tokens, Printable name)

include named

/-- The complaints of reading are printable if the names among the tokens are. -/
theorem printable_complaint
    {complaint : Diagnostic}
    (reported : complaint ∈ (ofTokens tokens).2) :
    Printable complaint.message := by
  rcases List.mem_append.1 reported with breach | again
  · obtain ⟨error, listed, rfl⟩ := List.mem_map.1 breach
    exact Reading.printable_error named listed
  · unfold assemble at again
    rw [Scope.declareAll_complaints] at again
    obtain ⟨declaration, repeated, rfl⟩ := List.mem_map.1 again
    have spelled := Relabelling.mem_names_of_declaration (Scope.mem_of_redeclared repeated)
    exact (Printable.append (by decide) (named _ spelled)).append (by decide)

/-- The breaches of the typing rules are printable if the names among the tokens are. -/
theorem printable_breach
    {tags : TagTable}
    {breaches : List Diagnostic}
    (checked : (ofTokens tokens).1.check = .ok (tags, breaches))
    {breach : Diagnostic}
    (reported : breach ∈ breaches) :
    Printable breach.message := by
  have wellFounded := wellFounded_ofTokens tokens
  obtain ⟨visits, made⟩ := wellFounded.forest.exists_visitsStmts _ wellFounded.body_lt
  have reports := wellFounded.reports_of_check made checked
  clear checked made
  induction reports with
  | nil => cases reported
  | offending offends _ _ inductionHypothesis =>
      rcases List.mem_cons.1 reported with rfl | later
      · cases offends with
        | expr found offends =>
            exact offends.printable_message fun name mentioned =>
              named name (Relabelling.mem_names_of_exprNode found mentioned)
        | stmt found offends =>
            exact offends.printable_message fun name mentioned =>
              named name (Relabelling.mem_names_of_stmtNode found mentioned)
      · exact inductionHypothesis later
  | fine _ _ inductionHypothesis => exact inductionHypothesis reported

end Program

section Lexemes

open Lexeme

/-- A complaint about a lexeme quotes no line feed. -/
theorem Token.oneLine_of_scan
    {source : String}
    {diagnostic : Diagnostic}
    (reported : diagnostic ∈ (Token.scan source).diagnostics) :
    OneLine diagnostic.message := by
  have feed_blank : isBlank '\n' = true := rfl
  -- A number that is out of range is quoted as it is spelled, without blanks.
  have quoted {rule : Rule} {text : List Char} (sort : String) (sort_oneLine : OneLine sort)
      (matched : Matches rule.pattern text) (token : rule.isToken = true)
      (unquoted : rule ≠ .text) : OneLine (outOfRange sort text) := by
    have spelled : OneLine (String.ofList text) := by
      rw [OneLine, String.toList_ofList]
      intro present
      have solid := Rule.isBlank_eq_false matched token unquoted _ present
      exact absurd (solid.symm.trans feed_blank) Bool.false_ne_true
    exact ((sort_oneLine.append (Printable.oneLine (by decide))).append spelled).append
      (Printable.oneLine (by decide))
  have sorts : OneLine "integer" ∧ OneLine "real" :=
    ⟨Printable.oneLine (by decide), Printable.oneLine (by decide)⟩
  obtain ⟨pieces, tiles, -⟩ := exists_tiles [] source.toList
  rw [(scan_of_tiles tiles).2] at reported
  obtain ⟨piece, placed, found⟩ := List.mem_filterMap.1 reported
  obtain ⟨message, message_eq, rfl⟩ := Option.map_eq_some_iff.1 found
  cases tiles.stands piece placed with
  | lexeme _ munch denotes =>
      have matched := munch.matched
      generalize piece.outcome = outcome at denotes message_eq
      generalize piece.text = text at matched denotes
      cases denotes with
      | hugeDecimal huge =>
          cases message_eq
          exact quoted _ sorts.1 matched rfl (by simp)
      | hugeHexadecimal huge =>
          cases message_eq
          exact quoted _ sorts.1 matched rfl (by simp)
      | hugeReal digits huge =>
          cases message_eq
          exact quoted _ sorts.2 matched rfl (by simp)
      | openText _ =>
          cases message_eq
          exact Printable.oneLine (by decide : Printable "unterminated string literal")
      | _ => cases message_eq
  | @stray character rest _ _ stray outcome_eq =>
      rw [outcome_eq] at message_eq
      cases message_eq
      have shown : OneLine (String.ofList [character]) := by
        rw [OneLine, String.toList_ofList, List.mem_singleton]
        rintro rfl
        -- A line feed is a blank, so it is no stray character.
        exact stray .blank ['\n'] (List.prefix_append ['\n'] rest)
          (Rule.matches_blank.2 ⟨by simp, by simp [feed_blank]⟩)
      exact ((Printable.oneLine (by decide)).append shown).append (Printable.oneLine (by decide))

end Lexemes

/-- What stands after the heading is on one line if the message is. -/
theorem Diagnostic.oneLine_details
    {diagnostic : Diagnostic}
    (oneLine : OneLine diagnostic.message) :
    OneLine diagnostic.details :=
  (Printable.oneLine ((Printable.append (by decide) (printable_repr _)).append (by decide))).append
    oneLine

theorem Diagnostic.Kind.printable_title (kind : Kind) : Printable kind.title := by
  cases kind <;> decide

theorem Diagnostic.oneLine_text
    {diagnostic : Diagnostic}
    (oneLine : OneLine diagnostic.message) :
    OneLine diagnostic.text :=
  diagnostic.kind.printable_title.oneLine.append (oneLine_details oneLine)

/-- All that is found out to be wrong with a source text is said on one line each. -/
theorem oneLine_of_analyse
    {source : String}
    {analysis : Analysis}
    (analysed : analyse source = .ok analysis)
    {diagnostic : Diagnostic}
    (reported : diagnostic ∈ analysis.diagnostics) :
    OneLine diagnostic.message := by
  have named : ∀ name ∈ Token.names (Token.scan source).tokens, Printable name :=
    fun _ listed => Token.printable_of_mem_names listed
  have checked := (Program.wellFounded_ofTokens (Token.scan source).tokens).check_eq
  rw [analyse_of_check checked] at analysed
  obtain rfl := Except.ok.inj analysed
  rcases List.mem_append.1 reported with early | breach
  · rcases List.mem_append.1 early with lexical | complaint
    · exact Token.oneLine_of_scan lexical
    · exact (Program.printable_complaint named complaint).oneLine
  · exact (Program.printable_breach named checked breach).oneLine

end MiniLang
