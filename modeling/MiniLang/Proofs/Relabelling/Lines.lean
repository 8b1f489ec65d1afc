import MiniLang.Proofs.Diagnostic.Limit
import MiniLang.Proofs.Relabelling.Code
import MiniLang.Proofs.Token.Spacing

/-!
# Compiling does not depend on the layout

Tokens that agree apart from their lines become the same tokens if all lines are forgotten.  So they
are read, checked and turned into code alike, and what is said about them differs only in lines.
Source texts that differ only in blanks and comments have such tokens.
-/

namespace MiniLang

/-- What a diagnostic says, without the line on which it says so. -/
def Diagnostic.said (diagnostic : Diagnostic) : Kind × String :=
  (diagnostic.kind, diagnostic.message)

namespace Relabelling

/-- Names stay and lines are forgotten. -/
def forgetLines : Relabelling :=
  ⟨id, fun _ => 0, rfl⟩

theorem map_forgetLines
    (tokens : List Token) :
    tokens.map forgetLines.token = (tokens.map Token.kind).map fun kind => ⟨kind, 0⟩ := by
  rw [List.map_map]
  apply List.map_congr_left
  intro token _
  exact congrArg (Token.mk · 0) (forgetLines.kind_eq_self rfl token.kind)

/-- Diagnostics that are repeated with the same names say the same. -/
theorem said_eq
    {relabel : Relabelling}
    (keeps : relabel.name = id)
    {diagnostics diagnostics' : List Diagnostic}
    (repeated : List.Forall₂ relabel.Repeats diagnostics diagnostics') :
    diagnostics.map Diagnostic.said = diagnostics'.map Diagnostic.said := by
  induction repeated with
  | nil => rfl
  | cons first rest inductionHypothesis =>
      rw [List.map_cons, List.map_cons, inductionHypothesis, Diagnostic.said, Diagnostic.said,
        first.kind_eq, first.message_eq keeps]

theorem map_rename_id
    (items : List Item) :
    items.map (Item.rename id) = items := by
  have rename_id (item : Item) : item.rename id = item := by
    cases item with
    | label => rfl
    | instr instruction => cases instruction <;> rfl
  rw [funext rename_id, List.map_id']

/-- A program without problems has the code that it has with its lines forgotten. -/
theorem generate_forgetLines
    {tokens : List Token}
    {tags : TagTable}
    (accepts : (Program.ofTokens tokens).1.check = .ok (tags, []))
    (accepts' : (Program.ofTokens (tokens.map forgetLines.token)).1.check = .ok (tags, [])) :
    ∃ code, (Program.ofTokens tokens).1.generate tags = .ok code ∧
      (Program.ofTokens (tokens.map forgetLines.token)).1.generate tags = .ok code := by
  obtain ⟨code, generated⟩ := (Program.wellFounded_ofTokens tokens).exists_generate accepts
  obtain ⟨code', generated'⟩ := (Program.wellFounded_ofTokens _).exists_generate accepts'
  have carried := (forgetLines.carriesProgram_ofTokens Function.injective_id tokens).1
  obtain ⟨items_eq, texts_eq⟩ := carried.items_eq Function.injective_id (fun _ _ => rfl) generated
    generated'
  have code_eq : code' = code := by
    obtain ⟨texts, items⟩ := code
    obtain ⟨texts', items'⟩ := code'
    rw [CodeModule.mk.injEq]
    exact ⟨texts_eq, items_eq.trans (map_rename_id items)⟩
  exact ⟨code, generated, code_eq ▸ generated'⟩

end Relabelling

open Relabelling

/-- Tokens that agree apart from their lines are told the same, and have the same code if they are
told nothing. -/
theorem exists_reports_of_kinds
    {first second : List Token}
    (kinds_eq : first.map Token.kind = second.map Token.kind) :
    ∃ tags breaches breaches',
      (Program.ofTokens first).1.check = .ok (tags, breaches) ∧
      (Program.ofTokens second).1.check = .ok (tags, breaches') ∧
      ((Program.ofTokens first).2 ++ breaches).map Diagnostic.said =
        ((Program.ofTokens second).2 ++ breaches').map Diagnostic.said ∧
      ((Program.ofTokens first).2 ++ breaches = [] ->
        ∃ code, (Program.ofTokens first).1.generate tags = .ok code ∧
          (Program.ofTokens second).1.generate tags = .ok code) := by
  have forgotten : second.map forgetLines.token = first.map forgetLines.token := by
    rw [map_forgetLines, map_forgetLines, kinds_eq]
  obtain ⟨tags, breaches, breaches₀, checked, checked₀, repeated⟩ :=
    forgetLines.exists_reports Function.injective_id first
  obtain ⟨tags', breaches', breaches₀', checked', checked₀', repeated'⟩ :=
    forgetLines.exists_reports Function.injective_id second
  rw [forgotten, checked₀] at checked₀'
  cases checked₀'
  have said := (said_eq rfl repeated).trans (forgotten ▸ (said_eq rfl repeated').symm)
  refine ⟨tags, breaches, breaches', checked, checked', said, fun clean => ?_⟩
  rw [clean, List.map_nil, eq_comm, List.map_eq_nil_iff] at said
  obtain ⟨-, rfl⟩ := List.append_eq_nil_iff.1 clean
  obtain ⟨-, rfl⟩ := List.append_eq_nil_iff.1 said
  rw [clean, List.forall₂_nil_left_iff] at repeated
  obtain ⟨-, rfl⟩ := List.append_eq_nil_iff.1 repeated
  obtain ⟨code, generated, generated₀⟩ := generate_forgetLines checked checked₀
  obtain ⟨code', generated', generated₀'⟩ :=
    generate_forgetLines checked' (forgotten.symm ▸ checked₀)
  rw [forgotten, generated₀] at generated₀'
  cases generated₀'
  exact ⟨code, generated, generated'⟩

/-- Texts that differ only in blanks and comments compile to the same lines, or fail with the same
number of problems. -/
theorem Lexeme.SameApartFromSpace.exists_compile
    {source source' : String}
    (same : Lexeme.SameApartFromSpace source source') :
    (∃ lines, ∀ limit, compile source limit = .success lines ∧
        compile source' limit = .success lines) ∨
      ∃ count, 0 < count ∧ ∀ limit, ∃ shown shown',
        compile source limit = .failure count shown ∧
          compile source' limit = .failure count shown' := by
  obtain ⟨kinds_eq, messages_eq⟩ := same.scan_eq
  obtain ⟨tags, breaches, breaches', checked, checked', said, generates⟩ :=
    exists_reports_of_kinds kinds_eq
  have lexical_length := congrArg List.length messages_eq
  have said_length := congrArg List.length said
  rw [List.length_map, List.length_map] at lexical_length said_length
  have count_eq : ((Token.scan source).diagnostics ++
      ((Program.ofTokens (Token.scan source).tokens).2 ++ breaches)).length =
      ((Token.scan source').diagnostics ++
        ((Program.ofTokens (Token.scan source').tokens).2 ++ breaches')).length := by
    rw [List.length_append, lexical_length, said_length, ← List.length_append]
  obtain ⟨tags₁, breaches₁, checked₁, ends⟩ := MiniLang.exists_compile source
  rw [checked] at checked₁
  cases checked₁
  obtain ⟨tags₂, breaches₂, checked₂, ends'⟩ := MiniLang.exists_compile source'
  rw [checked'] at checked₂
  cases checked₂
  rw [List.append_assoc] at ends ends'
  -- One text is free of problems exactly if the other one is, since their numbers agree.
  rcases ends with ⟨clean, code, generated, succeeds⟩ | ⟨reports, fails⟩
  · rcases ends' with ⟨-, code', generated', succeeds'⟩ | ⟨reports', -⟩
    · obtain ⟨shared, generated₁, generated₂⟩ := generates (List.append_eq_nil_iff.1 clean).2
      cases generated₁.symm.trans generated
      cases generated₂.symm.trans generated'
      exact .inl ⟨_, fun limit => ⟨succeeds limit, succeeds' limit⟩⟩
    · rw [clean, List.length_nil, eq_comm, List.length_eq_zero_iff] at count_eq
      exact absurd count_eq reports'
  · rcases ends' with ⟨clean', -⟩ | ⟨-, fails'⟩
    · rw [clean', List.length_nil, List.length_eq_zero_iff] at count_eq
      exact absurd count_eq reports
    · rw [← count_eq] at fails'
      exact .inr ⟨_, List.length_pos_iff.2 reports, fun limit =>
        ⟨_, _, fails limit, fails' limit⟩⟩

/-- Lines leave no trace.  Tokens that agree apart from their lines are told the same in the same
order, and if they are told nothing, they have the same code.  Hence source texts that differ only in
blanks and comments compile to the same lines or fail with the same number of problems. -/
theorem layout_leaves_no_trace :
    (∀ first second : List Token, first.map Token.kind = second.map Token.kind ->
      ∃ tags breaches breaches',
        (Program.ofTokens first).1.check = .ok (tags, breaches) ∧
        (Program.ofTokens second).1.check = .ok (tags, breaches') ∧
        ((Program.ofTokens first).2 ++ breaches).map Diagnostic.said =
          ((Program.ofTokens second).2 ++ breaches').map Diagnostic.said ∧
        ((Program.ofTokens first).2 ++ breaches = [] ->
          ∃ code code', (Program.ofTokens first).1.generate tags = .ok code ∧
            (Program.ofTokens second).1.generate tags = .ok code' ∧
            code.lines = code'.lines)) ∧
      ∀ source source' : String, Lexeme.SameApartFromSpace source source' ->
        (∃ lines, ∀ limit, compile source limit = .success lines ∧
          compile source' limit = .success lines) ∨
        ∃ count, 0 < count ∧ ∀ limit, ∃ shown shown',
          compile source limit = .failure count shown ∧
            compile source' limit = .failure count shown' := by
  constructor
  · intro first second kinds_eq
    obtain ⟨tags, breaches, breaches', checked, checked', said, generates⟩ :=
      exists_reports_of_kinds kinds_eq
    refine ⟨tags, breaches, breaches', checked, checked', said, fun clean => ?_⟩
    obtain ⟨code, generated, generated'⟩ := generates clean
    exact ⟨code, code, generated, generated', rfl⟩
  · intro source source' same
    exact same.exists_compile

/-- A program with one problem, on one line. -/
def crampedSource : String := "program\x7bint x;y=1;\x7d"

/-- The same program, spread over several lines and with a comment. -/
def spreadSource : String := "program \x7b // a comment\n  int x;\n\n  y = 1;\n\x7d\n"

/-- Both ways of laying out the program have the same tokens apart from lines, are told the same, and
fail with the same number of problems. -/
theorem spread_fails_like_cramped :
    (∃ tags breaches breaches',
      (Program.ofTokens (Token.scan crampedSource).tokens).1.check = .ok (tags, breaches) ∧
      (Program.ofTokens (Token.scan spreadSource).tokens).1.check = .ok (tags, breaches') ∧
      ((Program.ofTokens (Token.scan crampedSource).tokens).2 ++ breaches).map Diagnostic.said =
        ((Program.ofTokens (Token.scan spreadSource).tokens).2 ++ breaches').map
          Diagnostic.said) ∧
      Lexeme.SameApartFromSpace crampedSource spreadSource ∧
      ((∃ lines, ∀ limit, compile crampedSource limit = .success lines ∧
          compile spreadSource limit = .success lines) ∨
        ∃ count, 0 < count ∧ ∀ limit, ∃ shown shown',
          compile crampedSource limit = .failure count shown ∧
            compile spreadSource limit = .failure count shown') := by
  have same : Lexeme.SameApartFromSpace crampedSource spreadSource := by decide +kernel
  obtain ⟨tags, breaches, breaches', checked, checked', said, -⟩ :=
    layout_leaves_no_trace.1 _ _ same.scan_eq.1
  exact ⟨⟨tags, breaches, breaches', checked, checked', said⟩, same,
    layout_leaves_no_trace.2 _ _ same⟩

end MiniLang
