import Mathlib.Data.List.Basic
import Mathlib.Data.List.Induction
import MiniLang.Proofs.Scope

/-!
# The first declaration of each name

Variables are declared one after the other, any name any number of times.  The scope holds the first
declaration of each name, in the order in which the names came up, and its index leads to them; every
other declaration is answered with one complaint and changes nothing.  One declaration takes a scope
that is so to a scope that is so, hence every sequence of declarations does.
-/

namespace MiniLang
namespace Scope

/-- The first of some declarations that declares a name. -/
def firstOf? (declarations : List Declaration) (name : String) : Option Declaration :=
  declarations.find? fun declaration => declaration.name == name

/-- The first declaration of each name, in the order in which the names come up. -/
def firstDeclarations (declarations : List Declaration) : List Declaration :=
  (declarations.map Declaration.name).eraseDups.filterMap (firstOf? declarations)

/-- The declarations of names that came up before, in order. -/
def redeclarations (declarations : List Declaration) : List Declaration :=
  (declarations.zipIdx.filter fun entry =>
    entry.1.name ∈ (declarations.take entry.2).map Declaration.name).map Prod.fst

section FirstDeclarations

variable {declarations : List Declaration} {declaration : Declaration} {name : String}

theorem name_of_firstOf?
    (first : firstOf? declarations name = some declaration) :
    declaration.name = name := by
  unfold firstOf? at first
  simpa using List.find?_some first

theorem isSome_firstOf? :
    (firstOf? declarations name).isSome ↔ name ∈ declarations.map Declaration.name := by
  simp [firstOf?, List.find?_isSome]

/-- A name that came up keeps its first declaration. -/
theorem firstOf?_append_of_mem
    (known : name ∈ declarations.map Declaration.name)
    (more : List Declaration) :
    firstOf? (declarations ++ more) name = firstOf? declarations name := by
  obtain ⟨first, first_eq⟩ := Option.isSome_iff_exists.1 (isSome_firstOf?.2 known)
  rw [firstOf?, List.find?_append]
  change (firstOf? declarations name).or _ = _
  rw [first_eq, Option.some_or]

/-- The declaration of a name that did not come up is its first one. -/
theorem firstOf?_append_of_not_mem
    (fresh : declaration.name ∉ declarations.map Declaration.name) :
    firstOf? (declarations ++ [declaration]) declaration.name = some declaration := by
  have unknown : firstOf? declarations declaration.name = none := by
    rw [← Option.not_isSome_iff_eq_none, isSome_firstOf?]
    exact fresh
  rw [firstOf?, List.find?_append]
  change (firstOf? declarations _).or _ = _
  simp [unknown]

/-- One more declaration is the first of its name or none of the first ones. -/
theorem firstDeclarations_append
    (declarations : List Declaration)
    (declaration : Declaration) :
    firstDeclarations (declarations ++ [declaration]) =
      if declaration.name ∈ declarations.map Declaration.name then firstDeclarations declarations
      else firstDeclarations declarations ++ [declaration] := by
  have kept : (declarations.map Declaration.name).eraseDups.filterMap
        (firstOf? (declarations ++ [declaration])) = firstDeclarations declarations :=
    List.filterMap_congr fun name listed =>
      firstOf?_append_of_mem (List.mem_eraseDups.1 listed) [declaration]
  unfold firstDeclarations
  rw [List.map_append, List.eraseDups_append, List.filterMap_append, kept]
  split
  · next known =>
    have nothing : [declaration.name].removeAll (declarations.map Declaration.name) = [] := by
      simpa [List.removeAll] using known
    rw [List.map_cons, List.map_nil, nothing, List.eraseDups_nil, List.filterMap_nil,
      List.append_nil, firstDeclarations]
  · next fresh =>
    have alone : [declaration.name].removeAll (declarations.map Declaration.name) =
        [declaration.name] := by
      simpa [List.removeAll] using fresh
    have listed : [declaration.name].eraseDups.filterMap
        (firstOf? (declarations ++ [declaration])) = [declaration] := by
      rw [List.eraseDups_cons, List.filter_nil, List.eraseDups_nil,
        List.filterMap_cons_some (firstOf?_append_of_not_mem fresh),
        List.filterMap_nil]
    rw [List.map_cons, List.map_nil, alone, listed, firstDeclarations]

/-- One more declaration is a redeclaration if its name came up. -/
theorem redeclarations_append
    (declarations : List Declaration)
    (declaration : Declaration) :
    redeclarations (declarations ++ [declaration]) =
      redeclarations declarations ++
        if declaration.name ∈ declarations.map Declaration.name then [declaration] else [] := by
  have kept : declarations.zipIdx.filter (fun entry =>
        entry.1.name ∈ ((declarations ++ [declaration]).take entry.2).map Declaration.name) =
      declarations.zipIdx.filter fun entry =>
        entry.1.name ∈ (declarations.take entry.2).map Declaration.name := by
    refine List.filter_congr fun entry listed => ?_
    have inside : entry.2 < declarations.length := (List.mem_zipIdx' listed).1
    rw [List.take_append_of_le_length (Nat.le_of_lt inside)]
  unfold redeclarations
  rw [List.zipIdx_append, List.filter_append, kept, List.map_append]
  split <;> simp [*]

theorem mem_of_redeclared
    (repeated : declaration ∈ redeclarations declarations) :
    declaration ∈ declarations := by
  obtain ⟨entry, kept, rfl⟩ := List.mem_map.1 repeated
  exact List.fst_mem_of_mem_zipIdx (List.mem_of_mem_filter kept)

theorem mem_firstDeclarations :
    declaration ∈ firstDeclarations declarations ↔
      firstOf? declarations declaration.name = some declaration := by
  rw [firstDeclarations, List.mem_filterMap]
  constructor
  · rintro ⟨name, -, first⟩
    rwa [name_of_firstOf? first]
  · intro first
    refine ⟨declaration.name, List.mem_eraseDups.2 (isSome_firstOf?.1 ?_), first⟩
    rw [first]
    rfl

end FirstDeclarations

/-- A scope is what declarations make of the empty scope. -/
structure Records (scope : Scope) (declarations : List Declaration) : Prop where
  /-- The index leads from a name exactly to the place of the entry with that name. -/
  consistent : scope.Consistent
  /-- No two entries have the same name. -/
  nodup_names : (scope.entries.toList.map Declaration.name).Nodup
  /-- The entries are the first declarations of the names, in order. -/
  entries_eq : scope.entries.toList = firstDeclarations declarations
  /-- A name leads to the first declaration that was made of it. -/
  lookup_eq : ∀ name, scope.lookup name = firstOf? declarations name

namespace Records

variable {scope : Scope} {declarations : List Declaration} {declaration : Declaration}

/-- The index and the entries decide what is looked up. -/
theorem of_entries
    (consistent : scope.Consistent)
    (entries_eq : scope.entries.toList = firstDeclarations declarations) :
    scope.Records declarations where
  consistent := consistent
  nodup_names := consistent.nodup_names
  entries_eq := entries_eq
  lookup_eq := by
    intro name
    ext declaration
    rw [consistent.lookup_eq_some_iff, entries_eq, mem_firstDeclarations]
    constructor
    · rintro ⟨first, rfl⟩
      exact first
    · intro first
      obtain rfl := name_of_firstOf? first
      exact ⟨first, rfl⟩

theorem empty : Scope.empty.Records [] :=
  of_entries .empty rfl

/-- A name is known to the scope if it came up. -/
theorem contains_iff (records : scope.Records declarations) :
    scope.contains declaration.name = true ↔
      declaration.name ∈ declarations.map Declaration.name := by
  rw [← isSome_firstOf?, ← records.lookup_eq, Option.isSome_iff_exists, Scope.contains,
    Std.TreeMap.contains_eq_isSome_getElem?, Option.isSome_iff_exists]
  constructor
  · rintro ⟨place, indexed⟩
    obtain ⟨entry, found, -⟩ := (records.consistent _ place).1 indexed
    exact ⟨entry, by simp [Scope.lookup, indexed, found]⟩
  · rintro ⟨entry, found⟩
    obtain ⟨place, indexed, -⟩ := Option.bind_eq_some_iff.1 found
    exact ⟨place, indexed⟩

/-- What a declaration does: a name that came up is a complaint. -/
theorem declare_eq (records : scope.Records declarations) :
    scope.declare declaration =
      if declaration.name ∈ declarations.map Declaration.name then (scope, some declaration.again)
      else (scope.insert declaration, none) := by
  unfold Scope.declare
  simp only [records.contains_iff]

/-- One more declaration. -/
theorem declare
    (records : scope.Records declarations)
    (declaration : Declaration) :
    (scope.declare declaration).1.Records (declarations ++ [declaration]) := by
  refine of_entries (records.consistent.declare declaration) ?_
  rw [records.declare_eq, firstDeclarations_append]
  split
  · exact records.entries_eq
  · rw [← records.entries_eq]
    exact Array.toList_push

/-- All declarations of a sequence. -/
theorem declareAll
    (records : scope.Records declarations)
    (more : List Declaration) :
    (scope.declareAll more).1.Records (declarations ++ more) := by
  induction more generalizing scope declarations with
  | nil =>
      rw [List.append_nil]
      exact records
  | cons declaration rest inductionHypothesis =>
      rw [declareAll_cons, List.append_cons]
      exact inductionHypothesis (records.declare declaration)

end Records

/-- A sequence of declarations is one that is followed by its last declaration. -/
theorem declareAll_append
    (scope : Scope)
    (declarations : List Declaration)
    (declaration : Declaration) :
    scope.declareAll (declarations ++ [declaration]) =
      (((scope.declareAll declarations).1.declare declaration).1,
        (scope.declareAll declarations).2 ++
          ((scope.declareAll declarations).1.declare declaration).2.toList) := by
  induction declarations generalizing scope with
  | nil =>
      rw [List.nil_append, declareAll_cons]
      simp [declareAll]
  | cons first rest inductionHypothesis =>
      rw [List.cons_append, declareAll_cons, inductionHypothesis, declareAll_cons,
        List.append_assoc]

/-- The complaints are about the redeclarations. -/
theorem declareAll_complaints
    (declarations : List Declaration) :
    (Scope.empty.declareAll declarations).2 =
      (redeclarations declarations).map Declaration.again := by
  induction declarations using List.reverseRecOn with
  | nil => rfl
  | append_singleton earlier declaration inductionHypothesis =>
      have records : (Scope.empty.declareAll earlier).1.Records earlier :=
        Records.empty.declareAll earlier
      rw [declareAll_append, records.declare_eq, redeclarations_append, inductionHypothesis,
        List.map_append]
      split <;> rfl

end Scope

/-- Declaring variables keeps the first declaration of each name.  After any declarations the index
leads from a name exactly to the one entry with that name, the entries are the first declarations of
the different names in the order in which the names came up, and a name is looked up as the first
declaration of it.  There has been one complaint about each declaration of a name that came up
before, of the semantic kind and on the line of that declaration, and no other.  The next declaration
is accepted exactly if its name did not come up; if it did, the scope stays as it is. -/
theorem scope_records_first_declarations
    (declarations : List Declaration) :
    (Scope.empty.declareAll declarations).1.Records declarations ∧
      (Scope.empty.declareAll declarations).2 =
        (Scope.redeclarations declarations).map (fun again =>
          ⟨.semantic, again.line, "variable " ++ again.name ++ " already declared"⟩) ∧
      ∀ declaration : Declaration,
        (Scope.empty.declareAll declarations).1.declare declaration =
          if declaration.name ∈ declarations.map Declaration.name then
            ((Scope.empty.declareAll declarations).1,
              some ⟨.semantic, declaration.line,
                "variable " ++ declaration.name ++ " already declared"⟩)
          else ((Scope.empty.declareAll (declarations ++ [declaration])).1, none) := by
  have records : (Scope.empty.declareAll declarations).1.Records declarations :=
    Scope.Records.empty.declareAll declarations
  refine ⟨records, Scope.declareAll_complaints declarations, fun declaration => ?_⟩
  rw [Scope.declareAll_append, records.declare_eq]
  split <;> rfl

end MiniLang
