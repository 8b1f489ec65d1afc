import MiniLang.Scope

/-!
# Consistent scopes

The index of a scope leads from a name to the one entry that declares it.  Scopes that come of
declaring variables are consistent in this sense: no place of the index is out of range, and no two
entries have the same name.
-/

namespace MiniLang
namespace Scope

/-- Declare a variable after others, given the complaints about those. -/
def declareNext (reached : Scope × Array Diagnostic) (declaration : Declaration) :
    Scope × Array Diagnostic :=
  let next := reached.1.declare declaration
  (next.1, match next.2 with
    | some complaint => reached.2.push complaint
    | none => reached.2)

theorem declareNext_eq
    (scope : Scope)
    (complaints : Array Diagnostic)
    (declaration : Declaration) :
    declareNext (scope, complaints) declaration =
      ((scope.declare declaration).1,
        complaints ++ (scope.declare declaration).2.toList.toArray) := by
  unfold declareNext
  dsimp only
  generalize scope.declare declaration = next
  obtain ⟨reached, complaint?⟩ := next
  cases complaint? <;> simp

/-- Complaints from before stay in front. -/
theorem foldl_declareNext
    (declarations : List Declaration)
    (scope : Scope)
    (complaints : Array Diagnostic) :
    declarations.foldl declareNext (scope, complaints) =
      ((scope.declareAll declarations).1,
        complaints ++ (scope.declareAll declarations).2.toArray) := by
  change _ = ((declarations.foldl declareNext (scope, #[])).1,
    complaints ++ (declarations.foldl declareNext (scope, #[])).2)
  induction declarations generalizing scope complaints with
  | nil => simp
  | cons declaration rest inductionHypothesis =>
      rw [List.foldl_cons, List.foldl_cons, declareNext_eq, declareNext_eq]
      rw [inductionHypothesis, inductionHypothesis _ (#[] ++ _)]
      simp

/-- Declaring variables is declaring the first one and then the others. -/
theorem declareAll_cons
    (scope : Scope)
    (declaration : Declaration)
    (rest : List Declaration) :
    scope.declareAll (declaration :: rest) =
      (((scope.declare declaration).1.declareAll rest).1,
        (scope.declare declaration).2.toList ++
          ((scope.declare declaration).1.declareAll rest).2) := by
  change ((rest.foldl declareNext (declareNext (scope, #[]) declaration)).1,
    (rest.foldl declareNext (declareNext (scope, #[]) declaration)).2.toList) = _
  rw [declareNext_eq, foldl_declareNext]
  simp

/-- The index leads from a name exactly to the place of the entry with that name. -/
def Consistent (scope : Scope) : Prop :=
  ∀ (name : String) (place : Nat), scope.index[name]? = some place ↔
    ∃ declaration : Declaration,
      scope.entries[place]? = some declaration ∧ declaration.name = name

namespace Consistent

variable {scope : Scope}

/-- The scope without variables is consistent. -/
theorem empty : Scope.empty.Consistent := by
  intro name place
  simp [Scope.empty]

/-- Adding a new name keeps a scope consistent. -/
theorem insert
    (consistent : scope.Consistent)
    (declaration : Declaration)
    (fresh : scope.contains declaration.name = false) :
    (scope.insert declaration).Consistent := by
  have absent : scope.index[declaration.name]? = none := by
    exact Std.TreeMap.getElem?_eq_none_of_contains_eq_false fresh
  intro name place
  simp only [Scope.insert, Std.TreeMap.getElem?_insert, Array.getElem?_push]
  by_cases same : declaration.name = name
  · subst same
    simp only [Std.compare_self, if_true, Option.some.injEq]
    constructor
    · rintro rfl
      exact ⟨declaration, by simp, rfl⟩
    · rintro ⟨other, found, same⟩
      split at found
      · next place_eq => exact place_eq.symm
      · have indexed := (consistent declaration.name place).2 ⟨other, found, same⟩
        simp [absent] at indexed
  · rw [if_neg (by simpa using same), consistent name place]
    constructor
    · rintro ⟨other, found, rfl⟩
      have place_lt : place < scope.entries.size := (Array.getElem?_eq_some_iff.1 found).1
      exact ⟨other, by rw [if_neg (by omega)]; exact found, rfl⟩
    · rintro ⟨other, found, rfl⟩
      split at found
      · cases found
        exact absurd rfl same
      · exact ⟨other, found, rfl⟩

/-- Declaring a variable keeps a scope consistent. -/
theorem declare
    (consistent : scope.Consistent)
    (declaration : Declaration) :
    (scope.declare declaration).1.Consistent := by
  unfold Scope.declare
  split
  · exact consistent
  · next fresh => exact consistent.insert declaration (by simpa using fresh)

/-- Declaring variables keeps a scope consistent. -/
theorem declareAll
    (consistent : scope.Consistent)
    (declarations : List Declaration) :
    (scope.declareAll declarations).1.Consistent := by
  induction declarations generalizing scope with
  | nil => exact consistent
  | cons declaration rest inductionHypothesis =>
      rw [declareAll_cons]
      exact inductionHypothesis (consistent.declare declaration)

/-- No place of the index is out of range. -/
theorem place_lt
    (consistent : scope.Consistent)
    {name : String}
    {place : Nat}
    (indexed : scope.index[name]? = some place) :
    place < scope.entries.size := by
  obtain ⟨declaration, found, _⟩ := (consistent name place).1 indexed
  exact (Array.getElem?_eq_some_iff.1 found).1

/-- Looking a name up finds the entry with that name. -/
theorem lookup_eq_some_iff
    (consistent : scope.Consistent)
    {name : String}
    {declaration : Declaration} :
    scope.lookup name = some declaration ↔
      declaration ∈ scope.entries.toList ∧ declaration.name = name := by
  simp only [Scope.lookup, Option.bind_eq_bind, Option.bind_eq_some_iff]
  constructor
  · rintro ⟨place, indexed, found⟩
    obtain ⟨other, other_found, other_name⟩ := (consistent name place).1 indexed
    rw [found, Option.some.injEq] at other_found
    subst other_found
    exact ⟨Array.mem_toList_iff.2 (Array.mem_of_getElem? found), other_name⟩
  · rintro ⟨present, rfl⟩
    obtain ⟨place, found⟩ := Array.getElem?_of_mem (Array.mem_toList_iff.1 present)
    exact ⟨place, (consistent _ place).2 ⟨declaration, found, rfl⟩, found⟩

/-- No two entries have the same name. -/
theorem nodup_names
    (consistent : scope.Consistent) :
    (scope.entries.toList.map Declaration.name).Nodup := by
  rw [List.nodup_iff_pairwise_ne, List.pairwise_iff_getElem]
  intro first second first_lt second_lt before equal
  simp only [List.length_map, Array.length_toList] at first_lt second_lt
  simp only [List.getElem_map, Array.getElem_toList] at equal
  have first_indexed := (consistent scope.entries[first].name first).2
    ⟨_, Array.getElem?_eq_getElem first_lt, rfl⟩
  have second_indexed := (consistent scope.entries[first].name second).2
    ⟨_, Array.getElem?_eq_getElem second_lt, equal.symm⟩
  rw [first_indexed, Option.some.injEq] at second_indexed
  omega

end Consistent

/-- The complaint about a declaration is no breach of the grammar. -/
theorem semantic_of_declare
    {scope : Scope}
    {declaration : Declaration}
    {complaint : Diagnostic}
    (complained : (scope.declare declaration).2 = some complaint) :
    complaint.kind = .semantic := by
  unfold declare at complained
  split at complained
  · cases complained
    rfl
  · cases complained

/-- No complaint about declarations is a breach of the grammar. -/
theorem semantic_of_mem_declareAll
    {scope : Scope}
    {declarations : List Declaration}
    {complaint : Diagnostic}
    (listed : complaint ∈ (scope.declareAll declarations).2) :
    complaint.kind = .semantic := by
  induction declarations generalizing scope with
  | nil => cases listed
  | cons declaration rest inductionHypothesis =>
      rw [declareAll_cons] at listed
      rcases List.mem_append.1 listed with complained | listed
      · exact semantic_of_declare (Option.mem_toList.1 complained)
      · exact inductionHypothesis listed

end Scope
end MiniLang
