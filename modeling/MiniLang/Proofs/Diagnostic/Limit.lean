import MiniLang.Compile
import MiniLang.Proofs.Code.Agreement

/-!
# The limit of the log

A log counts everything that is reported to it and keeps the front of it, as far as its limit
reaches.  So the limit decides neither whether compiling succeeds nor how many problems it counts:
it cuts the list of problems short before that list is sorted by line, and does nothing else.
-/

namespace MiniLang
namespace Diagnostic

/-- Diagnostics in the order of their lines: the given ones, with the lines ascending, and on each
line in the order in which they were given. -/
structure SortedByLine (given sorted : List Diagnostic) : Prop where
  perm : sorted.Perm given
  ascending : sorted.Pairwise fun first second => first.line <= second.line
  stable : ∀ line : Line,
    sorted.filter (fun diagnostic => diagnostic.line = line) =
      given.filter (fun diagnostic => diagnostic.line = line)

namespace SortedByLine

/-- Sorting a list of diagnostics by line moves no two diagnostics of one line past each other. -/
theorem byLine (given : List Diagnostic) : SortedByLine given (Log.byLine given) := by
  have perm : (Log.byLine given).Perm given := List.mergeSort_perm _ _
  have transitive : ∀ first second third : Diagnostic,
      decide (first.line <= second.line) = true -> decide (second.line <= third.line) = true ->
      decide (first.line <= third.line) = true := by
    intro first second third
    simp only [decide_eq_true_eq]
    exact Nat.le_trans
  have total : ∀ first second : Diagnostic,
      (decide (first.line <= second.line) || decide (second.line <= first.line)) = true := by
    intro first second
    simp only [Bool.or_eq_true, decide_eq_true_eq]
    exact Nat.le_total _ _
  refine ⟨perm, ?_, ?_⟩
  · apply (List.pairwise_mergeSort transitive total given).imp
    intro first second ordered
    exact of_decide_eq_true ordered
  · intro line
    -- The diagnostics of a line are in order as they are given, so sorting keeps their sequence.
    have ordered : (given.filter fun diagnostic => diagnostic.line = line).Pairwise
        fun first second => decide (first.line <= second.line) = true := by
      rw [List.pairwise_filter]
      apply List.pairwise_of_forall
      intro first second first_line second_line
      simp only [decide_eq_true_eq] at first_line second_line ⊢
      exact Nat.le_of_eq (first_line.trans second_line.symm)
    have kept := List.sublist_mergeSort transitive total ordered List.filter_sublist
    have within := kept.filter fun diagnostic => decide (diagnostic.line = line)
    simp only [List.filter_filter, Bool.and_self] at within
    exact (within.eq_of_length (perm.filter _).length_eq.symm).symm

/-- A diagnostic stands in a list if it is among those of its line. -/
theorem mem_of_filter_eq
    {first second : List Diagnostic}
    (same : ∀ line : Line,
      first.filter (fun diagnostic => diagnostic.line = line) =
        second.filter (fun diagnostic => diagnostic.line = line))
    {diagnostic : Diagnostic}
    (present : diagnostic ∈ first) :
    diagnostic ∈ second := by
  have among : diagnostic ∈ first.filter (fun other => other.line = diagnostic.line) := by
    simp [present]
  rw [same] at among
  exact (List.mem_filter.1 among).1

/-- Ascending lists with the same diagnostics on each line are equal. -/
theorem eq_of_filter_eq
    {first second : List Diagnostic}
    (first_ascending : first.Pairwise fun first second => first.line <= second.line)
    (second_ascending : second.Pairwise fun first second => first.line <= second.line)
    (same : ∀ line : Line,
      first.filter (fun diagnostic => diagnostic.line = line) =
        second.filter (fun diagnostic => diagnostic.line = line)) :
    first = second := by
  induction first generalizing second with
  | nil =>
      symm
      rw [List.eq_nil_iff_forall_not_mem]
      intro diagnostic present
      exact absurd (mem_of_filter_eq (fun line => (same line).symm) present) List.not_mem_nil
  | cons head rest inductionHypothesis =>
      cases second with
      | nil => exact absurd (mem_of_filter_eq same List.mem_cons_self) List.not_mem_nil
      | cons head' rest' =>
          obtain ⟨head_least, rest_ascending⟩ := List.pairwise_cons.1 first_ascending
          obtain ⟨head_least', rest_ascending'⟩ := List.pairwise_cons.1 second_ascending
          -- Each head is in the other list, so neither of their lines is the greater one.
          have line_eq : head.line = head'.line := by
            have head_in := mem_of_filter_eq same List.mem_cons_self
            have head_in' := mem_of_filter_eq (fun line => (same line).symm) List.mem_cons_self
            apply Nat.le_antisymm
            · rcases List.mem_cons.1 head_in' with rfl | later
              · exact Nat.le_refl _
              · exact head_least head' later
            · rcases List.mem_cons.1 head_in with rfl | later
              · exact Nat.le_refl _
              · exact head_least' head later
          have head_eq : head = head' := by
            have own := same head.line
            rw [List.filter_cons_of_pos (by simp), List.filter_cons_of_pos (by simp [line_eq])] at own
            exact (List.cons.inj own).1
          subst head_eq
          congr 1
          apply inductionHypothesis rest_ascending rest_ascending'
          intro line
          have both := same line
          simp only [List.filter_cons] at both
          split at both
          · exact (List.cons.inj both).2
          · exact both

/-- There is one way only to sort diagnostics by line. -/
theorem unique
    {given first second : List Diagnostic}
    (one : SortedByLine given first)
    (other : SortedByLine given second) :
    first = second :=
  eq_of_filter_eq one.ascending other.ascending fun line =>
    (one.stable line).trans (other.stable line).symm

end SortedByLine

namespace Log

/-- How much of a list of reports is kept under a limit; 0 sets none. -/
def front (limit : Nat) (diagnostics : List Diagnostic) : List Diagnostic :=
  if limit = 0 then diagnostics else diagnostics.take limit

/-- Reporting a diagnostic keeps it as long as the limit is not reached. -/
theorem retained_report
    (log : Log)
    (diagnostic : Diagnostic) :
    (log.report diagnostic).retained.toList =
      if log.limit = 0 ∨ log.retained.size < log.limit
        then log.retained.toList ++ [diagnostic] else log.retained.toList := by
  simp only [report, hasRoom, Bool.or_eq_true, beq_iff_eq, decide_eq_true_eq]
  split
  · exact Array.toList_push
  · rfl

/-- Reporting diagnostics one after the other keeps as many of them as there is room for. -/
theorem retained_reportAll
    (log : Log)
    (diagnostics : List Diagnostic) :
    (log.reportAll diagnostics).retained.toList =
      log.retained.toList ++
        if log.limit = 0 then diagnostics
        else diagnostics.take (log.limit - log.retained.size) := by
  unfold reportAll
  induction diagnostics generalizing log with
  | nil => simp
  | cons diagnostic rest inductionHypothesis =>
      have size_eq : ∀ other : Log, other.retained.size = other.retained.toList.length :=
        fun other => Array.length_toList.symm
      rw [List.foldl_cons, inductionHypothesis, limit_report, size_eq, retained_report]
      by_cases unlimited : log.limit = 0
      · simp [unlimited]
      · by_cases room : log.retained.size < log.limit
        · obtain ⟨left, left_eq⟩ : ∃ left, log.limit - log.retained.size = left + 1 :=
            ⟨log.limit - log.retained.size - 1, by omega⟩
          have less : log.limit - (log.retained.size + 1) = left := by omega
          simp [unlimited, room, left_eq, less]
        · have full : log.limit - log.retained.size = 0 := by omega
          simp [unlimited, room, full]

/-- A fresh log keeps the front of what is reported to it. -/
theorem retained_withLimit
    (limit : Nat)
    (diagnostics : List Diagnostic) :
    ((withLimit limit).reportAll diagnostics).retained.toList = front limit diagnostics := by
  rw [retained_reportAll]
  simp [withLimit, front]

end Log

end Diagnostic

open Diagnostic

/-- How compiling ends is told by what the passes report: if that is nothing, by the code of the
program, and otherwise by the reports alone. -/
theorem exists_compile
    (source : String) :
    ∃ tags breaches,
      (Program.ofTokens (Token.scan source).tokens).1.check = .ok (tags, breaches) ∧
      (((Token.scan source).diagnostics ++ (Program.ofTokens (Token.scan source).tokens).2 ++
            breaches = [] ∧
          ∃ code, (Program.ofTokens (Token.scan source).tokens).1.generate tags = .ok code ∧
            ∀ limit, compile source limit = .success code.lines) ∨
        ((Token.scan source).diagnostics ++ (Program.ofTokens (Token.scan source).tokens).2 ++
            breaches ≠ [] ∧
          ∀ limit, compile source limit =
            .failure ((Token.scan source).diagnostics ++
                (Program.ofTokens (Token.scan source).tokens).2 ++ breaches).length
              (Log.byLine (Log.front limit ((Token.scan source).diagnostics ++
                (Program.ofTokens (Token.scan source).tokens).2 ++ breaches))))) := by
  have wellFounded := Program.wellFounded_ofTokens (Token.scan source).tokens
  have checked := wellFounded.check_eq
  unfold compile analyse
  dsimp only
  generalize Program.ofTokens (Token.scan source).tokens = read at wellFounded checked ⊢
  obtain ⟨program, complaints⟩ := read
  dsimp only at wellFounded checked ⊢
  rw [checked]
  refine ⟨_, _, rfl, ?_⟩
  generalize (program.tree.breaches program.scope).map _ = breaches at checked ⊢
  generalize reported_eq : (Token.scan source).diagnostics ++ complaints ++ breaches = reported
  simp only [bind, Except.bind, pure, Except.pure, reported_eq, Log.count_reportAll]
  have fresh_count : ∀ limit, (Log.withLimit limit).count = 0 := fun limit => rfl
  simp only [fresh_count, Nat.zero_add, List.length_eq_zero_iff]
  by_cases clean : reported = []
  · refine .inl ⟨clean, ?_⟩
    have no_breaches : breaches = [] := by
      rw [clean] at reported_eq
      exact (List.append_eq_nil_iff.1 reported_eq).2
    obtain ⟨code, generated⟩ := wellFounded.exists_generate (no_breaches ▸ checked)
    refine ⟨code, generated, fun limit => ?_⟩
    rw [if_pos clean, generated]
  · refine .inr ⟨clean, fun limit => ?_⟩
    rw [if_neg clean, Log.flush, Log.retained_withLimit]

/-- The limit changes only what is shown.  If the passes over a source text report nothing, compiling
succeeds with the same lines under every limit.  Otherwise it fails under every limit, whatever the
generator would do; it counts all reports, and shows the reports themselves, or the first ones up to
the limit, in the order of their lines. -/
theorem limit_changes_only_shown
    (source : String) :
    ∃ tags breaches reported,
      (Program.ofTokens (Token.scan source).tokens).1.check = .ok (tags, breaches) ∧
      reported = (Token.scan source).diagnostics ++
        (Reading.ofTokens (Token.scan source).tokens).errors.toList.map SyntaxError.diagnostic ++
        (Scope.empty.declareAll
          (Program.ofTokens (Token.scan source).tokens).1.declarations).2 ++
        breaches ∧
      ((reported = [] ∧
          ∃ code, (Program.ofTokens (Token.scan source).tokens).1.generate tags = .ok code ∧
            ∀ limit, compile source limit = .success code.lines) ∨
        (reported ≠ [] ∧
          ∀ limit, ∃ shown, compile source limit = .failure reported.length shown ∧
            (∀ list, SortedByLine (if limit = 0 then reported else reported.take limit) list ↔
              list = shown))) := by
  obtain ⟨tags, breaches, checked, ends⟩ := exists_compile source
  refine ⟨tags, breaches, _, checked, rfl, ?_⟩
  rw [List.append_assoc (Token.scan source).diagnostics]
  rcases ends with success | ⟨reports, failure⟩
  · exact .inl success
  · refine .inr ⟨reports, fun limit => ⟨_, failure limit, fun list => ?_⟩⟩
    constructor
    · intro sorted
      exact sorted.unique (SortedByLine.byLine _)
    · rintro rfl
      exact SortedByLine.byLine _

end MiniLang
