import MiniLang.Proofs.Diagnostic.Limit

/-!
# Runs of a log

A log is used through three calls: a diagnostic is reported as a whole or told by its parts, and the
kept ones are flushed.  Whatever the calls were, the log counts all reports ever made and keeps the
front of those that came after the last flush.  One call takes a log that is so to a log that is so,
hence every run of calls does.
-/

namespace MiniLang
namespace Diagnostic
namespace Log

/-- The calls that change a log. -/
inductive Call where
  | report (diagnostic : Diagnostic)
  | error (kind : Kind) (line : Line) (message : String)
  | flush
  deriving DecidableEq, Repr

/-- The diagnostic that a call reports. -/
def Call.reported? : Call -> Option Diagnostic
  | .report diagnostic => some diagnostic
  | .error kind line message => some ⟨kind, line, message⟩
  | .flush => none

/-- The log after a call. -/
def perform (log : Log) : Call -> Log
  | .report diagnostic => log.report diagnostic
  | .error kind line message => log.error kind line message
  | .flush => log.flush.2

/-- The log after calls, made one after the other. -/
def performAll (log : Log) (calls : List Call) : Log :=
  calls.foldl perform log

/-- The diagnostics that calls report. -/
def reportedBy (calls : List Call) : List Diagnostic :=
  calls.filterMap Call.reported?

/-- The calls after the last flush. -/
def sinceFlush (calls : List Call) : List Call :=
  (calls.reverse.takeWhile fun call => call != .flush).reverse

theorem sinceFlush_append_flush (calls : List Call) : sinceFlush (calls ++ [.flush]) = [] := by
  simp [sinceFlush]

theorem sinceFlush_append_report
    (calls : List Call)
    {call : Call}
    (reports : call ≠ .flush) :
    sinceFlush (calls ++ [call]) = sinceFlush calls ++ [call] := by
  simp [sinceFlush, reports]

/-- One more report is kept while the limit is not reached. -/
theorem front_append
    (limit : Nat)
    (earlier : List Diagnostic)
    (diagnostic : Diagnostic) :
    front limit (earlier ++ [diagnostic]) =
      if limit = 0 ∨ (front limit earlier).length < limit
        then front limit earlier ++ [diagnostic] else front limit earlier := by
  unfold front
  by_cases unlimited : limit = 0
  · simp [unlimited]
  · by_cases room : earlier.length < limit
    · have fits : (earlier ++ [diagnostic]).length <= limit := by
        rw [List.length_append]
        exact room
      simp only [unlimited, if_false, false_or, List.take_of_length_le fits,
        List.take_of_length_le (Nat.le_of_lt room), if_pos room]
    · have full : limit <= earlier.length := Nat.le_of_not_lt room
      simp [unlimited, full, List.take_append_of_le_length full]

/-- What calls make of a fresh log: its limit stays, it counts all reports, and it keeps the front of
those after the last flush. -/
structure Reflects (limit : Nat) (calls : List Call) (log : Log) : Prop where
  limit_eq : log.limit = limit
  count_eq : log.count = (reportedBy calls).length
  retained_eq : log.retained.toList = front limit (reportedBy (sinceFlush calls))

namespace Reflects

variable {limit : Nat} {calls : List Call} {log : Log}

theorem withLimit (limit : Nat) : Reflects limit [] (withLimit limit) where
  limit_eq := rfl
  count_eq := rfl
  retained_eq := by simp [Log.withLimit, front, sinceFlush, reportedBy]

/-- A report is counted, and kept if there is room. -/
theorem report
    (reflects : Reflects limit calls log)
    {call : Call}
    {diagnostic : Diagnostic}
    (reports : call.reported? = some diagnostic) :
    Reflects limit (calls ++ [call]) (log.report diagnostic) where
  limit_eq := reflects.limit_eq
  count_eq := by
    rw [count_report, reflects.count_eq]
    simp [reportedBy, reports]
  retained_eq := by
    have no_flush : call ≠ .flush := by
      rintro rfl
      cases reports
    have reported_eq : reportedBy (sinceFlush (calls ++ [call])) =
        reportedBy (sinceFlush calls) ++ [diagnostic] := by
      rw [sinceFlush_append_report calls no_flush]
      simp [reportedBy, reports]
    rw [retained_report, reported_eq, front_append, reflects.limit_eq, ← Array.length_toList,
      reflects.retained_eq]

/-- A flush leaves nothing behind but the count. -/
theorem flush (reflects : Reflects limit calls log) :
    Reflects limit (calls ++ [.flush]) log.flush.2 where
  limit_eq := reflects.limit_eq
  count_eq := by
    rw [count_flush, reflects.count_eq]
    simp [reportedBy, Call.reported?]
  retained_eq := by
    rw [sinceFlush_append_flush]
    simp [Log.flush, front, reportedBy]

theorem perform
    (reflects : Reflects limit calls log)
    (call : Call) :
    Reflects limit (calls ++ [call]) (log.perform call) := by
  cases call with
  | report diagnostic => exact reflects.report rfl
  | error kind line message => exact reflects.report rfl
  | flush => exact reflects.flush

theorem performAll
    (reflects : Reflects limit calls log)
    (more : List Call) :
    Reflects limit (calls ++ more) (log.performAll more) := by
  induction more generalizing calls log with
  | nil =>
      rw [List.append_nil]
      exact reflects
  | cons call rest inductionHypothesis =>
      rw [List.append_cons]
      exact inductionHypothesis (reflects.perform call)

end Reflects

/-- A call reports a diagnostic unless it is a flush. -/
theorem isSome_reported? (call : Call) : call.reported?.isSome = (call != .flush) := by
  cases call <;> rfl

/-- As many diagnostics are reported as there are calls other than flushes. -/
theorem length_reportedBy (calls : List Call) :
    (reportedBy calls).length = calls.countP fun call => call != .flush := by
  rw [reportedBy, List.length_filterMap_eq_countP]
  exact List.countP_congr fun call _ => by rw [isSome_reported?]

/-- There is a notice exactly if something was counted. -/
theorem isSome_notice? (log : Log) : log.notice?.isSome ↔ 0 < log.count := by
  unfold Log.notice? Diagnostic.notice?
  split <;> simp [*]

end Log

/-- Whatever calls are made on a fresh log: it has counted every report, of a diagnostic as a whole or
by its parts, and flushes do not change the count; it keeps the diagnostics reported since the last
flush in the order of their reports, or the first ones up to the limit; it has a notice exactly if
anything was ever reported; and a flush hands out what is kept, in the one order by line in which
diagnostics of one line keep the order of their reports, and keeps none of it. -/
theorem log_reflects_calls
    (limit : Nat)
    (calls : List Log.Call) :
    ((Log.withLimit limit).performAll calls).count =
        calls.countP (fun call => call != .flush) ∧
      ((Log.withLimit limit).performAll calls).retained.toList =
        (if limit = 0 then Log.reportedBy (Log.sinceFlush calls)
          else (Log.reportedBy (Log.sinceFlush calls)).take limit) ∧
      (((Log.withLimit limit).performAll calls).notice?.isSome ↔ ∃ call ∈ calls, call ≠ .flush) ∧
      (∀ handed, SortedByLine ((Log.withLimit limit).performAll calls).retained.toList handed ↔
        handed = ((Log.withLimit limit).performAll calls).flush.1) ∧
      ((Log.withLimit limit).performAll calls).flush.2.retained = #[] ∧
      ((Log.withLimit limit).performAll calls).flush.2.count =
        ((Log.withLimit limit).performAll calls).count := by
  have reflects : Log.Reflects limit calls ((Log.withLimit limit).performAll calls) :=
    (Log.Reflects.withLimit limit).performAll calls
  have count_eq := reflects.count_eq.trans (Log.length_reportedBy calls)
  refine ⟨count_eq, reflects.retained_eq, ?_, ?_, rfl, rfl⟩
  · rw [Log.isSome_notice?, count_eq, List.countP_pos_iff]
    simp only [bne_iff_ne]
  · intro handed
    constructor
    · intro sorted
      exact sorted.unique (SortedByLine.byLine _)
    · rintro rfl
      exact SortedByLine.byLine _

end Diagnostic
end MiniLang
