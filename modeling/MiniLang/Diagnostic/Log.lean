import MiniLang.Diagnostic

/-!
# The diagnostic log

The log counts every diagnostic that is reported to it and keeps the first of them, as many as its
limit allows.  Flushing hands out the kept diagnostics by line and starts a new list; the count
goes on.
-/

namespace MiniLang
namespace Diagnostic

/-- A counted list of diagnostics. -/
structure Log where
  /-- How many diagnostics are kept; 0 keeps all of them. -/
  limit : Nat := 0
  /-- How many diagnostics were ever reported. -/
  count : Nat := 0
  /-- The kept diagnostics, in the order of their reports. -/
  retained : Array Diagnostic := #[]
  deriving DecidableEq, Repr

namespace Log

/-- A fresh log with the given limit. -/
def withLimit (limit : Nat) : Log :=
  { limit := limit }

/-- Whether one more diagnostic can be kept. -/
def hasRoom (log : Log) : Bool :=
  log.limit == 0 || log.retained.size < log.limit

/-- Count a diagnostic, and keep it if there is room. -/
def report (log : Log) (diagnostic : Diagnostic) : Log :=
  { log with
    count := log.count + 1
    retained := if log.hasRoom then log.retained.push diagnostic else log.retained }

/-- Report a problem that is told by its parts. -/
def error (log : Log) (kind : Kind) (line : Line) (message : String) : Log :=
  log.report ⟨kind, line, message⟩

/-- Report diagnostics one after the other. -/
def reportAll (log : Log) (diagnostics : List Diagnostic) : Log :=
  diagnostics.foldl report log

/-- How many of the kept diagnostics are of one kind. -/
def countOf (log : Log) (kind : Kind) : Nat :=
  log.retained.toList.countP (fun diagnostic => diagnostic.kind == kind)

/-- The notice that something was reported, once anything was. -/
def notice? (log : Log) : Option String :=
  Diagnostic.notice? log.count

/-- Diagnostics in the order of their lines; those of one line keep their order. -/
def byLine (diagnostics : List Diagnostic) : List Diagnostic :=
  diagnostics.mergeSort (fun first second => first.line <= second.line)

/-- Hand out the kept diagnostics by line and keep none of them. -/
def flush (log : Log) : List Diagnostic × Log :=
  (byLine log.retained.toList, { log with retained := #[] })

@[simp] theorem count_report (log : Log) (diagnostic : Diagnostic) :
    (log.report diagnostic).count = log.count + 1 := rfl

@[simp] theorem limit_report (log : Log) (diagnostic : Diagnostic) :
    (log.report diagnostic).limit = log.limit := rfl

/-- Reporting diagnostics counts all of them. -/
theorem count_reportAll (log : Log) (diagnostics : List Diagnostic) :
    (log.reportAll diagnostics).count = log.count + diagnostics.length := by
  unfold reportAll
  induction diagnostics generalizing log with
  | nil => rfl
  | cons diagnostic rest inductionHypothesis =>
      rw [List.foldl_cons, inductionHypothesis, count_report, List.length_cons]
      omega

@[simp] theorem count_flush (log : Log) : log.flush.2.count = log.count := rfl

end Log

end Diagnostic
end MiniLang
