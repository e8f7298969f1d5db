/-
Validation reports.

A report keeps errors and warnings apart, each in the order in which they were found; it is valid when it holds no
error. `Report.text` writes both sections with numbered lines. A report that is not valid can be turned into a failure
that carries it (`Report.verdict`).
-/
import StepFlow.Step.Error
import StepFlow.Validation.Issue

namespace StepFlow

/-- the findings about a graph -/
structure Report where
  errors : List Issue := []
  warnings : List Issue := []
  deriving DecidableEq

namespace Report

def add (report : Report) (issue : Issue) : Report :=
  match issue.severity with
  | .error => { report with errors := report.errors ++ [issue] }
  | .warning => { report with warnings := report.warnings ++ [issue] }

def addAll (report : Report) (issues : List Issue) : Report :=
  issues.foldl add report

def ofIssues (issues : List Issue) : Report :=
  addAll {} issues

/-- A report is valid when it has no errors; warnings do not count. -/
def isValid (report : Report) : Bool := report.errors.isEmpty

def errorMessages (report : Report) : List String := report.errors.map Issue.message

def warningMessages (report : Report) : List String := report.warnings.map Issue.message

/-- the numbered lines of a section, counted from `number` -/
def sectionLines : Nat → List Issue → String
  | _, [] => ""
  | number, issue :: rest => s!"  {number}. {issue.message}\n" ++ sectionLines (number + 1) rest

/-- a section with its heading, or nothing if it is empty -/
def sectionText (label : String) (issues : List Issue) : String :=
  if issues.isEmpty then "" else s!"{issues.length} {label}:\n" ++ sectionLines 1 issues

def text (report : Report) : String :=
  if report.errors.isEmpty && report.warnings.isEmpty then "graph is valid\n"
  else sectionText "error(s)" report.errors ++ sectionText "warning(s)" report.warnings

end Report

/-- the failure of a graph that has errors -/
structure InvalidGraph where
  report : Report
  deriving DecidableEq

namespace InvalidGraph

def message (failure : InvalidGraph) : String :=
  "graph validation failed\n" ++ failure.report.text

def diagnostic (_ : InvalidGraph) : Diagnostic :=
  ⟨some "stepgraph::graph::invalid",
    some "Fix the reported errors, or use GraphBuilder::build to skip validation."⟩

end InvalidGraph

/-- the report itself if it is valid, and otherwise the failure that carries it -/
def Report.verdict (report : Report) : Except InvalidGraph Report :=
  if report.isValid then .ok report else .error ⟨report⟩

end StepFlow
