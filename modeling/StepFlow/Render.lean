/-
Rendering reports and failures as lines.

A line ends with a line feed and may carry colour codes. A failure is rendered as its headline, a line for each cause
whose text is not yet part of the text before it, and, for a fan-out, a line for each output that did finish, followed
by the failures of its branches, two spaces further in. A report is rendered as its two sections.
-/
import StepFlow.Run.Failure
import StepFlow.Text.Search
import StepFlow.Validation.Report

namespace StepFlow

/-- when colour codes are written -/
inductive ColorMode where
  | auto
  | colored
  | plain
  deriving DecidableEq

namespace ColorMode

/-- the mode that is in force for a terminal, or for anything else -/
def detect (terminal : Bool) : ColorMode := if terminal then .colored else .plain

/-- whether colour codes are written; the flag tells whether the text goes to a terminal -/
def isColored (terminal : Bool) : ColorMode → Bool
  | .auto => terminal
  | .colored => true
  | .plain => false

end ColorMode

namespace Render

/-- a colour code -/
inductive Color where
  | red
  | green
  | yellow
  | magenta
  deriving DecidableEq

def Color.code : Color → String
  | .red => "\x1b[31m"
  | .green => "\x1b[32m"
  | .yellow => "\x1b[33m"
  | .magenta => "\x1b[35m"

/-- the code that ends a colour -/
def resetCode : String := "\x1b[0m"

/-- the text, between colour codes if they are wanted -/
def paint (colored : Bool) (color : Color) (text : String) : String :=
  if colored then color.code ++ text ++ resetCode else text

def pad : Nat → String
  | 0 => ""
  | depth + 1 => "  " ++ pad depth

/-- The lines of causes. A cause that is part of the text shown before it has no line of its own. -/
def causeLines (colored : Bool) (depth : Nat) : String → List String → List String
  | _, [] => []
  | shown, cause :: rest =>
    if Text.occursIn cause shown then causeLines colored depth cause rest
    else
      (pad (depth + 1) ++ paint colored .magenta ("cause: " ++ cause) ++ "\n") ::
        causeLines colored depth cause rest

/-- the line of an output that finished beside a failure -/
def completedLine (colored : Bool) (depth : Nat) (output : Output) : String :=
  pad (depth + 1) ++ paint colored .green "completed" ++ s!" {output.node} = {output.value.compact}\n"

mutual

/-- the lines of a failure at a depth -/
def failureLines (colored : Bool) (depth : Nat) : Failure → List String
  | .parallelBranches node failures completed =>
    let headline := (Failure.parallelBranches node failures completed).message
    (pad depth ++ paint colored .red headline ++ "\n") ::
      (completed.map (completedLine colored depth) ++ failuresLines colored (depth + 1) failures)
  | failure =>
    (pad depth ++ paint colored .red failure.message ++ "\n") ::
      causeLines colored depth failure.message failure.causes

def failuresLines (colored : Bool) (depth : Nat) : List Failure → List String
  | [] => []
  | failure :: rest => failureLines colored depth failure ++ failuresLines colored depth rest

end

/-- the numbered lines of issues, counted from `number` -/
def issueLines : Nat → List Issue → List String
  | _, [] => []
  | number, issue :: rest => s!"  {number}. {issue.message}\n" :: issueLines (number + 1) rest

def sectionLines (colored : Bool) (color : Color) (label : String) (issues : List Issue) : List String :=
  if issues.isEmpty then []
  else (paint colored color s!"{issues.length} {label}:" ++ "\n") :: issueLines 1 issues

def reportLines (colored : Bool) (report : Report) : List String :=
  if report.errors.isEmpty && report.warnings.isEmpty then [paint colored .green "graph is valid" ++ "\n"]
  else
    sectionLines colored .red "error(s)" report.errors
      ++ sectionLines colored .yellow "warning(s)" report.warnings

end Render

/-- lines ready to print, with what they are about -/
structure Rendering where
  context : Option String
  lines : List String
  deriving DecidableEq

namespace Rendering

def joined (rendering : Rendering) : String :=
  String.join rendering.lines

def ofReport (colored : Bool) (report : Report) : Rendering :=
  { context := some "validation", lines := Render.reportLines colored report }

def ofFailure (colored : Bool) (failure : Failure) : Rendering :=
  { context := failure.node?.map NodeId.name, lines := Render.failureLines colored 0 failure }

end Rendering

end StepFlow
