/-
The two renderers of reports, and the two modes of rendering.

A report is written as a text and as lines, by functions of their own, and the lines are those of the text. Colour codes
stand in lines around some of their parts and change nothing else: they begin with the escape character, so if no other text
holds it they can be told from the rest of a line and deleted again (`withoutCodes`). Results:
- `joined_ofReport`: the plain lines of a report are its text;
- `withoutCodes_painted`: a painted part of a line, without codes, is the part itself;
- `map_withoutCodes_reportLines`, `map_withoutCodes_failureLines`: coloured lines without codes are plain lines;
- `renderers_agree`: all of it.
-/
import StepFlow.Proofs.Render.Blocks
import StepFlow.Proofs.Text.Characters

namespace StepFlow

/-! ## Lines and text of a report -/

namespace Render

theorem join_issueLines (number : Nat) (issues : List Issue) :
    String.join (issueLines number issues) = Report.sectionLines number issues := by
  induction issues generalizing number with
  | nil => rfl
  | cons issue rest ih => rw [issueLines, String.join_cons, ih, Report.sectionLines]

theorem join_sectionLines (color : Color) (label : String) (issues : List Issue) :
    String.join (sectionLines false color label issues) = Report.sectionText label issues := by
  rw [sectionLines, Report.sectionText]
  split_ifs with empty
  · rfl
  · rw [String.join_cons, join_issueLines]
    apply String.toList_inj.1
    simp [paint, toString]

theorem join_reportLines (report : Report) : String.join (reportLines false report) = report.text := by
  rw [reportLines, Report.text]
  split_ifs with empty
  · rfl
  · rw [String.join_append, join_sectionLines, join_sectionLines]

/-! ## Deleting colour codes -/

/-- the character that begins a colour code -/
def escape : Char := '\x1b'

/-- the codes that begin and end colours -/
def codes : List (List Char) :=
  [Color.red.code.toList, Color.green.code.toList, Color.yellow.code.toList, Color.magenta.code.toList, resetCode.toList]

/-- Deletes colour codes from characters; of a code that has begun so many characters are still to be deleted. -/
def deleteCodes : Nat → List Char → List Char
  | _, [] => []
  | pending + 1, _ :: rest => deleteCodes pending rest
  | 0, c :: rest =>
    match codes.find? (·.isPrefixOf (c :: rest)) with
    | some code => deleteCodes (code.length - 1) rest
    | none => c :: deleteCodes 0 rest

def withoutCodes (text : String) : String :=
  String.ofList (deleteCodes 0 text.toList)

theorem deleteCodes_code (color : Color) (rest : List Char) :
    deleteCodes 0 (color.code.toList ++ rest) = deleteCodes 0 rest := by
  cases color <;> rfl

theorem deleteCodes_reset (rest : List Char) : deleteCodes 0 (resetCode.toList ++ rest) = deleteCodes 0 rest := rfl

theorem no_code_begins {c : Char} (plain : c ≠ escape) (rest : List Char) :
    codes.find? (·.isPrefixOf (c :: rest)) = none := by
  rw [List.find?_eq_none]
  intro code mem
  have begins : ∃ more, code = escape :: more := by
    simp only [codes, List.mem_cons, List.not_mem_nil, or_false] at mem
    rcases mem with rfl | rfl | rfl | rfl | rfl <;> exact ⟨_, rfl⟩
  obtain ⟨more, rfl⟩ := begins
  simp [List.isPrefixOf, Ne.symm plain]

/-- Where the escape character is absent no code begins. -/
theorem deleteCodes_append {text : List Char} (plain : escape ∉ text) (rest : List Char) :
    deleteCodes 0 (text ++ rest) = text ++ deleteCodes 0 rest := by
  induction text with
  | nil => rfl
  | cons c text ih =>
    rw [List.mem_cons, not_or] at plain
    rw [List.cons_append, deleteCodes, no_code_begins (Ne.symm plain.1)]
    exact congrArg (c :: ·) (ih plain.2)

theorem deleteCodes_of_plain {text : List Char} (plain : escape ∉ text) : deleteCodes 0 text = text := by
  have same := deleteCodes_append plain []
  rwa [List.append_nil, deleteCodes, List.append_nil] at same

theorem deleteCodes_paint (colored : Bool) (color : Color) {text : String} (plain : escape ∉ text.toList)
    (rest : List Char) :
    deleteCodes 0 ((paint colored color text).toList ++ rest) = text.toList ++ deleteCodes 0 rest := by
  cases colored with
  | false => exact deleteCodes_append plain rest
  | true =>
    rw [paint, if_pos rfl, String.toList_append, String.toList_append, List.append_assoc, List.append_assoc,
      deleteCodes_code, deleteCodes_append plain, deleteCodes_reset]

theorem withoutCodes_of_plain {text : String} (plain : escape ∉ text.toList) : withoutCodes text = text := by
  rw [withoutCodes, deleteCodes_of_plain plain, String.ofList_toList]

/-- **A painted part of a line, without codes, is the part itself.** -/
theorem withoutCodes_painted (colored : Bool) (color : Color) {front text back : String} (ahead : escape ∉ front.toList)
    (inside : escape ∉ text.toList) (behind : escape ∉ back.toList) :
    withoutCodes (front ++ paint colored color text ++ back) = front ++ text ++ back := by
  rw [withoutCodes, String.toList_append, String.toList_append, List.append_assoc, deleteCodes_append ahead,
    deleteCodes_paint colored color inside, deleteCodes_of_plain behind, String.ofList_append, String.ofList_append,
    String.ofList_toList, String.ofList_toList, String.ofList_toList, String.append_assoc]

end Render

/-! ## Texts that messages are made of -/

def Issue.texts : Issue → List String
  | .missingEntry => []
  | .noAdvancers node => [node.name]
  | .missingType node _ => [node.name]
  | .missingTarget source _ target => [source.name, target.name]
  | .directTypeMismatch source target output input => [source.name, target.name, output, input]
  | .converterTypeMismatch source target returns input => [source.name, target.name, returns, input]
  | .entryContractMismatch entry declared input => [entry.name, declared, input]
  | .resultContractMismatch result output declared => [result.name, output, declared]
  | .unguardedAdvancer source _ target => [source.name, target.name]
  | .unreachable node entry => [node.name, entry.name]
  | .missingResult => []

def StepError.texts : StepError → List String
  | .missingInput what => [what]
  | .encoding text causes => text :: causes
  | .other text => [text]

/-- the names, texts and numerals that a failure itself holds, those of its branches apart -/
def Failure.texts : Failure → List String
  | .noEntry => []
  | .unknownNode source target => [source.name, target.name]
  | .step node error => node.name :: error.texts
  | .conversion source target error => [source.name, target.name, error.reason]
  | .deadEnd node => [node.name]
  | .typeViolation node _ expected value => node.name :: expected :: value.numerals
  | .stepLimitExceeded _ node => [node.name]
  | .cancelled node => [node.name]
  | .panicked node message => [node.name, message]
  | .parallelBranches node _ completed =>
    node.name :: completed.flatMap fun output => output.node.name :: output.value.numerals

namespace Render

/-- none of the texts holds the escape character -/
def Plain (texts : List String) : Prop :=
  ∀ text ∈ texts, escape ∉ text.toList

theorem plain_cons_iff {text : String} {texts : List String} :
    Plain (text :: texts) ↔ escape ∉ text.toList ∧ Plain texts :=
  List.forall_mem_cons

theorem escape_control : Text.IsControl escape := by decide

theorem escape_not_mem_numeral (n : Nat) : escape ∉ (toString n).toList :=
  Text.control_not_mem_numeral escape_control n

theorem escape_not_mem_compact {value : Value} (plain : Plain value.numerals) : escape ∉ value.compact.toList :=
  Value.control_not_mem_compact escape_control value plain

theorem escape_not_mem_word {text : String} (printable : (text.toList.all fun c => 0x20 ≤ c.toNat) = true) :
    escape ∉ text.toList :=
  Text.control_not_mem escape_control printable

theorem toString_id (id : NodeId) : toString id = id.name := rfl

theorem toString_text (text : String) : toString text = text := rfl

theorem escape_not_mem_port (port : Port) : escape ∉ port.text.toList := by
  cases port <;> decide

/-- The message of an issue is made of words, numerals and the texts that the issue mentions. -/
theorem plain_issue_message {issue : Issue} (plain : Plain issue.texts) : escape ∉ issue.message.toList := by
  unfold Issue.message
  cases issue <;>
    simp only [Issue.texts, plain_cons_iff] at plain <;>
    simp (disch := decide +kernel) only [Text.mem_append_iff, toString_id, toString_text, escape_not_mem_word, plain,
      escape_not_mem_numeral, escape_not_mem_port, or_false, not_false_eq_true]

theorem plain_error_message {error : StepError} (plain : Plain error.texts) : escape ∉ error.message.toList := by
  unfold StepError.message
  cases error <;>
    simp only [StepError.texts, plain_cons_iff] at plain <;>
    simp (disch := decide +kernel) only [Text.mem_append_iff, escape_not_mem_word, plain, or_false, not_false_eq_true]

theorem plain_conversion_message {error : ConversionError} (plain : escape ∉ error.reason.toList) :
    escape ∉ error.message.toList :=
  Text.not_mem_append (by decide) plain

/-- The message of a failure is made of words, numerals and the texts that the failure holds. -/
theorem plain_failure_message {failure : Failure} (plain : Plain failure.texts) : escape ∉ failure.message.toList := by
  unfold Failure.message
  cases failure with
  | step node error =>
    have message := plain_error_message (plain_cons_iff.1 plain).2
    simp only [Failure.texts, plain_cons_iff] at plain
    simp (disch := decide +kernel) only [Text.mem_append_iff, toString_id, toString_text, escape_not_mem_word, plain,
      message, or_false, not_false_eq_true]
  | conversion source target error =>
    simp only [Failure.texts, plain_cons_iff] at plain
    have message := plain_conversion_message plain.2.2.1
    simp (disch := decide +kernel) only [Text.mem_append_iff, toString_id, toString_text, escape_not_mem_word, plain,
      message, or_false, not_false_eq_true]
  | typeViolation node port expected value =>
    simp only [Failure.texts, plain_cons_iff] at plain
    have compact := escape_not_mem_compact plain.2.2
    simp (disch := decide +kernel) only [Text.mem_append_iff, toString_id, toString_text, escape_not_mem_word, plain,
      compact, escape_not_mem_port, or_false, not_false_eq_true]
  | _ =>
    simp only [Failure.texts, plain_cons_iff] at plain
    simp (disch := decide +kernel) only [Text.mem_append_iff, toString_id, toString_text, escape_not_mem_word, plain,
      escape_not_mem_numeral, or_false, not_false_eq_true]

theorem plain_causes {failure : Failure} (plain : Plain failure.texts) : Plain failure.causes := by
  cases failure with
  | step node error =>
    have texts := (plain_cons_iff.1 plain).2
    refine plain_cons_iff.2 ⟨plain_error_message texts, ?_⟩
    cases error with
    | encoding text causes => exact (plain_cons_iff.1 texts).2
    | _ => exact fun _ mem => nomatch mem
  | conversion source target error =>
    have reason := (plain_cons_iff.1 (plain_cons_iff.1 (plain_cons_iff.1 plain).2).2).1
    exact plain_cons_iff.2 ⟨plain_conversion_message reason, fun _ mem => nomatch mem⟩
  | _ => exact fun _ mem => nomatch mem

theorem plain_partialOutputs {failure : Failure} (plain : Plain failure.texts) {output : Output}
    (mem : output ∈ failure.partialOutputs) : escape ∉ output.node.name.toList ∧ Plain output.value.numerals := by
  cases failure with
  | parallelBranches node failures completed =>
    have texts := (plain_cons_iff.1 plain).2
    exact plain_cons_iff.1 fun text among => texts text (List.mem_flatMap.2 ⟨output, mem, among⟩)
  | _ => cases mem

/-! ## Lines without colours -/

theorem escape_not_mem_pad (depth : Nat) : escape ∉ (pad depth).toList := by
  induction depth with
  | zero => decide
  | succ depth ih => exact Text.not_mem_append (by decide) ih

variable (colored : Bool)

theorem map_withoutCodes_issueLines {number : Nat} {issues : List Issue} (plain : ∀ issue ∈ issues, Plain issue.texts) :
    (issueLines number issues).map withoutCodes = issueLines number issues := by
  induction issues generalizing number with
  | nil => rfl
  | cons issue rest ih =>
    rw [List.forall_mem_cons] at plain
    have line : escape ∉ ("  " ++ toString number ++ ". " ++ issue.message ++ "\n").toList :=
      Text.not_mem_append (Text.not_mem_append (Text.not_mem_append (Text.not_mem_append (by decide)
        (escape_not_mem_numeral number)) (by decide)) (plain_issue_message plain.1)) (by decide)
    exact List.cons_eq_cons.2 ⟨withoutCodes_of_plain line, ih plain.2⟩

/-- a painted part with nothing in front and the end of the line behind it -/
theorem withoutCodes_heading (color : Color) {text : String} (plain : escape ∉ text.toList) :
    withoutCodes (paint colored color text ++ "\n") = paint false color text ++ "\n" := by
  have line := @withoutCodes_painted colored color "" text "\n" (by decide) plain (by decide)
  rwa [String.empty_append, String.empty_append] at line

theorem map_withoutCodes_sectionLines (color : Color) (label : String) {issues : List Issue}
    (heading : escape ∉ label.toList) (plain : ∀ issue ∈ issues, Plain issue.texts) :
    (sectionLines colored color label issues).map withoutCodes = sectionLines false color label issues := by
  rw [sectionLines, sectionLines]
  split_ifs with empty
  · rfl
  · have text : escape ∉ (toString issues.length ++ " " ++ label ++ ":").toList :=
      Text.not_mem_append (Text.not_mem_append (Text.not_mem_append (escape_not_mem_numeral _) (by decide)) heading)
        (by decide)
    exact List.cons_eq_cons.2 ⟨withoutCodes_heading colored color text, map_withoutCodes_issueLines plain⟩

/-- **The coloured lines of a report, without codes, are its plain lines.** -/
theorem map_withoutCodes_reportLines {report : Report} (errors : ∀ issue ∈ report.errors, Plain issue.texts)
    (warnings : ∀ issue ∈ report.warnings, Plain issue.texts) :
    (reportLines colored report).map withoutCodes = reportLines false report := by
  rw [reportLines, reportLines]
  split_ifs with empty
  · exact List.cons_eq_cons.2 ⟨withoutCodes_heading colored .green (by decide), rfl⟩
  · rw [List.map_append, map_withoutCodes_sectionLines colored .red _ (by decide) errors,
      map_withoutCodes_sectionLines colored .yellow _ (by decide) warnings]

theorem map_withoutCodes_causeLines (depth : Nat) {shown : String} {causes : List String} (plain : Plain causes) :
    (causeLines colored depth shown causes).map withoutCodes = causeLines false depth shown causes := by
  induction causes generalizing shown with
  | nil => rfl
  | cons cause rest ih =>
    rw [plain_cons_iff] at plain
    rw [causeLines, causeLines]
    split_ifs with folded
    · exact ih plain.2
    · have line := withoutCodes_painted colored .magenta (escape_not_mem_pad (depth + 1))
        (Text.not_mem_append (by decide : escape ∉ "cause: ".toList) plain.1) (by decide : escape ∉ "\n".toList)
      exact List.cons_eq_cons.2 ⟨line, ih plain.2⟩

theorem withoutCodes_completedLine (depth : Nat) {output : Output} (node : escape ∉ output.node.name.toList)
    (value : Plain output.value.numerals) :
    withoutCodes (completedLine colored depth output) = completedLine false depth output := by
  have behind : escape ∉ (" " ++ output.node.name ++ " = " ++ output.value.compact ++ "\n").toList :=
    Text.not_mem_append (Text.not_mem_append (Text.not_mem_append (Text.not_mem_append (by decide) node) (by decide))
      (escape_not_mem_compact value)) (by decide)
  exact withoutCodes_painted colored .green (escape_not_mem_pad (depth + 1)) (by decide) behind

/-- **The coloured lines of a failure, without codes, are its plain lines.** By induction on the tree. -/
theorem map_withoutCodes_failureLines (failure : Failure) :
    ∀ depth, (∀ entry ∈ failure.nested depth, Plain entry.2.texts) →
      (failureLines colored depth failure).map withoutCodes = failureLines false depth failure := by
  induction failure using Failure.inner_induction with
  | step failure ih =>
    intro depth plain
    rw [Failure.nested_eq, List.forall_mem_cons] at plain
    obtain ⟨own, branches⟩ := plain
    have headline := withoutCodes_painted colored .red (escape_not_mem_pad depth) (plain_failure_message own)
      (by decide : escape ∉ "\n".toList)
    have completed : failure.partialOutputs.map (withoutCodes ∘ completedLine colored depth) =
        failure.partialOutputs.map (completedLine false depth) := by
      refine List.map_congr_left fun output mem => ?_
      obtain ⟨node, value⟩ := plain_partialOutputs own mem
      exact withoutCodes_completedLine colored depth node value
    have inside : failure.inner.flatMap (fun branch => (failureLines colored (depth + 1) branch).map withoutCodes) =
        failure.inner.flatMap (failureLines false (depth + 1)) := by
      refine List.flatMap_congr fun branch mem => ih branch mem (depth + 1) fun entry among => ?_
      exact branches entry (List.mem_flatMap.2 ⟨branch, mem, among⟩)
    rw [failureLines_eq, failureLines_eq, List.map_append, List.map_append, List.map_cons, headline,
      map_withoutCodes_causeLines colored depth (plain_causes own), List.map_map, completed, List.map_flatMap, inside]
    rfl

end Render

/-! ## Agreement -/

/-- the second rendering is the first one without its colours: line by line, and about the same -/
structure Rendering.Uncolored (rendering plain : Rendering) : Prop where
  lines : rendering.lines.map Render.withoutCodes = plain.lines
  length : rendering.lines.length = plain.lines.length
  context : rendering.context = plain.context

theorem Rendering.Uncolored.of_lines {rendering plain : Rendering}
    (lines : rendering.lines.map Render.withoutCodes = plain.lines) (context : rendering.context = plain.context) :
    rendering.Uncolored plain where
  lines := lines
  length := by rw [← lines, List.length_map]
  context := context

/-- **The renderers agree.** The plain lines of any report, joined, are its text. If no name and no type that its issues
mention holds the escape character, its coloured lines are the plain ones once the colour codes are deleted, line by line;
and so are those of a failure, if none of the failures in it holds the escape character in a name, a message, a cause or a
numeral, whatever strings there are in its values. Neither depends on where the lines go. -/
theorem renderers_agree (terminal : Bool) :
    (∀ report : Report, (Rendering.ofReport (ColorMode.plain.isColored terminal) report).joined = report.text) ∧
      (∀ report : Report, (∀ issue ∈ report.errors ++ report.warnings, Render.Plain issue.texts) →
        (Rendering.ofReport (ColorMode.colored.isColored terminal) report).Uncolored
          (Rendering.ofReport (ColorMode.plain.isColored terminal) report)) ∧
      ∀ failure : Failure, (∀ entry ∈ failure.nested 0, Render.Plain entry.2.texts) →
        (Rendering.ofFailure (ColorMode.colored.isColored terminal) failure).Uncolored
          (Rendering.ofFailure (ColorMode.plain.isColored terminal) failure) := by
  refine ⟨Render.join_reportLines, fun report plain => ?_, fun failure plain => ?_⟩
  · obtain ⟨errors, warnings⟩ := List.forall_mem_append.1 plain
    exact .of_lines (Render.map_withoutCodes_reportLines true errors warnings) rfl
  · exact .of_lines (Render.map_withoutCodes_failureLines true failure 0 plain) rfl

def mixedReport : Report :=
  { errors := [.missingTarget ⟨"a"⟩ 0 ⟨"gone"⟩], warnings := [.unreachable ⟨"b"⟩ ⟨"a"⟩] }

/-- a failure two fan-outs deep, beside an output that holds the escape character -/
def deepFailure : Failure :=
  .parallelBranches ⟨"a"⟩
    [.parallelBranches ⟨"b"⟩ [.step ⟨"d"⟩ (.encoding "read: gone" ["gone", "no disk"])]
      [⟨⟨"e"⟩, .float "1.5", [0, 1]⟩]]
    [⟨⟨"c"⟩, .str "\x1b", [1]⟩]

theorem renderers_agree_deep :
    (∀ issue ∈ mixedReport.errors ++ mixedReport.warnings, Render.Plain issue.texts) ∧
      (Rendering.ofReport true mixedReport).Uncolored (Rendering.ofReport false mixedReport) ∧
      (∀ entry ∈ deepFailure.nested 0, Render.Plain entry.2.texts) ∧
      (Rendering.ofFailure true deepFailure).Uncolored (Rendering.ofFailure false deepFailure) := by
  obtain ⟨-, reports, failures⟩ := renderers_agree false
  have issues : ∀ issue ∈ mixedReport.errors ++ mixedReport.warnings, Render.Plain issue.texts := by
    simp +decide [mixedReport, Render.Plain, Issue.texts]
  have texts : ∀ entry ∈ deepFailure.nested 0, Render.Plain entry.2.texts := by
    simp +decide [deepFailure, Failure.nested, Failure.nestedEach, Render.Plain, Failure.texts, StepError.texts]
  exact ⟨issues, reports mixedReport issues, texts, failures deepFailure texts⟩

/-- A name that holds a colour code loses it together with the colours. -/
example :
    ¬(Rendering.ofFailure true (.cancelled ⟨"\x1b[0m"⟩)).Uncolored
      (Rendering.ofFailure false (.cancelled ⟨"\x1b[0m"⟩)) := by
  intro agree
  exact absurd agree.lines (by decide)

end StepFlow
