/-
Settings of a run, and how they are read from the environment.

A run has a limit on its steps, or none, and may check every value against the declared types. Both settings can come
from variables of the environment, or from a file that fills in for the variables that are unset or hold no readable
text. A limit is the word "none" or a natural number below two to the 64th, where zero means no limit; a switch is one
of a few words. A text of any other form leaves the default in place.
-/
import StepFlow.Text.Blank

namespace StepFlow

/-- the settings of a run -/
structure Config where
  /-- the largest number of steps of all branches together; none for no limit -/
  maxSteps : Option Nat := some 10000
  /-- whether inputs and outputs are checked against the declared types -/
  checkValues : Bool := false
  deriving DecidableEq

/-- what a variable holds -/
inductive Setting where
  | unset
  | unreadable
  | text (s : String)
  deriving DecidableEq

/-- A variable without readable text takes its value from the file, if the file has one. -/
def Setting.orFile : Setting → Option String → Setting
  | .text s, _ => .text s
  | setting, none => setting
  | _, some s => .text s

/-- the text of a variable, if it has one -/
def Setting.text? : Setting → Option String
  | .text s => some s
  | _ => none

namespace Config

/-- Goes on reading a decimal number after `value`; a number of 64 bits or fewer is the only one read. -/
def readDigits : Nat → List Char → Option Nat
  | value, [] => some value
  | value, c :: rest =>
    if c.isDigit then
      let next := 10 * value + (c.toNat - '0'.toNat)
      if next < 2 ^ 64 then readDigits next rest else none
    else none

/-- Reads a natural number: digits, after a plus sign if there is one. -/
def readNatural : List Char → Option Nat
  | [] => none
  | '+' :: c :: rest => readDigits 0 (c :: rest)
  | cs => readDigits 0 cs

/-- Reads a limit: the outer option is for texts of another form, the inner one for no limit. -/
def readLimit (text : String) : Option (Option Nat) :=
  let cs := Text.trimChars text.toList
  if cs.map Char.toLower = ['n', 'o', 'n', 'e'] then some none
  else (readNatural cs).map fun n => if n = 0 then none else some n

def readSwitch (text : String) : Option Bool :=
  let word := String.ofList ((Text.trimChars text.toList).map Char.toLower)
  if word ∈ ["1", "true", "yes", "on"] then some true
  else if word ∈ ["0", "false", "no", "off"] then some false
  else none

/-- the settings that two variables give -/
def ofSettings (limit switch : Setting) : Config :=
  let defaults : Config := {}
  { maxSteps := (limit.text?.bind readLimit).getD defaults.maxSteps,
    checkValues := (switch.text?.bind readSwitch).getD defaults.checkValues }

/-- the settings that two variables give, each with what the file holds for it -/
def load (limit switch : Setting) (limitInFile switchInFile : Option String) : Config :=
  ofSettings (limit.orFile limitInFile) (switch.orFile switchInFile)

def withMaxSteps (config : Config) (maxSteps : Option Nat) : Config :=
  { config with maxSteps := maxSteps }

def withValueChecks (config : Config) (checkValues : Bool) : Config :=
  { config with checkValues := checkValues }

/-- the limit that a step with this number is beyond, if there is one -/
def limitBefore (config : Config) (number : Nat) : Option Nat :=
  config.maxSteps.filter fun limit => limit < number

theorem limitBefore_eq_none_iff {config : Config} {number : Nat} :
    config.limitBefore number = none ↔ ∀ limit, config.maxSteps = some limit → number ≤ limit := by
  simp [limitBefore, Option.filter_eq_none_iff]

theorem limitBefore_eq_some_iff {config : Config} {number limit : Nat} :
    config.limitBefore number = some limit ↔ config.maxSteps = some limit ∧ limit < number := by
  simp [limitBefore, Option.filter_eq_some_iff]

end Config

end StepFlow
