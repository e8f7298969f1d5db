/-
Why a value is not the record of something.

Reading stops at the first fault. `ReadError.message` is the text of the fault; a fault of the wrong kind of value
names what was found (`Value.kindText`) and what was expected.
-/
import StepFlow.Text.Quoted
import StepFlow.Value.Basic

namespace StepFlow.Record

/-- a fault found while a record is read -/
inductive ReadError where
  | missingField (field : String)
  | wrongKind (found : Value) (expected : String)
  | outOfRange (found : Value) (expected : String)
  | tooShort (length : Nat) (expected : String)
  | tooLong (length : Nat)

/-- what a value is, as faults name it -/
def kindText : Value → String
  | .null => "null"
  | .bool b => "boolean `" ++ (if b then "true" else "false") ++ "`"
  | .int n => "integer `" ++ toString n ++ "`"
  | .float text => "floating point `" ++ text ++ "`"
  | .str s => "string " ++ Text.quoted s
  | .array _ => "sequence"
  | .object _ => "map"

/-- the text of a fault -/
def ReadError.message : ReadError → String
  | .missingField field => "missing field `" ++ field ++ "`"
  | .wrongKind found expected => "invalid type: " ++ kindText found ++ ", expected " ++ expected
  | .outOfRange found expected => "invalid value: " ++ kindText found ++ ", expected " ++ expected
  | .tooShort length expected => "invalid length " ++ toString length ++ ", expected " ++ expected
  | .tooLong length => "invalid length " ++ toString length ++ ", expected fewer elements in array"

def readString : Value → Except ReadError String
  | .str s => .ok s
  | found => .error (.wrongKind found "a string")

end StepFlow.Record
