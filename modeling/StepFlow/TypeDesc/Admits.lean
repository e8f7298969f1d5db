/-
Which values a type admits.

The built-in types are checked against the structure of the value, to any depth; a map is admitted only if strings may
be supplied as its keys. A type of the user's, and a built-in name with an unusual number of parameters, admits every
value.
-/
import StepFlow.TypeDesc.Satisfies
import StepFlow.Value.Basic

namespace StepFlow.TypeDesc

/-- the values of a type without parameters -/
def plainAdmits (name : String) (value : Value) : Bool :=
  if name = "Unit" then value.isNull
  else if name = "Bool" then value.isBool
  else if name = "Int32" then value.int64?.any (Value.fitsWord Value.maxInt32)
  else if name = "Int64" then value.int64?.isSome
  else if name = "Float64" then value.isNumber
  else if name = "String" then value.isString
  else true

/-- whether a value is a plausible inhabitant of the type -/
def admits : TypeDesc → Value → Bool
  | ⟨name, [], _⟩, value => plainAdmits name value
  | ⟨name, [inner], _⟩, value =>
    if name = "List" then
      match value with
      | .array items => items.all fun item => admits inner item
      | _ => false
    else if name = "Option" then value.isNull || admits inner value
    else true
  | ⟨name, [key, inner], _⟩, value =>
    if name = "Map" then
      satisfies string key &&
        match value with
        | .object fields => fields.all fun field => admits inner field.2
        | _ => false
    else true
  | ⟨_, _ :: _ :: _ :: _, _⟩, _ => true

end StepFlow.TypeDesc
