/-
Values that travel along a graph.

A value is null, a boolean, an integer, a floating-point number, a string, an array or an object. A floating-point
number is carried as its decimal text. The fields of an object are kept in the order of their keys, each key once;
`Value.ofFields` builds an object from fields in any order, the last of equal keys winning. `Value.same` is equality
of values: integers and floating-point numbers never agree, and of different texts only the two zeros denote the same
number.
-/

namespace StepFlow

/-- a runtime value -/
inductive Value where
  | null
  | bool (b : Bool)
  | int (n : Int)
  | float (text : String)
  | str (s : String)
  | array (items : List Value)
  | object (fields : List (String × Value))
  deriving Inhabited

namespace Value

/-- the largest integer that fits a signed word of 32 bits -/
def maxInt32 : Int := 2147483647

/-- the largest integer that fits a signed word of 64 bits -/
def maxInt64 : Int := 9223372036854775807

/-- whether an integer fits a signed word with the given largest value -/
def fitsWord (largest n : Int) : Bool :=
  decide (-largest - 1 ≤ n) && decide (n ≤ largest)

/-- the integer of a value, if it is one that fits a signed word of 64 bits -/
def int64? : Value → Option Int
  | .int n => if fitsWord maxInt64 n then some n else none
  | _ => none

def isNull : Value → Bool
  | .null => true
  | _ => false

def isBool : Value → Bool
  | .bool _ => true
  | _ => false

def isNumber : Value → Bool
  | .int _ => true
  | .float _ => true
  | _ => false

def isString : Value → Bool
  | .str _ => true
  | _ => false

/-- Puts a field into fields ordered by key; a field with the same key is replaced. -/
def insertField (key : String) (value : Value) : List (String × Value) → List (String × Value)
  | [] => [(key, value)]
  | (k, v) :: rest =>
    if key = k then (key, value) :: rest
    else if key < k then (key, value) :: (k, v) :: rest
    else (k, v) :: insertField key value rest

/-- the object with the given fields; of fields with the same key the last one counts -/
def ofFields (fields : List (String × Value)) : Value :=
  .object (fields.foldl (fun sorted field => insertField field.1 field.2 sorted) [])

/-- the member of an object under a key -/
def member? (key : String) : Value → Option Value
  | .object fields => fields.lookup key
  | _ => none

/-- whether a decimal text denotes zero with either sign -/
def isZeroText (text : String) : Bool :=
  text == "0.0" || text == "-0.0"

mutual

/-- Equality of values: the two zeros agree, an integer and a floating-point number never do. -/
def same : Value → Value → Bool
  | .null, .null => true
  | .bool a, .bool b => a == b
  | .int a, .int b => a == b
  | .float a, .float b => a == b || isZeroText a && isZeroText b
  | .str a, .str b => a == b
  | .array as, .array bs => sameItems as bs
  | .object as, .object bs => sameFields as bs
  | _, _ => false

def sameItems : List Value → List Value → Bool
  | [], [] => true
  | a :: as, b :: bs => same a b && sameItems as bs
  | _, _ => false

def sameFields : List (String × Value) → List (String × Value) → Bool
  | [], [] => true
  | (j, a) :: as, (k, b) :: bs => j == k && same a b && sameFields as bs
  | _, _ => false

end

end Value

end StepFlow
