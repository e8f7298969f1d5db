/-
The compact text of a value.

No spaces, fields in the order of their keys, numbers as they are, strings between double quotes. In a string the
quote, the backslash and five controls have short escapes, the other controls below U+0020 are written by their code
point in four hexadecimal digits, and everything else stands as it is.
-/
import StepFlow.Value.Basic

namespace StepFlow.Value

/-- a code point below U+0100 as four lower-case hexadecimal digits -/
def fourHexDigits (n : Nat) : String :=
  String.ofList ['0', '0', Nat.digitChar (n / 16), Nat.digitChar (n % 16)]

/-- the compact form of one character of a string -/
def compactChar (c : Char) : String :=
  if c = '"' then "\\\""
  else if c = '\\' then "\\\\"
  else if c = '\n' then "\\n"
  else if c = '\r' then "\\r"
  else if c = '\t' then "\\t"
  else if c.toNat = 0x08 then "\\b"
  else if c.toNat = 0x0C then "\\f"
  else if c.toNat < 0x20 then "\\u" ++ fourHexDigits c.toNat
  else String.singleton c

def compactString (s : String) : String :=
  "\"" ++ String.join (s.toList.map compactChar) ++ "\""

mutual

/-- the compact text of a value -/
def compact : Value → String
  | .null => "null"
  | .bool b => if b then "true" else "false"
  | .int n => toString n
  | .float text => text
  | .str s => compactString s
  | .array items => "[" ++ String.intercalate "," (compactItems items) ++ "]"
  | .object fields => "\x7b" ++ String.intercalate "," (compactFields fields) ++ "\x7d"

def compactItems : List Value → List String
  | [] => []
  | item :: rest => compact item :: compactItems rest

def compactFields : List (String × Value) → List String
  | [] => []
  | (key, value) :: rest => (compactString key ++ ":" ++ compact value) :: compactFields rest

end

end StepFlow.Value
