/-
Quoted text, as it stands in messages and in one-line descriptions.

A text is put between double quotes. The quote and the backslash are written with a backslash, the common controls by
their letter, and every other unprintable character by its code point in lower-case hexadecimal. An apostrophe is
written as it is.
-/
import StepFlow.Text.Unprintable

namespace StepFlow.Text

/-- a number in lower-case hexadecimal, without leading zeros -/
def hexDigits (n : Nat) : String :=
  String.ofList (Nat.toDigits 16 n)

/-- the written form of one character between quotes -/
def quotedChar (c : Char) : String :=
  if c = '"' then "\\\""
  else if c = '\\' then "\\\\"
  else if c = '\t' then "\\t"
  else if c = '\r' then "\\r"
  else if c = '\n' then "\\n"
  else if c.toNat = 0 then "\\0"
  else if isUnprintable c then "\\u\x7b" ++ hexDigits c.toNat ++ "\x7d"
  else String.singleton c

def quoted (s : String) : String :=
  "\"" ++ String.join (s.toList.map quotedChar) ++ "\""

end StepFlow.Text
