/-
Tokens of DOT.

A DOT text is read character by character. Outside of strings blanks separate tokens, letters, digits and underscores make
words, and the marks stand for themselves. A quote opens a string, which ends at the first quote that no backslash escapes; a
backslash that is escaped itself escapes nothing, and everything else in a string stands for itself. Comments, markup strings
and joined strings are not read.
-/

namespace StepFlow.Dot

/-- a name or a value: a word, or what stands between quotes -/
inductive Ident where
  | word (text : String)
  | quoted (text : String)
  deriving DecidableEq

inductive Mark where
  | openBrace
  | closeBrace
  | openBracket
  | closeBracket
  | equals
  | comma
  | semicolon
  | arrow
  deriving DecidableEq

inductive Token where
  | ident (ident : Ident)
  | mark (mark : Mark)
  deriving DecidableEq

/-- the mark that a character makes on its own -/
def Mark.ofChar? : Char → Option Mark
  | '\x7b' => some .openBrace
  | '\x7d' => some .closeBrace
  | '[' => some .openBracket
  | ']' => some .closeBracket
  | '=' => some .equals
  | ',' => some .comma
  | ';' => some .semicolon
  | _ => none

def isWordChar (c : Char) : Bool :=
  c.isAlphanum || c == '_'

/-- Whether the next character is escaped, by the characters before it, the latest one first: it is if they begin with a
backslash that is not escaped itself. -/
def escaping : List Char → Bool
  | [] => false
  | c :: before => c == '\\' && !escaping before

/-- where a lexer stands: between tokens, in a word, behind a hyphen or in a string, with what it has seen of a word or of a
string, the latest character first -/
inductive Place where
  | between
  | word (seen : List Char)
  | hyphen
  | string (seen : List Char)

/-- a lexer with the tokens that it has read, the latest one first -/
structure Lexer where
  place : Place := .between
  tokens : List Token := []

namespace Lexer

def wordOf (seen : List Char) : Token :=
  .ident (.word (String.ofList seen.reverse))

/-- Reads a character that belongs to no token yet. -/
def start (tokens : List Token) (c : Char) : Option Lexer :=
  if c.isWhitespace then some { tokens := tokens }
  else if c == '"' then some { place := .string [], tokens := tokens }
  else if isWordChar c then some { place := .word [c], tokens := tokens }
  else if c == '-' then some { place := .hyphen, tokens := tokens }
  else (Mark.ofChar? c).map fun mark => { tokens := .mark mark :: tokens }

def step (lexer : Lexer) (c : Char) : Option Lexer :=
  match lexer.place with
  | .between => start lexer.tokens c
  | .word seen =>
    if isWordChar c then some { lexer with place := .word (c :: seen) } else start (wordOf seen :: lexer.tokens) c
  | .hyphen => if c == '>' then some { tokens := .mark .arrow :: lexer.tokens } else none
  | .string seen =>
    if c == '"' && !escaping seen then
      some { tokens := .ident (.quoted (String.ofList seen.reverse)) :: lexer.tokens }
    else some { lexer with place := .string (c :: seen) }

def run (lexer : Lexer) (text : List Char) : Option Lexer :=
  text.foldlM step lexer

/-- the tokens of a lexer at the end of its text, unless it is in the middle of one -/
def finish (lexer : Lexer) : Option (List Token) :=
  match lexer.place with
  | .between => some lexer.tokens.reverse
  | .word seen => some (wordOf seen :: lexer.tokens).reverse
  | _ => none

end Lexer

def tokens (text : String) : Option (List Token) :=
  (Lexer.run {} text.toList).bind Lexer.finish

end StepFlow.Dot
