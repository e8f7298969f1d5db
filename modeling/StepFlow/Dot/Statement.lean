/-
Statements of DOT.

The text of a graph is a list of statements between braces. A statement sets an attribute of the graph, or has a head, a key
word, a vertex or two vertices joined by an arrow, and attributes between brackets. An attribute is a name with a value.
What is read is the part of the language without names of graphs, subgraphs and ports, with key words in lower case.
-/
import StepFlow.Dot.Token

namespace StepFlow.Dot

/-- a name with a value -/
structure Attribute where
  name : Ident
  value : Ident
  deriving DecidableEq

/-- what a statement is about: the graph itself, whatever a key word stands for, a vertex or a link -/
inductive Head where
  | graph
  | defaults (keyword : String)
  | vertex (id : Ident)
  | link (source target : Ident)
  deriving DecidableEq

structure Statement where
  head : Head
  attributes : List Attribute := []
  deriving DecidableEq

/-- the head that stands alone before attributes -/
def Head.ofIdent : Ident → Head
  | .word text => if text ∈ ["graph", "node", "edge"] then .defaults text else .vertex (.word text)
  | id => .vertex id

def Statement.add (statement : Statement) (name value : Ident) : Statement :=
  { statement with attributes := statement.attributes ++ [⟨name, value⟩] }

/-- The statements up to the closing brace, which is the last token. If there is an open statement, its attributes come first.
-/
def statements : Option Statement → List Token → Option (List Statement)
  | none, [.mark .closeBrace] => some []
  | none, .mark .semicolon :: rest => statements none rest
  | none, .ident name :: .mark .equals :: .ident value :: rest =>
    (statements none rest).map (({ head := .graph } : Statement).add name value :: ·)
  | none, .ident source :: .mark .arrow :: .ident target :: .mark .openBracket :: rest =>
    statements (some { head := .link source target }) rest
  | none, .ident id :: .mark .openBracket :: rest => statements (some { head := .ofIdent id }) rest
  | some statement, .mark .closeBracket :: rest => (statements none rest).map (statement :: ·)
  | some statement, .ident name :: .mark .equals :: .ident value :: .mark .comma :: rest =>
    statements (some (statement.add name value)) rest
  | some statement, .ident name :: .mark .equals :: .ident value :: rest =>
    statements (some (statement.add name value)) rest
  | _, _ => none

def document : List Token → Option (List Statement)
  | .ident (.word "digraph") :: .mark .openBrace :: rest => statements none rest
  | _ => none

def read (text : String) : Option (List Statement) :=
  (tokens text).bind document

/-- An escaped quote stays in its string; an open one ends it. -/
example : read "digraph \x7b 0 [label=\"a\\\"b\"]; \x7d" =
      some [{ head := .vertex (.word "0"), attributes := [⟨.word "label", .quoted "a\\\"b"⟩] }] ∧
    read "digraph \x7b 0 [label=\"a\"b\"]; \x7d" = none := by
  decide

end StepFlow.Dot
