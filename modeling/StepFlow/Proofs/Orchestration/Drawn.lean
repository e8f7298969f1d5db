/-
The DOT text of a graph, read back.

A graph says what its text should mean: a statement for each vertex of its topology and one for each link, whose labels are
the texts that were meant as labels (`Orchestration.statements`). Names stand in the text as they are, so a label with a quote
that nothing escapes, or with a backslash at its end that escapes the quote behind it, is not read as one string. Results:
- `dot_reads_back`: if every label is sealed the text is read back as what it should mean;
- `sealed_of_dot`: and only then;
- `dot_reads_back_iff`: both;
- `dot_breaks`: a quote in a name breaks the text;
- `dot_reads_back_of_names`: labels are sealed in a graph whose names are.
-/
import StepFlow.Orchestration.Dot
import StepFlow.Proofs.Dot.Reading
import StepFlow.Proofs.Orchestration.Charted
import StepFlow.Proofs.Text.Characters

namespace StepFlow

open Dot (Lexes Lexer Token Mark Ident Attribute Statement Sealed)

/-! ## What the text should mean -/

def Link.statement (link : Link) : Statement :=
  { head := .link (.word (toString link.source)) (.word (toString link.target)),
    attributes :=
      link.convertsTo.toList.map (fun type => ⟨.word "label", .quoted type⟩)
        ++ if link.guarded then [] else [⟨.word "style", .quoted "dashed"⟩] }

namespace Orchestration

def vertexMarks (graph : Orchestration) (id : NodeId) : List Attribute :=
  if graph.entry = some id then [⟨.word "style", .quoted "filled"⟩, ⟨.word "fillcolor", .quoted "lightgreen"⟩]
  else if graph.result = some id then [⟨.word "style", .quoted "filled"⟩, ⟨.word "fillcolor", .quoted "lightcoral"⟩]
  else if !graph.contains id then [⟨.word "style", .quoted "dashed"⟩]
  else []

def vertexStatement (graph : Orchestration) (index : Nat) (id : NodeId) : Statement :=
  { head := .vertex (.word (toString index)),
    attributes := ⟨.word "label", .quoted (graph.vertexLabel id)⟩ :: graph.vertexMarks id }

def vertexStatements (graph : Orchestration) (index : Nat) (names : List NodeId) : List Statement :=
  (names.zipIdx index).map fun entry => graph.vertexStatement entry.2 entry.1

def layout : List Statement :=
  [{ head := .graph, attributes := [⟨.word "rankdir", .word "TB"⟩] },
    { head := .defaults "node", attributes := [⟨.word "shape", .word "box"⟩, ⟨.word "style", .word "rounded"⟩] }]

/-- the statements on the vertices of the topology and on its links, each in their order -/
def drawing (graph : Orchestration) : List Statement :=
  graph.vertexStatements 0 graph.topology.names ++ graph.topology.links.map Link.statement

/-- the statements that the text of a graph should make -/
def statements (graph : Orchestration) : List Statement :=
  layout ++ graph.drawing

/-- the texts that are meant as labels: of vertices, and of links with a converter -/
def labels (graph : Orchestration) : List String :=
  graph.topology.names.map graph.vertexLabel ++ graph.topology.links.filterMap Link.convertsTo

end Orchestration

/-! ## Numerals -/

theorem lexes_numeral (n : Nat) : Lexes ((toString n).toList ++ [' ']) [.ident (.word (toString n))] := by
  intro before
  have word : ∀ c ∈ (toString n).toList, Dot.isWordChar c = true := fun c mem => by
    simp [Dot.isWordChar, Char.isAlphanum, isDigit_of_mem_numeral mem]
  have nonempty : (toString n).toList ≠ [] := by
    rw [Nat.toString_eq_ofList_toDigits, String.toList_ofList]
    exact Nat.toDigits_ne_nil
  have ends (seen : List Char) : Lexer.run ⟨.word seen, before⟩ [' '] = some ⟨.between, Lexer.wordOf seen :: before⟩ := rfl
  rw [Lexer.run_append (Lexer.run_first_word nonempty word before), ends, Lexer.wordOf,
    List.reverse_reverse, String.ofList_toList]
  rfl

theorem ofIdent_numeral (n : Nat) : Dot.Head.ofIdent (.word (toString n)) = .vertex (.word (toString n)) := by
  have letters : ∀ keyword ∈ ["graph", "node", "edge"], keyword.toList.all Char.isDigit = false := by decide
  have digits : (toString n).toList.all Char.isDigit = true := List.all_eq_true.2 fun c => isDigit_of_mem_numeral
  have absent : toString n ∉ ["graph", "node", "edge"] := by
    intro mem
    have letter := letters (toString n) mem
    rw [digits] at letter
    cases letter
  rw [Dot.Head.ofIdent, if_neg absent]

/-! ## The text -/

theorem lexes_indent : Lexes "    ".toList [] := fun _ => rfl

theorem lexes_opening : Lexes "[ ".toList [.mark .openBracket] := fun _ => rfl

theorem lexes_closing : Lexes " ];\n".toList [.mark .closeBracket, .mark .semicolon] := fun _ => rfl

/-- A label between quotes is the value of its attribute. -/
theorem lexes_label {label : String} (sealed : Sealed label.toList) :
    Lexes ("label=\"".toList ++ (label.toList ++ ['"'])) (Attribute.tokens ⟨.word "label", .quoted label⟩) := by
  intro before
  have opens : Lexer.run ⟨.between, before⟩ "label=\"".toList =
      some ⟨.string [], .mark .equals :: .ident (.word "label") :: before⟩ := rfl
  rw [Lexer.run_append opens, Lexer.run_quoted sealed]
  rfl

namespace Orchestration

variable {graph : Orchestration}

theorem lexes_vertexStyle (graph : Orchestration) (id : NodeId) :
    Lexes (graph.vertexStyle id).toList ((graph.vertexMarks id).flatMap Attribute.tokens) := by
  unfold vertexStyle vertexMarks
  split_ifs
  all_goals exact fun _ => rfl

theorem lexes_vertexLine {id : NodeId} (sealed : Sealed (graph.vertexLabel id).toList) (index : Nat) :
    Lexes (graph.vertexLine index id).toList (graph.vertexStatement index id).tokens := by
  have line := lexes_indent.append ((lexes_numeral index).append (lexes_opening.append
    ((lexes_label sealed).append ((graph.lexes_vertexStyle id).append lexes_closing))))
  have text : graph.vertexLine index id = "    " ++ toString index ++ " [ label=\"" ++ graph.vertexLabel id ++ "\"" ++
      graph.vertexStyle id ++ " ];\n" := rfl
  simpa [text, vertexStatement, Statement.tokens] using line

theorem lexes_vertexLines {names : List NodeId} (sealed : ∀ id ∈ names, Sealed (graph.vertexLabel id).toList) (index : Nat) :
    Lexes (graph.vertexLines index names).toList ((graph.vertexStatements index names).flatMap Statement.tokens) := by
  induction names generalizing index with
  | nil => exact Lexes.nil
  | cons id rest ih =>
    have first := lexes_vertexLine (sealed id List.mem_cons_self) index
    have others := ih (fun other mem => sealed other (List.mem_cons_of_mem _ mem)) (index + 1)
    rw [vertexLines, String.toList_append, vertexStatements, List.zipIdx_cons, List.map_cons, List.flatMap_cons]
    exact first.append others

end Orchestration

theorem lexes_attributes {link : Link} (sealed : ∀ type, link.convertsTo = some type → Sealed type.toList) :
    Lexes (String.intercalate " " link.attributes).toList (link.statement.attributes.flatMap Attribute.tokens) := by
  obtain ⟨source, target, index, guarded, convertsTo⟩ := link
  have dashed : Lexes "style=\"dashed\"".toList (Attribute.tokens ⟨.word "style", .quoted "dashed"⟩) := fun _ => rfl
  cases convertsTo with
  | none =>
    cases guarded with
    | true => exact Lexes.nil
    | false => exact dashed
  | some type =>
    have label := lexes_label (sealed type rfl)
    have text : s!"label=\"{type}\"" = "label=\"" ++ type ++ "\"" := rfl
    cases guarded with
    | true => simpa [Link.attributes, Link.statement, text] using label
    | false =>
      have blank : Lexes " ".toList [] := fun _ => rfl
      simpa [Link.attributes, Link.statement, text] using label.append (blank.append dashed)

theorem lexes_line {link : Link} (sealed : ∀ type, link.convertsTo = some type → Sealed type.toList) :
    Lexes link.line.toList link.statement.tokens := by
  have arrow : Lexes "-> ".toList [.mark .arrow] := fun _ => rfl
  have line := lexes_indent.append ((lexes_numeral link.source).append (arrow.append
    ((lexes_numeral link.target).append (lexes_opening.append
      ((lexes_attributes sealed).append lexes_closing)))))
  have text : link.line = "    " ++ toString link.source ++ " -> " ++ toString link.target ++ " [ " ++
      String.intercalate " " link.attributes ++ " ];\n" := rfl
  simpa [text, Link.statement, Statement.tokens] using line

theorem lexes_lines {links : List Link}
    (sealed : ∀ link ∈ links, ∀ type, link.convertsTo = some type → Sealed type.toList) :
    Lexes (String.join (links.map Link.line)).toList ((links.map Link.statement).flatMap Statement.tokens) := by
  induction links with
  | nil => exact Lexes.nil
  | cons link rest ih =>
    have first := lexes_line (sealed link List.mem_cons_self)
    have others := ih fun other mem => sealed other (List.mem_cons_of_mem _ mem)
    simpa [String.toList_join] using first.append others

namespace Orchestration

variable {graph : Orchestration}

def heading : List Token :=
  [.ident (.word "digraph"), .mark .openBrace, .ident (.word "rankdir"), .mark .equals, .ident (.word "TB"), .mark .semicolon,
    .ident (.word "node"), .mark .openBracket, .ident (.word "shape"), .mark .equals, .ident (.word "box"), .mark .comma,
    .ident (.word "style"), .mark .equals, .ident (.word "rounded"), .mark .closeBracket, .mark .semicolon]

/-- In pieces, since the whole of it is too long a text to evaluate. -/
theorem lexes_heading :
    Lexes "digraph \x7b\n    rankdir=TB;\n    node [shape=box, style=rounded];\n".toList heading := by
  have first : Lexes "digraph \x7b\n    rankdir=".toList
    [.ident (.word "digraph"), .mark .openBrace, .ident (.word "rankdir"), .mark .equals] := fun _ => rfl
  have second : Lexes "TB;\n    node [".toList
    [.ident (.word "TB"), .mark .semicolon, .ident (.word "node"), .mark .openBracket] := fun _ => rfl
  have third : Lexes "shape=box, ".toList
    [.ident (.word "shape"), .mark .equals, .ident (.word "box"), .mark .comma] := fun _ => rfl
  have fourth : Lexes "style=rounded];\n".toList
    [.ident (.word "style"), .mark .equals, .ident (.word "rounded"), .mark .closeBracket, .mark .semicolon] := fun _ => rfl
  exact first.append (second.append (third.append fourth))

theorem document_heading (rest : List Token) :
    Dot.document (heading ++ rest) = (Dot.statements none rest).map (layout ++ ·) := by
  simp [heading, layout, Dot.document, Dot.statements, Dot.Head.ofIdent, Statement.add, Function.comp_def]

/-- The text of a graph with sealed labels lexes as its drawing between the opening lines and the closing brace. -/
theorem lexes_dot (sealed : ∀ label ∈ graph.labels, Sealed label.toList) :
    Lexes graph.dot.toList (heading ++ (graph.drawing.flatMap Statement.tokens ++ [.mark .closeBrace])) := by
  have of_vertex : ∀ id ∈ graph.topology.names, Sealed (graph.vertexLabel id).toList := fun id mem =>
    sealed _ (List.mem_append_left _ (List.mem_map_of_mem mem))
  have of_link : ∀ link ∈ graph.topology.links, ∀ type, link.convertsTo = some type → Sealed type.toList :=
    fun link mem type converts => sealed _ (List.mem_append_right _ (List.mem_filterMap.2 ⟨link, mem, converts⟩))
  have blank : Lexes "\n".toList [] := fun _ => rfl
  have closing : Lexes "\x7d\n".toList [.mark .closeBrace] := fun _ => rfl
  have whole := lexes_heading.append ((lexes_vertexLines of_vertex 0).append (blank.append ((lexes_lines of_link).append closing)))
  have text : graph.dot = "digraph \x7b\n    rankdir=TB;\n    node [shape=box, style=rounded];\n" ++
      graph.vertexLines 0 graph.topology.names ++ "\n" ++ String.join (graph.topology.links.map Link.line) ++ "\x7d\n" := rfl
  simpa only [text, drawing, String.toList_append, List.append_assoc, List.flatMap_append, List.nil_append] using whole

theorem isPlain_drawing : ∀ statement ∈ graph.drawing, statement.IsPlain := by
  intro statement mem
  rcases List.mem_append.1 mem with vertex | link
  · obtain ⟨entry, -, rfl⟩ := List.mem_map.1 vertex
    exact ofIdent_numeral entry.2
  · obtain ⟨link, -, rfl⟩ := List.mem_map.1 link
    trivial

/-- **The text of a graph with sealed labels is read back as what it should mean.** -/
theorem dot_reads_back (sealed : ∀ label ∈ graph.labels, Sealed label.toList) :
    Dot.read graph.dot = some graph.statements := by
  rw [Dot.read, Dot.tokens_of_lexes (lexes_dot sealed), Option.bind_some, document_heading,
    Dot.statements_flatMap_tokens isPlain_drawing]
  simp [Dot.statements, statements]

theorem exists_attribute {label : String} (mem : label ∈ graph.labels) :
    ∃ statement ∈ graph.statements, ⟨.word "label", .quoted label⟩ ∈ statement.attributes := by
  rcases List.mem_append.1 mem with vertex | link
  · obtain ⟨id, named, rfl⟩ := List.mem_map.1 vertex
    obtain ⟨index, at_index⟩ := List.mem_iff_getElem?.1 named
    have numbered : (id, index) ∈ graph.topology.names.zipIdx 0 := List.mem_zipIdx_iff_getElem?.2 at_index
    have made := List.mem_map_of_mem (f := fun entry => graph.vertexStatement entry.2 entry.1) numbered
    exact ⟨_, List.mem_append_right _ (List.mem_append_left _ made), List.mem_cons_self⟩
  · obtain ⟨link, linked, converts⟩ := List.mem_filterMap.1 link
    have made := List.mem_map_of_mem (f := Link.statement) linked
    exact ⟨_, List.mem_append_right _ (List.mem_append_right _ made), by simp [Link.statement, converts]⟩

/-- **Only sealed labels are read back**, since no other text is read as one string. -/
theorem sealed_of_dot (back : Dot.read graph.dot = some graph.statements) : ∀ label ∈ graph.labels, Sealed label.toList := by
  intro label mem
  obtain ⟨statement, made, labelled⟩ := exists_attribute mem
  exact Dot.sealed_read back statement made _ labelled

/-- **The text of a graph is read back as what it should mean exactly if all its labels are sealed.** -/
theorem dot_reads_back_iff (graph : Orchestration) :
    Dot.read graph.dot = some graph.statements ↔ ∀ label ∈ graph.labels, Sealed label.toList :=
  ⟨sealed_of_dot, dot_reads_back⟩

/-- a node with a quote in its name -/
def quoteGraph : Orchestration :=
  { nodes := [{ id := ⟨"a\"b"⟩, step := .identity .string, deadEnd := true }] }

/-- **A quote in a name breaks the text.** -/
theorem dot_breaks : Dot.read quoteGraph.dot ≠ some quoteGraph.statements := by
  intro back
  have sealed := sealed_of_dot back "a\"b\\nString -> String" (by decide)
  have escaped : Dot.escaping ['a'] = true := sealed.inside ['a'] "b\\nString -> String".toList rfl
  exact absurd escaped (by decide)

end Orchestration

/-! ## Sealed names -/

namespace TypeDesc

mutual

/-- **A type is written without an open quote if its names are.** -/
theorem sealed_display : ∀ type : TypeDesc, (∀ name ∈ type.names, Sealed name.toList) → Sealed type.display.toList
  | ⟨name, [], _⟩, each => each name (by simp [names])
  | ⟨name, param :: rest, _⟩, each => by
    have open_angle : Sealed "<".toList := Dot.sealed_of_plain (by decide)
    have close_angle : Sealed ">".toList := Dot.sealed_of_plain (by decide)
    have own := each name (by simp [names])
    have first := sealed_display param fun other mem => each other (by simp [names, namesEach, mem])
    have others := sealed_displayRest rest fun other mem => each other (by simp [names, namesEach, mem])
    simpa [display] using own.append (open_angle.append (first.append (others.append close_angle)))

theorem sealed_displayRest : ∀ params : List TypeDesc, (∀ name ∈ namesEach params, Sealed name.toList) →
    Sealed (displayRest params).toList
  | [], _ => Dot.sealed_of_plain (by simp [displayRest])
  | param :: rest, each => by
    have comma : Sealed ", ".toList := Dot.sealed_of_plain (by decide)
    have first := sealed_display param fun other mem => each other (by simp [namesEach, mem])
    have others := sealed_displayRest rest fun other mem => each other (by simp [namesEach, mem])
    simpa [displayRest] using comma.append (first.append others)

end

theorem sealed_friendlyName {type : TypeDesc} (each : ∀ name ∈ type.names, Sealed name.toList) :
    Sealed type.friendlyName.toList := by
  unfold friendlyName
  split
  · exact Dot.sealed_of_plain (by decide)
  · exact sealed_display type each

end TypeDesc

namespace Orchestration

variable {graph : Orchestration}

/-- the names of the vertices, and those in the types of nodes and converters, are sealed -/
structure NamesSealed (graph : Orchestration) : Prop where
  vertices : ∀ id ∈ graph.topology.names, Sealed id.name.toList
  inputs : ∀ node ∈ graph.nodes, ∀ name ∈ node.input.names, Sealed name.toList
  outputs : ∀ node ∈ graph.nodes, ∀ name ∈ node.output.names, Sealed name.toList
  converters : ∀ edge ∈ graph.edges, ∀ converter ∈ edge.2.converter, ∀ name ∈ converter.returns.names, Sealed name.toList

theorem NamesSealed.vertexLabel (h : graph.NamesSealed) {id : NodeId} (mem : id ∈ graph.topology.names) :
    Sealed (graph.vertexLabel id).toList := by
  have own := h.vertices id mem
  unfold Orchestration.vertexLabel
  cases found : graph.node? id with
  | none => exact own
  | some node =>
    have among := mem_nodes_of_node? found
    have input := TypeDesc.sealed_friendlyName (h.inputs node among)
    have output := TypeDesc.sealed_friendlyName (h.outputs node among)
    have line : Sealed "\\n".toList := Dot.sealed_of_not_mem (by decide) (by decide)
    have arrow : Sealed " -> ".toList := Dot.sealed_of_plain (by decide)
    have text : s!"{id}\\n{node.input.friendlyName} -> {node.output.friendlyName}" =
        id.name ++ "\\n" ++ node.input.friendlyName ++ " -> " ++ node.output.friendlyName := rfl
    simpa [text] using own.append (line.append (input.append (arrow.append output)))

theorem NamesSealed.labels (h : graph.NamesSealed) (distinct : graph.ids.Nodup) :
    ∀ label ∈ graph.labels, Sealed label.toList := by
  intro label mem
  rcases List.mem_append.1 mem with vertex | link
  · obtain ⟨id, named, rfl⟩ := List.mem_map.1 vertex
    exact h.vertexLabel named
  · obtain ⟨link, linked, converts⟩ := List.mem_filterMap.1 link
    obtain ⟨placed, among, depicts⟩ := exists_placed distinct linked
    obtain ⟨converter, converting, rfl⟩ := Option.map_eq_some_iff.1 (depicts.convertsTo.symm.trans converts)
    have edge : (placed.source, placed.advancer) ∈ graph.edges := by
      rw [← placed_edges]
      exact List.mem_map_of_mem among
    exact TypeDesc.sealed_friendlyName (h.converters _ edge converter converting)

/-- **A graph whose names are sealed is drawn as it is**, for instance one whose names hold no quotes and no backslashes. -/
theorem dot_reads_back_of_names (distinct : graph.ids.Nodup) (names : graph.NamesSealed) :
    Dot.read graph.dot = some graph.statements :=
  dot_reads_back (names.labels distinct)

end Orchestration

end StepFlow
