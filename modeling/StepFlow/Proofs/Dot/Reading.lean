/-
What strings can be read.

Between quotes a text stays one string if every quote in it is escaped and the one behind it is not (`Sealed`). A lexer that
meets such a text between quotes reads one string, the text as it stands; and whatever text it reads, the strings that come
out of it are sealed, since a quote that is not escaped ends a string and an escaped one does not. Results:
- `Lexer.run_quoted`: a sealed text between quotes is one token;
- `sealed_tokens`: every string among the tokens of a text is sealed;
- `sealed_read`: so is every string among the values of its statements;
- `statements_tokens`: a statement that is written out is read back;
- `Sealed.append`, `sealed_of_not_mem`: what is put together of sealed texts is sealed, and so is a text without quotes that
  escapes nothing behind it.
-/
import Mathlib.Data.List.Basic
import Mathlib.Tactic.SplitIfs
import StepFlow.Dot.Statement

namespace StepFlow.Dot

/-- a text that stays one string between quotes -/
structure Sealed (text : List Char) : Prop where
  inside : ∀ before after, text = before ++ '"' :: after → escaping before.reverse = true
  last : escaping text.reverse = false

def Ident.IsSealed : Ident → Prop
  | .word _ => True
  | .quoted text => Sealed text.toList

def Token.IsSealed : Token → Prop
  | .ident id => id.IsSealed
  | .mark _ => True

def Statement.IsSealed (statement : Statement) : Prop :=
  ∀ entry ∈ statement.attributes, entry.value.IsSealed

theorem split_snoc {α : Type} {items before after : List α} {last found : α} (h : items ++ [last] = before ++ found :: after) :
    items = before ∧ last = found ∨ ∃ more, items = before ++ found :: more := by
  rcases List.eq_nil_or_concat' after with rfl | ⟨more, ending, rfl⟩
  · obtain ⟨same, ends⟩ := List.append_inj' h rfl
    exact Or.inl ⟨same, List.singleton_inj.1 ends⟩
  · have longer : items ++ [last] = (before ++ found :: more) ++ [ending] := by simpa using h
    exact Or.inr ⟨more, (List.append_inj' longer rfl).1⟩

/-! ## Reading what is written -/

namespace Lexer

theorem run_nil (lexer : Lexer) : lexer.run [] = some lexer := rfl

theorem run_cons (lexer : Lexer) (c : Char) (rest : List Char) :
    lexer.run (c :: rest) = (lexer.step c).bind fun next => next.run rest := rfl

theorem run_append {lexer next : Lexer} {text more : List Char} (first : lexer.run text = some next) :
    lexer.run (text ++ more) = next.run more := by
  have split : lexer.run (text ++ more) = (lexer.run text).bind fun next => next.run more := List.foldlM_append
  rw [split, first]
  rfl

/-- A lexer stays in a string as long as it meets no quote that is not escaped. -/
theorem run_string {seen text : List Char} {tokens : List Token}
    (inside : ∀ before after, text = before ++ '"' :: after → escaping (before.reverse ++ seen) = true) :
    run ⟨.string seen, tokens⟩ text = some ⟨.string (text.reverse ++ seen), tokens⟩ := by
  induction text generalizing seen with
  | nil => rfl
  | cons c rest ih =>
    have stays : step ⟨.string seen, tokens⟩ c = some ⟨.string (c :: seen), tokens⟩ := by
      by_cases quote : c = '"'
      · subst quote
        have escaped : escaping seen = true := inside [] rest rfl
        simp [step, escaped]
      · simp [step, quote]
    rw [run_cons, stays]
    refine (ih fun before after split => ?_).trans (by simp)
    simpa using inside (c :: before) after (congrArg (c :: ·) split)

/-- **A sealed text between quotes is one token.** -/
theorem run_quoted {text : String} (sealed : Sealed text.toList) (tokens : List Token) :
    run ⟨.string [], tokens⟩ (text.toList ++ ['"']) = some ⟨.between, .ident (.quoted text) :: tokens⟩ := by
  rw [run_append (run_string fun before after split => by simpa using sealed.inside before after split)]
  simp [run_cons, run_nil, step, sealed.last]

theorem run_word {seen word : List Char} (all : ∀ c ∈ word, isWordChar c = true) (tokens : List Token) :
    run ⟨.word seen, tokens⟩ word = some ⟨.word (word.reverse ++ seen), tokens⟩ := by
  induction word generalizing seen with
  | nil => rfl
  | cons c rest ih =>
    have stays : step ⟨.word seen, tokens⟩ c = some ⟨.word (c :: seen), tokens⟩ := by
      simp [step, all c List.mem_cons_self]
    rw [run_cons, stays]
    exact (ih fun other mem => all other (List.mem_cons_of_mem _ mem)).trans (by simp)

/-- A word begins with any of its characters. -/
theorem run_first_word {word : List Char} (nonempty : word ≠ []) (all : ∀ c ∈ word, isWordChar c = true)
    (tokens : List Token) : run ⟨.between, tokens⟩ word = some ⟨.word word.reverse, tokens⟩ := by
  cases word with
  | nil => exact absurd rfl nonempty
  | cons c rest =>
    have first : isWordChar c = true := all c List.mem_cons_self
    have solid : c.isWhitespace = false := by
      rw [← Bool.not_eq_true]
      intro blank
      simp only [Char.isWhitespace, Bool.or_eq_true, decide_eq_true_eq] at blank
      rcases blank with ((rfl | rfl) | rfl) | rfl <;> exact absurd first (by decide)
    have quote : (c == '"') = false := by
      rw [beq_eq_false_iff_ne]
      rintro rfl
      exact absurd first (by decide)
    have starts : step ⟨.between, tokens⟩ c = some ⟨.word [c], tokens⟩ := by
      simp [step, start, solid, quote, first]
    rw [run_cons, starts]
    exact (run_word (fun other mem => all other (List.mem_cons_of_mem _ mem)) tokens).trans (by simp)

end Lexer

/-- a text that begins and ends between tokens has these tokens -/
def Lexes (text : List Char) (tokens : List Token) : Prop :=
  ∀ before, Lexer.run ⟨.between, before⟩ text = some ⟨.between, tokens.reverse ++ before⟩

theorem Lexes.nil : Lexes [] [] := fun _ => rfl

theorem Lexes.append {text more : List Char} {tokens others : List Token} (first : Lexes text tokens)
    (second : Lexes more others) : Lexes (text ++ more) (tokens ++ others) := by
  intro before
  rw [Lexer.run_append (first before), second]
  simp

theorem tokens_of_lexes {text : String} {found : List Token} (h : Lexes text.toList found) : tokens text = some found := by
  have reads : Lexer.run {} text.toList = some ⟨.between, found.reverse ++ []⟩ := h []
  rw [tokens, reads]
  simp [Lexer.finish]

def Attribute.tokens (entry : Attribute) : List Token :=
  [.ident entry.name, .mark .equals, .ident entry.value]

def Statement.tokens (statement : Statement) : List Token :=
  (match statement.head with
    | .vertex id => [.ident id]
    | .link source target => [.ident source, .mark .arrow, .ident target]
    | .defaults keyword => [.ident (.word keyword)]
    | .graph => [])
    ++ .mark .openBracket :: (statement.attributes.flatMap Attribute.tokens ++ [.mark .closeBracket, .mark .semicolon])

theorem statements_entries (statement : Statement) (entries : List Attribute) (rest : List Token) :
    statements (some statement) (entries.flatMap Attribute.tokens ++ .mark .closeBracket :: rest) =
      (statements none rest).map ({ statement with attributes := statement.attributes ++ entries } :: ·) := by
  induction entries generalizing statement with
  | nil => simp [statements]
  | cons entry others ih =>
    have reads : statements (some statement)
        ((entry :: others).flatMap Attribute.tokens ++ .mark .closeBracket :: rest) =
        statements (some (statement.add entry.name entry.value))
          (others.flatMap Attribute.tokens ++ .mark .closeBracket :: rest) := by
      cases others <;> simp [Attribute.tokens, statements]
    rw [reads, ih]
    simp [Statement.add]

/-- a statement about a link, or about a vertex whose name is no key word -/
def Statement.IsPlain (statement : Statement) : Prop :=
  match statement.head with
  | .vertex id => Head.ofIdent id = .vertex id
  | .link _ _ => True
  | _ => False

/-- **A plain statement that is written out is read back.** -/
theorem statements_tokens {statement : Statement} (plain : statement.IsPlain) (rest : List Token) :
    statements none (statement.tokens ++ rest) = (statements none rest).map (statement :: ·) := by
  obtain ⟨head, entries⟩ := statement
  cases head with
  | vertex id =>
    have opens : Head.ofIdent id = .vertex id := plain
    have read := statements_entries { head := .vertex id } entries (.mark .semicolon :: rest)
    simpa [Statement.tokens, statements, opens] using read
  | link source target =>
    have read := statements_entries { head := .link source target } entries (.mark .semicolon :: rest)
    simpa [Statement.tokens, statements] using read
  | defaults keyword => exact plain.elim
  | graph => exact plain.elim

theorem statements_flatMap_tokens {items : List Statement} (plain : ∀ item ∈ items, item.IsPlain) (rest : List Token) :
    statements none (items.flatMap Statement.tokens ++ rest) = (statements none rest).map (items ++ ·) := by
  induction items with
  | nil => simp
  | cons item others ih =>
    rw [List.flatMap_cons, List.append_assoc, statements_tokens (plain item List.mem_cons_self),
      ih fun other mem => plain other (List.mem_cons_of_mem _ mem), Option.map_map]
    rfl

/-! ## What is read -/

namespace Lexer

/-- what has been seen of a string has its quotes escaped, and the strings that have been read are sealed -/
structure Lawful (lexer : Lexer) : Prop where
  inside : ∀ seen, lexer.place = .string seen →
    ∀ before after, seen.reverse = before ++ '"' :: after → escaping before.reverse = true
  tokens : ∀ token ∈ lexer.tokens, token.IsSealed

theorem lawful_start {tokens : List Token} {c : Char} {after : Lexer} (each : ∀ token ∈ tokens, token.IsSealed)
    (h : start tokens c = some after) : after.Lawful := by
  unfold start at h
  split_ifs at h
  · cases h
    exact ⟨by simp, each⟩
  · cases h
    exact ⟨by simp, each⟩
  · cases h
    exact ⟨by simp, each⟩
  · cases h
    exact ⟨by simp, each⟩
  · obtain ⟨mark, -, rfl⟩ := Option.map_eq_some_iff.1 h
    exact ⟨by simp, List.forall_mem_cons.2 ⟨trivial, each⟩⟩

/-- **A character keeps a lexer lawful**: only a quote that is not escaped ends a string, and only an escaped one stays in it. -/
theorem Lawful.step {lexer after : Lexer} {c : Char} (h : lexer.Lawful) (reads : lexer.step c = some after) :
    after.Lawful := by
  obtain ⟨place, tokens⟩ := lexer
  cases place with
  | between => exact lawful_start h.tokens reads
  | word seen =>
    simp only [Lexer.step] at reads
    split_ifs at reads
    · cases reads
      exact ⟨by simp, h.tokens⟩
    · have word : (wordOf seen).IsSealed := trivial
      exact lawful_start (List.forall_mem_cons.2 ⟨word, h.tokens⟩) reads
  | hyphen =>
    simp only [Lexer.step] at reads
    split_ifs at reads
    cases reads
    exact ⟨by simp, List.forall_mem_cons.2 ⟨trivial, h.tokens⟩⟩
  | string seen =>
    have inside := h.inside seen rfl
    simp only [Lexer.step] at reads
    split_ifs at reads with closes
    · cases reads
      obtain ⟨-, opened⟩ : c = '"' ∧ escaping seen = false := by simpa using closes
      have new : Sealed (String.ofList seen.reverse).toList := ⟨by simpa using inside, by simpa using opened⟩
      exact ⟨by simp, List.forall_mem_cons.2 ⟨new, h.tokens⟩⟩
    · cases reads
      refine ⟨fun seen' same before after split => ?_, h.tokens⟩
      cases same
      rw [List.reverse_cons] at split
      rcases split_snoc split with ⟨rfl, rfl⟩ | ⟨more, early⟩
      · simpa using closes
      · exact inside before more early

theorem Lawful.run {lexer after : Lexer} {text : List Char} (h : lexer.Lawful) (reads : lexer.run text = some after) :
    after.Lawful := by
  induction text generalizing lexer with
  | nil =>
    cases reads
    exact h
  | cons c rest ih =>
    rw [run_cons] at reads
    obtain ⟨next, first, others⟩ := Option.bind_eq_some_iff.1 reads
    exact ih (h.step first) others

end Lexer

/-- **Every string among the tokens of a text is sealed.** -/
theorem sealed_tokens {text : String} {found : List Token} (h : tokens text = some found) :
    ∀ token ∈ found, token.IsSealed := by
  obtain ⟨lexer, runs, ends⟩ := Option.bind_eq_some_iff.1 h
  have lawful : lexer.Lawful := Lexer.Lawful.run ⟨by simp, by simp⟩ runs
  obtain ⟨place, tokens⟩ := lexer
  cases place with
  | between =>
    cases ends
    exact fun token mem => lawful.tokens token (List.mem_reverse.1 mem)
  | word seen =>
    cases ends
    exact fun token mem => (List.forall_mem_cons.2 ⟨trivial, lawful.tokens⟩) token (List.mem_reverse.1 mem)
  | hyphen => cases ends
  | string seen => cases ends

theorem Statement.IsSealed.add {statement : Statement} (h : statement.IsSealed) (name : Ident) {value : Ident}
    (new : value.IsSealed) : (statement.add name value).IsSealed := by
  intro entry mem
  rcases List.mem_append.1 mem with old | last
  · exact h entry old
  · rw [List.mem_singleton.1 last]
    exact new

theorem sealed_statements {current : Option Statement} {tokens : List Token} {found : List Statement}
    (each : ∀ token ∈ tokens, token.IsSealed) (started : ∀ statement ∈ current, statement.IsSealed)
    (h : statements current tokens = some found) : ∀ statement ∈ found, statement.IsSealed := by
  have bare (head : Head) : Statement.IsSealed { head := head } := fun entry mem => nomatch mem
  fun_induction statements current tokens generalizing found with
  | case1 =>
    cases h
    simp
  | case2 rest ih => exact ih (List.forall_mem_cons.1 each).2 started h
  | case3 name value rest ih =>
    simp only [List.forall_mem_cons] at each
    obtain ⟨others, reads, rfl⟩ := Option.map_eq_some_iff.1 h
    exact List.forall_mem_cons.2 ⟨(bare .graph).add name each.2.2.1, ih each.2.2.2 started reads⟩
  | case4 source target rest ih =>
    simp only [List.forall_mem_cons] at each
    exact ih each.2.2.2.2 (by simpa using bare _) h
  | case5 id rest ih =>
    simp only [List.forall_mem_cons] at each
    exact ih each.2.2 (by simpa using bare _) h
  | case6 statement rest ih =>
    obtain ⟨others, reads, rfl⟩ := Option.map_eq_some_iff.1 h
    exact List.forall_mem_cons.2 ⟨started statement rfl, ih (List.forall_mem_cons.1 each).2 (by simp) reads⟩
  | case7 statement name value rest ih =>
    simp only [List.forall_mem_cons] at each
    exact ih each.2.2.2.2 (by simpa using (started statement rfl).add name each.2.2.1) h
  | case8 statement name value rest _ ih =>
    simp only [List.forall_mem_cons] at each
    exact ih each.2.2.2 (by simpa using (started statement rfl).add name each.2.2.1) h
  | case9 => cases h

/-- **Every string among the values of the statements of a text is sealed.** -/
theorem sealed_read {text : String} {found : List Statement} (h : read text = some found) :
    ∀ statement ∈ found, statement.IsSealed := by
  obtain ⟨tokens, lexed, reads⟩ := Option.bind_eq_some_iff.1 h
  have each := sealed_tokens lexed
  unfold document at reads
  split at reads
  · simp only [List.forall_mem_cons] at each
    exact sealed_statements each.2.2 (by simp) reads
  · cases reads

/-! ## Sealed texts -/

/-- What escapes nothing in front leaves the rest as it is. -/
theorem escaping_append {before : List Char} (h : escaping before = false) (text : List Char) :
    escaping (text ++ before) = escaping text := by
  induction text with
  | nil => exact h
  | cons c rest ih => rw [List.cons_append, escaping, escaping, ih]

theorem Sealed.append {text more : List Char} (first : Sealed text) (second : Sealed more) : Sealed (text ++ more) := by
  refine ⟨fun before after split => ?_, ?_⟩
  · rcases List.append_eq_append_iff.1 split with ⟨middle, rfl, later⟩ | ⟨middle, rfl, onward⟩
    · rw [List.reverse_append, escaping_append first.last]
      exact second.inside middle after later
    · cases middle with
      | nil => exact absurd (second.inside [] after onward.symm) (by simp [escaping])
      | cons c middle =>
        obtain ⟨rfl, -⟩ := List.cons.inj onward
        exact first.inside before middle rfl
  · rw [List.reverse_append, escaping_append first.last]
    exact second.last

/-- A text without quotes is sealed if it escapes nothing behind it. -/
theorem sealed_of_not_mem {text : List Char} (absent : '"' ∉ text) (last : escaping text.reverse = false) : Sealed text where
  inside before _ split := absurd (split ▸ List.mem_append_right before List.mem_cons_self) absent
  last := last

theorem sealed_of_plain {text : List Char} (plain : (text.all fun c => c != '"' && c != '\\') = true) : Sealed text := by
  have each : ∀ c ∈ text, c ≠ '"' ∧ c ≠ '\\' := by simpa using plain
  refine sealed_of_not_mem (fun mem => (each '"' mem).1 rfl) ?_
  cases last : text.reverse with
  | nil => rfl
  | cons c before =>
    have mem : c ∈ text := List.mem_reverse.1 (last ▸ List.mem_cons_self)
    simp [escaping, (each c mem).2]

end StepFlow.Dot
