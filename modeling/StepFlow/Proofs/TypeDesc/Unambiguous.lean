/-
What the written name of a type tells.

In a written name angle brackets and commas stand between the names of the type and of its parameters. A type is legible
if none of these names holds one of them, and then the written name tells them apart again: a name ends where the first
separator stands, and what stands behind a type is a comma, a closing bracket or nothing. Blank names make no difference.
Results:
- `bare_of_display`: the written name of a legible type, in front of anything that may stand behind it, tells its bare form;
- `display_iff`, `friendlyName_iff`: which legible types have the same written name, and the same name in messages;
- `written_names_unambiguous`: both.
-/
import StepFlow.Proofs.TypeDesc.Identity

namespace StepFlow.TypeDesc

/-! ## Legible types -/

/-- the characters that stand between names -/
def separators : List Char := ['<', '>', ',']

/-- no name in the type holds a separator -/
def Legible (type : TypeDesc) : Prop :=
  ∀ name ∈ type.names, ∀ c ∈ separators, c ∉ name.toList

instance (type : TypeDesc) : Decidable type.Legible :=
  decidable_of_iff ((type.names.all fun name => separators.all fun c => !name.toList.contains c) = true)
    (by simp [Legible])

def LegibleEach (params : List TypeDesc) : Prop :=
  ∀ name ∈ namesEach params, ∀ c ∈ separators, c ∉ name.toList

theorem legible_mk_iff {name : String} {params supertypes : List TypeDesc} :
    Legible ⟨name, params, supertypes⟩ ↔ (∀ c ∈ separators, c ∉ name.toList) ∧ LegibleEach params := by
  simp only [Legible, LegibleEach, names, List.forall_mem_cons]

theorem legibleEach_cons_iff {param : TypeDesc} {rest : List TypeDesc} :
    LegibleEach (param :: rest) ↔ param.Legible ∧ LegibleEach rest := by
  simp only [Legible, LegibleEach, namesEach, List.forall_mem_append]

/-! ## Reading written names -/

/-- A name ends where the first separator stands. -/
theorem name_of_append {name other rest more : List Char} (plain : ∀ c ∈ separators, c ∉ name)
    (others : ∀ c ∈ separators, c ∉ other) (ends : ∀ c ∈ rest.head?, c ∈ separators)
    (stops : ∀ c ∈ more.head?, c ∈ separators) (h : name ++ rest = other ++ more) : name = other ∧ rest = more := by
  induction name generalizing other with
  | nil =>
    cases other with
    | nil => exact ⟨rfl, h⟩
    | cons c other =>
      obtain rfl : rest = c :: (other ++ more) := h
      exact absurd List.mem_cons_self (others c (ends c rfl))
  | cons c name ih =>
    cases other with
    | nil =>
      obtain rfl : more = c :: (name ++ rest) := h.symm
      exact absurd List.mem_cons_self (plain c (stops c rfl))
    | cons d other =>
      obtain ⟨rfl, same⟩ := List.cons.inj h
      obtain ⟨rfl, agree⟩ := ih (fun s mem among => plain s mem (List.mem_cons_of_mem _ among))
        (fun s mem among => others s mem (List.mem_cons_of_mem _ among)) same
      exact ⟨rfl, agree⟩

/-- what may stand behind a written type: a comma, a closing bracket or nothing -/
def Closing (rest : List Char) : Prop :=
  ∀ c ∈ rest.head?, c = ',' ∨ c = '>'

theorem Closing.separates {rest : List Char} (h : Closing rest) : ∀ c ∈ rest.head?, c ∈ separators := by
  intro c mem
  rcases h c mem with rfl | rfl <;> decide

theorem closing_displayRest (params : List TypeDesc) (rest : List Char) :
    Closing ((displayRest params).toList ++ '>' :: rest) := by
  cases params with
  | nil => simp [Closing, displayRest]
  | cons param others => simp [Closing, displayRest]

theorem toList_display_nil (name : String) (supertypes : List TypeDesc) :
    (display ⟨name, [], supertypes⟩).toList = name.toList := by
  rw [display]

/-- The written name of an applied type: a bracket opens behind its name. -/
theorem toList_display_cons (name : String) (param : TypeDesc) (others supertypes : List TypeDesc) :
    (display ⟨name, param :: others, supertypes⟩).toList =
      name.toList ++ '<' :: (param.display.toList ++ ((displayRest others).toList ++ ['>'])) := by
  simp [display]

theorem toList_displayRest_cons (param : TypeDesc) (others : List TypeDesc) :
    (displayRest (param :: others)).toList = ',' :: ' ' :: (param.display.toList ++ (displayRest others).toList) := by
  simp [displayRest]

mutual

/-- **The written name of a legible type tells its bare form**, and where it ends. By recursion on the type: what stands
behind a parameter begins with the comma of the next one or with the bracket that closes the list. -/
theorem bare_of_display : ∀ {a b : TypeDesc} {rest more : List Char}, a.Legible → b.Legible → Closing rest →
    Closing more → a.display.toList ++ rest = b.display.toList ++ more → a.bare = b.bare ∧ rest = more
  | ⟨name, [], _⟩, ⟨other, [], _⟩, rest, more, la, lb, ends, stops, h => by
    rw [toList_display_nil, toList_display_nil] at h
    obtain ⟨same, agree⟩ :=
      name_of_append (legible_mk_iff.1 la).1 (legible_mk_iff.1 lb).1 ends.separates stops.separates h
    exact ⟨by simp only [bare, bareEach, String.toList_inj.1 same], agree⟩
  | ⟨name, [], _⟩, ⟨other, param :: others, _⟩, rest, more, la, lb, ends, stops, h => by
    rw [toList_display_nil, toList_display_cons, List.append_assoc, List.cons_append] at h
    obtain ⟨-, rfl⟩ := name_of_append (legible_mk_iff.1 la).1 (legible_mk_iff.1 lb).1 ends.separates
      (by simp [separators]) h
    -- a bracket that opens closes nothing
    exact absurd (ends '<' rfl) (by decide)
  | ⟨name, param :: others, _⟩, ⟨other, [], _⟩, rest, more, la, lb, ends, stops, h => by
    rw [toList_display_nil, toList_display_cons, List.append_assoc, List.cons_append] at h
    obtain ⟨-, rfl⟩ := name_of_append (legible_mk_iff.1 la).1 (legible_mk_iff.1 lb).1 (by simp [separators])
      stops.separates h
    exact absurd (stops '<' rfl) (by decide)
  | ⟨name, param :: others, _⟩, ⟨other, first :: lasts, _⟩, rest, more, la, lb, ends, stops, h => by
    simp only [toList_display_cons, List.append_assoc, List.cons_append, List.nil_append] at h
    obtain ⟨la, params⟩ := legible_mk_iff.1 la
    obtain ⟨lb, firsts⟩ := legible_mk_iff.1 lb
    rw [legibleEach_cons_iff] at params firsts
    obtain ⟨same, inside⟩ := name_of_append la lb (by simp [separators]) (by simp [separators]) h
    obtain ⟨head, behind⟩ := bare_of_display params.1 firsts.1 (closing_displayRest others rest)
      (closing_displayRest lasts more) (List.cons.inj inside).2
    obtain ⟨tail, agree⟩ := bareEach_of_displayRest params.2 firsts.2 behind
    exact ⟨by simp only [bare, bareEach, String.toList_inj.1 same, head, tail], agree⟩

theorem bareEach_of_displayRest : ∀ {params others : List TypeDesc} {rest more : List Char}, LegibleEach params →
    LegibleEach others → (displayRest params).toList ++ '>' :: rest = (displayRest others).toList ++ '>' :: more →
      bareEach params = bareEach others ∧ rest = more
  | [], [], rest, more, _, _, h => ⟨rfl, (List.cons.inj h).2⟩
  | [], other :: others, rest, more, _, _, h => by
    rw [toList_displayRest_cons] at h
    exact absurd (List.cons.inj h).1 (by decide)
  | param :: params, [], rest, more, _, _, h => by
    rw [toList_displayRest_cons] at h
    exact absurd (List.cons.inj h).1 (by decide)
  | param :: params, other :: others, rest, more, la, lb, h => by
    rw [legibleEach_cons_iff] at la lb
    simp only [toList_displayRest_cons, List.cons_append, List.append_assoc, List.cons.injEq, true_and] at h
    obtain ⟨head, behind⟩ := bare_of_display la.1 lb.1 (closing_displayRest params rest)
      (closing_displayRest others more) h
    obtain ⟨tail, agree⟩ := bareEach_of_displayRest la.2 lb.2 behind
    exact ⟨by simp only [bareEach, head, tail], agree⟩

end

/-! ## Equal names -/

/-- Legible types are written alike only if they are the same. -/
theorem display_iff {a b : TypeDesc} (la : a.Legible) (lb : b.Legible) : a.display = b.display ↔ same a b = true := by
  constructor
  · intro h
    have closing : Closing [] := fun _ mem => nomatch mem
    exact same_iff_bare.2 (bare_of_display la lb closing closing (congrArg (String.toList · ++ []) h)).1
  · intro h
    exact eq_of_same display_bare h

/-- A declared type that is legible is not written like the name of undeclared types, which begins with a bracket. -/
theorem display_ne_undeclared {type : TypeDesc} (legible : type.Legible) (declared : type.isUndeclared = false) :
    type.display ≠ "<undeclared>" := by
  obtain ⟨name, params, supertypes⟩ := type
  intro h
  have plain := (legible_mk_iff.1 legible).1
  have written : ∃ behind, (display ⟨name, params, supertypes⟩).toList = name.toList ++ behind := by
    cases params with
    | nil => exact ⟨[], by rw [toList_display_nil, List.append_nil]⟩
    | cons param others => exact ⟨_, toList_display_cons name param others supertypes⟩
  obtain ⟨behind, split⟩ := written
  rw [h] at split
  cases first : name.toList with
  | nil => simp [isUndeclared, Text.isBlankText, first] at declared
  | cons c rest =>
    rw [first] at split
    obtain ⟨rfl, -⟩ := List.cons.inj split
    exact plain '<' (by decide) (first ▸ List.mem_cons_self)

/-- Messages call legible types alike only if they are the same or nothing was declared for either. -/
theorem friendlyName_iff {a b : TypeDesc} (la : a.Legible) (lb : b.Legible) :
    a.friendlyName = b.friendlyName ↔ same a b = true ∨ a.isUndeclared = true ∧ b.isUndeclared = true := by
  have marks : same a b = true → a.isUndeclared = b.isUndeclared := eq_of_same isUndeclared_bare
  cases ua : a.isUndeclared <;> cases ub : b.isUndeclared
  · simpa [friendlyName, ua, ub] using display_iff la lb
  · have differ := display_ne_undeclared la ua
    simp_all [friendlyName]
  · have differ := (display_ne_undeclared lb ub).symm
    simp_all [friendlyName]
  · simp [friendlyName, ua, ub]

/-- **Written names are unambiguous.** Types whose names hold no angle brackets and no commas, at whatever depth of
parameters, are written alike exactly when they are the same type; in messages they are called alike exactly when they are
the same type or both are undeclared. -/
theorem written_names_unambiguous {a b : TypeDesc} (la : a.Legible) (lb : b.Legible) :
    (a.display = b.display ↔ (a == b) = true) ∧
      (a.friendlyName = b.friendlyName ↔ (a == b) = true ∨ a.isUndeclared = true ∧ b.isUndeclared = true) :=
  ⟨display_iff la lb, friendlyName_iff la lb⟩

/-- a pair of a nameless type and of one with a blank name -/
def blankPair : TypeDesc := generic "Pair" [named "", list (named " ")]

/-- a type without a name, applied to a parameter that makes it look undeclared -/
def nameless : TypeDesc := generic "" [named "undeclared"]

theorem written_names_unambiguous_blank :
    blankPair.Legible ∧ nameless.Legible ∧ (named " ").Legible ∧ blankPair.display = "Pair<, List< >>" ∧
      blankPair.display ≠ nameless.display ∧ nameless.display = "<undeclared>" ∧
      nameless.display ≠ (named " ").display ∧ nameless.friendlyName = (named " ").friendlyName := by
  have pair : blankPair.Legible := by decide
  have applied : nameless.Legible := by decide
  have blank : (named " ").Legible := by decide
  have apart := written_names_unambiguous pair applied
  have alike := written_names_unambiguous applied blank
  refine ⟨pair, applied, blank, by decide, fun h => ?_, by decide, fun h => ?_, ?_⟩
  · exact absurd (apart.1.1 h) (by decide)
  · exact absurd (alike.1.1 h) (by decide)
  · exact alike.2.2 (Or.inr (by decide))

/-- A comma in a name is read as one between parameters. -/
example : (generic "Pair" [named "A, B"]).display = (generic "Pair" [named "A", named "B"]).display := by decide

end StepFlow.TypeDesc
