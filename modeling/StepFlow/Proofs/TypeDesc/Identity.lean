/-
What declared supertypes change.

Types are the same when names and parameters agree at every depth, whatever they declare. A type without its supertypes, at
any depth, is its bare form, and types are the same exactly when their bare forms are equal. So whatever reads a type no
further than its bare form cannot tell types that are the same apart. Declared supertypes are read in one place only: in a
candidate, when it is asked whether it satisfies another type; and more of them only let it satisfy more. Results:
- `same_iff_bare`: types are the same if their bare forms are;
- `feed_bare`, `hashCode_bare`, `display_bare`, `satisfies_bare_right`, `admits_bare`: what reads bare forms only;
- `Declares.same`, `Declares.satisfies`: one more supertype, at any depth, gives the same type, which satisfies no less;
- `supertypes_invisible`: all of it.
-/
import Mathlib.Logic.Relation
import StepFlow.Proofs.TypeDesc.Preorder
import StepFlow.TypeDesc.Admits
import StepFlow.TypeDesc.Display
import StepFlow.TypeDesc.Hashing

namespace StepFlow.TypeDesc

/-! ## Bare forms -/

mutual

/-- a type without its supertypes, at any depth -/
def bare : TypeDesc → TypeDesc
  | ⟨name, params, _⟩ => ⟨name, bareEach params, []⟩

def bareEach : List TypeDesc → List TypeDesc
  | [] => []
  | param :: rest => bare param :: bareEach rest

end

mutual

theorem same_iff_bare : ∀ {a b : TypeDesc}, same a b = true ↔ a.bare = b.bare
  | ⟨name, params, _⟩, ⟨other, others, _⟩ => by
    simp only [same, bare, Bool.and_eq_true, beq_iff_eq, sameEach_iff_bareEach, mk.injEq, and_true]

theorem sameEach_iff_bareEach : ∀ {params others : List TypeDesc},
    sameEach params others = true ↔ bareEach params = bareEach others
  | [], [] => by simp [sameEach]
  | [], _ :: _ => by simp [sameEach, bareEach]
  | _ :: _, [] => by simp [sameEach, bareEach]
  | param :: rest, other :: others => by
    simp only [sameEach, bareEach, Bool.and_eq_true, @same_iff_bare param, @sameEach_iff_bareEach rest, List.cons.injEq]

end

mutual

@[simp] theorem bare_bare : ∀ type : TypeDesc, type.bare.bare = type.bare
  | ⟨name, params, _⟩ => by simp only [bare, bareEach_bareEach params]

@[simp] theorem bareEach_bareEach : ∀ params : List TypeDesc, bareEach (bareEach params) = bareEach params
  | [] => rfl
  | param :: rest => by simp only [bareEach, bare_bare param, bareEach_bareEach rest]

end

@[simp] theorem length_bareEach (params : List TypeDesc) : (bareEach params).length = params.length := by
  induction params with
  | nil => rfl
  | cons param rest ih => simp [bareEach, ih]

theorem bareEach_append (params others : List TypeDesc) :
    bareEach (params ++ others) = bareEach params ++ bareEach others := by
  induction params with
  | nil => rfl
  | cons param rest ih => simp [bareEach, ih]

/-! ## What reads bare forms only -/

section Hashing

variable {State : Type} (hasher : Hasher State)

mutual

theorem feed_bare : ∀ (state : State) (type : TypeDesc), feed hasher state type.bare = feed hasher state type
  | state, ⟨name, params, _⟩ => by simp only [bare, feed, length_bareEach, feedEach_bareEach _ params]

theorem feedEach_bareEach : ∀ (state : State) (params : List TypeDesc),
    feedEach hasher state (bareEach params) = feedEach hasher state params
  | _, [] => rfl
  | state, param :: rest => by simp only [bareEach, feedEach, feed_bare state param, feedEach_bareEach _ rest]

end

end Hashing

mutual

theorem hashCode_bare : ∀ type : TypeDesc, type.bare.hashCode = type.hashCode
  | ⟨name, params, _⟩ => by simp only [bare, hashCode, hashEach_bareEach params]

theorem hashEach_bareEach : ∀ params : List TypeDesc, hashEach (bareEach params) = hashEach params
  | [] => rfl
  | param :: rest => by simp only [bareEach, hashEach, hashCode_bare param, hashEach_bareEach rest]

end

mutual

theorem display_bare : ∀ type : TypeDesc, type.bare.display = type.display
  | ⟨name, [], _⟩ => by simp only [bare, bareEach, display]
  | ⟨name, param :: rest, _⟩ => by
    simp only [bare, bareEach, display, display_bare param, displayRest_bareEach rest]

theorem displayRest_bareEach : ∀ params : List TypeDesc, displayRest (bareEach params) = displayRest params
  | [] => rfl
  | param :: rest => by simp only [bareEach, displayRest, display_bare param, displayRest_bareEach rest]

end

theorem isUndeclared_bare : ∀ type : TypeDesc, type.bare.isUndeclared = type.isUndeclared
  | ⟨_, _, _⟩ => rfl

theorem friendlyName_bare (type : TypeDesc) : type.bare.friendlyName = type.friendlyName := by
  rw [friendlyName, friendlyName, isUndeclared_bare, display_bare]

theorem isAny_bare (type : TypeDesc) : type.bare.isAny = type.isAny := by
  obtain ⟨name, params, supertypes⟩ := type
  cases params <;> rfl

theorem same_bare_right (a b : TypeDesc) : same a b.bare = same a b := by
  rw [Bool.eq_iff_iff, same_iff_bare, same_iff_bare, bare_bare]

mutual

/-- Of what is expected only the bare form is read. -/
theorem satisfies_bare_right : ∀ type expected : TypeDesc, type.satisfies expected.bare = type.satisfies expected
  | ⟨name, params, supertypes⟩, ⟨wanted, others, more⟩ => by
    have each : satisfyEach params (bare ⟨wanted, others, more⟩).params = satisfyEach params others :=
      satisfyEach_bareEach params others
    rw [satisfies, satisfies, same_bare_right, isAny_bare, each, anySatisfies_bare_right supertypes]
    rfl

theorem satisfyEach_bareEach : ∀ params others : List TypeDesc,
    satisfyEach params (bareEach others) = satisfyEach params others
  | [], [] => rfl
  | [], _ :: _ => rfl
  | _ :: _, [] => rfl
  | param :: rest, other :: others => by
    simp only [bareEach, satisfyEach, satisfies_bare_right param other, satisfyEach_bareEach rest others]

theorem anySatisfies_bare_right : ∀ (types : List TypeDesc) (expected : TypeDesc),
    anySatisfies types expected.bare = anySatisfies types expected
  | [], _ => rfl
  | type :: rest, expected => by
    simp only [anySatisfies, satisfies_bare_right type expected, anySatisfies_bare_right rest expected]

end

/-- Admission follows the parameters, and never the supertypes. -/
theorem admits_bare : ∀ (type : TypeDesc) (value : Value), type.bare.admits value = type.admits value
  | ⟨name, [], _⟩, value => by simp only [bare, bareEach, admits]
  | ⟨name, [inner], _⟩, value => by
    simp only [bare, bareEach, admits, admits_bare inner]
  | ⟨name, [key, inner], _⟩, value => by
    simp only [bare, bareEach, admits, satisfies_bare_right, admits_bare inner]
  | ⟨name, _ :: _ :: _ :: _, _⟩, value => by simp only [bare, bareEach, admits]

/-- What gives a type and its bare form the same gives the same to types that are the same. -/
theorem eq_of_same {Answer : Type} {read : TypeDesc → Answer} (reads : ∀ type, read type.bare = read type) {a b : TypeDesc}
    (h : same a b = true) : read a = read b := by
  rw [← reads a, same_iff_bare.1 h, reads b]

theorem same_equivalence : Equivalence fun a b : TypeDesc => (a == b) = true where
  refl := same_refl
  symm h := same_iff_bare.2 (same_iff_bare.1 h).symm
  trans first second := same_iff_bare.2 ((same_iff_bare.1 first).trans (same_iff_bare.1 second))

/-! ## More supertypes -/

/-- the second type comes from the first one by declaring one more supertype: the type itself does, one of its parameters, or
one of its supertypes, at any depth -/
inductive Declares : TypeDesc → TypeDesc → Prop where
  | here (name : String) (params before after : List TypeDesc) (supertype : TypeDesc) :
    Declares ⟨name, params, before ++ after⟩ ⟨name, params, before ++ supertype :: after⟩
  | param (name : String) (before after supertypes : List TypeDesc) {param wider : TypeDesc} (inside : Declares param wider) :
    Declares ⟨name, before ++ param :: after, supertypes⟩ ⟨name, before ++ wider :: after, supertypes⟩
  | supertype (name : String) (params before after : List TypeDesc) {supertype wider : TypeDesc}
    (inside : Declares supertype wider) :
    Declares ⟨name, params, before ++ supertype :: after⟩ ⟨name, params, before ++ wider :: after⟩

theorem Declares.bare {type wider : TypeDesc} (h : Declares type wider) : type.bare = wider.bare := by
  induction h with
  | here => rfl
  | param name before after supertypes inside ih => simp only [TypeDesc.bare, bareEach_append, bareEach, ih]
  | supertype => rfl

theorem Declares.same {type wider : TypeDesc} (h : Declares type wider) : same type wider = true :=
  same_iff_bare.2 h.bare

theorem FitPairwise.widen {before after others : List TypeDesc} {param wider : TypeDesc}
    (more : ∀ expected, param.satisfies expected = true → wider.satisfies expected = true)
    (h : FitPairwise (before ++ param :: after) others) : FitPairwise (before ++ wider :: after) others := by
  induction before generalizing others with
  | nil =>
    cases h with
    | cons fits rest => exact .cons (more _ fits) rest
  | cons first before ih =>
    cases h with
    | cons fits rest => exact .cons fits (ih rest)

/-- **A type that declares more satisfies no less.** By induction on the place of the new supertype: whichever rule let the
first type satisfy what is expected lets the second one do so. -/
theorem Declares.satisfies {type wider : TypeDesc} (h : Declares type wider) {expected : TypeDesc}
    (fits : type.satisfies expected = true) : wider.satisfies expected = true := by
  induction h generalizing expected with
  | here name params before after supertype =>
    rcases satisfies_iff.1 fits with top | agrees | ⟨declared, mem, climbs⟩
    · exact satisfies_iff.2 (Or.inl top)
    · exact satisfies_iff.2 (Or.inr (Or.inl agrees))
    · refine satisfies_iff.2 (Or.inr (Or.inr ⟨declared, ?_, climbs⟩))
      rcases List.mem_append.1 mem with mem | mem
      · exact List.mem_append_left _ mem
      · exact List.mem_append_right _ (List.mem_cons_of_mem _ mem)
  | param name before after supertypes inside ih =>
    rcases satisfies_iff.1 fits with top | ⟨agree, each⟩ | climbs
    · exact satisfies_iff.2 (Or.inl top)
    · exact satisfies_iff.2 (Or.inr (Or.inl ⟨agree, each.widen fun _ => ih⟩))
    · exact satisfies_iff.2 (Or.inr (Or.inr climbs))
  | @supertype name params before after supertype wider inside ih =>
    rcases satisfies_iff.1 fits with top | agrees | ⟨declared, mem, climbs⟩
    · exact satisfies_iff.2 (Or.inl top)
    · exact satisfies_iff.2 (Or.inr (Or.inl agrees))
    · rcases List.mem_append.1 mem with mem | mem
      · exact satisfies_iff.2 (Or.inr (Or.inr ⟨declared, List.mem_append_left _ mem, climbs⟩))
      rcases List.mem_cons.1 mem with rfl | mem
      · exact satisfies_iff.2 (Or.inr (Or.inr ⟨wider, List.mem_append_right _ List.mem_cons_self, ih climbs⟩))
      · exact satisfies_iff.2 (Or.inr (Or.inr ⟨declared, List.mem_append_right _ (List.mem_cons_of_mem _ mem), climbs⟩))

/-- So does a type that declares more in several places, one after the other. -/
theorem widened {type wider : TypeDesc} (h : Relation.ReflTransGen Declares type wider) :
    same type wider = true ∧ ∀ expected, type.satisfies expected = true → wider.satisfies expected = true := by
  induction h with
  | refl => exact ⟨same_refl type, fun _ fits => fits⟩
  | tail _ last ih =>
    exact ⟨same_equivalence.trans ih.1 last.same, fun expected fits => last.satisfies (ih.2 expected fits)⟩

/-- no reader tells two types apart: neither what satisfies them nor the values that they admit, their texts or their marks -/
structure Indistinct (a b : TypeDesc) : Prop where
  satisfied : ∀ type : TypeDesc, type.satisfies a = type.satisfies b
  admits : ∀ value, a.admits value = b.admits value
  display : a.display = b.display
  friendlyName : a.friendlyName = b.friendlyName
  isAny : a.isAny = b.isAny
  isUndeclared : a.isUndeclared = b.isUndeclared

theorem indistinct_of_same {a b : TypeDesc} (h : same a b = true) : Indistinct a b where
  satisfied type := eq_of_same (satisfies_bare_right type) h
  admits value := congrFun (eq_of_same (fun type => funext (admits_bare type)) h) value
  display := eq_of_same display_bare h
  friendlyName := eq_of_same friendlyName_bare h
  isAny := eq_of_same isAny_bare h
  isUndeclared := eq_of_same isUndeclared_bare h

/-- **Supertypes are invisible except as extra permissions.** Identity of types is an equivalence, every hash function takes
types that are the same for one, and no reader tells them apart as what is expected. A type that declares more supertypes,
at however many places and depths, is the same type and satisfies all that it did before. -/
theorem supertypes_invisible :
    (Equivalence fun a b : TypeDesc => (a == b) = true) ∧
      (∀ a b : TypeDesc, (a == b) = true →
        (∀ (State : Type) (hasher : Hasher State) (state : State), feed hasher state a = feed hasher state b) ∧
          hash a = hash b ∧ Indistinct a b) ∧
      ∀ type wider : TypeDesc, Relation.ReflTransGen Declares type wider →
        (type == wider) = true ∧ ∀ expected, type.satisfies expected = true → wider.satisfies expected = true :=
  ⟨same_equivalence,
    fun _ _ same => ⟨fun _ hasher state => eq_of_same (feed_bare hasher state) same, eq_of_same hashCode_bare same,
      indistinct_of_same same⟩,
    fun _ _ => widened⟩

def plainSquares : TypeDesc := list (named "Square")

/-- the same list, where squares declare that they are shapes, and the list that it is a row of figures -/
def richSquares : TypeDesc := (list square).withSupertype (named "Figures")

theorem supertypes_invisible_squares :
    (plainSquares == richSquares) = true ∧ hash plainSquares = hash richSquares ∧ Indistinct plainSquares richSquares ∧
      Relation.ReflTransGen Declares plainSquares richSquares ∧ plainSquares.satisfies (list any) = true ∧
      richSquares.satisfies (list any) = true := by
  have inside : Declares plainSquares (list square) := .param "List" [] [] [] (.here "Square" [] [] [] (named "Shape"))
  have outside : Declares (list square) richSquares := .here "List" [square] [] [] (named "Figures")
  have wider : Relation.ReflTransGen Declares plainSquares richSquares := .tail (.single inside) outside
  have fits : plainSquares.satisfies (list any) = true := by decide
  obtain ⟨-, alike, permits⟩ := supertypes_invisible
  obtain ⟨same, more⟩ := permits plainSquares richSquares wider
  obtain ⟨-, hashes, indistinct⟩ := alike plainSquares richSquares same
  exact ⟨same, hashes, indistinct, wider, fits, more (list any) fits⟩

/-- What is gained is a permission. -/
example : richSquares.satisfies (list (named "Shape")) = true ∧ plainSquares.satisfies (list (named "Shape")) = false := by
  decide

end StepFlow.TypeDesc
