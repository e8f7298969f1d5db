/-
The order of types.

Whether a type satisfies another is decided by a search that takes the first rule that applies. `satisfies_iff` says the
same without an order among the rules: the top type is expected, the name is the same and the parameters satisfy each other
in turn, or a declared supertype satisfies what is expected. That two types are the same is a case of the second rule.

The relation that comes out of it is not transitive by itself. Types are the same when names and parameters agree, so that a
type may stand for one that declares more supertypes than it does. In a coherent universe that makes no difference. Results:
- `satisfies_refl`: every type satisfies itself;
- `satisfies_trans`: what satisfies a type of a coherent universe satisfies all that this type does;
- `satisfies_preorder`: so the types of a coherent universe are preordered.
-/
import Mathlib.Data.List.Forall2
import Mathlib.Data.Set.Basic
import StepFlow.TypeDesc.Satisfies

namespace StepFlow.TypeDesc

/-! ## What satisfies what -/

/-- two parameter lists are equally long and satisfy each other in turn -/
abbrev FitPairwise (params others : List TypeDesc) : Prop :=
  List.Forall₂ (fun param other => param.satisfies other = true) params others

theorem isAny_iff {type : TypeDesc} : type.isAny = true ↔ type.name = "Any" ∧ type.params = [] := by
  simp [isAny]

theorem satisfyEach_iff {params others : List TypeDesc} : satisfyEach params others = true ↔ FitPairwise params others := by
  induction params generalizing others with
  | nil => cases others <;> simp [satisfyEach]
  | cons param rest ih => cases others <;> simp [satisfyEach, ih]

theorem anySatisfies_iff {types : List TypeDesc} {expected : TypeDesc} :
    anySatisfies types expected = true ↔ ∃ type ∈ types, type.satisfies expected = true := by
  induction types with
  | nil => simp [anySatisfies]
  | cons type rest ih => simp [anySatisfies, ih]

theorem satisfies_of_same {type expected : TypeDesc} (h : same type expected = true) :
    type.satisfies expected = true := by
  obtain ⟨name, params, supertypes⟩ := type
  rw [satisfies, h]
  rfl

theorem fitPairwise_of_sameEach {params others : List TypeDesc} (h : sameEach params others = true) :
    FitPairwise params others := by
  induction params generalizing others with
  | nil =>
    cases others with
    | nil => exact .nil
    | cons other rest => cases h
  | cons param rest ih =>
    cases others with
    | nil => cases h
    | cons other more =>
      rw [sameEach, Bool.and_eq_true] at h
      exact .cons (satisfies_of_same h.1) (ih h.2)

/-- **What satisfies what**: everything satisfies the top type, a name applied to parameters what is applied to others that
these satisfy, and a type all that one of its supertypes does. -/
theorem satisfies_iff {type expected : TypeDesc} :
    type.satisfies expected = true ↔
      expected.isAny = true ∨ type.name = expected.name ∧ FitPairwise type.params expected.params ∨
        ∃ supertype ∈ type.supertypes, supertype.satisfies expected = true := by
  obtain ⟨name, params, supertypes⟩ := type
  simp only [satisfies, same, Bool.or_eq_true, Bool.and_eq_true, beq_iff_eq, satisfyEach_iff, anySatisfies_iff]
  constructor
  · rintro (((⟨agree, each⟩ | top) | ⟨⟨agree, -⟩, each⟩) | climbs)
    · exact Or.inr (Or.inl ⟨agree, fitPairwise_of_sameEach each⟩)
    · exact Or.inl top
    · exact Or.inr (Or.inl ⟨agree, each⟩)
    · exact Or.inr (Or.inr climbs)
  · rintro (top | ⟨agree, each⟩ | climbs)
    · exact Or.inl (Or.inl (Or.inr top))
    · cases params with
      | nil =>
        rw [List.forall₂_nil_left_iff.1 each]
        exact Or.inl (Or.inl (Or.inl ⟨agree, rfl⟩))
      | cons param rest => exact Or.inl (Or.inr ⟨⟨agree, rfl⟩, each⟩)
    · exact Or.inr climbs

mutual

theorem same_refl : ∀ type : TypeDesc, same type type = true
  | ⟨name, params, supertypes⟩ => by rw [same, sameEach_refl params, beq_self_eq_true]; rfl

theorem sameEach_refl : ∀ params : List TypeDesc, sameEach params params = true
  | [] => rfl
  | param :: rest => by rw [sameEach, same_refl param, sameEach_refl rest]; rfl

end

theorem satisfies_refl (type : TypeDesc) : type.satisfies type = true :=
  satisfies_of_same (same_refl type)

/-! ## Coherent universes -/

/-- a set of types that holds what its types are made of, in which the top type declares nothing, and in which a type keeps
what is declared by another one that it may stand for by its name and parameters -/
structure CoherentUniverse (types : Set TypeDesc) : Prop where
  params : ∀ type ∈ types, ∀ param ∈ type.params, param ∈ types
  supertypes : ∀ type ∈ types, ∀ supertype ∈ type.supertypes, supertype ∈ types
  top : ∀ type ∈ types, type.isAny = true → type.supertypes = []
  keeps : ∀ type ∈ types, ∀ other ∈ types, type.name = other.name → FitPairwise type.params other.params →
    ∀ supertype ∈ other.supertypes, type.satisfies supertype = true

theorem sizeOf_param_lt {type param : TypeDesc} (h : param ∈ type.params) : sizeOf param < sizeOf type := by
  have := List.sizeOf_lt_of_mem h
  obtain ⟨name, params, supertypes⟩ := type
  simp only [mk.sizeOf_spec] at this ⊢
  omega

theorem sizeOf_supertype_lt {type supertype : TypeDesc} (h : supertype ∈ type.supertypes) :
    sizeOf supertype < sizeOf type := by
  have := List.sizeOf_lt_of_mem h
  obtain ⟨name, params, supertypes⟩ := type
  simp only [mk.sizeOf_spec] at this ⊢
  omega

theorem FitPairwise.trans {params others lasts : List TypeDesc} (first : FitPairwise params others)
    (second : FitPairwise others lasts)
    (passes : ∀ param ∈ params, ∀ other ∈ others, ∀ last, param.satisfies other = true → other.satisfies last = true →
      param.satisfies last = true) : FitPairwise params lasts := by
  induction first generalizing lasts with
  | nil => exact second
  | cons fits _ ih =>
    cases second with
    | cons further others =>
      refine .cons (passes _ List.mem_cons_self _ List.mem_cons_self _ fits further) (ih others ?_)
      exact fun param mp other mo => passes param (List.mem_cons_of_mem _ mp) other (List.mem_cons_of_mem _ mo)

/-- **What satisfies a type of a coherent universe satisfies all that this type does.** By induction on the sizes of both: in
every pair of rules one of them gives way to a part, and the type at the end may be any. -/
theorem satisfies_trans {types : Set TypeDesc} (coherent : CoherentUniverse types) {a b c : TypeDesc} (ha : a ∈ types)
    (hb : b ∈ types) (first : a.satisfies b = true) (second : b.satisfies c = true) : a.satisfies c = true := by
  rcases satisfies_iff.1 first with top | ⟨agree, each⟩ | ⟨supertype, declared, fits⟩
  · -- the top type is followed by nothing but itself
    rcases satisfies_iff.1 second with last | ⟨same, others⟩ | ⟨supertype, declared, -⟩
    · exact satisfies_iff.2 (Or.inl last)
    · obtain ⟨named, bare⟩ := isAny_iff.1 top
      rw [bare, FitPairwise, List.forall₂_nil_left_iff] at others
      exact satisfies_iff.2 (Or.inl (isAny_iff.2 ⟨same.symm.trans named, others⟩))
    · rw [coherent.top b hb top] at declared
      cases declared
  · rcases satisfies_iff.1 second with last | ⟨same, others⟩ | ⟨supertype, declared, fits⟩
    · exact satisfies_iff.2 (Or.inl last)
    · refine satisfies_iff.2 (Or.inr (Or.inl ⟨agree.trans same, each.trans others fun param mp other mo last => ?_⟩))
      have := sizeOf_param_lt mp
      have := sizeOf_param_lt mo
      exact satisfies_trans coherent (coherent.params a ha param mp) (coherent.params b hb other mo)
    · have kept : a.satisfies supertype = true := coherent.keeps a ha b hb agree each supertype declared
      have := sizeOf_supertype_lt declared
      exact satisfies_trans coherent ha (coherent.supertypes b hb supertype declared) kept fits
  · have := sizeOf_supertype_lt declared
    have climbs := satisfies_trans coherent (coherent.supertypes a ha supertype declared) hb fits second
    exact satisfies_iff.2 (Or.inr (Or.inr ⟨supertype, declared, climbs⟩))
termination_by sizeOf a + sizeOf b

/-- **The types of a coherent universe are preordered.** Every one of them satisfies itself, and what satisfies one that
satisfies another satisfies that one too, through whatever mixture of names, parameters and declared supertypes. -/
theorem satisfies_preorder {types : Set TypeDesc} (coherent : CoherentUniverse types) :
    (∀ a ∈ types, a.satisfies a = true) ∧
      ∀ a ∈ types, ∀ b ∈ types, ∀ c ∈ types, a.satisfies b = true → b.satisfies c = true → a.satisfies c = true :=
  ⟨fun a _ => satisfies_refl a, fun _ ha _ hb _ _ => satisfies_trans coherent ha hb⟩

/-- a nominal type with a supertype -/
def square : TypeDesc := (named "Square").withSupertype (named "Shape")

/-- a box of one kind may be supplied as a list of it -/
def boxOf (item : TypeDesc) : TypeDesc := (generic "Box" [item]).withSupertype (list item)

/-- boxes and lists of shapes and squares -/
def boxUniverse : List TypeDesc :=
  [any, named "Shape", square, list any, list (named "Shape"), list square, boxOf (named "Shape"), boxOf square]

theorem satisfies_preorder_boxes :
    CoherentUniverse {type | type ∈ boxUniverse} ∧ (boxOf square).satisfies (boxOf (named "Shape")) = true ∧
      (boxOf (named "Shape")).satisfies (list any) = true ∧ (boxOf square).satisfies (list any) = true := by
  have kept : (boxUniverse.all fun type => boxUniverse.all fun other =>
      !(type.name == other.name && satisfyEach type.params other.params) || other.supertypes.all type.satisfies) = true := by
    decide
  have coherent : CoherentUniverse {type | type ∈ boxUniverse} := by
    refine ⟨?_, ?_, ?_, fun type mem other among same each supertype declared => ?_⟩
    · simp [boxUniverse, any, named, square, list, generic, boxOf, withSupertype]
    · simp [boxUniverse, any, named, square, list, generic, boxOf, withSupertype]
    · simp [boxUniverse, isAny, any, named, square, list, generic, boxOf, withSupertype]
    · have pair := List.all_eq_true.1 (List.all_eq_true.1 kept type mem) other among
      rw [same, satisfyEach_iff.2 each] at pair
      simp only [beq_self_eq_true, Bool.and_self, Bool.not_true, Bool.false_or, List.all_eq_true] at pair
      exact pair supertype declared
  have first : (boxOf square).satisfies (boxOf (named "Shape")) = true := by decide
  have second : (boxOf (named "Shape")).satisfies (list any) = true := by decide
  have among : boxOf square ∈ boxUniverse ∧ boxOf (named "Shape") ∈ boxUniverse ∧ list any ∈ boxUniverse := by
    simp [boxUniverse]
  exact ⟨coherent, first, second,
    (satisfies_preorder coherent).2 _ among.1 _ among.2.1 _ among.2.2 first second⟩

/-- Without coherence the order breaks: a square may stand for one that declares a supertype, but does not get it. -/
example : (named "Square").satisfies square = true ∧ square.satisfies (named "Shape") = true ∧
    (named "Square").satisfies (named "Shape") = false := by
  decide

end StepFlow.TypeDesc
