/-
Values and the types that they may be supplied as.

A type that declares a supertype promises about its values what nothing checks: its own values are admitted by their
structure, and the supertype may ask for another one. A type is bare if it declares none, at any depth. For a bare type,
what it satisfies is read off names and parameters alone. Results:
- `bare_coherent`: bare types are a coherent universe, so what they satisfy is handed on;
- `satisfies_bare_iff`: a bare type satisfies the top type and what agrees with it up to its parameters;
- `admits_of_satisfies`: a value that a bare type admits is admitted by every type that it satisfies;
- `bare_subsumption`: both together.
-/
import StepFlow.Proofs.TypeDesc.Preorder
import StepFlow.TypeDesc.Admits

namespace StepFlow.TypeDesc

mutual

def isBare : TypeDesc → Bool
  | ⟨_, params, supertypes⟩ => supertypes.isEmpty && areBare params

def areBare : List TypeDesc → Bool
  | [] => true
  | param :: rest => isBare param && areBare rest

end

theorem areBare_iff {types : List TypeDesc} : areBare types = true ↔ ∀ type ∈ types, type.isBare = true := by
  induction types with
  | nil => simp [areBare]
  | cons type rest ih => simp [areBare, ih]

theorem isBare_iff {type : TypeDesc} :
    type.isBare = true ↔ type.supertypes = [] ∧ ∀ param ∈ type.params, param.isBare = true := by
  obtain ⟨name, params, supertypes⟩ := type
  simp [isBare, areBare_iff]

/-! ## What bare types satisfy -/

/-- Where nothing is declared, nothing can be declared apart. -/
theorem bare_coherent : CoherentUniverse {type | type.isBare = true} := by
  refine ⟨fun type bare => (isBare_iff.1 bare).2, fun type bare supertype declared => ?_,
    fun type bare _ => (isBare_iff.1 bare).1, fun _ _ other bare _ _ supertype declared => ?_⟩
  all_goals
    rw [(isBare_iff.1 bare).1] at declared
    cases declared

/-- **What a bare type satisfies**: the top type, and what has its name and is satisfied parameter by parameter. -/
theorem satisfies_bare_iff {type expected : TypeDesc} (bare : type.isBare = true) :
    type.satisfies expected = true ↔
      expected.isAny = true ∨ type.name = expected.name ∧ FitPairwise type.params expected.params := by
  rw [satisfies_iff, (isBare_iff.1 bare).1]
  simp

/-- A bare type that strings may be supplied as satisfies only such types. -/
theorem satisfies_string_trans {key expected : TypeDesc} (bare : key.isBare = true) (strings : string.satisfies key = true)
    (fits : key.satisfies expected = true) : string.satisfies expected = true :=
  satisfies_trans bare_coherent (show string.isBare = true from rfl) bare strings fits

/-! ## Admission -/

theorem admits_of_isAny {type : TypeDesc} (top : type.isAny = true) (value : Value) : type.admits value = true := by
  obtain ⟨name, params, supertypes⟩ := type
  obtain ⟨rfl, rfl⟩ := isAny_iff.1 top
  simp [admits, plainAdmits]

/-- A type of one parameter admits more if its parameter does. -/
theorem admits_unary {name : String} {inner other : TypeDesc} {supertypes more : List TypeDesc} {value : Value}
    (passes : ∀ item, inner.admits item = true → other.admits item = true)
    (h : admits ⟨name, [inner], supertypes⟩ value = true) : admits ⟨name, [other], more⟩ value = true := by
  by_cases list : name = "List"
  · simp only [admits, if_pos list] at h ⊢
    cases value with
    | array items =>
      rw [List.all_eq_true] at h ⊢
      exact fun item mem => passes item (h item mem)
    | _ => cases h
  · by_cases option : name = "Option"
    · simp only [admits, if_neg list, if_pos option, Bool.or_eq_true] at h ⊢
      exact h.imp_right (passes value)
    · simp only [admits, if_neg list, if_neg option]

/-- A type of two parameters admits more if its parameters do; strings must stay possible as keys. -/
theorem admits_binary {name : String} {key otherKey inner other : TypeDesc} {supertypes more : List TypeDesc}
    {value : Value} (keys : string.satisfies key = true → string.satisfies otherKey = true)
    (passes : ∀ item, inner.admits item = true → other.admits item = true)
    (h : admits ⟨name, [key, inner], supertypes⟩ value = true) : admits ⟨name, [otherKey, other], more⟩ value = true := by
  by_cases map : name = "Map"
  · simp only [admits, if_pos map, Bool.and_eq_true] at h ⊢
    refine ⟨keys h.1, ?_⟩
    cases value with
    | object fields =>
      obtain ⟨-, h⟩ := h
      rw [List.all_eq_true] at h ⊢
      exact fun field mem => passes field.2 (h field mem)
    | _ => cases h.2
  · simp only [admits, if_neg map]

/-- **A value that a bare type admits is admitted by every type that it satisfies.** By recursion on the bare type: the
other one is either the top type or has the same shape. -/
theorem admits_of_satisfies : ∀ {type expected : TypeDesc} {value : Value}, type.isBare = true →
    type.satisfies expected = true → type.admits value = true → expected.admits value = true
  | ⟨name, params, supertypes⟩, ⟨wanted, others, more⟩, value, bare, fits, admitted => by
    have each := (isBare_iff.1 bare).2
    rcases (satisfies_bare_iff bare).1 fits with top | ⟨agree, pairs⟩
    · exact admits_of_isAny top value
    obtain rfl : name = wanted := agree
    cases pairs with
    | nil => exact admitted
    | @cons key otherKey inners rest keys pairs =>
      have keyBare : key.isBare = true := each key List.mem_cons_self
      cases pairs with
      | nil => exact admits_unary (fun item => admits_of_satisfies keyBare keys) admitted
      | @cons inner other _ _ inside pairs =>
        have innerBare : inner.isBare = true := each inner (List.mem_cons_of_mem _ List.mem_cons_self)
        cases pairs with
        | nil =>
          exact admits_binary (fun strings => satisfies_string_trans keyBare strings keys)
            (fun item => admits_of_satisfies innerBare inside) admitted
        | cons _ _ => rfl

/-- **Subsumption.** A type that declares no supertype, at any depth, satisfies the top type and what has its name and is
satisfied parameter by parameter, whatever that declares, and nothing else. Each of these admits every value that the type
itself admits. -/
theorem bare_subsumption {type : TypeDesc} (bare : type.isBare = true) (expected : TypeDesc) :
    (type.satisfies expected = true ↔
      expected.isAny = true ∨ type.name = expected.name ∧ FitPairwise type.params expected.params) ∧
    (type.satisfies expected = true → ∀ value, type.admits value = true → expected.admits value = true) :=
  ⟨satisfies_bare_iff bare, fun fits _ => admits_of_satisfies bare fits⟩

/-- a map to lists that may have gaps -/
def sparseLists : TypeDesc := map string (list (option int32))

/-- a map with any keys to lists of anything, which declares that it is a table -/
def looseLists : TypeDesc := (map any (list (any.withSupertype (named "Cell")))).withSupertype (named "Table")

theorem bare_subsumption_sparse :
    sparseLists.isBare = true ∧ sparseLists.satisfies looseLists = true ∧
      sparseLists.admits (.object [("k", .array [.null, .int 7])]) = true ∧
      looseLists.admits (.object [("k", .array [.null, .int 7])]) = true := by
  have bare : sparseLists.isBare = true := rfl
  have fits : sparseLists.satisfies looseLists = true := by decide
  have admitted : sparseLists.admits (.object [("k", .array [.null, .int 7])]) = true := by decide
  exact ⟨bare, fits, admitted, (bare_subsumption bare looseLists).2 fits _ admitted⟩

/-- A declared supertype is taken at its word: its declarer admits what it does not. -/
example : ((named "Count").withSupertype int32).satisfies int32 = true ∧
    ((named "Count").withSupertype int32).admits (.str "seven") = true ∧ int32.admits (.str "seven") = false := by
  decide

end StepFlow.TypeDesc
