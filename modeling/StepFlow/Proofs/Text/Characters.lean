/-
Which characters texts are made of.

A numeral holds digits only. The compact text of a value holds no control character, since those in strings and keys are
escaped; only the numeral of a floating-point number stands in it as it is. Results:
- `isDigit_of_mem_numeral`: numerals;
- `control_not_mem_compact`: compact texts.
-/
import Mathlib.Tactic.SplitIfs
import StepFlow.Value.Compact

namespace StepFlow

/-! ## Numerals -/

theorem isDigit_of_mem_numeral {n : Nat} {c : Char} (mem : c ∈ (toString n).toList) : c.isDigit = true := by
  rw [Nat.toString_eq_ofList_toDigits, String.toList_ofList] at mem
  exact Nat.isDigit_of_mem_toDigits (by decide) (by decide) mem

/-! ## Compact texts -/

namespace Text

def IsControl (c : Char) : Prop := c.toNat < 0x20

instance (c : Char) : Decidable (IsControl c) :=
  inferInstanceAs (Decidable (c.toNat < 0x20))

theorem control_not_mem {c : Char} (control : IsControl c) {text : List Char}
    (printable : (text.all fun d => 0x20 ≤ d.toNat) = true) : c ∉ text := by
  intro mem
  have above : 0x20 ≤ c.toNat := of_decide_eq_true (List.all_eq_true.1 printable c mem)
  exact absurd control (Nat.not_lt.2 above)

theorem control_not_mem_numeral {c : Char} (control : IsControl c) (n : Nat) : c ∉ (toString n).toList := by
  intro mem
  have above : 0x30 ≤ c.toNat := (Char.isDigit_iff_toNat.1 (isDigit_of_mem_numeral mem)).1
  unfold IsControl at control
  omega

theorem mem_append_iff {c : Char} {text more : String} :
    c ∈ (text ++ more).toList ↔ c ∈ text.toList ∨ c ∈ more.toList := by
  rw [String.toList_append, List.mem_append]

theorem not_mem_append {c : Char} {text more : String} (first : c ∉ text.toList) (second : c ∉ more.toList) :
    c ∉ (text ++ more).toList :=
  fun mem => (mem_append_iff.1 mem).elim first second

theorem not_mem_intercalate {c : Char} {separator : String} {texts : List String} (between : c ∉ separator.toList)
    (each : ∀ text ∈ texts, c ∉ text.toList) : c ∉ (String.intercalate separator texts).toList := by
  induction texts with
  | nil => simp
  | cons text rest ih =>
    rw [List.forall_mem_cons] at each
    cases rest with
    | nil => simpa using each.1
    | cons next others =>
      rw [String.intercalate_cons_cons]
      exact not_mem_append (not_mem_append each.1 between) (ih each.2)

end Text

namespace Value

mutual

/-- the numerals of the floating-point numbers in a value -/
def numerals : Value → List String
  | .float text => [text]
  | .array items => numeralsOfItems items
  | .object fields => numeralsOfFields fields
  | _ => []

def numeralsOfItems : List Value → List String
  | [] => []
  | item :: rest => numerals item ++ numeralsOfItems rest

def numeralsOfFields : List (String × Value) → List String
  | [] => []
  | (_, value) :: rest => numerals value ++ numeralsOfFields rest

end

theorem printable_digitChar : ∀ n < 16, 0x20 ≤ (Nat.digitChar n).toNat := by decide

theorem control_not_mem_compactChar {c : Char} (control : Text.IsControl c) (d : Char) : c ∉ (compactChar d).toList := by
  apply Text.control_not_mem control
  unfold compactChar
  split_ifs with _ _ _ _ _ _ _ low
  · decide
  · decide
  · decide
  · decide
  · decide
  · decide
  · decide
  · have high := printable_digitChar (d.toNat / 16) (by omega)
    have rest := printable_digitChar (d.toNat % 16) (by omega)
    simp [fourHexDigits, high, rest]
  · simpa using low

theorem control_not_mem_compactString {c : Char} (control : Text.IsControl c) (s : String) :
    c ∉ (compactString s).toList := by
  have quote : c ∉ "\"".toList := Text.control_not_mem control (by decide)
  refine Text.not_mem_append (Text.not_mem_append quote ?_) quote
  rw [String.toList_join, List.mem_flatMap]
  rintro ⟨text, among, mem⟩
  obtain ⟨d, -, rfl⟩ := List.mem_map.1 among
  exact control_not_mem_compactChar control d mem

variable {c : Char}

mutual

/-- **The compact text of a value holds no control character** unless the numeral of a floating-point number does. -/
theorem control_not_mem_compact (control : Text.IsControl c) : ∀ value : Value,
    (∀ numeral ∈ value.numerals, c ∉ numeral.toList) → c ∉ value.compact.toList
  | .null, _ => Text.control_not_mem control (by decide)
  | .bool true, _ => Text.control_not_mem control (by decide)
  | .bool false, _ => Text.control_not_mem control (by decide)
  | .int (.ofNat n), _ => Text.control_not_mem_numeral control n
  | .int (.negSucc n), _ =>
    Text.not_mem_append (Text.control_not_mem control (by decide)) (Text.control_not_mem_numeral control (n + 1))
  | .float text, plain => plain text List.mem_cons_self
  | .str s, _ => control_not_mem_compactString control s
  | .array items, plain => by
    have comma : c ∉ ",".toList := Text.control_not_mem control (by decide)
    have inside := Text.not_mem_intercalate comma (control_not_mem_compactItems control items plain)
    have opening : c ∉ "[".toList := Text.control_not_mem control (by decide)
    have closing : c ∉ "]".toList := Text.control_not_mem control (by decide)
    exact Text.not_mem_append (Text.not_mem_append opening inside) closing
  | .object fields, plain => by
    have comma : c ∉ ",".toList := Text.control_not_mem control (by decide)
    have inside := Text.not_mem_intercalate comma (control_not_mem_compactFields control fields plain)
    have opening : c ∉ "\x7b".toList := Text.control_not_mem control (by decide)
    have closing : c ∉ "\x7d".toList := Text.control_not_mem control (by decide)
    exact Text.not_mem_append (Text.not_mem_append opening inside) closing

theorem control_not_mem_compactItems (control : Text.IsControl c) : ∀ items : List Value,
    (∀ numeral ∈ numeralsOfItems items, c ∉ numeral.toList) → ∀ text ∈ compactItems items, c ∉ text.toList
  | [], _ => fun _ mem => nomatch mem
  | item :: rest, plain => by
    rw [numeralsOfItems, List.forall_mem_append] at plain
    exact List.forall_mem_cons.2
      ⟨control_not_mem_compact control item plain.1, control_not_mem_compactItems control rest plain.2⟩

theorem control_not_mem_compactFields (control : Text.IsControl c) : ∀ fields : List (String × Value),
    (∀ numeral ∈ numeralsOfFields fields, c ∉ numeral.toList) → ∀ text ∈ compactFields fields, c ∉ text.toList
  | [], _ => fun _ mem => nomatch mem
  | (key, value) :: rest, plain => by
    rw [numeralsOfFields, List.forall_mem_append] at plain
    have colon : c ∉ ":".toList := Text.control_not_mem control (by decide)
    have field := Text.not_mem_append (Text.not_mem_append (control_not_mem_compactString control key) colon)
      (control_not_mem_compact control value plain.1)
    exact List.forall_mem_cons.2 ⟨field, control_not_mem_compactFields control rest plain.2⟩

end

end Value

end StepFlow
