/-
How the limit of a run is read from a setting.

`Numeral` and `SpellsNone` say which texts are numerals and which spell the word for no limit, and `LimitText` says from
them what limit a text stands for. The reader goes through a numeral digit by digit and gives up as soon as the number
needs more than 64 bits; since a number only grows with its digits, it gives up on just those numerals that are too
large as a whole. Results:
- `readNatural_eq_some_iff`: numerals below two to the 64th are read, each as the number that it denotes;
- `readLimit_eq_some_iff`: between the blanks at its ends, a text that is read is one that stands for a limit;
- `readLimit_toString`: a limit that has been written is read again;
- `limit_setting_exact`: what limit is loaded, for every setting.
-/
import Mathlib
import StepFlow.Proofs.Text.Characters
import StepFlow.Run.Config

namespace StepFlow

namespace Config

/-! ## Numerals -/

/-- decimal digits, at least one, that denote `n` -/
structure Digits (digits : List Char) (n : Nat) : Prop where
  nonempty : digits ≠ []
  each : ∀ c ∈ digits, c.isDigit = true
  denotes : Nat.ofDigitChars 10 digits 0 = n

/-- The text is a numeral for `n`: digits, after a plus sign if there is one. -/
inductive Numeral : List Char → Nat → Prop where
  | unsigned {digits : List Char} {n : Nat} : Digits digits n → Numeral digits n
  | signed {digits : List Char} {n : Nat} : Digits digits n → Numeral ('+' :: digits) n

/-- More digits never make a smaller number. -/
theorem le_ofDigitChars (digits : List Char) (value : Nat) : value ≤ Nat.ofDigitChars 10 digits value := by
  rw [Nat.ofDigitChars_eq_ofDigitChars_zero]
  calc value = 1 * value := (Nat.one_mul value).symm
    _ ≤ 10 ^ digits.length * value := Nat.mul_le_mul_right value (Nat.one_le_pow _ _ (by decide))
    _ ≤ _ := Nat.le_add_right _ _

theorem readDigits_nil (value : Nat) : readDigits value [] = some value :=
  rfl

theorem readDigits_cons (value : Nat) (c : Char) (rest : List Char) :
    readDigits value (c :: rest) =
      if c.isDigit then
        if 10 * value + (c.toNat - '0'.toNat) < 2 ^ 64 then readDigits (10 * value + (c.toNat - '0'.toNat)) rest else none
      else none :=
  rfl

/-- Digits that follow `value` are read exactly if the whole number fits. -/
theorem readDigits_eq_some_iff {value : Nat} (fits : value < 2 ^ 64) {digits : List Char} {n : Nat} :
    readDigits value digits = some n ↔
      (∀ c ∈ digits, c.isDigit = true) ∧ Nat.ofDigitChars 10 digits value = n ∧ n < 2 ^ 64 := by
  induction digits generalizing value with
  | nil =>
    simp only [readDigits_nil, Option.some.injEq, Nat.ofDigitChars_nil]
    constructor
    · intro same
      exact ⟨by simp, same, same ▸ fits⟩
    · intro ⟨_, same, _⟩
      exact same
  | cons c rest ih =>
    rw [readDigits_cons, List.forall_mem_cons, Nat.ofDigitChars_cons]
    by_cases digit : c.isDigit = true
    · by_cases next : 10 * value + (c.toNat - '0'.toNat) < 2 ^ 64
      · simp only [digit, next, if_true, true_and]
        exact ih next
      · -- the number so far does not fit, so no number that begins with it does
        simp only [digit, next, if_true, if_false, true_and, reduceCtorEq, false_iff]
        intro ⟨_, same, small⟩
        have grown := le_ofDigitChars rest (10 * value + (c.toNat - '0'.toNat))
        omega
    · simp [digit]

theorem readDigits_zero_eq_some_iff {digits : List Char} (nonempty : digits ≠ []) {n : Nat} :
    readDigits 0 digits = some n ↔ Digits digits n ∧ n < 2 ^ 64 := by
  rw [readDigits_eq_some_iff (by decide)]
  constructor
  · intro ⟨each, denotes, small⟩
    exact ⟨⟨nonempty, each, denotes⟩, small⟩
  · intro ⟨digits, small⟩
    exact ⟨digits.each, digits.denotes, small⟩

theorem readNatural_signed {digits : List Char} (nonempty : digits ≠ []) :
    readNatural ('+' :: digits) = readDigits 0 digits := by
  cases digits with
  | nil => exact absurd rfl nonempty
  | cons c rest => rfl

theorem readNatural_unsigned {cs : List Char} (nonempty : cs ≠ [])
    (unsigned : ¬ ∃ digits, digits ≠ [] ∧ cs = '+' :: digits) : readNatural cs = readDigits 0 cs := by
  apply readNatural.eq_3
  · exact nonempty
  · intro c rest same
    exact unsigned ⟨c :: rest, by simp, same⟩

theorem Digits.unsigned {digits : List Char} {n : Nat} (h : Digits digits n) :
    ¬ ∃ others, others ≠ [] ∧ digits = '+' :: others := by
  intro ⟨others, _, same⟩
  have digit := h.each '+' (same ▸ List.mem_cons_self)
  exact absurd digit (by decide)

/-- **Numerals are read exactly**: those that denote a number below two to the 64th, and no other text. -/
theorem readNatural_eq_some_iff {cs : List Char} {n : Nat} :
    readNatural cs = some n ↔ Numeral cs n ∧ n < 2 ^ 64 := by
  constructor
  · intro read
    by_cases signed : ∃ digits, digits ≠ [] ∧ cs = '+' :: digits
    · obtain ⟨digits, nonempty, rfl⟩ := signed
      rw [readNatural_signed nonempty, readDigits_zero_eq_some_iff nonempty] at read
      exact ⟨.signed read.1, read.2⟩
    · have nonempty : cs ≠ [] := by
        intro nothing
        simp [nothing, readNatural] at read
      rw [readNatural_unsigned nonempty signed, readDigits_zero_eq_some_iff nonempty] at read
      exact ⟨.unsigned read.1, read.2⟩
  · intro ⟨numeral, small⟩
    cases numeral with
    | unsigned digits =>
      rw [readNatural_unsigned digits.nonempty digits.unsigned, readDigits_zero_eq_some_iff digits.nonempty]
      exact ⟨digits, small⟩
    | signed digits =>
      rw [readNatural_signed digits.nonempty, readDigits_zero_eq_some_iff digits.nonempty]
      exact ⟨digits, small⟩

/-- The last number of 64 bits is read, the next one is not, and neither is a second sign. -/
example : readNatural "+018446744073709551615".toList = some 18446744073709551615 ∧
    readNatural "18446744073709551616".toList = none ∧ readNatural "++1".toList = none := by
  decide

theorem numeral_toString (n : Nat) : Numeral (toString n).toList n := by
  refine .unsigned ⟨?_, ?_, ?_⟩
  · intro nothing
    rw [Nat.toString_eq_ofList_toDigits, String.toList_ofList] at nothing
    exact Nat.toDigits_ne_nil nothing
  · intro c mem
    exact isDigit_of_mem_numeral mem
  · rw [Nat.toString_eq_ofList_toDigits, String.toList_ofList]
    exact Nat.ofDigitChars_ten_toDigits

theorem Numeral.unique {cs : List Char} {n m : Nat} (first : Numeral cs n) (second : Numeral cs m) : n = m := by
  cases first with
  | unsigned digits =>
    cases second with
    | unsigned others => exact digits.denotes.symm.trans others.denotes
    | signed others => exact absurd ⟨_, others.nonempty, rfl⟩ digits.unsigned
  | signed digits =>
    cases second with
    | unsigned others => exact absurd ⟨_, digits.nonempty, rfl⟩ others.unsigned
    | signed others => exact digits.denotes.symm.trans others.denotes

theorem Numeral.head {c : Char} {rest : List Char} {n : Nat} (h : Numeral (c :: rest) n) :
    c = '+' ∨ c.isDigit = true := by
  cases h with
  | unsigned digits => exact .inr (digits.each c List.mem_cons_self)
  | signed digits => exact .inl rfl

/-! ## The word -/

/-- the text is this word, each of its letters small or large -/
def Spells (word cs : List Char) : Prop :=
  List.Forall₂ (fun letter c => c = letter ∨ c = letter.toUpper) word cs

theorem toLower_eq_iff {letter c : Char} (small : letter.isLower = true) :
    c.toLower = letter ↔ c = letter ∨ c = letter.toUpper := by
  have kept : letter.toLower = letter := Char.toLower_eq_of_not_isUpper (Char.not_isUpper_of_isLower small)
  constructor
  · intro same
    by_cases large : c.isUpper = true
    · right
      calc c = c.toUpper := (Char.toUpper_eq_of_not_isLower (Char.not_isLower_of_isUpper large)).symm
        _ = c.toLower.toUpper := (Char.toUpper_toLower_eq_toUpper c).symm
        _ = letter.toUpper := by rw [same]
    · left
      rwa [Char.toLower_eq_of_not_isUpper large] at same
  · intro either
    rcases either with rfl | rfl
    · exact kept
    · rw [Char.toLower_toUpper_eq_toLower, kept]

theorem map_toLower_eq_iff {word cs : List Char} (small : ∀ letter ∈ word, letter.isLower = true) :
    cs.map Char.toLower = word ↔ Spells word cs := by
  induction word generalizing cs with
  | nil => simp [Spells]
  | cons letter rest ih =>
    obtain ⟨first, others⟩ := List.forall_mem_cons.1 small
    cases cs with
    | nil => simp [Spells]
    | cons c cs =>
      rw [List.map_cons, List.cons.injEq, toLower_eq_iff first, ih others, Spells, Spells, List.forall₂_cons]

/-- the word for no limit, which is no numeral -/
abbrev SpellsNone (cs : List Char) : Prop :=
  Spells ['n', 'o', 'n', 'e'] cs

theorem spellsNone_iff {cs : List Char} : SpellsNone cs ↔ cs.map Char.toLower = ['n', 'o', 'n', 'e'] :=
  (map_toLower_eq_iff (List.all_eq_true.1 rfl)).symm

theorem SpellsNone.not_numeral {cs : List Char} (h : SpellsNone cs) (n : Nat) : ¬ Numeral cs n := by
  intro numeral
  cases h with
  | cons first _ =>
    rcases first with rfl | rfl
    · exact absurd numeral.head (by decide)
    · exact absurd numeral.head (by decide)

/-! ## Limits -/

/-- What limit a text stands for: none, for the word and for zero, or a number of at most 64 bits. -/
inductive LimitText : List Char → Option Nat → Prop where
  | word {cs : List Char} : SpellsNone cs → LimitText cs none
  | zero {cs : List Char} : Numeral cs 0 → LimitText cs none
  | bound {cs : List Char} {n : Nat} : Numeral cs n → 1 ≤ n → n < 2 ^ 64 → LimitText cs (some n)

theorem limitText_none_iff {cs : List Char} : LimitText cs none ↔ SpellsNone cs ∨ Numeral cs 0 := by
  constructor
  · intro stands
    cases stands with
    | word word => exact .inl word
    | zero numeral => exact .inr numeral
  · intro either
    exact either.elim .word .zero

theorem limitText_some_iff {cs : List Char} {n : Nat} :
    LimitText cs (some n) ↔ 1 ≤ n ∧ n < 2 ^ 64 ∧ Numeral cs n := by
  constructor
  · intro stands
    cases stands with
    | bound numeral positive small => exact ⟨positive, small, numeral⟩
  · intro ⟨positive, small, numeral⟩
    exact .bound numeral positive small

theorem exists_limitText_iff {cs : List Char} :
    (∃ outcome, LimitText cs outcome) ↔ SpellsNone cs ∨ ∃ n < 2 ^ 64, Numeral cs n := by
  constructor
  · intro ⟨outcome, stands⟩
    cases stands with
    | word word => exact .inl word
    | zero numeral => exact .inr ⟨0, by decide, numeral⟩
    | bound numeral _ small => exact .inr ⟨_, small, numeral⟩
  · intro either
    rcases either with word | ⟨n, small, numeral⟩
    · exact ⟨none, .word word⟩
    · by_cases zero : n = 0
      · exact ⟨none, .zero (zero ▸ numeral)⟩
      · exact ⟨some n, .bound numeral (Nat.one_le_iff_ne_zero.2 zero) small⟩

theorem readLimit_of_spells {text : String} (word : SpellsNone (Text.trimChars text.toList)) :
    readLimit text = some none := by
  rw [readLimit]
  exact if_pos (spellsNone_iff.1 word)

theorem readLimit_of_not_spells {text : String} (other : ¬ SpellsNone (Text.trimChars text.toList)) :
    readLimit text = (readNatural (Text.trimChars text.toList)).map fun n => if n = 0 then none else some n := by
  rw [readLimit]
  exact if_neg fun lower => other (spellsNone_iff.2 lower)

/-- **A text is read exactly if it stands for a limit** between the blanks at its ends, and as that limit. -/
theorem readLimit_eq_some_iff {text : String} {outcome : Option Nat} :
    readLimit text = some outcome ↔ ∃ core, Text.Trims text.toList core ∧ LimitText core outcome := by
  constructor
  · intro read
    refine ⟨Text.trimChars text.toList, Text.trims_trimChars _, ?_⟩
    by_cases word : SpellsNone (Text.trimChars text.toList)
    · rw [readLimit_of_spells word] at read
      cases read
      exact .word word
    · rw [readLimit_of_not_spells word, Option.map_eq_some_iff] at read
      obtain ⟨n, natural, rfl⟩ := read
      obtain ⟨numeral, small⟩ := readNatural_eq_some_iff.1 natural
      by_cases zero : n = 0
      · subst zero
        exact .zero numeral
      · rw [if_neg zero]
        exact .bound numeral (Nat.one_le_iff_ne_zero.2 zero) small
  · intro ⟨core, trims, stands⟩
    obtain rfl := Text.trimChars_eq_iff.2 trims
    cases stands with
    | word word => exact readLimit_of_spells word
    | zero numeral =>
      rw [readLimit_of_not_spells fun word => word.not_numeral 0 numeral,
        readNatural_eq_some_iff.2 ⟨numeral, by decide⟩]
      rfl
    | bound numeral positive small =>
      rw [readLimit_of_not_spells fun word => word.not_numeral _ numeral,
        readNatural_eq_some_iff.2 ⟨numeral, small⟩, Option.map_some, if_neg (Nat.one_le_iff_ne_zero.1 positive)]

theorem isBlank_eq_false_of_isDigit {c : Char} (digit : c.isDigit = true) : Text.isBlank c = false := by
  rw [Char.isDigit_iff_toNat] at digit
  have low : 48 ≤ c.toNat := digit.1
  have high : c.toNat ≤ 57 := digit.2
  rw [Text.isBlank, List.any_eq_false]
  intro range mem
  simp only [Text.blankRanges, List.mem_cons, List.not_mem_nil, or_false] at mem
  rw [Bool.and_eq_true, decide_eq_true_eq, decide_eq_true_eq]
  rcases mem with rfl | rfl | rfl | rfl | rfl | rfl | rfl | rfl | rfl | rfl <;> (dsimp only; omega)

/-- A limit that has been written is read again. -/
theorem readLimit_toString {n : Nat} (positive : 1 ≤ n) (small : n < 2 ^ 64) :
    readLimit (toString n) = some (some n) := by
  have visible : ∀ c ∈ (toString n).toList, Text.isBlank c = false := by
    intro c mem
    exact isBlank_eq_false_of_isDigit (isDigit_of_mem_numeral mem)
  rw [readLimit_eq_some_iff]
  refine ⟨(toString n).toList, ⟨⟨[], [], by simp, by simp, by simp⟩, ?_, ?_⟩, .bound (numeral_toString n) positive small⟩
  · intro c first
    exact visible c (List.mem_of_mem_head? first)
  · intro c last
    exact visible c (List.mem_of_mem_getLast? last)

end Config

/-! ## Settings -/

/-- The setting holds a text that is of this form but for the blanks at its ends. -/
def Setting.Holds (setting : Setting) (form : List Char → Prop) : Prop :=
  ∃ text core, setting = .text text ∧ Text.Trims text.toList core ∧ form core

namespace Setting.Holds

variable {setting : Setting} {form other : List Char → Prop}

theorem mono (h : setting.Holds form) (weaker : ∀ cs, form cs → other cs) : setting.Holds other := by
  obtain ⟨written, core, same, trims, holds⟩ := h
  exact ⟨written, core, same, trims, weaker core holds⟩

theorem and (h : setting.Holds form) (second : setting.Holds other) : setting.Holds fun cs => form cs ∧ other cs := by
  obtain ⟨written, core, same, trims, holds⟩ := h
  obtain ⟨again, core', same', trims', holds'⟩ := second
  obtain rfl : written = again := Setting.text.inj (same.symm.trans same')
  obtain rfl : core = core' := (Text.trimChars_eq_iff.2 trims).symm.trans (Text.trimChars_eq_iff.2 trims')
  exact ⟨written, core, same, trims, holds, holds'⟩

end Setting.Holds

namespace Config

theorem read_eq_some_iff {setting : Setting} {outcome : Option Nat} :
    setting.text?.bind readLimit = some outcome ↔ setting.Holds (LimitText · outcome) := by
  constructor
  · intro read
    cases setting with
    | unset => simp [Setting.text?] at read
    | unreadable => simp [Setting.text?] at read
    | text written =>
      obtain ⟨core, trims, stands⟩ := readLimit_eq_some_iff.1 read
      exact ⟨written, core, rfl, trims, stands⟩
  · intro ⟨written, core, same, trims, stands⟩
    subst same
    exact readLimit_eq_some_iff.2 ⟨core, trims, stands⟩

/-- A setting from which no limit is read holds neither the word nor a numeral that is small enough. -/
theorem read_eq_none_iff {setting : Setting} :
    setting.text?.bind readLimit = none ↔
      ¬ setting.Holds fun cs => SpellsNone cs ∨ ∃ n < 2 ^ 64, Numeral cs n := by
  rw [Option.eq_none_iff_forall_ne_some]
  constructor
  · intro unread ⟨written, core, same, trims, either⟩
    obtain ⟨outcome, stands⟩ := exists_limitText_iff.2 either
    exact unread outcome (read_eq_some_iff.2 ⟨written, core, same, trims, stands⟩)
  · intro neither outcome read
    apply neither
    exact (read_eq_some_iff.1 read).mono fun cs stands => exists_limitText_iff.1 ⟨outcome, stands⟩

theorem holds_unlimited_iff {setting : Setting} :
    setting.Holds (LimitText · none) ↔ setting.Holds fun cs => SpellsNone cs ∨ Numeral cs 0 := by
  constructor
  · intro stands
    exact stands.mono fun cs => limitText_none_iff.1
  · intro either
    exact either.mono fun cs => limitText_none_iff.2

theorem holds_bound_iff {setting : Setting} {n : Nat} :
    setting.Holds (LimitText · (some n)) ↔ 1 ≤ n ∧ n < 2 ^ 64 ∧ setting.Holds (Numeral · n) := by
  constructor
  · intro ⟨written, core, same, trims, stands⟩
    obtain ⟨positive, small, numeral⟩ := limitText_some_iff.1 stands
    exact ⟨positive, small, written, core, same, trims, numeral⟩
  · intro ⟨positive, small, numeral⟩
    exact numeral.mono fun cs numeral => .bound numeral positive small

theorem read_of_large {setting : Setting} {n : Nat} (large : 2 ^ 64 ≤ n) (holds : setting.Holds (Numeral · n)) :
    setting.text?.bind readLimit = none := by
  rw [read_eq_none_iff]
  intro either
  obtain ⟨_, cs, _, _, numeral, word | ⟨m, small, other⟩⟩ := holds.and either
  · exact word.not_numeral n numeral
  · have same := numeral.unique other
    omega

/-- **The limit of a run is what its setting says.** Let a setting be the value of the variable, or what the file has in
its place. Between the blanks at its ends, the word "none" and the numerals for zero stand for no limit, and a numeral for
a number from one to below two to the 64th stands for that number; in every other case the default is kept. So a numeral
that is too large neither wraps nor takes the limit away, and a limit of zero is never loaded. What the other variable
holds makes no difference. -/
theorem limit_setting_exact (limit switch : Setting) (limitInFile switchInFile : Option String) :
    let held := limit.orFile limitInFile
    let loaded := (load limit switch limitInFile switchInFile).maxSteps
    let defaults : Config := {}
    (loaded = none ↔ held.Holds fun cs => SpellsNone cs ∨ Numeral cs 0) ∧
    (∀ n, loaded = some n ↔
      (1 ≤ n ∧ n < 2 ^ 64 ∧ held.Holds (Numeral · n)) ∨
      (defaults.maxSteps = some n ∧ ¬ held.Holds fun cs => SpellsNone cs ∨ ∃ m < 2 ^ 64, Numeral cs m)) ∧
    (∀ n, 2 ^ 64 ≤ n → held.Holds (Numeral · n) → loaded = defaults.maxSteps) ∧
    loaded ≠ some 0 ∧
    ∀ other otherInFile, (load limit other limitInFile otherInFile).maxSteps = loaded := by
  intro held loaded defaults
  have read : loaded = (held.text?.bind readLimit).getD defaults.maxSteps := rfl
  have bounded : ∀ n, loaded = some n ↔
      (1 ≤ n ∧ n < 2 ^ 64 ∧ held.Holds (Numeral · n)) ∨
      (defaults.maxSteps = some n ∧ ¬ held.Holds fun cs => SpellsNone cs ∨ ∃ m < 2 ^ 64, Numeral cs m) := by
    intro n
    rw [read, Option.getD_eq_iff, read_eq_some_iff, holds_bound_iff, read_eq_none_iff]
    exact or_congr Iff.rfl And.comm
  refine ⟨?_, bounded, ?_, ?_, ?_⟩
  · rw [read, Option.getD_eq_iff, read_eq_some_iff, holds_unlimited_iff]
    constructor
    · intro either
      rcases either with unlimited | ⟨-, unset⟩
      · exact unlimited
      · exact absurd unset (by decide)
    · exact .inl
  · intro n large numeral
    rw [read, read_of_large large numeral]
    rfl
  · intro zero
    rcases (bounded 0).1 zero with ⟨positive, -⟩ | ⟨unset, -⟩
    · exact absurd positive (by decide)
    · exact absurd unset (by decide)
  · intro other otherInFile
    rfl

end Config

end StepFlow
