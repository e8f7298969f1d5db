/-
Blank characters and trimming.

A character is blank when Unicode gives it the property White_Space: twenty-five characters, most of them outside
ASCII. `trim` drops the blanks at both ends of a text and nothing else (`trimChars_eq_iff`). `isBlankText` is the test
"nothing but blanks", which is the same as trimming to the empty text (`trimChars_eq_nil_iff`).
-/

namespace StepFlow.Text

/-- the code points of the blank characters, as closed ranges -/
def blankRanges : List (Nat × Nat) :=
  [(0x09, 0x0D), (0x20, 0x20), (0x85, 0x85), (0xA0, 0xA0), (0x1680, 0x1680), (0x2000, 0x200A), (0x2028, 0x2029),
    (0x202F, 0x202F), (0x205F, 0x205F), (0x3000, 0x3000)]

/-- whether the character has the property White_Space -/
def isBlank (c : Char) : Bool :=
  blankRanges.any fun range => range.1 ≤ c.toNat && c.toNat ≤ range.2

/-- whether the text holds no character other than blanks -/
def isBlankText (s : String) : Bool :=
  s.toList.all isBlank

/-- the characters without the blanks at either end -/
def trimChars (cs : List Char) : List Char :=
  ((cs.dropWhile isBlank).reverse.dropWhile isBlank).reverse

/-- the text without the blanks at either end -/
def trim (s : String) : String :=
  String.ofList (trimChars s.toList)

/-! ## What trimming leaves -/

/-- `core` is what the text has between the blanks at its ends -/
structure Trims (cs core : List Char) : Prop where
  around : ∃ before after, (∀ c ∈ before, isBlank c = true) ∧ (∀ c ∈ after, isBlank c = true) ∧
    cs = before ++ core ++ after
  first : ∀ c ∈ core.head?, isBlank c = false
  last : ∀ c ∈ core.getLast?, isBlank c = false

theorem isBlank_of_mem_takeWhile {cs : List Char} : ∀ c ∈ cs.takeWhile isBlank, isBlank c = true :=
  List.all_eq_true.1 List.all_takeWhile

theorem isBlank_head?_dropWhile {cs : List Char} : ∀ c ∈ (cs.dropWhile isBlank).head?, isBlank c = false := by
  intro c first
  have stops := List.head?_dropWhile_not isBlank cs
  rwa [Option.mem_def.1 first] at stops

/-- Of the blanks before a text that does not begin with one, all are dropped, and nothing else. -/
theorem dropWhile_isBlank_append {before cs : List Char} (blank : ∀ c ∈ before, isBlank c = true)
    (first : ∀ c ∈ cs.head?, isBlank c = false) : (before ++ cs).dropWhile isBlank = cs := by
  rw [List.dropWhile_append_of_pos blank]
  cases cs with
  | nil => rfl
  | cons c rest => exact List.dropWhile_cons_of_neg (by simp [first c rfl])

theorem trims_trimChars (cs : List Char) : Trims cs (trimChars cs) := by
  have kept : trimChars cs ++ ((cs.dropWhile isBlank).reverse.takeWhile isBlank).reverse = cs.dropWhile isBlank := by
    rw [trimChars, ← List.reverse_append, List.takeWhile_append_dropWhile, List.reverse_reverse]
  constructor
  · refine ⟨cs.takeWhile isBlank, ((cs.dropWhile isBlank).reverse.takeWhile isBlank).reverse, isBlank_of_mem_takeWhile, ?_, ?_⟩
    · intro c mem
      exact isBlank_of_mem_takeWhile c (List.mem_reverse.1 mem)
    · rw [List.append_assoc, kept, List.takeWhile_append_dropWhile]
  · intro c first
    apply isBlank_head?_dropWhile c
    rw [← kept, List.head?_append, Option.mem_def.1 first]
    rfl
  · intro c last
    rw [trimChars, List.getLast?_reverse] at last
    exact isBlank_head?_dropWhile c last

/-- Only a text of blanks trims to nothing. -/
theorem trimChars_eq_nil_iff (cs : List Char) : trimChars cs = [] ↔ cs.all isBlank = true := by
  constructor
  · intro h
    obtain ⟨before, after, blankBefore, blankAfter, same⟩ := (trims_trimChars cs).around
    rw [h, List.append_nil] at same
    rw [List.all_eq_true, same]
    intro c mem
    exact (List.mem_append.1 mem).elim (blankBefore c) (blankAfter c)
  · intro blank
    have dropped : (cs ++ []).dropWhile isBlank = [] := dropWhile_isBlank_append (List.all_eq_true.1 blank) (by simp)
    rw [List.append_nil] at dropped
    rw [trimChars, dropped]
    rfl

/-- Trimming gives what lies between the blanks at the ends, which is nothing if the text is blank throughout. -/
theorem trimChars_eq_iff {cs core : List Char} : trimChars cs = core ↔ Trims cs core := by
  constructor
  · intro same
    exact same ▸ trims_trimChars cs
  · intro ⟨⟨before, after, blankBefore, blankAfter, same⟩, first, last⟩
    by_cases nothing : core = []
    · subst nothing
      rw [trimChars_eq_nil_iff, List.all_eq_true, same, List.append_nil]
      intro c mem
      exact (List.mem_append.1 mem).elim (blankBefore c) (blankAfter c)
    · have front : cs.dropWhile isBlank = core ++ after := by
        rw [same, List.append_assoc]
        apply dropWhile_isBlank_append blankBefore
        intro c mem
        rw [List.head?_append, List.head?_eq_some_head nothing] at mem
        exact first c (List.head?_eq_some_head nothing ▸ mem)
      have back : (core ++ after).reverse.dropWhile isBlank = core.reverse := by
        rw [List.reverse_append]
        apply dropWhile_isBlank_append
        · intro c mem
          exact blankAfter c (List.mem_reverse.1 mem)
        · rwa [List.head?_reverse]
      rw [trimChars, front, back, List.reverse_reverse]

end StepFlow.Text
