/-
Looking for one text inside another.

`occursIn needle text` scans the positions of `text` from the left; `occursIn_iff` states the rule: the needle stands
somewhere, with any text before and after it. The empty needle occurs everywhere.
-/

namespace StepFlow.Text

/-- whether the characters of `needle` stand side by side somewhere in `text` -/
def charsOccurIn (needle : List Char) : List Char → Bool
  | [] => needle.isEmpty
  | c :: rest => needle.isPrefixOf (c :: rest) || charsOccurIn needle rest

/-- whether `needle` is a piece of `text` -/
def occursIn (needle text : String) : Bool :=
  charsOccurIn needle.toList text.toList

theorem charsOccurIn_iff (needle text : List Char) :
    charsOccurIn needle text = true ↔ ∃ before after, text = before ++ needle ++ after := by
  induction text with
  | nil =>
    constructor
    · intro h
      obtain rfl : needle = [] := by simpa [charsOccurIn] using h
      exact ⟨[], [], rfl⟩
    · rintro ⟨before, after, h⟩
      cases needle with
      | nil => rfl
      | cons c rest => simp at h
  | cons c rest ih =>
    simp only [charsOccurIn, Bool.or_eq_true, ih, List.isPrefixOf_iff_prefix]
    constructor
    · rintro (⟨after, h⟩ | ⟨before, after, rfl⟩)
      · exact ⟨[], after, h.symm⟩
      · exact ⟨c :: before, after, by simp⟩
    · rintro ⟨before, after, h⟩
      cases before with
      | nil => exact .inl ⟨after, by simpa using h.symm⟩
      | cons b before =>
        simp only [List.cons_append, List.cons.injEq] at h
        exact .inr ⟨before, after, h.2⟩

/-- One text occurs in another when the other splits around it. -/
theorem occursIn_iff (needle text : String) :
    occursIn needle text = true ↔ ∃ before after, text.toList = before ++ needle.toList ++ after :=
  charsOccurIn_iff _ _

end StepFlow.Text
