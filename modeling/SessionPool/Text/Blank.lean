/-!
# Blank characters

A character is *blank* when Unicode gives it the property `White_Space`. Cutting the blanks off
both ends of a text leaves a text that starts and ends with a character that is not blank, or no
character at all.
-/

namespace SessionPool.Text

/-- The 25 characters with the Unicode property `White_Space`. -/
def isBlank (c : Char) : Bool :=
  let n := c.toNat
  (9 ≤ n && n ≤ 13) || n == 0x20 || n == 0x85 || n == 0xA0 || n == 0x1680 ||
    (0x2000 ≤ n && n ≤ 0x200A) || n == 0x2028 || n == 0x2029 || n == 0x202F || n == 0x205F ||
    n == 0x3000

/-- Everything that counts as white space among the ASCII characters is blank. -/
theorem isBlank_of_isWhitespace {c : Char} (h : c.isWhitespace = true) : isBlank c = true := by
  simp only [Char.isWhitespace, Bool.or_eq_true, decide_eq_true_eq] at h
  rcases h with ((h | h) | h) | h <;> subst h <;> decide

/-- What is left of a list when the blanks at its end are cut off. -/
def trimEnd : List Char → List Char
  | [] => []
  | c :: s =>
    match trimEnd s with
    | [] => if isBlank c then [] else [c]
    | t => c :: t

/-- What is left of a list when the blanks at both ends are cut off. -/
def trim (s : List Char) : List Char := trimEnd (s.dropWhile isBlank)

/-- `trim` on strings. -/
def trimmed (s : String) : String := String.ofList (trim s.toList)

/-- A text in which every character is blank; the empty text is one. -/
def allBlank (s : String) : Bool := s.toList.all isBlank

/-! ### What is cut off -/

theorem trimEnd_eq_nil_iff (s : List Char) : trimEnd s = [] ↔ s.all isBlank = true := by
  induction s with
  | nil => simp [trimEnd]
  | cons c s ih =>
    rw [List.all_cons, Bool.and_eq_true, ← ih, trimEnd]
    split
    · next hnil => cases hc : isBlank c <;> simp [hnil]
    · next hnot => exact iff_of_false (List.cons_ne_nil _ _) fun h => hnot h.2

theorem all_dropWhile_isBlank (s : List Char) :
    (s.dropWhile isBlank).all isBlank = s.all isBlank := by
  induction s with
  | nil => rfl
  | cons c s ih => cases hc : isBlank c <;> simp [List.dropWhile, hc, ih]

/-- Nothing is left of a text exactly if all of it is blank. -/
theorem trimmed_eq_empty_iff (s : String) : trimmed s = "" ↔ allBlank s = true := by
  rw [trimmed, allBlank, ← all_dropWhile_isBlank, ← trimEnd_eq_nil_iff]
  exact String.ofList_eq_empty_iff

end SessionPool.Text
