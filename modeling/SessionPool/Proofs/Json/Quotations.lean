import SessionPool.Json.Skip

/-!
# Texts as they are written

Between its quotes a text has for each character one of several things: the character itself, a
short escape, or one or two units in hexadecimal digits. A unit that is half of a surrogate pair
stands beside its other half only. However a text is written, it is read as that text, or skipped,
up to its closing quote:

    readText (s ++ rest) = ok (text, rest)  and  skipText (s ++ rest) = ok rest.
-/

namespace SessionPool.Json

open Text

/-! ### The ways to write a text -/

/-- Four hexadecimal digits of a number, in either case. -/
inductive DenotesUnit : List Char → Nat → Prop
  | mk {a b c d : Char} {i j k l : Nat} : hexDigit? a = some i → hexDigit? b = some j →
      hexDigit? c = some k → hexDigit? d = some l →
      DenotesUnit [a, b, c, d] (((i * 16 + j) * 16 + k) * 16 + l)

/-- The letters of the short escapes, and what they stand for. -/
def shortEscapes : List (Char × Char) :=
  [('"', '"'), ('\\', '\\'), ('/', '/'), ('b', '\x08'), ('f', '\x0c'), ('n', '\n'), ('r', '\r'),
    ('t', '\t')]

/-- A text between quotes denotes one character. -/
inductive DenotesChar : List Char → Char → Prop
  | plain {c : Char} : 0x20 ≤ c.toNat → c ≠ '"' → c ≠ '\\' → DenotesChar [c] c
  | short {letter c : Char} : (letter, c) ∈ shortEscapes → DenotesChar ['\\', letter] c
  | unit {s n} : DenotesUnit s n → ¬ (0xD800 ≤ n ∧ n ≤ 0xDFFF) →
      DenotesChar ('\\' :: 'u' :: s) (Char.ofNat n)
  | pair {s t high low} : DenotesUnit s high → 0xD800 ≤ high → high ≤ 0xDBFF →
      DenotesUnit t low → 0xDC00 ≤ low → low ≤ 0xDFFF →
      DenotesChar ('\\' :: 'u' :: (s ++ '\\' :: 'u' :: t))
        (Char.ofNat ((high - 0xD800) * 0x400 + (low - 0xDC00) + 0x10000))

/-- A text denotes the characters up to its closing quote. -/
inductive DenotesText : List Char → List Char → Prop
  | close : DenotesText ['"'] []
  | cons {s c t cs} : DenotesChar s c → DenotesText t cs → DenotesText (s ++ t) (c :: cs)

/-! ### Reading -/

theorem readHex4_append {s : List Char} {n : Nat} (h : DenotesUnit s n) (rest : List Char) :
    readHex4 (s ++ rest) = .ok (n, rest) := by
  obtain ⟨ha, hb, hc, hd⟩ := h
  simp only [List.cons_append, List.nil_append, readHex4, ha, hb, hc, hd]

theorem readText_escape {s rest : List Char} {c : Char} (h : readEscape s = .ok (c, rest)) :
    readText ('\\' :: s) = (readText rest).map fun p => (c :: p.1, p.2) := by
  rw [readText]
  split
  · next hs => rw [h] at hs; cases hs
  · next hs => rw [h] at hs; cases hs; rfl

theorem readText_plain {c : Char} (hquote : c ≠ '"') (hescape : c ≠ '\\')
    (hcontrol : ¬ c.toNat < 0x20) (s : List Char) :
    readText (c :: s) = (readText s).map fun p => (c :: p.1, p.2) := by
  rw [readText, if_neg hcontrol]
  · exact hquote
  · exact hescape

theorem readEscape_short {letter c : Char} (h : (letter, c) ∈ shortEscapes) (rest : List Char) :
    readEscape (letter :: rest) = .ok (c, rest) := by
  simp only [shortEscapes, List.mem_cons, Prod.mk.injEq, List.not_mem_nil, or_false] at h
  rcases h with ⟨rfl, rfl⟩ | ⟨rfl, rfl⟩ | ⟨rfl, rfl⟩ | ⟨rfl, rfl⟩ | ⟨rfl, rfl⟩ | ⟨rfl, rfl⟩ |
    ⟨rfl, rfl⟩ | ⟨rfl, rfl⟩ <;> rfl

theorem readEscape_unit {s : List Char} {n : Nat} (h : DenotesUnit s n)
    (halone : ¬ (0xD800 ≤ n ∧ n ≤ 0xDFFF)) (rest : List Char) :
    readEscape ('u' :: (s ++ rest)) = .ok (Char.ofNat n, rest) := by
  show (readHex4 (s ++ rest) >>= _) = _
  rw [readHex4_append h]
  show ite _ _ _ = _
  rw [if_neg (by omega), if_neg (by omega)]

theorem readEscape_pair {s t : List Char} {high low : Nat} (hs : DenotesUnit s high)
    (hhigh : 0xD800 ≤ high ∧ high ≤ 0xDBFF) (ht : DenotesUnit t low)
    (hlow : 0xDC00 ≤ low ∧ low ≤ 0xDFFF) (rest : List Char) :
    readEscape ('u' :: (s ++ '\\' :: 'u' :: (t ++ rest))) =
      .ok (Char.ofNat ((high - 0xD800) * 0x400 + (low - 0xDC00) + 0x10000), rest) := by
  show (readHex4 (s ++ '\\' :: 'u' :: (t ++ rest)) >>= _) = _
  rw [readHex4_append hs]
  show ite _ _ _ = _
  rw [if_neg (by omega), if_pos hhigh]
  show (readHex4 (t ++ rest) >>= _) = _
  rw [readHex4_append ht]
  show ite _ _ _ = _
  rw [if_pos hlow]

/-- One character is read off the front, however it is written. -/
theorem readText_char {s : List Char} {c : Char} (h : DenotesChar s c) (rest : List Char) :
    readText (s ++ rest) = (readText rest).map fun p => (c :: p.1, p.2) := by
  cases h with
  | plain hcontrol hquote hescape => exact readText_plain hquote hescape (by omega) rest
  | short hmem => exact readText_escape (readEscape_short hmem rest)
  | unit hs halone => exact readText_escape (readEscape_unit hs halone rest)
  | pair hs hhigh hhigh' ht hlow hlow' =>
    simp only [List.cons_append, List.append_assoc]
    exact readText_escape (readEscape_pair hs ⟨hhigh, hhigh'⟩ ht ⟨hlow, hlow'⟩ rest)

theorem readText_append {s text : List Char} (h : DenotesText s text) (rest : List Char) :
    readText (s ++ rest) = .ok (text, rest) := by
  induction h with
  | close => rw [List.cons_append, List.nil_append, readText]
  | cons hc _ ih =>
    rw [List.append_assoc, readText_char hc, ih]
    rfl

/-! ### Skipping -/

theorem skipText_escape {s rest : List Char} (h : skipEscape s = .ok rest) :
    skipText ('\\' :: s) = skipText rest := by
  rw [skipText]
  split
  · next hs => rw [h] at hs; cases hs
  · next hs => rw [h] at hs; cases hs; rfl

theorem skipEscape_unit {s : List Char} {n : Nat} (h : DenotesUnit s n) (rest : List Char) :
    skipEscape ('u' :: (s ++ rest)) = .ok rest := by
  show (readHex4 (s ++ rest)).map _ = _
  rw [readHex4_append h]
  rfl

theorem skipEscape_short {letter c : Char} (h : (letter, c) ∈ shortEscapes) (rest : List Char) :
    skipEscape (letter :: rest) = .ok rest := by
  simp only [shortEscapes, List.mem_cons, Prod.mk.injEq, List.not_mem_nil, or_false] at h
  rcases h with ⟨rfl, -⟩ | ⟨rfl, -⟩ | ⟨rfl, -⟩ | ⟨rfl, -⟩ | ⟨rfl, -⟩ | ⟨rfl, -⟩ | ⟨rfl, -⟩ |
    ⟨rfl, -⟩ <;> rfl

/-- One character is skipped, however it is written. The halves of a pair are skipped one after the
other. -/
theorem skipText_char {s : List Char} {c : Char} (h : DenotesChar s c) (rest : List Char) :
    skipText (s ++ rest) = skipText rest := by
  cases h with
  | plain hcontrol hquote hescape =>
    rw [List.cons_append, List.nil_append, skipText, if_neg (by omega)]
    · exact hquote
    · exact hescape
  | short hmem => exact skipText_escape (skipEscape_short hmem rest)
  | unit hs => exact skipText_escape (skipEscape_unit hs rest)
  | pair hs _ _ ht =>
    simp only [List.cons_append, List.append_assoc]
    rw [skipText_escape (skipEscape_unit hs _), skipText_escape (skipEscape_unit ht rest)]

theorem skipText_append {s text : List Char} (h : DenotesText s text) (rest : List Char) :
    skipText (s ++ rest) = .ok rest := by
  induction h with
  | close => rw [List.cons_append, List.nil_append, skipText]
  | cons hc _ ih => rw [List.append_assoc, skipText_char hc, ih]

end SessionPool.Json
