import SessionPool.Json.Fault

/-!
# JSON strings

How a text is written between double quotes, and how it is read back: `writeText` escapes the
quote, the backslash and the control characters; `readText` undoes every escape that the format
knows; `skipText` only finds the closing quote. Both readers start behind the opening quote.
-/

namespace SessionPool.Json

open Text

/-! ### Writing -/

/-- One character between quotes. -/
def writeChar (c : Char) : List Char :=
  match c with
  | '"' => ['\\', '"']
  | '\\' => ['\\', '\\']
  | '\x08' => ['\\', 'b']
  | '\t' => ['\\', 't']
  | '\n' => ['\\', 'n']
  | '\x0c' => ['\\', 'f']
  | '\r' => ['\\', 'r']
  | c => if c.toNat < 0x20 then ['\\', 'u', '0', '0'] ++ hexByte c.toNat.toUInt8 else [c]

/-- A text between quotes. -/
def writeText (s : String) : List Char := '"' :: s.toList.flatMap writeChar ++ ['"']

/-! ### Reading -/

/-- The number that the next four bytes spell in hexadecimal digits. -/
def readHex4 : List Char → Except Fault (Nat × List Char)
  | s@(a :: b :: c :: d :: rest) =>
    match hexDigit? a, hexDigit? b, hexDigit? c, hexDigit? d with
    | some a, some b, some c, some d => .ok (((a * 16 + b) * 16 + c) * 16 + d, rest)
    | _, _, _, _ => .error (refused s)
  | s => .error (refused s)
where
  refused (s : List Char) : Fault :=
    if byteCount s < 4 then ⟨.endInText, 0⟩ else ⟨.invalidEscape, byteCount s - 4⟩

/-- The second half of a surrogate pair, `high` being the first half. -/
def readLowSurrogate (high : Nat) : List Char → Except Fault (Char × List Char)
  | [] => .error (.before .endInText [])
  | ['\\'] => .error (.before .endInText [])
  | '\\' :: 'u' :: s => do
    let (low, rest) ← readHex4 s
    if 0xDC00 ≤ low ∧ low ≤ 0xDFFF then
      .ok (Char.ofNat ((high - 0xD800) * 0x400 + (low - 0xDC00) + 0x10000), rest)
    else .error (.before .loneSurrogate rest)
  | '\\' :: s => .error (.onFirst .unfinishedSurrogatePair s)
  | s => .error (.onFirst .unfinishedSurrogatePair s)

/-- The character that an escape stands for; `s` starts behind the backslash. -/
def readEscape (s : List Char) : Except Fault (Char × List Char) :=
  match s with
  | [] => .error (.before .endInText [])
  | '"' :: rest => .ok ('"', rest)
  | '\\' :: rest => .ok ('\\', rest)
  | '/' :: rest => .ok ('/', rest)
  | 'b' :: rest => .ok ('\x08', rest)
  | 'f' :: rest => .ok ('\x0c', rest)
  | 'n' :: rest => .ok ('\n', rest)
  | 'r' :: rest => .ok ('\r', rest)
  | 't' :: rest => .ok ('\t', rest)
  | 'u' :: s => do
    let (unit, rest) ← readHex4 s
    if 0xDC00 ≤ unit ∧ unit ≤ 0xDFFF then .error (.before .loneSurrogate rest)
    else if 0xD800 ≤ unit ∧ unit ≤ 0xDBFF then readLowSurrogate unit rest
    else .ok (Char.ofNat unit, rest)
  | s => .error (.onFirst .invalidEscape s)

theorem readHex4_shorter {s rest : List Char} {n : Nat} (h : readHex4 s = .ok (n, rest)) :
    rest.length < s.length := by
  unfold readHex4 at h
  split at h
  · split at h
    · cases h
      simp only [List.length_cons]
      omega
    · cases h
  · cases h

theorem readLowSurrogate_shorter {high : Nat} {s rest : List Char} {c : Char}
    (h : readLowSurrogate high s = .ok (c, rest)) : rest.length < s.length := by
  unfold readLowSurrogate at h
  split at h
  · cases h
  · cases h
  · obtain ⟨⟨low, left⟩, hs, h⟩ := exists_of_bind_eq_ok h
    have := readHex4_shorter hs
    dsimp only at h
    split at h
    · simp only [Except.ok.injEq, Prod.mk.injEq] at h
      simp only [← h.2, List.length_cons]
      omega
    · cases h
  · cases h
  · cases h

theorem readEscape_shorter {s rest : List Char} {c : Char} (h : readEscape s = .ok (c, rest)) :
    rest.length < s.length := by
  unfold readEscape at h
  split at h
  case h_10 s =>
    obtain ⟨⟨unit, left⟩, hs, h⟩ := exists_of_bind_eq_ok h
    have := readHex4_shorter hs
    dsimp only at h
    split at h
    · cases h
    · split at h
      · have := readLowSurrogate_shorter h
        simp only [List.length_cons]
        omega
      · simp only [Except.ok.injEq, Prod.mk.injEq] at h
        simp only [← h.2, List.length_cons]
        omega
  all_goals
    cases h
    try simp

/-- The text up to the closing quote, and what is left behind that quote. -/
def readText (s : List Char) : Except Fault (List Char × List Char) :=
  match s with
  | [] => .error (.before .endInText [])
  | '"' :: rest => .ok ([], rest)
  | '\\' :: s =>
    match _h : readEscape s with
    | .error fault => .error fault
    | .ok (c, s) => (readText s).map fun (text, rest) => (c :: text, rest)
  | c :: s =>
    if c.toNat < 0x20 then .error (.before .controlCharacter s)
    else (readText s).map fun (text, rest) => (c :: text, rest)
termination_by s.length
decreasing_by
  · have := readEscape_shorter _h
    simp only [List.length_cons]
    omega
  · simp

/-! ### Skipping -/

/-- What is left behind an escape that nobody wants to know. -/
def skipEscape (s : List Char) : Except Fault (List Char) :=
  match s with
  | [] => .error (.before .endInText [])
  | 'u' :: s => (readHex4 s).map (·.2)
  | c :: rest =>
    if ['"', '\\', '/', 'b', 'f', 'n', 'r', 't'].contains c then .ok rest
    else .error (.onFirst .invalidEscape s)

theorem skipEscape_shorter {s rest : List Char} (h : skipEscape s = .ok rest) :
    rest.length < s.length := by
  unfold skipEscape at h
  split at h
  · cases h
  · obtain ⟨p, hs, rfl⟩ := exists_of_map_eq_ok h
    have := readHex4_shorter hs
    simp only [List.length_cons]
    omega
  · split at h
    · simp only [Except.ok.injEq] at h
      simp [← h]
    · cases h

/-- What is left behind the closing quote. -/
def skipText (s : List Char) : Except Fault (List Char) :=
  match s with
  | [] => .error (.before .endInText [])
  | '"' :: rest => .ok rest
  | '\\' :: s =>
    match _h : skipEscape s with
    | .error fault => .error fault
    | .ok s => skipText s
  | c :: rest => if c.toNat < 0x20 then .error (.before .controlCharacter s) else skipText rest
termination_by s.length
decreasing_by
  · have := skipEscape_shorter _h
    simp only [List.length_cons]
    omega
  · simp

end SessionPool.Json
