import SessionPool.Json.Skip

/-!
# Readers of values

A reader takes one value off the front of a text, blanks before it included, and says what is left.
It makes progress: what is left is shorter than what it was given. A value of another type than the
wanted one is named in the fault, after its own form has been checked.
-/

namespace SessionPool.Json

open Decimal

/-- A way to take a value of type `α` off the front of a text. -/
structure Reader (α : Type) where
  run : List Char → Except Fault (α × List Char)
  progress : ∀ {s rest : List Char} {a : α}, run s = .ok (a, rest) → rest.length < s.length

/-- A number as something found in the wrong place. -/
def Number.found : Number → Found
  | .natural n => .integer n
  | .negative n => .integer (-n)
  | .floating minus d => .floating minus d

/-- What kind of value stands at the front of a text, and what is left behind it. A list or an
object is not entered. -/
def findValue (s : List Char) : Except Fault (Found × List Char) :=
  match s with
  | [] => .error (.onFirst .endInValue [])
  | 'n' :: rest => (readLiteral ['u', 'l', 'l'] rest).map (.null, ·)
  | 't' :: rest => (readLiteral ['r', 'u', 'e'] rest).map (.boolean true, ·)
  | 'f' :: rest => (readLiteral ['a', 'l', 's', 'e'] rest).map (.boolean false, ·)
  | '"' :: rest => (readText rest).map fun (text, rest) => (.text (String.ofList text), rest)
  | '[' :: _ => .ok (.sequence, s)
  | '{' :: _ => .ok (.map, s)
  | c :: _ =>
    if c = '-' ∨ c.isDigit then (readNumber s).map fun (n, rest) => (n.found, rest)
    else .error (.onFirst .expectedValue s)

/-- The fault of a text whose first value is not of the wanted type. -/
def mismatch (wanted : String) (s : List Char) : Fault :=
  match findValue s with
  | .ok (found, rest) => .before (.invalidType found wanted) rest
  | .error fault => fault

theorem readText_shorter {s rest text : List Char} (h : readText s = .ok (text, rest)) :
    rest.length < s.length := by
  fun_induction readText s generalizing text with
  | case1 => cases h
  | case2 =>
    cases h
    simp
  | case3 => cases h
  | case4 s c s' hs ih =>
    have := readEscape_shorter hs
    obtain ⟨p, hr, h⟩ := exists_of_map_eq_ok h
    cases h
    have := ih hr
    simp only [List.length_cons]
    omega
  | case5 => cases h
  | case6 c s _ _ _ ih =>
    obtain ⟨p, hr, h⟩ := exists_of_map_eq_ok h
    cases h
    have := ih hr
    simp only [List.length_cons]
    omega

namespace Reader

variable {α β : Type}

/-- Reads the same and changes the value. -/
def map (f : α → β) (reader : Reader α) : Reader β where
  run s := (reader.run s).map fun (a, rest) => (f a, rest)
  progress {s rest b} h := by
    obtain ⟨p, hs, h⟩ := exists_of_map_eq_ok h
    cases h
    exact reader.progress hs

/-- A text. -/
def readTextValue (s : List Char) : Except Fault (String × List Char) :=
  match skipBlanks s with
  | '"' :: s => (readText s).map fun (text, rest) => (String.ofList text, rest)
  | s => .error (mismatch "a string" s)

def text : Reader String where
  run := readTextValue
  progress {s rest a} h := by
    have hle := skipBlanks_le s
    unfold readTextValue at h
    split at h
    · rename_i hs
      obtain ⟨p, hr, h⟩ := exists_of_map_eq_ok h
      have := readText_shorter hr
      cases h
      rw [hs, List.length_cons] at hle
      omega
    · cases h

/-- `true` or `false`. -/
def readBoolean (s : List Char) : Except Fault (Bool × List Char) :=
  match skipBlanks s with
  | 't' :: s => (readLiteral ['r', 'u', 'e'] s).map (true, ·)
  | 'f' :: s => (readLiteral ['a', 'l', 's', 'e'] s).map (false, ·)
  | s => .error (mismatch "a boolean" s)

def boolean : Reader Bool where
  run := readBoolean
  progress {s rest a} h := by
    have hle := skipBlanks_le s
    unfold readBoolean at h
    split at h
    case h_3 => cases h
    all_goals
      rename_i hs
      obtain ⟨p, hr, h⟩ := exists_of_map_eq_ok h
      have := readLiteral_le hr
      cases h
      rw [hs, List.length_cons] at hle
      omega

/-- An integer from 0 to below `bound`, of a type called `wanted`. -/
def readNatural (wanted : String) (bound : Nat) (s : List Char) :
    Except Fault (Nat × List Char) :=
  match skipBlanks s with
  | [] => .error (mismatch wanted [])
  | s@(c :: _) =>
    if c = '-' ∨ c.isDigit then
      match readNumber s with
      | .error fault => .error fault
      | .ok (.natural n, rest) =>
        if n < bound then .ok (n, rest)
        else .error (.before (.invalidValue (.integer n) wanted) rest)
      | .ok (.negative n, rest) => .error (.before (.invalidValue (.integer (-n)) wanted) rest)
      | .ok (number, rest) => .error (.before (.invalidType number.found wanted) rest)
    else .error (mismatch wanted s)

def natural (wanted : String) (bound : Nat) : Reader Nat where
  run := readNatural wanted bound
  progress {s rest a} h := by
    have hle := skipBlanks_le s
    unfold readNatural at h
    split at h
    · cases h
    · split at h
      · split at h
        case h_2 hr =>
          have := readNumber_shorter hr
          split at h
          · cases h
            simp_all only [List.length_cons]
            omega
          · cases h
        all_goals cases h
      · cases h

def uint16 : Reader UInt16 := (natural "u16" UInt16.size).map .ofNat

def uint32 : Reader UInt32 := (natural "u32" UInt32.size).map .ofNat

def uint64 : Reader UInt64 := (natural "u64" UInt64.size).map .ofNat

/-- What `reader` reads, or `null`. -/
def readOptional (reader : Reader α) (s : List Char) : Except Fault (Option α × List Char) :=
  match skipBlanks s with
  | 'n' :: s => (readLiteral ['u', 'l', 'l'] s).map (none, ·)
  | s => (reader.run s).map fun (a, rest) => (some a, rest)

def optional (reader : Reader α) : Reader (Option α) where
  run := readOptional reader
  progress {s rest a} h := by
    have hle := skipBlanks_le s
    unfold readOptional at h
    split at h
    · rename_i hs
      obtain ⟨p, hr, h⟩ := exists_of_map_eq_ok h
      have := readLiteral_le hr
      cases h
      rw [hs, List.length_cons] at hle
      omega
    · obtain ⟨p, hr, h⟩ := exists_of_map_eq_ok h
      have := reader.progress hr
      cases h
      omega

/-- The value that a whole text stands for: nothing but blanks may follow it. -/
def parse (reader : Reader α) (text : String) : Except Error α :=
  let s := text.toList
  match reader.run s with
  | .error fault => .error (fault.locate s)
  | .ok (a, rest) =>
    match skipBlanks rest with
    | [] => .ok a
    | rest => .error ((Fault.onFirst .trailingCharacters rest).locate s)

end Reader

end SessionPool.Json
