import SessionPool.Decimal.Shortest
import SessionPool.Text.Bytes
import SessionPool.Text.Quoted

/-!
# What is wrong with a JSON text

A fault is a cause and the place where it was met. While a text is read the place is known by the
bytes that are left; the line and the column follow from the bytes before it. The column counts
the bytes since the last line feed, so it is 0 right after one.
-/

namespace SessionPool.Json

open Text

/-- What stands where a value of another type was wanted. -/
inductive Found where
  | null
  | boolean (value : Bool)
  | integer (value : Int)
  | floating (negative : Bool) (value : Decimal.Double)
  | text (value : String)
  | sequence
  | map
  deriving DecidableEq, Repr

/-- Numbers are written plainly while their first digit stands at most five places behind the
point or fifteen before it. -/
def Found.layout : Decimal.Layout := ⟨-5, 15⟩

/-- What was found, in words. -/
def Found.describe : Found → String
  | .null => "null"
  | .boolean b => s!"boolean `{b}`"
  | .integer n => s!"integer `{n}`"
  | .floating negative d => s!"floating point `{Found.layout.renderDouble negative d}`"
  | .text s => s!"string {quoted s}"
  | .sequence => "sequence"
  | .map => "map"

/-- Why a text is not read. The first group is about the form of the text, the second about the
value that is wanted of it. -/
inductive Cause where
  | endInValue
  | endInText
  | endInList
  | endInObject
  | expectedColon
  | expectedListEnd
  | expectedObjectEnd
  | expectedLiteral
  | expectedValue
  | invalidEscape
  | invalidNumber
  | numberOutOfRange
  | loneSurrogate
  | unfinishedSurrogatePair
  | controlCharacter
  | nameNotText
  | trailingComma
  | trailingCharacters
  | invalidType (found : Found) (wanted : String)
  | invalidValue (found : Found) (wanted : String)
  | invalidLength (length : Nat) (wanted : String)
  | missingMember (name : String)
  | repeatedMember (name : String)
  deriving DecidableEq, Repr

/-- The wording of a cause. -/
def Cause.message : Cause → String
  | .endInValue => "EOF while parsing a value"
  | .endInText => "EOF while parsing a string"
  | .endInList => "EOF while parsing a list"
  | .endInObject => "EOF while parsing an object"
  | .expectedColon => "expected `:`"
  | .expectedListEnd => "expected `,` or `]`"
  | .expectedObjectEnd => "expected `,` or `\x7d`"
  | .expectedLiteral => "expected ident"
  | .expectedValue => "expected value"
  | .invalidEscape => "invalid escape"
  | .invalidNumber => "invalid number"
  | .numberOutOfRange => "number out of range"
  | .loneSurrogate => "lone leading surrogate in hex escape"
  | .unfinishedSurrogatePair => "unexpected end of hex escape"
  | .controlCharacter => "control character (\\u0000-\\u001F) found while parsing a string"
  | .nameNotText => "key must be a string"
  | .trailingComma => "trailing comma"
  | .trailingCharacters => "trailing characters"
  | .invalidType found wanted => s!"invalid type: {found.describe}, expected {wanted}"
  | .invalidValue found wanted => s!"invalid value: {found.describe}, expected {wanted}"
  | .invalidLength length wanted => s!"invalid length {length}, expected {wanted}"
  | .missingMember name => s!"missing field `{name}`"
  | .repeatedMember name => s!"duplicate field `{name}`"

/-- A cause with the number of bytes that are left behind the place where it was met. -/
structure Fault where
  cause : Cause
  left : Nat
  deriving DecidableEq, Repr

/-- A fault met in front of what is left. -/
def Fault.before (cause : Cause) (rest : List Char) : Fault := ⟨cause, byteCount rest⟩

/-- A fault met in the first byte of what is left, or at the end if nothing is. -/
def Fault.onFirst (cause : Cause) (rest : List Char) : Fault := ⟨cause, byteCount rest - 1⟩

theorem exists_of_map_eq_ok {ε α β : Type} {x : Except ε α} {f : α → β} {b : β}
    (h : x.map f = .ok b) : ∃ a, x = .ok a ∧ f a = b := by
  cases x with
  | error e => cases h
  | ok a => exact ⟨a, rfl, Except.ok.inj h⟩

theorem exists_of_bind_eq_ok {ε α β : Type} {x : Except ε α} {f : α → Except ε β} {b : β}
    (h : (x >>= f) = .ok b) : ∃ a, x = .ok a ∧ f a = .ok b := by
  cases x with
  | error e => cases h
  | ok a => exact ⟨a, rfl, h⟩

theorem map_eq_ok_iff {ε α β : Type} {x : Except ε α} {f : α → β} {b : β} :
    x.map f = .ok b ↔ ∃ a, x = .ok a ∧ f a = b := by
  constructor
  · exact exists_of_map_eq_ok
  · rintro ⟨a, rfl, rfl⟩
    rfl

theorem bind_eq_ok_iff {ε α β : Type} {x : Except ε α} {f : α → Except ε β} {b : β} :
    (x >>= f) = .ok b ↔ ∃ a, x = .ok a ∧ f a = .ok b := by
  constructor
  · exact exists_of_bind_eq_ok
  · rintro ⟨a, rfl, h⟩
    exact h

/-- A place in a text. Lines count from 1. -/
structure Position where
  line : Nat
  column : Nat
  deriving DecidableEq, Repr

/-- The place behind some bytes. -/
def Position.behind (bytes : List UInt8) : Position :=
  ⟨bytes.count 10 + 1, (bytes.reverse.takeWhile (· != 10)).length⟩

/-- What is wrong with a text, and where. -/
structure Error where
  cause : Cause
  position : Position
  deriving DecidableEq, Repr

/-- The fault of a reader as an error in the text that it was given. -/
def Fault.locate (fault : Fault) (text : List Char) : Error :=
  ⟨fault.cause, .behind ((encode text).take (byteCount text - fault.left))⟩

def Error.message (e : Error) : String :=
  s!"{e.cause.message} at line {e.position.line} column {e.position.column}"

end SessionPool.Json
