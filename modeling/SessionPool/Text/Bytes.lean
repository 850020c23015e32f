/-!
# Bytes of a text

A text is stored in UTF-8. Bytes that no text encodes to cannot be decoded.
-/

namespace SessionPool.Text

/-- The UTF-8 bytes of a text. -/
def encode (s : List Char) : List UInt8 := s.flatMap String.utf8EncodeChar

/-- How many bytes a text takes. -/
def byteCount : List Char → Nat
  | [] => 0
  | c :: s => c.utf8Size + byteCount s

/-- The text that some bytes encode. -/
def decode? (bytes : List UInt8) : Option String := String.fromUTF8? ⟨bytes.toArray⟩

/-- No two texts are encoded alike, so decoding is the inverse of encoding. -/
theorem decode?_eq_some_iff {bytes : List UInt8} {s : String} :
    decode? bytes = some s ↔ bytes = encode s.toList := by
  have hs : (encode s.toList).toByteArray = s.toByteArray := String.utf8Encode_toList
  have hbytes : (⟨bytes.toArray⟩ : ByteArray) = bytes.toByteArray := by
    apply ByteArray.ext
    simp
  rw [decode?, String.fromUTF8?, hbytes]
  constructor
  · intro h
    split at h
    · cases h
      exact List.toByteArray_inj.mp hs.symm
    · cases h
  · rintro rfl
    rw [hs, dif_pos s.isValidUTF8]
    rfl

/-- A byte as two hexadecimal digits. -/
def hexByte (b : UInt8) : List Char :=
  [Nat.digitChar (b.toNat / 16), Nat.digitChar (b.toNat % 16)]

/-- Bytes as hexadecimal digits, two a byte. -/
def hex (bytes : List UInt8) : String := String.ofList (bytes.flatMap hexByte)

/-- The value of a hexadecimal digit of either case. -/
def hexDigit? (c : Char) : Option Nat :=
  if '0' ≤ c ∧ c ≤ '9' then some (c.toNat - '0'.toNat)
  else if 'a' ≤ c ∧ c ≤ 'f' then some (c.toNat - 'a'.toNat + 10)
  else if 'A' ≤ c ∧ c ≤ 'F' then some (c.toNat - 'A'.toNat + 10)
  else none

end SessionPool.Text
