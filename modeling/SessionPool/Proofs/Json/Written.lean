import SessionPool.Proofs.Json.Deciding

/-!
# Written values are read back

A reader *inverts* a value when it reads the same thing from every spelling of the value, whatever
gap comes before it, and leaves what stands behind it:

    reader.run (gap ++ spelling ++ rest) = ok (a, rest).

A spelling of a value is a text of it as a datum, so a reader inverts what it reads as data. Behind
a number no digit, point or exponent may follow, or it would go on.
-/

namespace SessionPool.Json

open Text Value

/-! ### Texts -/

theorem hexDigit?_digitChar {n : Nat} (h : n < 16) : hexDigit? (Nat.digitChar n) = some n := by
  have hall : ∀ n < 16, hexDigit? (Nat.digitChar n) = some n := by decide
  exact hall n h

/-- Four digits of which the first two are zero. -/
theorem denotesUnit_hexByte {n : Nat} (h : n < 256) :
    DenotesUnit ('0' :: '0' :: hexByte n.toUInt8) n := by
  have hhigh := hexDigit?_digitChar (n := n / 16) (by omega)
  have hlow := hexDigit?_digitChar (n := n % 16) (by omega)
  have hn : n.toUInt8.toNat = n := by simp; omega
  have hunit : DenotesUnit ['0', '0', Nat.digitChar (n / 16), Nat.digitChar (n % 16)]
      (((0 * 16 + 0) * 16 + n / 16) * 16 + n % 16) := .mk rfl rfl hhigh hlow
  have hvalue : ((0 * 16 + 0) * 16 + n / 16) * 16 + n % 16 = n := by omega
  rw [hvalue] at hunit
  simpa only [hexByte, hn] using hunit

/-- The writer has one way to write each character. -/
theorem denotesChar_writeChar (c : Char) : DenotesChar (writeChar c) c := by
  unfold writeChar
  split
  case h_8 _ hquote hescape _ _ _ _ _ =>
    split
    · next hcontrol =>
      have hunit := DenotesChar.unit (denotesUnit_hexByte (n := c.toNat) (by omega)) (by omega)
      rwa [Char.ofNat_toNat] at hunit
    · next hcontrol => exact .plain (by omega) hquote hescape
  -- The characters that have an escape of their own.
  all_goals exact .short (by decide)

theorem denotesText_flatMap_writeChar (s : List Char) :
    DenotesText (s.flatMap writeChar ++ ['"']) s := by
  induction s with
  | nil => exact .close
  | cons c s ih =>
    rw [List.flatMap_cons, List.append_assoc]
    exact .cons (denotesChar_writeChar c) ih

/-! ### Numbers -/

/-- Only zero is written with a zero in front. -/
theorem head?_writeNatural_ne_zero {n : Nat} (h : 0 < n) : (writeNatural n).head? ≠ some '0' := by
  induction n using Nat.strongRecOn with
  | _ n ih =>
    rw [writeNatural, Nat.toDigits_eq_if (by decide)]
    split
    · next hlt =>
      have hall : ∀ n < 10, 0 < n → [Nat.digitChar n].head? ≠ some '0' := by decide
      exact hall n hlt h
    · next hge =>
      have htens : (writeNatural (n / 10)).head? ≠ some '0' := ih (n / 10) (by omega) (by omega)
      obtain ⟨c, s, hcs⟩ := List.exists_cons_of_ne_nil
        (Nat.toDigits_ne_nil : Nat.toDigits 10 (n / 10) ≠ [])
      rw [writeNatural, hcs] at htens
      rwa [hcs, List.cons_append]

theorem isDigit_writeNatural {n : Nat} {c : Char} (hc : c ∈ writeNatural n) : c.isDigit = true :=
  Nat.isDigit_of_mem_toDigits (by decide) (by decide) hc

theorem isWhole_writeNatural (n : Nat) : IsWhole (writeNatural n) where
  nonempty := Nat.toDigits_ne_nil
  digits := fun _ => isDigit_writeNatural
  zero h := by
    rcases Nat.eq_zero_or_pos n with rfl | hpos
    · rfl
    · exact absurd h (head?_writeNatural_ne_zero hpos)

theorem denotesNumeral_writeNatural (n : Nat) :
    DenotesNumeral (writeNatural n) ⟨false, writeNatural n, [], none⟩ := by
  simpa using DenotesNumeral.plain (.mk (isWhole_writeNatural n) .none .none)

/-! ### Spellings are texts of data -/

namespace Value

mutual

/-- A value as its texts denote it. -/
def datum : Value → Datum
  | null => .null
  | boolean b => .boolean b
  | natural n => .number ⟨false, writeNatural n, [], none⟩
  | text s => .text s
  | list elements => .list (elementData elements)
  | object members => .object (memberData members)

def elementData : List Value → List Datum
  | [] => []
  | v :: vs => datum v :: elementData vs

def memberData : List (String × Value) → List (String × Datum)
  | [] => []
  | (name, v) :: ms => (name, datum v) :: memberData ms

end

theorem isNatural_datum (n : Nat) : (natural n).datum.IsNatural n := by
  have h := Datum.IsNatural.mk (writeNatural n)
  rwa [writeNatural, Nat.ofDigitChars_toDigits (by decide) (by decide)] at h

@[simp] theorem isUInt16_datum (n : UInt16) : (natural n.toNat).datum.IsUInt16 n :=
  isNatural_datum n.toNat

@[simp] theorem isUInt32_datum (n : UInt32) : (natural n.toNat).datum.IsUInt32 n :=
  isNatural_datum n.toNat

@[simp] theorem isUInt64_datum (n : UInt64) : (natural n.toNat).datum.IsUInt64 n :=
  isNatural_datum n.toNat

@[simp] theorem isText_datum (s : String) : (text s).datum.IsText s := rfl

@[simp] theorem isBoolean_datum (b : Bool) : (boolean b).datum.IsBoolean b := rfl

@[simp] theorem memberData_append (ms ms' : List (String × Value)) :
    memberData (ms ++ ms') = memberData ms ++ memberData ms' := by
  induction ms with
  | nil => rfl
  | cons m ms ih => simp [memberData, ih]

@[simp] theorem mem_optionalMember_iff {α : Type} {name other : String} {write : α → Value}
    {a : Option α} {v : Datum} :
    (other, v) ∈ memberData (optionalMember name write a) ↔
      other = name ∧ ∃ x, a = some x ∧ v = (write x).datum := by
  cases a <;> simp [optionalMember, memberData]

end Value

mutual

theorem Spells.denotes {s : List Char} {v : Value} (h : Spells s v) : Denotes s v.datum := by
  match h with
  | .null => exact .null
  | .boolean b => exact .boolean b
  | .natural n => exact .number (denotesNumeral_writeNatural n)
  | .text s => simpa [writeText, datum] using Denotes.text (denotesText_flatMap_writeChar s.toList)
  | .emptyList hg => exact .emptyList hg
  | .list hg hs => exact .list hg hs.denotes
  | .emptyObject hg => exact .emptyObject hg
  | .object hg hs => exact .object hg hs.denotes

theorem SpellsElements.denotes {s : List Char} {vs : List Value} (h : SpellsElements s vs) :
    DenotesElements s (elementData vs) := by
  match h with
  | .last hv hg => exact .last hv.denotes hg
  | .cons hv hg hh hvs => exact .cons hv.denotes hg hh hvs.denotes

theorem SpellsMembers.denotes {s : List Char} {ms : List (String × Value)}
    (h : SpellsMembers s ms) : DenotesMembers s (memberData ms) := by
  match h with
  | .last hm hg => exact .last hm.denotes hg
  | .cons hm hg hh hms => exact .cons hm.denotes hg hh hms.denotes

theorem SpellsMember.denotes {s : List Char} {m : String × Value} (h : SpellsMember s m) :
    DenotesMember s (m.1, m.2.datum) := by
  match h with
  | .mk name hg hh hv =>
    have hm := DenotesMember.mk (denotesText_flatMap_writeChar name.toList) hg hh hv.denotes
    simpa [writeText] using hm

end

/-! ### Readers that invert values -/

namespace Reader

variable {α : Type} {reader : Reader α} {v : Value} {a : α}

/-- The reader makes `a` of every spelling of a value. -/
def Inverts (reader : Reader α) (v : Value) (a : α) : Prop :=
  ∀ g s rest, IsGap g → Spells s v → EndsNumeral rest →
    reader.run (g ++ (s ++ rest)) = .ok (a, rest)

/-- A value is read as what it stands for as a datum. -/
theorem Reads.inverts {R : α → Prop} (h : reader.Reads v.datum R) (ha : R a) :
    reader.Inverts v a :=
  fun g s rest hg hs hrest => (h g s rest hg hs.denotes hrest a rest).mpr ⟨ha, rfl⟩

/-- A whole text that spells the value. -/
theorem Inverts.parse (h : reader.Inverts v a) {s : List Char} (hs : Spells s v) :
    reader.parse (String.ofList s) = .ok a := by
  have hrun : reader.run s = .ok (a, []) := by
    simpa using h [] s [] isGap_nil hs endsNumeral_nil
  simp only [Reader.parse, String.toList_ofList, hrun]
  rfl

end Reader

end SessionPool.Json
