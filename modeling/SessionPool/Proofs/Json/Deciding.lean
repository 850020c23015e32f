import SessionPool.Json.Reader
import SessionPool.Proofs.Json.Grammar

/-!
# What readers make of well-formed texts

A reader *reads* a datum as what satisfies `R` when from every text that denotes the datum it makes
just that, up to the end of the datum, and refuses the text when nothing satisfies `R`:

    reader.run (g ++ (s ++ rest)) = ok (a, rest)  ↔  R a.

So both what is accepted and what is made of it depend on the datum alone, not on its text.
-/

namespace SessionPool.Json

/-! ### What data stand for -/

namespace Datum

/-- A natural number in digits alone, without sign, point or exponent. -/
inductive IsNatural : Datum → Nat → Prop
  | mk (digits : List Char) :
      IsNatural (.number ⟨false, digits, [], none⟩) (Nat.ofDigitChars 10 digits 0)

def IsUInt16 (v : Datum) (n : UInt16) : Prop := v.IsNatural n.toNat

def IsUInt32 (v : Datum) (n : UInt32) : Prop := v.IsNatural n.toNat

def IsUInt64 (v : Datum) (n : UInt64) : Prop := v.IsNatural n.toNat

def IsText (v : Datum) (a : String) : Prop := v = .text a

def IsBoolean (v : Datum) (b : Bool) : Prop := v = .boolean b

/-- `null` for nothing, or something. -/
inductive Optionally {α : Type} (R : Datum → α → Prop) : Datum → Option α → Prop
  | null : Optionally R .null none
  | some {v a} : R v a → Optionally R v (some a)

/-- An object whose members stand for something. -/
inductive MadeOf {α : Type} (R : List (String × Datum) → α → Prop) : Datum → α → Prop
  | mk {ms a} : R ms a → MadeOf R (.object ms) a

theorem MadeOf.not_null {α : Type} {R : List (String × Datum) → α → Prop} (a : α) :
    ¬ MadeOf R .null a := nofun

theorem IsUInt64.not_null (n : UInt64) : ¬ IsUInt64 .null n := by
  intro h
  unfold IsUInt64 at h
  generalize n.toNat = k at h
  cases h

/-! No datum stands for two things. -/

theorem IsNatural.unique {v : Datum} {j k : Nat} (hj : v.IsNatural j) (hk : v.IsNatural k) :
    j = k := by
  cases hj
  cases hk
  rfl

theorem IsUInt16.unique (v : Datum) (m n : UInt16) (hm : v.IsUInt16 m) (hn : v.IsUInt16 n) :
    m = n :=
  UInt16.toNat_inj.mp (IsNatural.unique hm hn)

theorem IsUInt32.unique (v : Datum) (m n : UInt32) (hm : v.IsUInt32 m) (hn : v.IsUInt32 n) :
    m = n :=
  UInt32.toNat_inj.mp (IsNatural.unique hm hn)

theorem IsUInt64.unique (v : Datum) (m n : UInt64) (hm : v.IsUInt64 m) (hn : v.IsUInt64 n) :
    m = n :=
  UInt64.toNat_inj.mp (IsNatural.unique hm hn)

theorem IsText.unique (v : Datum) (a b : String) (ha : v.IsText a) (hb : v.IsText b) : a = b :=
  text.inj (ha.symm.trans hb)

theorem IsBoolean.unique (v : Datum) (a b : Bool) (ha : v.IsBoolean a) (hb : v.IsBoolean b) :
    a = b :=
  boolean.inj (ha.symm.trans hb)

theorem Optionally.unique {α : Type} {R : Datum → α → Prop} (hnull : ∀ a, ¬ R .null a)
    (hR : ∀ v a b, R v a → R v b → a = b) (v : Datum) (a b : Option α) (ha : Optionally R v a)
    (hb : Optionally R v b) : a = b := by
  cases ha with
  | null =>
    cases hb with
    | null => rfl
    | some hb => exact absurd hb (hnull _)
  | some ha =>
    cases hb with
    | null => exact absurd ha (hnull _)
    | some hb => rw [hR v _ _ ha hb]

/-! The first character of a text tells what kind of datum it denotes. -/

theorem Starts.eq_null {v : Datum} (h : v.Starts 'n') : v = .null := by
  cases v with
  | null => rfl
  | boolean b => cases b <;> simp [Starts] at h
  | _ => simp [Starts] at h

theorem Starts.eq_true {v : Datum} (h : v.Starts 't') : v = .boolean true := by
  cases v with
  | boolean b => cases b <;> simp [Starts] at h ⊢
  | _ => simp [Starts] at h

theorem Starts.eq_false {v : Datum} (h : v.Starts 'f') : v = .boolean false := by
  cases v with
  | boolean b => cases b <;> simp [Starts] at h ⊢
  | _ => simp [Starts] at h

theorem Starts.exists_text {v : Datum} (h : v.Starts '"') : ∃ a, v = .text a := by
  cases v with
  | boolean b => cases b <;> simp [Starts] at h
  | text a => exact ⟨a, rfl⟩
  | _ => simp [Starts] at h

theorem Starts.exists_list {v : Datum} (h : v.Starts '[') : ∃ vs, v = .list vs := by
  cases v with
  | boolean b => cases b <;> simp [Starts] at h
  | list vs => exact ⟨vs, rfl⟩
  | _ => simp [Starts] at h

theorem Starts.exists_object {v : Datum} (h : v.Starts '\x7b') : ∃ ms, v = .object ms := by
  cases v with
  | boolean b => cases b <;> simp [Starts] at h
  | object ms => exact ⟨ms, rfl⟩
  | _ => simp [Starts] at h

theorem Starts.exists_number {v : Datum} {c : Char} (h : v.Starts c)
    (hc : c = '-' ∨ c.isDigit = true) : ∃ n, v = .number n := by
  cases v with
  | boolean b => cases b <;> cases h <;> simp at hc
  | number n => exact ⟨n, rfl⟩
  | _ =>
    cases h
    simp at hc

end Datum

namespace Reader

variable {α β : Type} {reader : Reader α} {v : Datum} {R S : α → Prop}

/-! ### Readers that read data -/

/-- From every text of the datum the reader makes what satisfies `R`, or nothing. -/
def Reads (reader : Reader α) (v : Datum) (R : α → Prop) : Prop :=
  ∀ g s rest, IsGap g → Denotes s v → EndsNumeral rest → ∀ a rest',
    reader.run (g ++ (s ++ rest)) = .ok (a, rest') ↔ R a ∧ rest' = rest

theorem Reads.congr (h : reader.Reads v R) (hRS : ∀ a, R a ↔ S a) : reader.Reads v S := by
  intro g s rest hg hs hrest a rest'
  rw [h g s rest hg hs hrest, hRS]

theorem Reads.map (h : reader.Reads v R) (f : α → β) :
    (reader.map f).Reads v fun b => ∃ a, R a ∧ f a = b := by
  intro g s rest hg hs hrest b rest'
  show (reader.run _).map _ = _ ↔ _
  rw [map_eq_ok_iff]
  constructor
  · rintro ⟨⟨a, left⟩, hrun, heq⟩
    obtain ⟨ha, rfl⟩ := (h g s rest hg hs hrest a left).mp hrun
    cases heq
    exact ⟨⟨a, ha, rfl⟩, rfl⟩
  · rintro ⟨⟨a, ha, rfl⟩, rfl⟩
    exact ⟨(a, rest'), (h g s rest' hg hs hrest a rest').mpr ⟨ha, rfl⟩, rfl⟩

/-- A whole text is accepted if nothing but a gap follows the datum. -/
theorem Reads.parse (h : reader.Reads v R) {text : String} (htext : WellFormed text v) (a : α) :
    reader.parse text = .ok a ↔ R a := by
  obtain @⟨g, s, k, hg, hs, hk, heq⟩ := htext
  have hends : EndsNumeral k := by simpa using endsNumeral_gap hk endsNumeral_nil
  have hread := h g s k hg hs hends
  have hblank : skipBlanks k = [] := by simpa [skipBlanks] using skipBlanks_gap hk []
  constructor
  · intro hparse
    simp only [Reader.parse, heq] at hparse
    split at hparse
    · cases hparse
    · next b left hrun =>
      obtain ⟨hb, rfl⟩ := (hread b left).mp hrun
      rw [hblank] at hparse
      cases hparse
      exact hb
  · intro ha
    have hrun := (hread a k).mpr ⟨ha, rfl⟩
    simp only [Reader.parse, heq, hrun, hblank]

/-! ### Scalars -/

theorem reads_text (v : Datum) : Reader.text.Reads v v.IsText := by
  intro g s rest hg hs hrest a rest'
  show readTextValue _ = _ ↔ v = .text a ∧ rest' = rest
  rw [readTextValue, skipBlanks_denotes hg hs]
  by_cases htext : ∃ b, v = .text b
  · obtain ⟨b, rfl⟩ := htext
    cases hs with
    | text ht =>
      simp only [List.cons_append, readText_append ht]
      simp [Except.map, eq_comm]
  · obtain ⟨c, t, rfl, hc⟩ := hs.exists_cons
    split
    · next hquote =>
      obtain ⟨rfl, -⟩ := List.cons.inj hquote
      exact absurd hc.exists_text htext
    · have hne : v ≠ .text a := fun h => htext ⟨a, h⟩
      simp [hne]

theorem readLiteral_append (word s : List Char) : readLiteral word (word ++ s) = .ok s := by
  induction word with
  | nil => rfl
  | cons c word ih => rw [List.cons_append, readLiteral, if_pos rfl, ih]

theorem reads_boolean (v : Datum) : Reader.boolean.Reads v v.IsBoolean := by
  intro g s rest hg hs hrest b rest'
  show readBoolean _ = _ ↔ v = .boolean b ∧ rest' = rest
  rw [readBoolean, skipBlanks_denotes hg hs]
  by_cases hboolean : ∃ b, v = .boolean b
  · obtain ⟨b', rfl⟩ := hboolean
    cases hs with
    | boolean =>
      cases b' with
      | true =>
        show (readLiteral _ (['r', 'u', 'e'] ++ rest)).map _ = _ ↔ _
        rw [readLiteral_append]
        simp [Except.map, eq_comm]
      | false =>
        show (readLiteral _ (['a', 'l', 's', 'e'] ++ rest)).map _ = _ ↔ _
        rw [readLiteral_append]
        simp [Except.map, eq_comm]
  · obtain ⟨c, t, rfl, hc⟩ := hs.exists_cons
    split
    · next ht =>
      obtain ⟨rfl, -⟩ := List.cons.inj ht
      exact absurd ⟨_, hc.eq_true⟩ hboolean
    · next hf =>
      obtain ⟨rfl, -⟩ := List.cons.inj hf
      exact absurd ⟨_, hc.eq_false⟩ hboolean
    · have hne : v ≠ .boolean b := fun h => hboolean ⟨b, h⟩
      simp [hne]

theorem isNatural_number_iff {n : Numeral} {k : Nat} :
    (Datum.number n).IsNatural k ↔
      n = ⟨false, n.whole, [], none⟩ ∧ Nat.ofDigitChars 10 n.whole 0 = k := by
  constructor
  · rintro ⟨digits⟩
    exact ⟨rfl, rfl⟩
  · rintro ⟨hn, rfl⟩
    rw [hn]
    exact .mk n.whole

/-- What a number stands for among the integers below a bound that fits 64 bits. -/
theorem isNatural_and_lt_iff {n : Numeral} {bound k : Nat} (hbound : bound ≤ UInt64.size) :
    (Datum.number n).IsNatural k ∧ k < bound ↔ n.value = .ok (.natural k) ∧ k < bound := by
  rw [isNatural_number_iff, n.value_eq_natural_iff]
  constructor
  · rintro ⟨⟨hn, hk⟩, hlt⟩
    exact ⟨⟨hn, hk, Nat.lt_of_lt_of_le hlt hbound⟩, hlt⟩
  · rintro ⟨⟨hn, hk, -⟩, hlt⟩
    exact ⟨⟨hn, hk⟩, hlt⟩

/-- Integers below a bound that fits 64 bits. -/
theorem reads_natural {wanted : String} {bound : Nat} (hbound : bound ≤ UInt64.size) (v : Datum) :
    (natural wanted bound).Reads v fun k => v.IsNatural k ∧ k < bound := by
  intro g s rest hg hs hrest k rest'
  show readNatural _ _ _ = _ ↔ (v.IsNatural k ∧ k < bound) ∧ rest' = rest
  rw [readNatural, skipBlanks_denotes hg hs]
  by_cases hnumber : ∃ n, v = .number n
  · obtain ⟨n, rfl⟩ := hnumber
    rw [isNatural_and_lt_iff hbound]
    cases hs with
    | number hn =>
      have hscan := scanNumeral_append hn hrest
      obtain ⟨c, t, rfl, hc⟩ := hn.exists_cons
      rw [List.cons_append] at hscan ⊢
      simp only [if_pos hc, readNumber, hscan, bind, Except.bind]
      -- By the value of the number: out of range, an integer, or a double.
      cases hvalue : n.value with
      | error unread => simp [throw, throwThe, MonadExceptOf.throw]
      | ok number =>
        simp only [pure, Except.pure]
        cases number with
        | natural m =>
          dsimp only
          grind
        | negative m => simp
        | floating negative d => simp
  · obtain ⟨c, t, rfl, hc⟩ := hs.exists_cons
    have hdigit : ¬ (c = '-' ∨ c.isDigit = true) := fun h => hnumber (hc.exists_number h)
    have hne : ¬ v.IsNatural k := by
      rintro ⟨digits⟩
      exact hnumber ⟨_, rfl⟩
    simp [hdigit, hne]

/-- Integers of a type that has a number for everything below a bound. -/
theorem reads_sized {wanted : String} {bound : Nat} {ofNat : Nat → α} {toNat : α → Nat}
    (hbound : bound ≤ UInt64.size) (hlt : ∀ a, toNat a < bound)
    (hto : ∀ k < bound, toNat (ofNat k) = k) (hof : ∀ a, ofNat (toNat a) = a) (v : Datum) :
    ((natural wanted bound).map ofNat).Reads v fun a => v.IsNatural (toNat a) := by
  apply ((reads_natural hbound v).map ofNat).congr
  intro a
  constructor
  · rintro ⟨k, ⟨hk, hfits⟩, rfl⟩
    rwa [hto k hfits]
  · intro ha
    exact ⟨toNat a, ⟨ha, hlt a⟩, hof a⟩

theorem reads_uint16 (v : Datum) : Reader.uint16.Reads v v.IsUInt16 :=
  reads_sized (by decide) UInt16.toNat_lt_size (fun _ => UInt16.toNat_ofNat_of_lt)
    (fun _ => UInt16.ofNat_toNat) v

theorem reads_uint32 (v : Datum) : Reader.uint32.Reads v v.IsUInt32 :=
  reads_sized (by decide) UInt32.toNat_lt_size (fun _ => UInt32.toNat_ofNat_of_lt)
    (fun _ => UInt32.ofNat_toNat) v

theorem reads_uint64 (v : Datum) : Reader.uint64.Reads v v.IsUInt64 :=
  reads_sized (Nat.le_refl _) UInt64.toNat_lt_size (fun _ => UInt64.toNat_ofNat_of_lt)
    (fun _ => UInt64.ofNat_toNat) v

/-! ### Values that may be absent -/

theorem Reads.optional {R : Datum → α → Prop} (h : reader.Reads v (R v))
    (hnull : ∀ a, ¬ R .null a) : reader.optional.Reads v (Datum.Optionally R v) := by
  intro g s rest hg hs hrest a rest'
  show readOptional reader _ = _ ↔ _
  rw [readOptional, skipBlanks_denotes hg hs]
  by_cases hv : v = .null
  · subst hv
    have hnone : Datum.Optionally R .null a ↔ a = none := by
      constructor
      · rintro (_ | ha)
        · rfl
        · exact absurd ha (hnull _)
      · rintro rfl
        exact .null
    rw [hnone]
    cases hs
    show (readLiteral _ (['u', 'l', 'l'] ++ rest)).map _ = _ ↔ _
    rw [readLiteral_append]
    simp [Except.map, eq_comm]
  · have hsome : Datum.Optionally R v a ↔ ∃ b, R v b ∧ some b = a := by
      constructor
      · rintro (_ | hb)
        · exact absurd rfl hv
        · exact ⟨_, hb, rfl⟩
      · rintro ⟨b, hb, rfl⟩
        exact .some hb
    rw [hsome]
    have hread := h.map some [] s rest isGap_nil hs hrest a rest'
    obtain ⟨c, t, rfl, hc⟩ := hs.exists_cons
    split
    · next hn =>
      obtain ⟨rfl, -⟩ := List.cons.inj hn
      exact absurd hc.eq_null hv
    · exact hread

end Reader

end SessionPool.Json
