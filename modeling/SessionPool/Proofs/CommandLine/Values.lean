import SessionPool.CommandLine.Reader
import SessionPool.Proofs.Text.Numerals

/-!
# The values of settings as texts

A setting is given by a text, and what is given of it is a text or a number. Numbers are written in
decimal digits and read back,

    read (toString n) = n,

so what is given is known from its texts. Setting a setting changes its own text and no other one.
-/

namespace SessionPool

/-! ### Numbers -/

namespace Text

variable {max n : Nat}

/-- A number that is written in decimal digits is read back, and it has no sign. -/
theorem readNumeral_repr (h : n ≤ max) :
    readNumeral max n.repr.toList = .ok n ∧ readSigned max n.repr.toList = .ok n := by
  have hnumeral : readNumeral max n.repr.toList = .ok n :=
    readNumeral_eq_ok_iff.mpr ⟨spells_repr n, h⟩
  refine ⟨hnumeral, ?_⟩
  obtain ⟨c, s, hcs, hc⟩ := (isDigits_repr n).exists_cons
  rw [hcs] at hnumeral ⊢
  unfold readSigned
  split
  · next h => cases h; cases hc
  · exact hnumeral

/-- Different values have different texts if each is read back from its own. -/
theorem injective_of_read {ε α : Type} {read : String → Except ε α} {write : α → String}
    (h : ∀ a, read (write a) = .ok a) : Function.Injective write := by
  intro a b hab
  have hread := h a
  rw [hab, h b] at hread
  exact (Except.ok.inj hread).symm

theorem readUInt64_toString (n : UInt64) : readUInt64 (toString n) = .ok n := by
  have hread := (readNumeral_repr (Nat.le_sub_one_of_lt n.toNat_lt_size)).1
  show (readNumeral (UInt64.size - 1) n.toNat.repr.toList).map UInt64.ofNat = _
  rw [hread]
  exact congrArg Except.ok n.ofNat_toNat

end Text

namespace CommandLine

theorem readSigned16_toString (n : UInt16) : readSigned16 (toString n) = .ok n := by
  have hread := (Text.readNumeral_repr (Nat.le_sub_one_of_lt n.toNat_lt_size)).2
  show number ((Text.readSigned (UInt16.size - 1) n.toNat.repr.toList).map UInt16.ofNat) = _
  rw [hread]
  exact congrArg Except.ok n.ofNat_toNat

theorem readSigned32_toString (n : UInt32) : readSigned32 (toString n) = .ok n := by
  have hread := (Text.readNumeral_repr (Nat.le_sub_one_of_lt n.toNat_lt_size)).2
  show number ((Text.readSigned (UInt32.size - 1) n.toNat.repr.toList).map UInt32.ofNat) = _
  rw [hread]
  exact congrArg Except.ok n.ofNat_toNat

end CommandLine

/-! ### What is given -/

namespace Setting

/-- A text that a value of the setting is written as. -/
def Writes : Setting → String → Prop
  | config, value => value ≠ ""
  | host, _ => True
  | port, value => ∃ n : UInt16, value = toString n
  | domainId, value => ∃ n : UInt32, value = toString n
  | connectTimeoutMs, value => ∃ n : UInt64, value = toString n
  | workers, value => ∃ n : UInt64, value = toString n
  | rounds, value => ∃ n : UInt64, value = toString n

end Setting

/-- The text of a setting of a target. -/
def Target.text? (t : Target) : Setting → Option String
  | .config => t.config
  | .host => t.host
  | .port => t.port.map toString
  | .domainId => t.domainId.map toString
  | .connectTimeoutMs => t.connectTimeoutMs.map toString
  | .workers | .rounds => none

/-- A target is known from the texts of its settings. -/
theorem Target.eq_of_text {t t' : Target} (h : ∀ s, t.text? s = t'.text? s) : t = t' := by
  have hport : t.port = t'.port :=
    Option.map_injective (Text.injective_of_read CommandLine.readSigned16_toString) (h .port)
  have hdomainId : t.domainId = t'.domainId :=
    Option.map_injective (Text.injective_of_read CommandLine.readSigned32_toString)
      (h .domainId)
  have htimeout : t.connectTimeoutMs = t'.connectTimeoutMs :=
    Option.map_injective (Text.injective_of_read Text.readUInt64_toString) (h .connectTimeoutMs)
  obtain ⟨config, host, port, domainId, connectTimeoutMs⟩ := t
  obtain ⟨config', host', port', domainId', connectTimeoutMs'⟩ := t'
  obtain rfl : config = config' := h .config
  obtain rfl : host = host' := h .host
  obtain rfl : port = port' := hport
  obtain rfl : domainId = domainId' := hdomainId
  obtain rfl : connectTimeoutMs = connectTimeoutMs' := htimeout
  rfl

namespace CommandLine.Given

/-- The text of a setting that is given. -/
def text? (g : Given) : Setting → Option String
  | .workers => g.workers.map toString
  | .rounds => g.rounds.map toString
  | s => g.target.text? s

/-- A setting that is not given yet takes any text of one of its values. -/
theorem set_eq (g : Given) {s : Setting} {value : String} (hs : s.Writes value)
    (free : g.text? s = none) :
    ∃ g', g.set s value = .ok g' ∧ g'.verbosity = g.verbosity ∧
      ∀ s', g'.text? s' = if s' = s then some value else g.text? s' := by
  cases s with
  | config =>
    have hnone : g.target.config = none := free
    have hvalue : readPath value = .ok value := if_neg hs
    refine ⟨{ g with target.config := some value }, ?_, rfl, fun s' => by cases s' <;> rfl⟩
    rw [set, hnone, hvalue]
    rfl
  | host =>
    have hnone : g.target.host = none := free
    refine ⟨{ g with target.host := some value }, ?_, rfl, fun s' => by cases s' <;> rfl⟩
    rw [set, hnone]
    rfl
  | port =>
    obtain ⟨n, rfl⟩ := hs
    have hnone : g.target.port = none := Option.map_eq_none_iff.mp free
    refine ⟨{ g with target.port := some n }, ?_, rfl, fun s' => by cases s' <;> rfl⟩
    rw [set, hnone, readSigned16_toString]
    rfl
  | domainId =>
    obtain ⟨n, rfl⟩ := hs
    have hnone : g.target.domainId = none := Option.map_eq_none_iff.mp free
    refine ⟨{ g with target.domainId := some n }, ?_, rfl, fun s' => by cases s' <;> rfl⟩
    rw [set, hnone, readSigned32_toString]
    rfl
  | connectTimeoutMs =>
    obtain ⟨n, rfl⟩ := hs
    have hnone : g.target.connectTimeoutMs = none := Option.map_eq_none_iff.mp free
    refine ⟨{ g with target.connectTimeoutMs := some n }, ?_, rfl, fun s' => by cases s' <;> rfl⟩
    rw [set, hnone, Text.readUInt64_toString]
    rfl
  | workers =>
    obtain ⟨n, rfl⟩ := hs
    have hnone : g.workers = none := Option.map_eq_none_iff.mp free
    refine ⟨{ g with workers := some n }, ?_, rfl, fun s' => by cases s' <;> rfl⟩
    rw [set, hnone, Text.readUInt64_toString]
    rfl
  | rounds =>
    obtain ⟨n, rfl⟩ := hs
    have hnone : g.rounds = none := Option.map_eq_none_iff.mp free
    refine ⟨{ g with rounds := some n }, ?_, rfl, fun s' => by cases s' <;> rfl⟩
    rw [set, hnone, Text.readUInt64_toString]
    rfl

/-- Nothing of a load is a setting of a target. -/
theorem text?_target (g : Given) (s : Setting) :
    g.target.text? s = if s ∈ Setting.ofLoad then none else g.text? s := by
  cases s <;> rfl

theorem text?_orElse (right left : Given) (s : Setting) :
    (right.orElse left).text? s = (right.text? s).or (left.text? s) := by
  cases s <;> simp [text?, Target.text?, orElse, Option.map_or]

end CommandLine.Given

end SessionPool
