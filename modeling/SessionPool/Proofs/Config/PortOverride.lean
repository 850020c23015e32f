import SessionPool.Proofs.Config.Layers
import SessionPool.Proofs.Config.Usable
import SessionPool.Proofs.Text.Numerals

/-!
# Overrides of the port

The value of the port variable is trimmed and read as a number of 16 bits. A usable configuration
with an override of the port alone takes the number if it is positive, and is turned away for a port
that is zero or for a value that cannot be read:

    c.override lookup = r  ↔  PortOutcome c value r.
-/

namespace SessionPool.Config

open Text

/-- What becomes of a configuration when the port variable has a value. -/
inductive PortOutcome (c : Config) (value : String) : Except Error Config → Prop
  | taken {t : List Char} {port : UInt16} (trims : Trims value.toList t)
      (number : Spells t port.toNat) (positive : 1 ≤ port.toNat) :
      PortOutcome c value (.ok { c with domain := { c.domain with port } })
  | zero {t : List Char} (trims : Trims value.toList t) (number : Spells t 0) :
      PortOutcome c value (.error (.invalidConfig .zeroPort))
  | refused {t : List Char} {fault : NumeralFault} (trims : Trims value.toList t)
      (refuses : Refuses 65535 t fault) :
      PortOutcome c value (.error (.invalidConfig (.unreadablePort value fault)))

/-- Whether a usable configuration stays usable with another port. -/
theorem Usable.checked_port {c : Config} (h : c.Usable) (port : UInt16) :
    checked { c with domain := { c.domain with port } } =
      if port = 0 then .error (.invalidConfig .zeroPort)
      else .ok { c with domain := { c.domain with port } } := by
  split
  · next hzero =>
    have hhost : ¬ allBlank c.domain.host = true :=
      fun hblank => h.host ((trimmed_eq_empty_iff _).mpr hblank)
    simp only [checked, check, if_neg hhost, if_pos hzero]
    rfl
  · next hport =>
    have husable : Usable { c with domain := { c.domain with port } } :=
      ⟨h.host, hport, h.connectTimeout, h.ioTimeout, h.keepalive⟩
    rcases checked_cases { c with domain := { c.domain with port } } with
      ⟨hchecked, -⟩ | ⟨fault, -, hfault⟩
    · exact hchecked
    · exact absurd hfault (husable.not_has fault)

theorem usable_default : ({} : Config).Usable :=
  ⟨by decide, by decide, by decide, by decide, by simp⟩

variable {c : Config} {lookup : String → Option String} {value : String}

theorem override_of_port (h : c.Usable)
    (hhost : ∀ s, lookup hostVariable = some s → allBlank s = true)
    (hvalue : lookup portVariable = some value) {port : UInt16}
    (hread : readUInt16 (trimmed value) = .ok port) :
    c.override lookup =
      if port = 0 then .error (.invalidConfig .zeroPort)
      else .ok { c with domain := { c.domain with port } } := by
  have hport : portOverride? lookup = .ok (some port) := by simp only [portOverride?, hvalue, hread]
  rw [override, hport, hostOverride?_eq_none hhost]
  exact h.checked_port port

theorem override_of_unreadable (hvalue : lookup portVariable = some value) {fault : NumeralFault}
    (hread : readUInt16 (trimmed value) = .error fault) :
    c.override lookup = .error (.invalidConfig (.unreadablePort value fault)) := by
  have hport : portOverride? lookup = .error (.invalidConfig (.unreadablePort value fault)) := by
    simp only [portOverride?, hvalue, hread]
  rw [override, hport]
  rfl

theorem portOutcome_override (h : c.Usable)
    (hhost : ∀ s, lookup hostVariable = some s → allBlank s = true)
    (hvalue : lookup portVariable = some value) : PortOutcome c value (c.override lookup) := by
  have htrims := trims_trimmed value
  cases hread : readUInt16 (trimmed value) with
  | error fault =>
    rw [override_of_unreadable hvalue hread]
    exact .refused htrims (readUInt16_eq_error_iff.mp hread)
  | ok port =>
    have hspells := readUInt16_eq_ok_iff.mp hread
    rw [override_of_port h hhost hvalue hread]
    split
    · next hzero =>
      subst hzero
      exact .zero htrims hspells
    · next hport =>
      refine .taken htrims hspells (Nat.pos_of_ne_zero fun hzero => hport ?_)
      exact UInt16.toNat_inj.mp hzero

/-- **A usable configuration takes exactly the positive numbers of 16 bits from the port variable.**
Any other value turns it away, and a value that is no number is named with the variable. -/
theorem override_eq_iff (h : c.Usable)
    (hhost : ∀ s, lookup hostVariable = some s → allBlank s = true)
    (hvalue : lookup portVariable = some value) :
    (∀ r, c.override lookup = r ↔ PortOutcome c value r) ∧
      ∀ fault, (Fault.unreadablePort value fault).message =
        "OPENHPI_DAEMON_PORT=" ++ quoted value ++ ": " ++ fault.message := by
  refine ⟨fun r => ⟨?_, ?_⟩, fun fault => ?_⟩
  · rintro rfl
    exact portOutcome_override h hhost hvalue
  · intro houtcome
    cases houtcome with
    | @taken t port trims number positive =>
      rw [← trims.toList_trimmed] at number
      rw [override_of_port h hhost hvalue (readUInt16_eq_ok_iff.mpr number), if_neg]
      rintro rfl
      exact absurd positive (by decide)
    | zero trims number =>
      rw [← trims.toList_trimmed] at number
      have hread : readUInt16 (trimmed value) = .ok 0 := readUInt16_eq_ok_iff.mpr number
      rw [override_of_port h hhost hvalue hread, if_pos rfl]
    | refused trims refuses =>
      rw [← trims.toList_trimmed] at refuses
      exact override_of_unreadable hvalue (readUInt16_eq_error_iff.mpr refuses)
  · simp only [Fault.message, portVariable, toString, String.append_assoc]
    rfl

/-- A lookup that knows nothing but the port variable. -/
def onlyPort (value : String) (name : String) : Option String :=
  if name = portVariable then some value else none

/-- The value is too large at the last digit, before there is a letter. The blanks around it are no
digits either, but they are cut off. -/
theorem override_eq_iff_tooLarge :
    let value := "\u2003+0065536x\u0085"
    ({} : Config).Usable ∧
      (∀ s, onlyPort value hostVariable = some s → allBlank s = true) ∧
      onlyPort value portVariable = some value ∧
      PortOutcome {} value (.error (.invalidConfig (.unreadablePort value .tooLarge))) := by
  have hhost : ∀ s, onlyPort "\u2003+0065536x\u0085" hostVariable = some s → allBlank s = true := by
    rintro s ⟨⟩
  exact ⟨usable_default, hhost, rfl,
    ((override_eq_iff usable_default hhost rfl).1 _).mp (by decide)⟩

end SessionPool.Config
