import SessionPool.Proofs.Config.Precedence
import SessionPool.Proofs.Text.Trimming

/-!
# Overrides on top of each other

Overrides replace the host and the port of a configuration and nothing else, and applying them once
more changes nothing. Two lookups that are applied one after the other come to a single one, which
asks the second of them first:

    c.override first = ok c₁  and  c₁.override second = ok c₂
      ⟹  c.override (layered first second) = ok c₂.
-/

namespace SessionPool.Config

open Text
open Json (bind_eq_ok_iff)

variable {c c₁ c₂ : Config} {lookup first second : String → Option String}

theorem override_eq_ok_iff :
    c.override lookup = .ok c₁ ↔ ∃ port, portOverride? lookup = .ok port ∧
      (c.replace (hostOverride? lookup) port).check = .ok () ∧
      c.replace (hostOverride? lookup) port = c₁ := by
  rw [override, bind_eq_ok_iff]
  simp only [checked_eq_ok_iff]

/-- A later replacement wins where there is one. -/
theorem replace_replace (c : Config) (host host' : Option String) (port port' : Option UInt16) :
    (c.replace host port).replace host' port' = c.replace (host'.or host) (port'.or port) := by
  cases host' <;> cases port' <;> rfl

/-! ### The host -/

theorem hostOverride?_eq_none (h : ∀ s, lookup hostVariable = some s → allBlank s = true) :
    hostOverride? lookup = none := by
  rw [hostOverride?]
  cases hs : lookup hostVariable with
  | none => rfl
  | some s => rw [Option.bind_some, if_pos (h s hs)]

theorem hostOverride?_eq_some {s : String} (hs : lookup hostVariable = some s)
    (hvisible : allBlank s = false) : hostOverride? lookup = some (trimmed s) := by
  rw [hostOverride?, hs, Option.bind_some, if_neg (by simp [hvisible])]

/-! ### Two lookups -/

/-- The answers of two lookups. The second one is asked first, and a blank host that it gives counts
as no answer. -/
def layered (first second : String → Option String) (name : String) : Option String :=
  match second name with
  | none => first name
  | some s => if name = hostVariable ∧ allBlank s = true then first name else some s

theorem hostOverride?_layered (first second : String → Option String) :
    hostOverride? (layered first second) = (hostOverride? second).or (hostOverride? first) := by
  cases hs : second hostVariable with
  | none =>
    have hsecond : hostOverride? second = none := hostOverride?_eq_none (by simp [hs])
    rw [hsecond, Option.none_or, hostOverride?, layered, hs]
    rfl
  | some s =>
    cases hblank : allBlank s with
    | true =>
      have hsecond : hostOverride? second = none := hostOverride?_eq_none (by simp [hs, hblank])
      rw [hsecond, Option.none_or, hostOverride?, layered, hs]
      simp only [hblank, and_self, ↓reduceIte]
      rfl
    | false =>
      have hlayered : layered first second hostVariable = some s := by
        simp only [layered, hs, hblank, Bool.false_eq_true, and_false, ↓reduceIte]
      rw [hostOverride?_eq_some hs hblank, hostOverride?_eq_some hlayered hblank, Option.some_or]

theorem layered_port (first second : String → Option String) :
    layered first second portVariable = (second portVariable).or (first portVariable) := by
  have hne : portVariable ≠ hostVariable := by decide
  rw [layered]
  cases second portVariable <;> simp [hne]

/-- A port that the second lookup gives is read, and otherwise that of the first one. -/
theorem portOverride?_layered {port port' : Option UInt16} (h : portOverride? first = .ok port)
    (h' : portOverride? second = .ok port') :
    portOverride? (layered first second) = .ok (port'.or port) := by
  rw [portOverride?, layered_port]
  cases hs : second portVariable with
  | none =>
    rw [portOverride?, hs] at h'
    cases h'
    exact h
  | some value =>
    have hport' : port'.isSome = true := by
      simp only [portOverride?, hs] at h'
      split at h'
      · cases h'
        rfl
      · cases h'
    rw [Option.or_of_isSome hport', ← h', portOverride?, hs]
    rfl

/-! ### Overridden configurations -/

/-- What the overrides of a lookup have made of a configuration. -/
structure Overridden (c : Config) (lookup : String → Option String) (c₁ : Config) : Prop where
  again : c₁.override lookup = .ok c₁
  others : c₁ = { c with domain := { c.domain with
    host := c₁.domain.host
    port := c₁.domain.port } }
  hostKept : (∀ s, lookup hostVariable = some s → allBlank s = true) →
    c₁.domain.host = c.domain.host
  hostTaken : ∀ s, lookup hostVariable = some s → allBlank s = false →
    Trims s.toList c₁.domain.host.toList ∧ c₁.domain.host ≠ ""
  layered : ∀ second c₂, c₁.override second = .ok c₂ →
    c.override (layered lookup second) = .ok c₂

/-- **Overrides replace the host and the port for good**, whether the configuration was usable
before or not, and those of a further lookup come on top of them. -/
theorem overridden_of_override (h : c.override lookup = .ok c₁) : Overridden c lookup c₁ := by
  obtain ⟨port, hport, hcheck, rfl⟩ := override_eq_ok_iff.mp h
  refine {
    again := override_eq_ok_iff.mpr ⟨port, hport, ?again, ?again'⟩
    others := rfl
    hostKept := fun hhost => ?hostKept
    hostTaken := fun s hs hvisible => ?hostTaken
    layered := fun second c₂ h₂ => ?layered }
  case again' => rw [replace_replace, Option.or_self, Option.or_self]
  case again => rwa [replace_replace, Option.or_self, Option.or_self]
  case hostKept =>
    rw [hostOverride?_eq_none hhost]
    rfl
  case hostTaken =>
    rw [hostOverride?_eq_some hs hvisible]
    refine ⟨trims_trimmed s, fun hempty => ?_⟩
    have hblank : allBlank s = true := (trimmed_eq_empty_iff s).mp hempty
    rw [hvisible] at hblank
    cases hblank
  case layered =>
    obtain ⟨port', hport', hcheck', rfl⟩ := override_eq_ok_iff.mp h₂
    refine override_eq_ok_iff.mpr ⟨port'.or port, portOverride?_layered hport hport', ?_, ?_⟩
    · rwa [hostOverride?_layered, ← replace_replace]
    · rw [hostOverride?_layered, replace_replace]

/-- A lookup of a host and a port. -/
def answering (host port : String) (name : String) : Option String :=
  if name = hostVariable then some host
  else if name = portVariable then some port
  else none

/-- A configuration without a host gets one, and the blank host of the next lookup leaves it. -/
theorem overridden_of_override_blankHost :
    let lookup := answering "\u3000hpi \t" " +04800"
    let second := answering "\u2028" "4801"
    let c₁ : Config := { domain := { host := "hpi", port := 4800 } }
    override { domain := { host := "" } } lookup = .ok c₁ ∧
      Overridden { domain := { host := "" } } lookup c₁ ∧
      override { domain := { host := "" } } (layered lookup second) =
        .ok { c₁ with domain := { c₁.domain with port := 4801 } } := by
  have h : override { domain := { host := "" } } (answering "\u3000hpi \t" " +04800") =
      .ok { domain := { host := "hpi", port := 4800 } } := by decide
  exact ⟨h, overridden_of_override h, (overridden_of_override h).layered _ _ (by decide)⟩

end SessionPool.Config
