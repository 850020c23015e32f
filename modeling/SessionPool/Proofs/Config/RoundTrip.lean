import SessionPool.Config.Check
import SessionPool.Proofs.Config.ObjectForm

/-!
# Configurations that are read back

A configuration, a domain or a keepalive setting that was written, in either layout, is read back as
it was, whether or not it is usable:

    parse (toCompact c.toJson) = ok c  and  parse (toPretty c.toJson) = ok c.

The object that is written says of each setting what it is. What is not set is not written, and
reading takes the default for it, which is not to be set.
-/

namespace SessionPool

open Json
open Json.Reader (Inverts)
open Json.Value (memberData optionalMember)

/-! ### Each record inverts its writer -/

theorem Domain.madeOf_toJson (d : Domain) : d.toJson.datum.MadeOf OfMembers d :=
  .mk {
    once := by simp [Once, memberData]
    host := ⟨by simp [memberData], by simp [memberData]⟩
    port := ⟨by simp [memberData], by simp [memberData]⟩
    remoteDomainId := ⟨by simp [memberData], by simp [memberData]⟩ }

theorem Domain.inverts_toJson (d : Domain) : record.reader.Inverts d.toJson d := by
  have hreads : record.reader.Reads d.toJson.datum (d.toJson.datum.MadeOf OfMembers) :=
    Setting.reads_madeOf lawful tells_iff describes (fun _ => Datum.noConfusion)
  exact hreads.inverts d.madeOf_toJson

theorem Keepalive.madeOf_toJson (k : Keepalive) : k.toJson.datum.MadeOf OfMembers k :=
  .mk {
    once := by simp [Once, memberData]
    timeSecs := ⟨by simp [memberData], by simp [memberData]⟩
    intervalSecs := ⟨by simp [memberData], by simp [memberData]⟩
    probes := ⟨by simp [memberData], by simp [memberData]⟩ }

theorem Keepalive.inverts_toJson (k : Keepalive) : record.reader.Inverts k.toJson k := by
  have hreads : record.reader.Reads k.toJson.datum (k.toJson.datum.MadeOf OfMembers) :=
    Setting.reads_madeOf lawful tells_iff describes (fun _ => Datum.noConfusion)
  exact hreads.inverts k.madeOf_toJson

/-- The members that are written of a configuration tell what it is. -/
theorem Config.tells_toJson (c : Config) :
    ∃ ms, c.toJson.datum = .object ms ∧ (∀ vs, ("domain", .list vs) ∉ ms) ∧
      (∀ vs, ("keepalive", .list vs) ∉ ms) ∧ Setting.Tells settings record.absent ms c := by
  have hnoList : ∀ vs, Datum.list vs ≠ c.domain.toJson.datum := nofun
  have hnoLists (k : Keepalive) : ∀ vs, Datum.list vs ≠ k.toJson.datum := nofun
  refine ⟨_, rfl, by simp [memberData, hnoList], by simp [memberData, hnoLists], ?once, ?sets,
    by simp [settings]⟩
  case once =>
    cases c.ioTimeoutMs <;> cases c.keepalive <;>
      simp [memberData, optionalMember, settings, Once]
  case sets =>
    simp only [settings, List.forall_mem_cons]
    refine ⟨?domain, ?connect, ?io, ?nodelay, ?keepalive, by simp⟩
    case domain =>
      have hdomain := c.domain.madeOf_toJson
      exact ⟨by simpa [memberData], by simp [memberData]⟩
    case connect => exact ⟨by simp [memberData], by simp [memberData]⟩
    case nodelay => exact ⟨by simp [memberData], by simp [memberData]⟩
    -- What is not set is not written, and the default is to have none.
    case io =>
      cases c.ioTimeoutMs with
      | none => exact ⟨by simp [memberData], fun _ => rfl⟩
      | some ms =>
        have hsome : OptionalMs (Value.natural ms.toNat).datum (some ms) := .some (by simp)
        exact ⟨by simpa [memberData], by simp [memberData, optionalMember]⟩
    case keepalive =>
      cases c.keepalive with
      | none => exact ⟨by simp [memberData], fun _ => rfl⟩
      | some k =>
        have hsome : OptionalKeepalive k.toJson.datum (some k) := .some k.madeOf_toJson
        exact ⟨by simpa [memberData], by simp [memberData, optionalMember]⟩

theorem Config.inverts_toJson (c : Config) : record.reader.Inverts c.toJson c := by
  obtain ⟨ms, hms, hdomain, hkeepalive, htells⟩ := c.tells_toJson
  have hdescribes := describes hdomain hkeepalive
  have hreads := Record.reads_members (Setting.readsMembers lawful hdescribes)
  rw [← hms] at hreads
  exact hreads.inverts ((Setting.finishes_iff_tells lawful hdescribes).mpr htells)

/-! ### Both layouts -/

/-- Both texts of a value are read as `a`. -/
structure RoundTrips {α : Type} (parse : String → Except Json.Error α) (v : Value) (a : α) :
    Prop where
  compact : parse v.toCompact = .ok a
  pretty : parse v.toPretty = .ok a

theorem RoundTrips.of_inverts {α : Type} {reader : Reader α} {v : Value} {a : α}
    (h : reader.Inverts v a) : RoundTrips reader.parse v a where
  compact := h.parse (spells_compact v)
  pretty := h.parse (spells_pretty 0 v)

/-- Configurations, usable or not, and their parts are read back from both layouts. What is handed
out is only the configuration that is usable. -/
theorem parse_layouts (c : Config) (d : Domain) (k : Keepalive) :
    RoundTrips Config.parse c.toJson c ∧ RoundTrips Domain.parse d.toJson d ∧
      RoundTrips Keepalive.parse k.toJson k ∧
      Config.ofJson c.toJson.toCompact = c.check.map (fun _ => c) ∧
      Config.ofJson c.toJson.toPretty = c.check.map (fun _ => c) := by
  have hc : RoundTrips Config.parse c.toJson c := .of_inverts c.inverts_toJson
  have hd : RoundTrips Domain.parse d.toJson d := .of_inverts d.inverts_toJson
  have hk : RoundTrips Keepalive.parse k.toJson k := .of_inverts k.inverts_toJson
  have hchecked : c.checked = c.check.map fun _ => c := by
    rw [Config.checked]
    cases c.check <;> rfl
  refine ⟨hc, hd, hk, ?_, ?_⟩
  · rw [Config.ofJson, hc.compact, ← hchecked]
  · rw [Config.ofJson, hc.pretty, ← hchecked]

end SessionPool
