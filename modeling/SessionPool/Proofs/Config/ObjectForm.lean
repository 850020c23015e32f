import SessionPool.Config
import SessionPool.Proofs.Json.Settings
import SessionPool.Proofs.Json.Written

/-!
# Configurations that are read from objects

A configuration is read from every text of an object that is acceptable, whatever the order of its
members, the gaps between them and the members that are not known, and what is read depends on the
members alone:

    (∃ c, Config.parse text = ok c)  ↔  Config.Acceptable ms
    Config.parse text = ok c  →  Config.OfMembers ms c.

Everything but the members of `keepalive` and the host of a given domain may be left out, and keeps
its default then. The domain and the keepalive setting can be given as lists as well, which is not
what this is about.
-/

namespace SessionPool

open Json

/-! ### Domains -/

namespace Domain

/-- What the members of an object say of a domain. Only the host must be there. -/
structure OfMembers (ms : List (String × Datum)) (d : Domain) : Prop where
  once : Once ["host", "port", "remoteDomainId"] ms
  host : Gives ms "host" Datum.IsText d.host
  port : Sets ms "port" Datum.IsUInt16 4743 d.port
  remoteDomainId : Sets ms "remoteDomainId" Datum.IsUInt32 0 d.remoteDomainId

def settings : List (Setting Domain) := [
  ⟨"host", true, String, Datum.IsText, (·.host), fun host d => { d with host }⟩,
  ⟨"port", false, UInt16, Datum.IsUInt16, (·.port), fun port d => { d with port }⟩,
  ⟨"remoteDomainId", false, UInt32, Datum.IsUInt32, (·.remoteDomainId),
    fun remoteDomainId d => { d with remoteDomainId }⟩]

theorem lawful : Setting.Lawful settings where
  names := by simp [settings]
  unique := by
    simp only [settings, List.forall_mem_cons]
    exact ⟨Datum.IsText.unique, Datum.IsUInt16.unique, Datum.IsUInt32.unique, by simp⟩
  get_set := by simp [settings]
  get_other := by simp [settings]
  ext := by
    rintro ⟨host, port, id⟩ ⟨host', port', id'⟩
    simp [settings]

theorem describes (ms : List (String × Datum)) :
    List.Forall₂ (Setting.Describes ms) settings record.members := by
  refine .cons (.of_reads ?host) (.cons (.of_reads ?port) (.cons (.of_reads ?id) .nil))
  case host => exact fun v _ => Reader.reads_text v
  case port => exact fun v _ => Reader.reads_uint16 v
  case id => exact fun v _ => Reader.reads_uint32 v

theorem tells_iff (ms : List (String × Datum)) (d : Domain) :
    Setting.Tells settings record.absent ms d ↔ OfMembers ms d := by
  constructor
  · rintro ⟨honce, hsets, hrequired⟩
    simp only [settings, List.forall_mem_cons] at hsets hrequired
    exact ⟨honce, gives_iff.mpr ⟨hsets.1, hrequired.1 trivial⟩, hsets.2.1, hsets.2.2.1⟩
  · intro h
    obtain ⟨hhost, hpresent⟩ := gives_iff.mp h.host
    refine ⟨h.once, ?_, ?_⟩
    · simp only [settings, List.forall_mem_cons]
      exact ⟨hhost, h.port, h.remoteDomainId, by simp⟩
    · simpa [settings] using hpresent

/-- The domain that a text other than a list stands for. -/
theorem parse_eq_ok_iff {text : String} {v : Datum} (htext : WellFormed text v)
    (hlist : ∀ vs, v ≠ .list vs) (d : Domain) :
    parse text = .ok d ↔ v.MadeOf OfMembers d :=
  (Setting.reads_madeOf lawful tells_iff describes hlist).parse htext d

end Domain

/-! ### Keepalive settings -/

namespace Keepalive

/-- What the members of an object say of a keepalive setting. All of them must be there. -/
structure OfMembers (ms : List (String × Datum)) (k : Keepalive) : Prop where
  once : Once ["timeSecs", "intervalSecs", "probes"] ms
  timeSecs : Gives ms "timeSecs" Datum.IsUInt64 k.timeSecs
  intervalSecs : Gives ms "intervalSecs" Datum.IsUInt64 k.intervalSecs
  probes : Gives ms "probes" Datum.IsUInt32 k.probes

def settings : List (Setting Keepalive) := [
  ⟨"timeSecs", true, UInt64, Datum.IsUInt64, (·.timeSecs),
    fun timeSecs k => { k with timeSecs }⟩,
  ⟨"intervalSecs", true, UInt64, Datum.IsUInt64, (·.intervalSecs),
    fun intervalSecs k => { k with intervalSecs }⟩,
  ⟨"probes", true, UInt32, Datum.IsUInt32, (·.probes), fun probes k => { k with probes }⟩]

theorem lawful : Setting.Lawful settings where
  names := by simp [settings]
  unique := by
    simp only [settings, List.forall_mem_cons]
    exact ⟨Datum.IsUInt64.unique, Datum.IsUInt64.unique, Datum.IsUInt32.unique, by simp⟩
  get_set := by simp [settings]
  get_other := by simp [settings]
  ext := by
    rintro ⟨time, interval, probes⟩ ⟨time', interval', probes'⟩
    simp [settings]

theorem describes (ms : List (String × Datum)) :
    List.Forall₂ (Setting.Describes ms) settings record.members := by
  refine .cons (.of_reads ?time) (.cons (.of_reads ?interval) (.cons (.of_reads ?probes) .nil))
  case time => exact fun v _ => Reader.reads_uint64 v
  case interval => exact fun v _ => Reader.reads_uint64 v
  case probes => exact fun v _ => Reader.reads_uint32 v

theorem tells_iff (ms : List (String × Datum)) (k : Keepalive) :
    Setting.Tells settings record.absent ms k ↔ OfMembers ms k := by
  constructor
  · rintro ⟨honce, hsets, hrequired⟩
    simp only [settings, List.forall_mem_cons] at hsets hrequired
    exact ⟨honce, gives_iff.mpr ⟨hsets.1, hrequired.1 trivial⟩,
      gives_iff.mpr ⟨hsets.2.1, hrequired.2.1 trivial⟩,
      gives_iff.mpr ⟨hsets.2.2.1, hrequired.2.2.1 trivial⟩⟩
  · intro h
    obtain ⟨htime, hasTime⟩ := gives_iff.mp h.timeSecs
    obtain ⟨hinterval, hasInterval⟩ := gives_iff.mp h.intervalSecs
    obtain ⟨hprobes, hasProbes⟩ := gives_iff.mp h.probes
    refine ⟨h.once, ?_, ?_⟩
    · simp only [settings, List.forall_mem_cons]
      exact ⟨htime, hinterval, hprobes, by simp⟩
    · simp only [settings, List.forall_mem_cons]
      exact ⟨fun _ => hasTime, fun _ => hasInterval, fun _ => hasProbes, by simp⟩

/-- The setting that a text other than a list stands for. -/
theorem parse_eq_ok_iff {text : String} {v : Datum} (htext : WellFormed text v)
    (hlist : ∀ vs, v ≠ .list vs) (k : Keepalive) :
    parse text = .ok k ↔ v.MadeOf OfMembers k :=
  (Setting.reads_madeOf lawful tells_iff describes hlist).parse htext k

end Keepalive

/-! ### Configurations -/

namespace Config

/-- Milliseconds, or `null` for no limit. -/
def OptionalMs : Datum → Option UInt64 → Prop := Datum.Optionally Datum.IsUInt64

/-- An object that says all of a keepalive setting, or `null` for none. -/
def OptionalKeepalive : Datum → Option Keepalive → Prop :=
  Datum.Optionally (Datum.MadeOf Keepalive.OfMembers)

/-- None of the known members comes twice, and the value of each stands for something. -/
structure Acceptable (ms : List (String × Datum)) : Prop where
  once : Once ["domain", "connectTimeoutMs", "ioTimeoutMs", "nodelay", "keepalive"] ms
  domain : ∀ v, ("domain", v) ∈ ms → ∃ d, v.MadeOf Domain.OfMembers d
  connectTimeoutMs : ∀ v, ("connectTimeoutMs", v) ∈ ms → ∃ n, v.IsUInt64 n
  ioTimeoutMs : ∀ v, ("ioTimeoutMs", v) ∈ ms → ∃ n, OptionalMs v n
  nodelay : ∀ v, ("nodelay", v) ∈ ms → ∃ b, v.IsBoolean b
  keepalive : ∀ v, ("keepalive", v) ∈ ms → ∃ k, OptionalKeepalive v k

/-- What the members of an object say of a configuration: the default, with what is there in the
place of it. -/
structure OfMembers (ms : List (String × Datum)) (c : Config) : Prop where
  domain : Sets ms "domain" (Datum.MadeOf Domain.OfMembers) ({} : Config).domain c.domain
  connectTimeoutMs : Sets ms "connectTimeoutMs" Datum.IsUInt64 ({} : Config).connectTimeoutMs
    c.connectTimeoutMs
  ioTimeoutMs : Sets ms "ioTimeoutMs" OptionalMs ({} : Config).ioTimeoutMs c.ioTimeoutMs
  nodelay : Sets ms "nodelay" Datum.IsBoolean ({} : Config).nodelay c.nodelay
  keepalive : Sets ms "keepalive" OptionalKeepalive ({} : Config).keepalive c.keepalive

def settings : List (Setting Config) := [
  ⟨"domain", false, Domain, Datum.MadeOf Domain.OfMembers, (·.domain),
    fun domain c => { c with domain }⟩,
  ⟨"connectTimeoutMs", false, UInt64, Datum.IsUInt64, (·.connectTimeoutMs),
    fun connectTimeoutMs c => { c with connectTimeoutMs }⟩,
  ⟨"ioTimeoutMs", false, Option UInt64, OptionalMs, (·.ioTimeoutMs),
    fun ioTimeoutMs c => { c with ioTimeoutMs }⟩,
  ⟨"nodelay", false, Bool, Datum.IsBoolean, (·.nodelay), fun nodelay c => { c with nodelay }⟩,
  ⟨"keepalive", false, Option Keepalive, OptionalKeepalive, (·.keepalive),
    fun keepalive c => { c with keepalive }⟩]

theorem lawful : Setting.Lawful settings where
  names := by simp [settings]
  unique := by
    simp only [settings, List.forall_mem_cons]
    refine ⟨?domain, Datum.IsUInt64.unique, ?io, Datum.IsBoolean.unique, ?keepalive, by simp⟩
    case domain => exact Setting.madeOf_unique Domain.lawful Domain.tells_iff
    case io => exact Datum.Optionally.unique Datum.IsUInt64.not_null Datum.IsUInt64.unique
    case keepalive =>
      apply Datum.Optionally.unique Datum.MadeOf.not_null
      exact Setting.madeOf_unique Keepalive.lawful Keepalive.tells_iff
  get_set := by simp [settings]
  get_other := by simp [settings]
  ext := by
    rintro ⟨domain, connect, io, nodelay, keepalive⟩ ⟨domain', connect', io', nodelay', keepalive'⟩
    simp [settings]

theorem describes {ms : List (String × Datum)} (hdomain : ∀ vs, ("domain", .list vs) ∉ ms)
    (hkeepalive : ∀ vs, ("keepalive", .list vs) ∉ ms) :
    List.Forall₂ (Setting.Describes ms) settings record.members := by
  refine .cons (.of_reads ?domain) (.cons (.of_reads ?connect) (.cons (.of_reads ?io)
    (.cons (.of_reads ?nodelay) (.cons (.of_reads ?keepalive) .nil))))
  case domain =>
    intro v hv
    apply Setting.reads_madeOf Domain.lawful Domain.tells_iff Domain.describes
    rintro vs rfl
    exact hdomain vs hv
  case connect => exact fun v _ => Reader.reads_uint64 v
  case io => exact fun v _ => (Reader.reads_uint64 v).optional Datum.IsUInt64.not_null
  case nodelay => exact fun v _ => Reader.reads_boolean v
  case keepalive =>
    intro v hv
    apply Reader.Reads.optional ?_ Datum.MadeOf.not_null
    apply Setting.reads_madeOf Keepalive.lawful Keepalive.tells_iff Keepalive.describes
    rintro vs rfl
    exact hkeepalive vs hv

theorem acceptable_iff {ms : List (String × Datum)} :
    Setting.Acceptable settings ms ↔ Acceptable ms := by
  constructor
  · rintro ⟨honce, hstands, -⟩
    simp only [settings, List.forall_mem_cons] at hstands
    obtain ⟨hdomain, hconnect, hio, hnodelay, hkeepalive, -⟩ := hstands
    exact ⟨honce, hdomain, hconnect, hio, hnodelay, hkeepalive⟩
  · rintro ⟨honce, hdomain, hconnect, hio, hnodelay, hkeepalive⟩
    refine ⟨honce, ?_, by simp [settings]⟩
    simp only [settings, List.forall_mem_cons]
    exact ⟨hdomain, hconnect, hio, hnodelay, hkeepalive, by simp⟩

theorem ofMembers_of_tells {ms : List (String × Datum)} {c : Config}
    (h : Setting.Tells settings record.absent ms c) : OfMembers ms c := by
  have hsets := h.sets
  simp only [settings, List.forall_mem_cons] at hsets
  obtain ⟨hdomain, hconnect, hio, hnodelay, hkeepalive, -⟩ := hsets
  exact ⟨hdomain, hconnect, hio, hnodelay, hkeepalive⟩

/-- A text of an object is accepted exactly when the object is acceptable, and then it gives the
default configuration with what is there in the place of it. -/
theorem parse_object {text : String} {ms : List (String × Datum)}
    (htext : WellFormed text (.object ms)) (hdomain : ∀ vs, ("domain", .list vs) ∉ ms)
    (hkeepalive : ∀ vs, ("keepalive", .list vs) ∉ ms) :
    ((∃ c, parse text = .ok c) ↔ Acceptable ms) ∧
      ∀ c, parse text = .ok c → OfMembers ms c := by
  have hdescribes := describes hdomain hkeepalive
  have hparse := (Record.reads_members (Setting.readsMembers lawful hdescribes)).parse htext
  constructor
  · rw [← acceptable_iff, ← Setting.exists_finishes_iff lawful hdescribes]
    exact exists_congr hparse
  · intro c hc
    exact ofMembers_of_tells (Setting.tells_of_finishes lawful hdescribes ((hparse c).mp hc))

/-- A foreign member, a member given as none and one that is changed. -/
theorem parse_object_someMembers :
    parse "\x7b\"since\": [1.5e3], \"keepalive\" : null,\n\"nodelay\":false \x7d" =
      .ok { nodelay := false } := by
  have hlist : Denotes ['[', '1', '.', '5', 'e', '3', ']']
      (.list [.number ⟨false, ['1'], ['5'], some ⟨false, ['3']⟩⟩]) := by
    have hwhole : IsWhole ['1'] := ⟨⟨by simp, by simp⟩, by simp⟩
    have hpoint : DenotesFraction ['.', '5'] ['5'] := .point ⟨by simp, by simp⟩
    have hexponent : DenotesExponent ['e', '3'] (some ⟨false, ['3']⟩) :=
      .some (.inl rfl) .none ⟨by simp, by simp⟩
    exact .list isGap_nil (.last (.number (.plain (.mk hwhole hpoint hexponent))) isGap_nil)
  have hsince : DenotesMember _ ("since", _) :=
    .mk (denotesText_flatMap_writeChar "since".toList) isGap_nil isGap_space hlist
  have hkeepalive : DenotesMember _ ("keepalive", _) :=
    .mk (denotesText_flatMap_writeChar "keepalive".toList) isGap_space isGap_space .null
  have hnodelay : DenotesMember _ ("nodelay", _) :=
    .mk (denotesText_flatMap_writeChar "nodelay".toList) isGap_nil isGap_nil (.boolean false)
  have hmembers := DenotesMembers.cons hsince isGap_nil isGap_space
    (.cons hkeepalive isGap_nil (isGap_newLine 0) (.last hnodelay isGap_space))
  have htext :
      WellFormed "\x7b\"since\": [1.5e3], \"keepalive\" : null,\n\"nodelay\":false \x7d" _ :=
    .mk isGap_nil (.object isGap_nil hmembers) isGap_nil (by decide)
  obtain ⟨haccepted, hmade⟩ := parse_object htext (by simp) (by simp)
  obtain ⟨c, hc⟩ := haccepted.mpr {
    once := by unfold Once; simp
    domain := by simp
    connectTimeoutMs := by simp
    ioTimeoutMs := by simp
    nodelay := by simp [Datum.IsBoolean]
    keepalive := by simpa using ⟨none, .null⟩ }
  obtain ⟨domain, connect, io, nodelay, keepalive⟩ := c
  obtain ⟨hdomain, hconnect, hio, hgiven, hnone⟩ := hmade _ hc
  obtain rfl : domain = _ := hdomain.absent (by simp)
  obtain rfl : connect = _ := hconnect.absent (by simp)
  obtain rfl : io = _ := hio.absent (by simp)
  cases hgiven.given (.boolean false) (by simp)
  cases hnone.given .null (by simp) with
  | null => exact hc
  | some h => cases h

end Config

end SessionPool
