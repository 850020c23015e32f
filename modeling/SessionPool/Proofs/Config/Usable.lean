import SessionPool.Config.Target
import SessionPool.Proofs.Config.Precedence
import SessionPool.Proofs.Tcp.Sockets

/-!
# Only usable configurations come in

However a configuration comes in, from a text, a file, the environment or the wishes of a caller, it
is checked after the last change that is made to it. So it is usable, and its amounts go to the
sockets as they are:

    entry.result = .ok c  ⟹  c.Usable ∧ c.CarriedBy c.tcpOptions.

The other way round a configuration is only turned away for a fault that it has where it is checked,
or for a port override that cannot be read.
-/

namespace SessionPool

open Text
open Script (Deed TcpAct)

namespace Config

/-! ### Usable configurations -/

/-- A configuration that can be used: there is a host, and nothing is zero. -/
structure Usable (c : Config) : Prop where
  host : trimmed c.domain.host ≠ ""
  port : c.domain.port ≠ 0
  connectTimeout : c.connectTimeoutMs ≠ 0
  ioTimeout : c.ioTimeoutMs ≠ some 0
  keepalive : ∀ k, c.keepalive = some k → k.timeSecs ≠ 0 ∧ k.intervalSecs ≠ 0 ∧ k.probes ≠ 0

/-- The fault is one that a configuration has. -/
inductive Has (c : Config) : Fault → Prop
  | emptyHost (h : trimmed c.domain.host = "") : Has c .emptyHost
  | zeroPort (h : c.domain.port = 0) : Has c .zeroPort
  | zeroConnectTimeout (h : c.connectTimeoutMs = 0) : Has c .zeroConnectTimeout
  | zeroIoTimeout (h : c.ioTimeoutMs = some 0) : Has c .zeroIoTimeout
  | zeroKeepalive {k : Keepalive} (h : c.keepalive = some k)
      (zero : k.timeSecs = 0 ∨ k.intervalSecs = 0 ∨ k.probes = 0) : Has c .zeroKeepalive

theorem Usable.not_has {c : Config} (h : c.Usable) (fault : Fault) : ¬ c.Has fault := by
  rintro (hhost | hport | hconnect | hio | ⟨hk, hzero⟩)
  · exact h.host hhost
  · exact h.port hport
  · exact h.connectTimeout hconnect
  · exact h.ioTimeout hio
  · obtain ⟨htime, hinterval, hprobes⟩ := h.keepalive _ hk
    rcases hzero with hzero | hzero | hzero
    · exact htime hzero
    · exact hinterval hzero
    · exact hprobes hzero

/-- A check finds the configuration usable or names a fault of it. -/
theorem check_cases (c : Config) :
    c.check = .ok () ∧ c.Usable ∨
      ∃ fault, c.check = .error (.invalidConfig fault) ∧ c.Has fault := by
  rw [check]
  split
  · next hblank =>
    exact .inr ⟨_, rfl, .emptyHost ((trimmed_eq_empty_iff _).mpr hblank)⟩
  next hhost =>
  split
  · next hport => exact .inr ⟨_, rfl, .zeroPort hport⟩
  next hport =>
  split
  · next hconnect => exact .inr ⟨_, rfl, .zeroConnectTimeout hconnect⟩
  next hconnect =>
  split
  · next hio => exact .inr ⟨_, rfl, .zeroIoTimeout hio⟩
  next hio =>
  split
  · next hkeepalive =>
    obtain ⟨k, hk, hzero⟩ := (Option.any_eq_true _ _).mp hkeepalive
    refine .inr ⟨_, rfl, .zeroKeepalive hk ?_⟩
    simpa [or_assoc] using hzero
  · next hkeepalive =>
    refine .inl ⟨rfl, ?_, hport, hconnect, hio, fun k hk => ?_⟩
    · exact fun hempty => hhost ((trimmed_eq_empty_iff _).mp hempty)
    · simpa [hk, and_assoc] using hkeepalive

theorem checked_cases (c : Config) :
    c.checked = .ok c ∧ c.Usable ∨
      ∃ fault, c.checked = .error (.invalidConfig fault) ∧ c.Has fault := by
  rw [checked]
  rcases c.check_cases with ⟨hcheck, h⟩ | ⟨fault, hcheck, h⟩
  · exact .inl ⟨by rw [hcheck]; rfl, h⟩
  · exact .inr ⟨fault, by rw [hcheck]; rfl, h⟩

end Config

/-! ### Amounts on their way to the sockets -/

namespace Tcp.Options

/-- All spans of time among the options. -/
def spans (o : Options) : List Duration :=
  o.connectTimeout :: o.ioTimeout.toList ++ o.probing.toList.flatMap fun p => [p.time, p.interval]

/-- Options in which nothing is zero. -/
structure Positive (o : Options) : Prop where
  spans : ∀ d ∈ o.spans, 0 < d.millis
  retries : ∀ p, o.probing = some p → p.retries ≠ 0

end Tcp.Options

namespace Config

/-- The options have the amounts of a configuration, no span has more seconds than a word can hold,
and no other amounts would give the same options. -/
structure CarriedBy (c : Config) (o : Tcp.Options) : Prop where
  connectTimeout : o.connectTimeout.millis = c.connectTimeoutMs.toNat
  ioTimeout : o.ioTimeout.map (·.millis) = c.ioTimeoutMs.map (·.toNat)
  nodelay : o.nodelay = c.nodelay
  probing : o.probing.map (fun p => (p.time.millis, p.interval.millis, p.retries)) =
    c.keepalive.map fun k => (1000 * k.timeSecs.toNat, 1000 * k.intervalSecs.toNat, k.probes)
  fits : ∀ d ∈ o.spans, d.secs < UInt64.size
  lossless : ∀ c' : Config, c'.tcpOptions = o → c' = { c with domain := c'.domain }

theorem mem_spans_tcpOptions {c : Config} {d : Tcp.Duration} :
    d ∈ c.tcpOptions.spans ↔ d.millis = c.connectTimeoutMs.toNat ∨
      (∃ ms, c.ioTimeoutMs = some ms ∧ d.millis = ms.toNat) ∨
      ∃ k, c.keepalive = some k ∧
        (d.millis = 1000 * k.timeSecs.toNat ∨ d.millis = 1000 * k.intervalSecs.toNat) := by
  obtain ⟨millis⟩ := d
  obtain ⟨domain, connect, io, nodelay, keepalive⟩ := c
  cases io <;> cases keepalive <;>
    simp [tcpOptions, Tcp.Options.spans, Keepalive.probing, Tcp.Duration.ofMillis,
      Tcp.Duration.ofSecs]

theorem probing_injective {k k' : Keepalive} (h : k.probing = k'.probing) : k = k' := by
  obtain ⟨time, interval, probes⟩ := k
  obtain ⟨time', interval', probes'⟩ := k'
  simp only [Keepalive.probing, Tcp.Duration.ofSecs, Tcp.Probing.mk.injEq,
    Tcp.Duration.mk.injEq] at h
  obtain ⟨htime, hinterval, rfl⟩ := h
  obtain rfl : time = time' := UInt64.toNat_inj.mp (by omega)
  obtain rfl : interval = interval' := UInt64.toNat_inj.mp (by omega)
  rfl

theorem carriedBy_tcpOptions (c : Config) : c.CarriedBy c.tcpOptions where
  connectTimeout := rfl
  ioTimeout := by simp [tcpOptions, Tcp.Duration.ofMillis, Function.comp_def]
  nodelay := rfl
  probing := by simp [tcpOptions, Keepalive.probing, Tcp.Duration.ofSecs, Function.comp_def]
  fits d hd := by
    have hword (n : UInt64) : n.toNat < UInt64.size := n.toNat_lt
    rw [Tcp.Duration.secs]
    rcases mem_spans_tcpOptions.mp hd with h | ⟨ms, -, h⟩ | ⟨k, -, h | h⟩
    · have := hword c.connectTimeoutMs
      omega
    · have := hword ms
      omega
    · have := hword k.timeSecs
      omega
    · have := hword k.intervalSecs
      omega
  lossless c' h := by
    obtain ⟨domain, connect, io, nodelay, keepalive⟩ := c
    obtain ⟨domain', connect', io', nodelay', keepalive'⟩ := c'
    simp only [tcpOptions, Tcp.Options.mk.injEq, Tcp.Duration.ofMillis, Tcp.Duration.mk.injEq,
      UInt64.toNat_inj] at h
    obtain ⟨rfl, hio, rfl, hkeepalive⟩ := h
    have hmillis : Function.Injective fun ms : UInt64 => (⟨ms.toNat⟩ : Tcp.Duration) := by
      intro ms ms' heq
      exact UInt64.toNat_inj.mp (Tcp.Duration.mk.inj heq)
    have hprobing : Function.Injective Keepalive.probing := fun _ _ => probing_injective
    rw [Option.map_injective hmillis hio, Option.map_injective hprobing hkeepalive]

theorem Usable.positive {c : Config} (h : c.Usable) : c.tcpOptions.Positive where
  spans d hd := by
    have hpos {n : UInt64} (hn : n ≠ 0) : 0 < n.toNat := by
      rw [Nat.pos_iff_ne_zero]
      exact fun hzero => hn (UInt64.toNat_inj.mp hzero)
    rcases mem_spans_tcpOptions.mp hd with hd | ⟨ms, hms, hd⟩ | ⟨k, hk, hd⟩
    · rw [hd]
      exact hpos h.connectTimeout
    · rw [hd]
      exact hpos fun hzero => h.ioTimeout (hzero ▸ hms)
    · have htime := hpos (h.keepalive k hk).1
      have hinterval := hpos (h.keepalive k hk).2.1
      omega
  retries p hp := by
    obtain ⟨k, hk, rfl⟩ := Option.map_eq_some_iff.mp hp
    exact (h.keepalive k hk).2.2

end Config

/-! ### Checkpoints -/

namespace Config

/-- A point at which a configuration can be turned away. -/
inductive Checkpoint where
  /-- The value of the port variable is read. -/
  | port (value : String)
  /-- The settings are checked as they are by then. -/
  | settings (c : Config)

/-- The fault with which a checkpoint turns a configuration away. -/
inductive Checkpoint.Stops : Checkpoint → Fault → Prop
  | port {value : String} {fault : NumeralFault}
      (unreadable : readUInt16 (trimmed value) = .error fault) :
      Stops (.port value) (.unreadablePort value fault)
  | settings {c : Config} {fault : Fault} (h : c.Has fault) : Stops (.settings c) fault

/-- What comes through some checkpoints is usable; what is turned away is turned away at one of
them; and what one of them stops does not come through. -/
structure Guards (meets : Checkpoint → Prop) (r : Except Error Config) : Prop where
  usable : ∀ c, r = .ok c → c.Usable
  stopped : ∀ fault, r = .error (.invalidConfig fault) → ∃ p, meets p ∧ p.Stops fault
  heeded : ∀ p fault, meets p → p.Stops fault → ∃ fault', r = .error (.invalidConfig fault')

namespace Guards

variable {meets meets' : Checkpoint → Prop} {r : Except Error Config}

theorem congr (h : Guards meets r) (same : ∀ p, meets' p ↔ meets p) : Guards meets' r := by
  obtain rfl : meets' = meets := funext fun p => propext (same p)
  exact h

theorem checked (c : Config) : Guards (· = .settings c) c.checked := by
  rcases c.checked_cases with ⟨hresult, husable⟩ | ⟨fault, hresult, hfault⟩
  · rw [hresult]
    refine ⟨?_, ?_, ?_⟩
    · rintro _ ⟨⟩
      exact husable
    · rintro fault ⟨⟩
    · rintro _ fault rfl hstops
      cases hstops with
      | settings hfault => exact absurd hfault (husable.not_has fault)
  · rw [hresult]
    refine ⟨?_, ?_, fun _ _ _ _ => ⟨fault, rfl⟩⟩
    · rintro c ⟨⟩
    · intro fault' heq
      obtain rfl : fault = fault' := Error.invalidConfig.inj (Except.error.inj heq)
      exact ⟨_, rfl, .settings hfault⟩

/-- An error of another kind is no checkpoint's doing. -/
theorem failed {e : Error} (h : ∀ fault, e ≠ .invalidConfig fault) :
    Guards (fun _ => False) (.error e) := by
  refine ⟨?_, ?_, fun _ _ hfalse => hfalse.elim⟩
  · rintro c ⟨⟩
  · rintro fault heq
    exact absurd (Except.error.inj heq) (h fault)

/-- What has come through goes on to further checkpoints. -/
theorem bind {meets' : Config → Checkpoint → Prop} {f : Config → Except Error Config}
    (h : Guards meets r) (next : ∀ c, r = .ok c → Guards (meets' c) (f c)) :
    Guards (fun p => meets p ∨ ∃ c, r = .ok c ∧ meets' c p) (r >>= f) := by
  cases r with
  | error e =>
    refine ⟨?_, fun fault heq => ?_, ?_⟩
    · rintro c ⟨⟩
    · obtain ⟨p, hp, hstops⟩ := h.stopped fault heq
      exact ⟨p, .inl hp, hstops⟩
    · rintro p fault (hp | ⟨c, ⟨⟩, -⟩) hstops
      exact h.heeded p fault hp hstops
  | ok c =>
    have hnext := next c rfl
    refine ⟨hnext.usable, fun fault heq => ?_, ?_⟩
    · obtain ⟨p, hp, hstops⟩ := hnext.stopped fault heq
      exact ⟨p, .inr ⟨c, rfl, hp⟩, hstops⟩
    · rintro p fault (hp | ⟨_, ⟨⟩, hp⟩) hstops
      · obtain ⟨_, ⟨⟩⟩ := h.heeded p fault hp hstops
      · exact hnext.heeded p fault hp hstops

end Guards

/-- An override of the port fails only over a value that cannot be read. -/
theorem portOverride?_cases (lookup : String → Option String) :
    (∃ value fault, lookup portVariable = some value ∧
        (Checkpoint.port value).Stops fault ∧
        portOverride? lookup = .error (.invalidConfig fault)) ∨
      ∃ port, portOverride? lookup = .ok port ∧
        ∀ value fault, lookup portVariable = some value →
          ¬ (Checkpoint.port value).Stops fault := by
  rw [portOverride?]
  cases hgiven : lookup portVariable with
  | none => exact .inr ⟨none, rfl, by simp⟩
  | some value =>
    cases hread : readUInt16 (trimmed value) with
    | ok port =>
      refine .inr ⟨some port, by simp only [hread], ?_⟩
      rintro _ fault ⟨⟩ ⟨hunreadable⟩
      rw [hread] at hunreadable
      cases hunreadable
    | error fault => exact .inl ⟨value, _, rfl, .port hread, by simp only [hread]⟩

/-- What was being done when an error came up is forgotten again. -/
theorem mapError_error (stage : Stage) (r : Except Error Config) :
    (r.mapError (Failure.mk stage)).mapError (·.error) = r := by
  cases r <;> rfl

/-! ### Ways in -/

/-- The ways in which a configuration comes in. -/
inductive Entry where
  | json (text : String)
  | overridden (c : Config) (lookup : String → Option String)
  | environment (c : Config) (env : Environment)
  | defaults (env : Environment)
  | file (files : Files.Tree) (env : Environment) (path : String)
  | resolved (target : Target) (files : Files.Tree) (env : Environment)

namespace Entry

/-- What comes in. -/
def result : Entry → Except Error Config
  | json text => ofJson text
  | overridden c lookup => c.override lookup
  | environment c env => c.overrideFrom env
  | defaults env => ofEnvironment env
  | file files env path => load files env path
  | resolved target files env => (target.resolve files env).mapError (·.error)

/-- The checkpoints on a way in. Some are reached only if the configuration has come that far. -/
inductive Meets : Entry → Checkpoint → Prop
  | parsed {text : String} {c : Config} (parses : parse text = .ok c) :
      Meets (json text) (.settings c)
  | port {c : Config} {lookup : String → Option String} {value : String}
      (given : lookup portVariable = some value) : Meets (overridden c lookup) (.port value)
  | overridden {c : Config} {lookup : String → Option String} {port : Option UInt16}
      (read : portOverride? lookup = .ok port) :
      Meets (overridden c lookup) (.settings (c.replace (hostOverride? lookup) port))
  | environment {c : Config} {env : Environment} {p : Checkpoint}
      (h : Meets (.overridden c env.text?) p) : Meets (environment c env) p
  | defaults {env : Environment} {p : Checkpoint} (h : Meets (.environment {} env) p) :
      Meets (defaults env) p
  | file {files : Files.Tree} {env : Environment} {path text : String} {p : Checkpoint}
      (readable : files.readText path = .ok text) (h : Meets (json text) p) :
      Meets (file files env path) p
  | fileOverridden {files : Files.Tree} {env : Environment} {path text : String} {c : Config}
      {p : Checkpoint} (readable : files.readText path = .ok text) (usable : ofJson text = .ok c)
      (h : Meets (.environment c env) p) : Meets (.file files env path) p
  | named {target : Target} {files : Files.Tree} {env : Environment} {path : String}
      {p : Checkpoint} (named : target.config = some path) (h : Meets (.file files env path) p) :
      Meets (resolved target files env) p
  | unnamed {target : Target} {files : Files.Tree} {env : Environment} {p : Checkpoint}
      (unnamed : target.config = none) (h : Meets (.defaults env) p) :
      Meets (resolved target files env) p
  | applied {target : Target} {files : Files.Tree} {env : Environment} {c : Config}
      (base : target.base files env = .ok c) :
      Meets (resolved target files env) (.settings (target.apply c))

theorem guards_json (text : String) : Guards (json text).Meets (ofJson text) := by
  rw [ofJson]
  cases hparse : parse text with
  | error e =>
    refine (Guards.failed (by simp)).congr fun p => iff_of_false ?_ id
    rintro ⟨hparsed⟩
    rw [hparse] at hparsed
    cases hparsed
  | ok c =>
    refine (Guards.checked c).congr fun p => ⟨?_, ?_⟩
    · rintro ⟨hparsed⟩
      rw [Except.ok.inj (hparse.symm.trans hparsed)]
    · rintro rfl
      exact .parsed hparse

theorem guards_overridden (c : Config) (lookup : String → Option String) :
    Guards (overridden c lookup).Meets (c.override lookup) := by
  rw [override]
  rcases portOverride?_cases lookup with
    ⟨value, fault, hgiven, hstops, hport⟩ | ⟨port, hport, hfree⟩
  · -- The port is not read, so the settings are never checked.
    rw [hport]
    refine ⟨?_, fun fault' heq => ?_, fun _ _ _ _ => ⟨fault, rfl⟩⟩
    · rintro c ⟨⟩
    · obtain rfl : fault = fault' := Error.invalidConfig.inj (Except.error.inj heq)
      exact ⟨_, .port hgiven, hstops⟩
  · rw [hport]
    show Guards _ (c.replace (hostOverride? lookup) port).checked
    have hchecked := Guards.checked (c.replace (hostOverride? lookup) port)
    refine ⟨hchecked.usable, fun fault heq => ?_, ?_⟩
    · obtain ⟨_, rfl, hstops⟩ := hchecked.stopped fault heq
      exact ⟨_, .overridden hport, hstops⟩
    · intro p fault hmeets hstops
      cases hmeets with
      | port hgiven => exact absurd hstops (hfree _ fault hgiven)
      | overridden hport' =>
        rw [hport, Except.ok.injEq] at hport'
        subst hport'
        exact hchecked.heeded _ fault rfl hstops

theorem guards_environment (c : Config) (env : Environment) :
    Guards (environment c env).Meets (c.overrideFrom env) := by
  refine (guards_overridden c env.text?).congr fun p => ⟨fun hmeets => ?_, .environment⟩
  cases hmeets with
  | environment hmeets => exact hmeets

theorem guards_defaults (env : Environment) : Guards (defaults env).Meets (ofEnvironment env) := by
  refine (guards_environment {} env).congr fun p => ⟨fun hmeets => ?_, .defaults⟩
  cases hmeets with
  | defaults hmeets => exact hmeets

theorem guards_file (files : Files.Tree) (env : Environment) (path : String) :
    Guards (file files env path).Meets (load files env path) := by
  rw [load]
  cases htext : files.readText path with
  | error fault =>
    refine (Guards.failed (by simp)).congr fun p => iff_of_false (fun hmeets => ?_) id
    cases hmeets with
    | file hreadable => simp [htext] at hreadable
    | fileOverridden hreadable => simp [htext] at hreadable
  | ok text =>
    refine ((guards_json text).bind fun c _ => guards_environment c env).congr fun p => ⟨?_, ?_⟩
    · intro hmeets
      cases hmeets with
      | file hreadable hmeets =>
        obtain rfl := Except.ok.inj (htext.symm.trans hreadable)
        exact .inl hmeets
      | fileOverridden hreadable husable hmeets =>
        obtain rfl := Except.ok.inj (htext.symm.trans hreadable)
        exact .inr ⟨_, husable, hmeets⟩
    · rintro (hmeets | ⟨c, husable, hmeets⟩)
      · exact .file htext hmeets
      · exact .fileOverridden htext husable hmeets

/-- What a target starts from comes in by the file that it names, or else by the environment. -/
theorem guards_base (target : Target) (files : Files.Tree) (env : Environment) :
    Guards (fun p => (∃ path, target.config = some path ∧ (file files env path).Meets p) ∨
        target.config = none ∧ (defaults env).Meets p)
      ((target.base files env).mapError (·.error)) := by
  rw [Target.base]
  cases hconfig : target.config with
  | none =>
    dsimp only
    rw [mapError_error]
    exact (guards_defaults env).congr fun p => by simp
  | some path =>
    dsimp only
    rw [mapError_error]
    exact (guards_file files env path).congr fun p => by simp

theorem guards_resolved (target : Target) (files : Files.Tree) (env : Environment) :
    Guards (resolved target files env).Meets
      ((target.resolve files env).mapError (·.error)) := by
  have hresolve : (target.resolve files env).mapError (·.error) =
      (target.base files env).mapError (·.error) >>= fun c => (target.apply c).checked := by
    rw [Target.resolve]
    cases target.base files env with
    | error failure => rfl
    | ok c => exact mapError_error _ _
  rw [hresolve]
  refine ((guards_base target files env).bind fun c _ => Guards.checked _).congr fun p => ⟨?_, ?_⟩
  · intro hmeets
    cases hmeets with
    | named hconfig hmeets => exact .inl (.inl ⟨_, hconfig, hmeets⟩)
    | unnamed hconfig hmeets => exact .inl (.inr ⟨hconfig, hmeets⟩)
    | applied hbase => exact .inr ⟨_, mapError_eq_ok_iff.mpr hbase, rfl⟩
  · rintro ((⟨path, hconfig, hmeets⟩ | ⟨hconfig, hmeets⟩) | ⟨c, hbase, rfl⟩)
    · exact .named hconfig hmeets
    · exact .unnamed hconfig hmeets
    · exact .applied (mapError_eq_ok_iff.mp hbase)

theorem guards (e : Entry) : Guards e.Meets e.result := by
  cases e with
  | json text => exact guards_json text
  | overridden c lookup => exact guards_overridden c lookup
  | environment c env => exact guards_environment c env
  | defaults env => exact guards_defaults env
  | file files env path => exact guards_file files env path
  | resolved target files env => exact guards_resolved target files env

/-- Only what is usable comes in, and nothing else is turned away. The factory of what came in keeps
its amounts, and these are all that the sockets ever see. -/
structure Guarded (e : Entry) : Prop extends Guards e.Meets e.result where
  carried : ∀ c, e.result = .ok c →
    c.marshalFactory.options = c.tcpOptions ∧ c.CarriedBy c.tcpOptions ∧ c.tcpOptions.Positive
  sockets : ∀ c, e.result = .ok c →
    ∀ (ω ε : Type) [Tcp.Network ω ε] (w : ω) (deeds : List (Deed TcpAct)),
      ∀ contact ∈ c.marshalFactory.contacts w deeds,
        contact.2 = c.tcpOptions ∧ contact.2.Positive

/-- By every way in. -/
theorem guarded (e : Entry) : e.Guarded where
  toGuards := e.guards
  carried c hc := ⟨rfl, carriedBy_tcpOptions c, (e.guards.usable c hc).positive⟩
  sockets c hc _ _ _ _ _ _ hcontact := by
    have hoptions := Tcp.Factory.contacts_options hcontact
    exact ⟨hoptions, hoptions ▸ (e.guards.usable c hc).positive⟩

end Entry

end Config

end SessionPool
