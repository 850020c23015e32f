import SessionPool.Config.Target
import SessionPool.Proofs.Config.Given

/-!
# Which source decides

A setting of the resolved configuration is taken from the first source that has one,

    target  >  environment  >  file  >  default,

where the environment has a say in the host and the port alone, and the target in all but the I/O
timeout, `nodelay` and the probes. What the file gives has to be usable as it is, then together with
the environment, and at the end together with the target.
-/

namespace SessionPool

open Text
open Json (bind_eq_ok_iff)

/-! ### What the sources say -/

namespace Environment

/-- The bytes of a variable are the text `s`. -/
def Holds (env : Environment) (name s : String) : Prop := env.lookup name = some (encode s.toList)

/-- The environment has a host that is not blank, or none. -/
inductive GivesHost (env : Environment) : Option String → Prop
  | unset (h : ∀ s, ¬ env.Holds Config.hostVariable s) : GivesHost env none
  | blank {s : String} (h : env.Holds Config.hostVariable s) (blank : allBlank s = true) :
      GivesHost env none
  | set {s : String} (h : env.Holds Config.hostVariable s) (visible : allBlank s = false) :
      GivesHost env (some (trimmed s))

/-- The environment has a port, or none. A text that is no port is neither. -/
inductive GivesPort (env : Environment) : Option UInt16 → Prop
  | unset (h : ∀ s, ¬ env.Holds Config.portVariable s) : GivesPort env none
  | set {s : String} {port : UInt16} (h : env.Holds Config.portVariable s)
      (number : readUInt16 (trimmed s) = .ok port) : GivesPort env (some port)

theorem text?_eq_some_iff {env : Environment} {name s : String} :
    env.text? name = some s ↔ env.Holds name s := by
  rw [text?, Holds, Option.bind_eq_some_iff]
  constructor
  · rintro ⟨bytes, hbytes, hs⟩
    rw [hbytes, decode?_eq_some_iff.mp hs]
  · intro h
    exact ⟨_, h, decode?_eq_some_iff.mpr rfl⟩

theorem text?_eq_none_iff {env : Environment} {name : String} :
    env.text? name = none ↔ ∀ s, ¬ env.Holds name s := by
  rw [Option.eq_none_iff_forall_ne_some]
  exact forall_congr' fun s => not_congr text?_eq_some_iff

/-- There is one answer for the host. -/
theorem givesHost_iff {env : Environment} {host : Option String} :
    env.GivesHost host ↔ Config.hostOverride? env.text? = host := by
  constructor
  · intro h
    rw [Config.hostOverride?]
    cases h with
    | unset h => rw [text?_eq_none_iff.mpr h]; rfl
    | blank h blank => rw [text?_eq_some_iff.mpr h, Option.bind_some, if_pos blank]
    | set h visible =>
      rw [text?_eq_some_iff.mpr h, Option.bind_some, if_neg (by simp [visible])]
  · rintro rfl
    rw [Config.hostOverride?]
    cases htext : env.text? Config.hostVariable with
    | none => exact .unset (text?_eq_none_iff.mp htext)
    | some s =>
      rw [Option.bind_some]
      split
      · next blank => exact .blank (text?_eq_some_iff.mp htext) blank
      · next visible => exact .set (text?_eq_some_iff.mp htext) (by simpa using visible)

/-- There is at most one answer for the port. -/
theorem givesPort_iff {env : Environment} {port : Option UInt16} :
    env.GivesPort port ↔ Config.portOverride? env.text? = .ok port := by
  rw [Config.portOverride?]
  constructor
  · intro h
    cases h with
    | unset h => rw [text?_eq_none_iff.mpr h]
    | set h number => simp only [text?_eq_some_iff.mpr h, number]
  · intro h
    cases htext : env.text? Config.portVariable with
    | none =>
      rw [htext] at h
      cases h
      exact .unset (text?_eq_none_iff.mp htext)
    | some s =>
      simp only [htext] at h
      split at h
      · next number =>
        cases h
        exact .set (text?_eq_some_iff.mp htext) number
      · cases h

end Environment

/-! ### Computations that succeed -/

section

variable {ε ε' α : Type} {x : Except ε α}

theorem mapError_eq_ok_iff {f : ε → ε'} {a : α} : x.mapError f = .ok a ↔ x = .ok a := by
  cases x <;> simp [Except.mapError]

end

theorem Files.Tree.readText_eq_ok_iff {files : Tree} {path text : String} :
    files.readText path = .ok text ↔ files path = .ok (encode text.toList) := by
  rw [readText, bind_eq_ok_iff]
  constructor
  · rintro ⟨bytes, hfile, h⟩
    split at h
    · next htext =>
      cases h
      rw [hfile, decode?_eq_some_iff.mp htext]
    · cases h
  · intro h
    have htext : decode? (encode text.toList) = some text := decode?_eq_some_iff.mpr rfl
    exact ⟨_, h, by rw [htext]; rfl⟩

/-- The file that a target names is read and gives `given`; no file gives nothing. -/
inductive Target.FileGives (target : Target) (files : Files.Tree) : Config.Given → Prop
  | unnamed (h : target.config = none) : FileGives target files {}
  | named {path text : String} {given : Config.Given} (h : target.config = some path)
      (readable : files path = .ok (encode text.toList))
      (parses : Config.Given.parse text = .ok given) : FileGives target files given

/-! ### The settings -/

/-- Every setting from the first source that has it. -/
def Target.settled (target : Target) (host : Option String) (port : Option UInt16)
    (given : Config.Given) : Config where
  domain := {
    host := ((target.host.or host).or given.host?).getD ({} : Domain).host
    port := ((target.port.or port).or given.port?).getD ({} : Domain).port
    remoteDomainId := (target.domainId.or given.remoteDomainId?).getD ({} : Domain).remoteDomainId }
  connectTimeoutMs :=
    (target.connectTimeoutMs.or given.connectTimeoutMs).getD ({} : Config).connectTimeoutMs
  ioTimeoutMs := given.ioTimeoutMs.getD ({} : Config).ioTimeoutMs
  nodelay := given.nodelay.getD ({} : Config).nodelay
  keepalive := given.keepalive.getD ({} : Config).keepalive

namespace Config

@[simp] theorem replace_none (c : Config) : c.replace none none = c := rfl

theorem checked_eq_ok_iff {c c' : Config} : c.checked = .ok c' ↔ c.check = .ok () ∧ c = c' := by
  rw [checked, bind_eq_ok_iff]
  constructor
  · rintro ⟨_, hcheck, h⟩
    cases h
    exact ⟨hcheck, rfl⟩
  · rintro ⟨hcheck, rfl⟩
    exact ⟨(), hcheck, rfl⟩

theorem ofJson_eq_ok_iff {text : String} {c : Config} :
    ofJson text = .ok c ↔
      ∃ given, Given.parse text = .ok given ∧ given.filled.check = .ok () ∧ given.filled = c := by
  rw [ofJson, Given.parse_filled]
  cases hparse : Given.parse text with
  | error e => simp [Except.map]
  | ok given =>
    simp only [Except.map, checked_eq_ok_iff]
    constructor
    · intro h
      exact ⟨given, rfl, h⟩
    · rintro ⟨_, heq, h⟩
      cases heq
      exact h

theorem overrideFrom_eq_ok_iff {c c' : Config} {env : Environment} :
    c.overrideFrom env = .ok c' ↔ ∃ host port, env.GivesHost host ∧ env.GivesPort port ∧
      (c.replace host port).check = .ok () ∧ c.replace host port = c' := by
  rw [overrideFrom, override, bind_eq_ok_iff]
  simp only [checked_eq_ok_iff, Environment.givesHost_iff, Environment.givesPort_iff]
  constructor
  · rintro ⟨port, hport, h⟩
    exact ⟨_, port, rfl, hport, h⟩
  · rintro ⟨_, port, rfl, hport, h⟩
    exact ⟨port, hport, h⟩

theorem load_eq_ok_iff {files : Files.Tree} {env : Environment} {path : String} {c : Config} :
    load files env path = .ok c ↔
      ∃ text given, files path = .ok (encode text.toList) ∧ Given.parse text = .ok given ∧
        given.filled.check = .ok () ∧
        ∃ host port, env.GivesHost host ∧ env.GivesPort port ∧
          (given.filled.replace host port).check = .ok () ∧
          given.filled.replace host port = c := by
  rw [load]
  constructor
  · intro h
    split at h
    · cases h
    · next text htext =>
      obtain ⟨c', hjson, h⟩ := bind_eq_ok_iff.mp h
      obtain ⟨given, hparses, hcheck, rfl⟩ := ofJson_eq_ok_iff.mp hjson
      have hreadable := Files.Tree.readText_eq_ok_iff.mp htext
      exact ⟨text, given, hreadable, hparses, hcheck, overrideFrom_eq_ok_iff.mp h⟩
  · rintro ⟨text, given, hreadable, hparses, hcheck, h⟩
    have hjson : ofJson text = .ok given.filled := ofJson_eq_ok_iff.mpr ⟨_, hparses, hcheck, rfl⟩
    rw [Files.Tree.readText_eq_ok_iff.mpr hreadable]
    exact bind_eq_ok_iff.mpr ⟨_, hjson, overrideFrom_eq_ok_iff.mpr h⟩

end Config

namespace Target

/-! ### Layers -/

/-- The environment on top of the file. -/
theorem settled_environment (host : Option String) (port : Option UInt16)
    (given : Config.Given) : settled {} host port given = given.filled.replace host port := by
  obtain ⟨_ | d, _, _, _, _⟩ := given <;> cases host <;> cases port <;> rfl

/-- The target on top of both. -/
theorem settled_apply (target : Target) (host : Option String) (port : Option UInt16)
    (given : Config.Given) :
    target.settled host port given = target.apply (settled {} host port given) := by
  obtain ⟨_, _ | _, _ | _, _ | _, _ | _⟩ := target <;> rfl

/-- What a target starts from: what the file gives is usable, and so it is with the environment. -/
theorem base_eq_ok_iff {target : Target} {files : Files.Tree} {env : Environment} {c : Config} :
    target.base files env = .ok c ↔
      ∃ given host port,
        target.FileGives files given ∧ env.GivesHost host ∧ env.GivesPort port ∧
        (settled {} none none given).check = .ok () ∧
        (settled {} host port given).check = .ok () ∧ settled {} host port given = c := by
  simp only [settled_environment, Config.replace_none]
  rw [base]
  cases hconfig : target.config with
  | none =>
    simp only [mapError_eq_ok_iff, Config.ofEnvironment, Config.overrideFrom_eq_ok_iff]
    constructor
    · rintro ⟨host, port, hhost, hport, h⟩
      -- The program does not check the defaults on their own, but they pass.
      exact ⟨{}, host, port, .unnamed hconfig, hhost, hport, by decide, h⟩
    · rintro ⟨given, host, port, hfile, hhost, hport, -, h⟩
      cases hfile with
      | unnamed => exact ⟨host, port, hhost, hport, h⟩
      | named hpath => simp [hconfig] at hpath
  | some path =>
    simp only [mapError_eq_ok_iff, Config.load_eq_ok_iff]
    constructor
    · rintro ⟨text, given, hreadable, hparses, hcheck, host, port, hhost, hport, h⟩
      have hfile : target.FileGives files given := .named hconfig hreadable hparses
      exact ⟨given, host, port, hfile, hhost, hport, hcheck, h⟩
    · rintro ⟨given, host, port, hfile, hhost, hport, hcheck, h⟩
      cases hfile with
      | unnamed hnone => simp [hconfig] at hnone
      | @named _ text _ hpath hreadable hparses =>
        obtain rfl : path = _ := Option.some.inj (hconfig.symm.trans hpath)
        exact ⟨text, given, hreadable, hparses, hcheck, host, port, hhost, hport, h⟩

/-- A configuration is resolved exactly if the sources say something usable at each stage, and it is
what they say. -/
theorem resolve_eq_ok_iff (target : Target) (files : Files.Tree) (env : Environment) (c : Config) :
    target.resolve files env = .ok c ↔
      ∃ given host port,
        target.FileGives files given ∧ env.GivesHost host ∧ env.GivesPort port ∧
        (settled {} none none given).check = .ok () ∧
        (settled {} host port given).check = .ok () ∧
        (target.settled host port given).check = .ok () ∧
        target.settled host port given = c := by
  rw [resolve, bind_eq_ok_iff]
  simp only [mapError_eq_ok_iff, Config.checked_eq_ok_iff, base_eq_ok_iff, settled_apply target]
  constructor
  · rintro ⟨_, ⟨given, host, port, hfile, hhost, hport, hgiven, hcheck, rfl⟩, h⟩
    exact ⟨given, host, port, hfile, hhost, hport, hgiven, hcheck, h⟩
  · rintro ⟨given, host, port, hfile, hhost, hport, hgiven, hcheck, h⟩
    exact ⟨_, ⟨given, host, port, hfile, hhost, hport, hgiven, hcheck, rfl⟩, h⟩

end Target

end SessionPool
