import SessionPool.Config.Check

/-!
# Overrides from the environment

Two variables override the host and the port of a configuration. A blank host counts as none, a
blank port does not. What comes out is checked.
-/

namespace SessionPool

open Text

/-- The variables of a process and the bytes that they hold. -/
abbrev Environment := List (String × List UInt8)

/-- The text of a variable. A value that is no text counts as none. -/
def Environment.text? (env : Environment) (name : String) : Option String :=
  (env.lookup name).bind decode?

namespace Config

/-- The host that an override gives: its text without the blanks around it, unless nothing but
blanks is there. -/
def hostOverride? (lookup : String → Option String) : Option String :=
  (lookup hostVariable).bind fun host => if allBlank host then none else some (trimmed host)

/-- The port that an override gives. Blanks around it do not count. -/
def portOverride? (lookup : String → Option String) : Except Error (Option UInt16) :=
  match lookup portVariable with
  | none => .ok none
  | some value =>
    match readUInt16 (trimmed value) with
    | .ok port => .ok (some port)
    | .error fault => .error (.invalidConfig (.unreadablePort value fault))

/-- Replaces the host and the port, each if there is another. -/
def replace (c : Config) (host : Option String) (port : Option UInt16) : Config :=
  { c with domain := { c.domain with
      host := host.getD c.domain.host
      port := port.getD c.domain.port } }

/-- Applies the overrides that `lookup` gives by the names of their variables. -/
def override (c : Config) (lookup : String → Option String) : Except Error Config := do
  let port ← portOverride? lookup
  (c.replace (hostOverride? lookup) port).checked

/-- Applies the overrides of an environment. -/
def overrideFrom (c : Config) (env : Environment) : Except Error Config := c.override env.text?

/-- The default configuration with the overrides of an environment. -/
def ofEnvironment (env : Environment) : Except Error Config := overrideFrom {} env

/-- The configuration of a file with the overrides of an environment. -/
def load (files : Files.Tree) (env : Environment) (path : String) : Except Error Config :=
  match files.readText path with
  | .error fault => .error (.io fault)
  | .ok text => do
    let c ← ofJson text
    c.overrideFrom env

end Config

end SessionPool
