import SessionPool.Config.Environment

/-!
# Configurations from several sources

A target says what the caller wants to be different. The file, or the default configuration where
no file is named, comes first, then the environment, then the target itself.
-/

namespace SessionPool

/-- The wishes of a caller: a configuration file and single settings. The path of the file is a
text; a path that is not Unicode cannot be wished for. -/
structure Target where
  config : Option String := none
  host : Option String := none
  port : Option UInt16 := none
  domainId : Option UInt32 := none
  connectTimeoutMs : Option UInt64 := none
  deriving DecidableEq, Repr, Inhabited

/-- What was being done when an error came up. -/
inductive Stage where
  | loading (path : String)
  | readingEnvironment
  | applyingTarget
  deriving DecidableEq, Repr

def Stage.message : Stage → String
  | .loading path => s!"Failed to load config {path}"
  | .readingEnvironment => "Invalid daemon environment"
  | .applyingTarget => "Invalid client config"

/-- An error together with what was being done. -/
structure Failure where
  stage : Stage
  error : Error
  deriving DecidableEq, Repr

namespace Failure

/-- The texts of a failure from the outermost to the innermost cause. -/
def chain (f : Failure) : List String :=
  f.stage.message :: f.error.message :: f.error.cause?.toList

def message (f : Failure) : String := ": ".intercalate f.chain

end Failure

namespace Target

/-- The configuration that a target starts from. -/
def base (target : Target) (files : Files.Tree) (env : Environment) : Except Failure Config :=
  match target.config with
  | some path => (Config.load files env path).mapError (⟨.loading path, ·⟩)
  | none => (Config.ofEnvironment env).mapError (⟨.readingEnvironment, ·⟩)

/-- A configuration with the settings of a target. -/
def apply (target : Target) (c : Config) : Config :=
  { c with
    domain := {
      host := target.host.getD c.domain.host
      port := target.port.getD c.domain.port
      remoteDomainId := target.domainId.getD c.domain.remoteDomainId }
    connectTimeoutMs := target.connectTimeoutMs.getD c.connectTimeoutMs }

/-- The usable configuration that a target asks for. -/
def resolve (target : Target) (files : Files.Tree) (env : Environment) :
    Except Failure Config := do
  let c ← target.base files env
  (target.apply c).checked.mapError (⟨.applyingTarget, ·⟩)

end Target

end SessionPool
