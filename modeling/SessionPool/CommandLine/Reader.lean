import SessionPool.CommandLine
import SessionPool.CommandLine.Fault
import SessionPool.Text.Numeral

/-!
# Reading command lines

The command splits the arguments into two sides, and what is given on the right side counts for
more. Arguments are read from the left. An option whose value is an argument of its own waits for
it, and also waits to be judged until the next option has been recognised: something unknown right
after it is noticed first.
-/

namespace SessionPool.CommandLine

open Text

/-! ### What is given on one side -/

/-- What is given on one side of the command. -/
structure Given where
  verbosity : UInt8 := 0
  target : Target := {}
  workers : Option UInt64 := none
  rounds : Option UInt64 := none
  deriving DecidableEq, Repr

/-- A value for a setting that has none yet. That it has one is noticed before the value is
looked at. -/
def fill {α : Type} (old : Option α) (value : Except Fault α) : Except Fault (Option α) :=
  match old with
  | some _ => .error .repeated
  | none => value.map some

/-- A number, whatever may be wrong with it otherwise. -/
def number {α : Type} (read : Except NumeralFault α) : Except Fault α :=
  read.mapError fun _ => .badValue

/-- A path is not empty. -/
def readPath (value : String) : Except Fault String :=
  if value = "" then .error .noValue else .ok value

/-- A number of 16 bits, with either sign. -/
def readSigned16 (value : String) : Except Fault UInt16 :=
  number ((readSigned (UInt16.size - 1) value.toList).map UInt16.ofNat)

/-- A number of 32 bits, with either sign. -/
def readSigned32 (value : String) : Except Fault UInt32 :=
  number ((readSigned (UInt32.size - 1) value.toList).map UInt32.ofNat)

namespace Given

/-- Counts `-v` once more, up to what a byte can hold. -/
def moreVerbose (g : Given) : Given :=
  { g with verbosity := if g.verbosity = 255 then 255 else g.verbosity + 1 }

/-- Sets a setting that is not set yet. -/
def set (g : Given) (s : Setting) (value : String) : Except Fault Given :=
  match s with
  | .config => do
    return { g with target.config := ← fill g.target.config (readPath value) }
  | .host => do
    return { g with target.host := ← fill g.target.host (.ok value) }
  | .port => do
    return { g with target.port := ← fill g.target.port (readSigned16 value) }
  | .domainId => do
    return { g with target.domainId := ← fill g.target.domainId (readSigned32 value) }
  | .connectTimeoutMs => do
    return { g with
      target.connectTimeoutMs := ← fill g.target.connectTimeoutMs (number (readUInt64 value)) }
  | .workers => do return { g with workers := ← fill g.workers (number (readUInt64 value)) }
  | .rounds => do return { g with rounds := ← fill g.rounds (number (readUInt64 value)) }

/-- What both sides give together. Where both give something it is the right side that counts. -/
def orElse (right left : Given) : Given where
  verbosity := if right.verbosity = 0 then left.verbosity else right.verbosity
  target := {
    config := right.target.config <|> left.target.config
    host := right.target.host <|> left.target.host
    port := right.target.port <|> left.target.port
    domainId := right.target.domainId <|> left.target.domainId
    connectTimeoutMs := right.target.connectTimeoutMs <|> left.target.connectTimeoutMs }
  workers := right.workers <|> left.workers
  rounds := right.rounds <|> left.rounds

/-- The load that is given. What is not given has its default. -/
def load (g : Given) : Stress.Load :=
  let default : Stress.Load := {}
  ⟨g.workers.getD default.workers, g.rounds.getD default.rounds⟩

/-- The command line that gives all this together with a verb. -/
def commandLine (g : Given) (verb : Verb) : CommandLine where
  verbosity := g.verbosity
  target := g.target
  command := match verb with
    | .probe => .probe
    | .stress => .stress g.load

end Given

/-! ### Options -/

/-- A side of the command: the left one, or the right one of a verb. -/
inductive Side where
  | left
  | right (verb : Verb)
  deriving DecidableEq, Repr

/-- An option, with or without a value. -/
inductive Choice where
  | setting (s : Setting)
  | verbose
  | help
  | version
  deriving DecidableEq, Repr

namespace Side

/-- The settings that are known on a side. -/
def settings : Side → List Setting
  | left | right .probe => Setting.ofTarget
  | right .stress => Setting.ofTarget ++ Setting.ofLoad

/-- The option with a name. Only the left side knows the version. -/
def byName? (side : Side) (name : List Char) : Option Choice :=
  match side.settings.find? (·.name.toList == name) with
  | some s => some (.setting s)
  | none =>
    if name = "verbose".toList then some .verbose
    else if name = "help".toList then some .help
    else if name = "version".toList ∧ side = left then some .version
    else none

/-- The option with a letter. -/
def byLetter? (side : Side) (letter : Char) : Option Choice :=
  match side.settings.find? (·.letter? == some letter) with
  | some s => some (.setting s)
  | none =>
    if letter = 'v' then some .verbose
    else if letter = 'h' then some .help
    else if letter = 'V' ∧ side = left then some .version
    else none

end Side

/-! ### Arguments -/

/-- An argument by its hyphens. -/
inductive Shape where
  /-- Two hyphens and nothing else: no options after this. -/
  | separator
  /-- A name after two hyphens, and what follows the first equals sign. -/
  | named (name : List Char) (value : Option (List Char))
  /-- Letters after one hyphen. -/
  | letters (letters : List Char)
  /-- No hyphen, or a single one. -/
  | word
  deriving DecidableEq, Repr

/-- The shape of an argument. -/
def Shape.ofArgument : List Char → Shape
  | ['-', '-'] => .separator
  | '-' :: '-' :: s => .named (s.takeWhile (· != '=')) (s.dropWhile (· != '=')).tail?
  | '-' :: c :: s => .letters (c :: s)
  | _ => .word

/-- How far one side has been read. -/
structure Progress where
  given : Given := {}
  /-- A setting that is not judged yet, with the value that it has found. -/
  waiting : Option (Setting × Option String) := none
  deriving DecidableEq, Repr

namespace Progress

/-- Judges the setting that waits. -/
def settle (p : Progress) : Except Fault Given :=
  match p.waiting with
  | none => .ok p.given
  | some (_, none) => .error .noValue
  | some (s, some value) => p.given.set s value

/-- A setting together with its value. -/
def set (p : Progress) (s : Setting) (value : List Char) : Except Fault Progress := do
  let given ← (← p.settle).set s (String.ofList value)
  return { given }

/-- A setting whose value is to be the next argument. -/
def await (p : Progress) (s : Setting) : Except Fault Progress := do
  return { given := ← p.settle, waiting := some (s, none) }

/-- An option without a value. -/
def choose (p : Progress) : Choice → Except Fault Progress
  | .setting s => p.await s
  | .verbose => do return { given := (← p.settle).moreVerbose }
  | .help => do
    let _ ← p.settle
    throw .help
  | .version => do
    let _ ← p.settle
    throw .version

/-- An option by its name. -/
def readNamed (side : Side) (p : Progress) (name : List Char) (value : Option (List Char)) :
    Except Fault Progress :=
  match side.byName? name, value with
  | none, _ => .error .unknownArgument
  | some (.setting s), some value => p.set s value
  | some _, some _ => .error .excessValue
  | some choice, none => p.choose choice

/-- Options by their letters. What follows the letter of a setting is its value; an equals sign in
between does not belong to it. -/
def readLetters (side : Side) (p : Progress) : List Char → Except Fault Progress
  | [] => .ok p
  | c :: rest =>
    match side.byLetter? c, rest with
    | none, _ => .error .unknownArgument
    | some (.setting s), [] => p.await s
    | some (.setting s), '=' :: value => p.set s value
    | some (.setting s), value => p.set s value
    | some choice, rest => do readLetters side (← p.choose choice) rest

/-- An argument that is no option as the value that a setting waits for, if one does. -/
def takeValue? (p : Progress) (value : String) : Option Progress :=
  match p.waiting with
  | some (s, none) => some { p with waiting := some (s, some value) }
  | _ => none

end Progress

/-! ### The two sides -/

/-- The word for help in place of a command. -/
def helpWord : String := "help"

/-- A word that has a meaning in place of a command. -/
def isCommandWord (word : String) : Bool := word == helpWord || (Verb.ofWord? word).isSome

/-- What is wrong with a word that is no option and no value. -/
def strayWord : Side → Fault
  | .left => .unknownCommand
  | .right _ => .unknownArgument

/-- What is wrong with the first argument after the separator. A command is not taken for one
there. -/
def strayAfterSeparator (side : Side) (argument : String) : Fault :=
  if isCommandWord argument then .unknownArgument else strayWord side

/-- Reads the arguments of one side. The left one ends before the first command word that is not
a value. -/
def readSide (side : Side) : Progress → List String → Except Fault (Progress × List String)
  | p, [] => .ok (p, [])
  | p, argument :: rest =>
    let asValue := p.takeValue? argument
    if side = .left ∧ asValue.isNone ∧ isCommandWord argument then .ok (p, argument :: rest)
    else
      match Shape.ofArgument argument.toList with
      | .separator =>
        match rest with
        | [] => .ok (p, [])
        | stray :: _ => .error (strayAfterSeparator side stray)
      | .named name value => do readSide side (← p.readNamed side name value) rest
      | .letters letters => do readSide side (← p.readLetters side letters) rest
      | .word =>
        match asValue with
        | some p => readSide side p rest
        | none => .error (strayWord side)

/-- What comes of asking for help in place of a command. One command may be named, and nothing
after it. -/
def readHelp : List String → Fault
  | [] => .help
  | [word] => if isCommandWord word then .help else .unknownCommand
  | _ => .unknownCommand

/-- The command line that some arguments stand for. -/
def ofArguments (arguments : List String) : Except Fault CommandLine := do
  let (left, rest) ← readSide .left {} arguments
  match rest with
  | [] =>
    let given ← left.settle
    throw (if given = {} then .noArguments else .noCommand)
  | word :: rest =>
    match Verb.ofWord? word with
    | none => throw (readHelp rest)
    | some verb =>
      let (right, _) ← readSide (.right verb) {} rest
      let right ← right.settle
      let left ← left.settle
      return (right.orElse left).commandLine verb

end SessionPool.CommandLine
