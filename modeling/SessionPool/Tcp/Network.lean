import SessionPool.Tcp.Options

/-!
# Networks

What the side that connects sees of a network: the addresses that a host stands for, how an address
takes a connection and each of the options asked of it, and that a connection is ended. A network is
a world: it may answer differently every time, and it may fail for whatever reasons it has.
-/

namespace SessionPool.Tcp

/-- An address that a host resolves to. -/
structure Address where
  host : String
  port : UInt16
  deriving DecidableEq, Repr, Inhabited

/-- Why a connection was not made; `ε` are the reasons that a network has for failing. -/
inductive Fault (ε : Type) where
  /-- The host resolves, but to no address. -/
  | noAddress (host : String) (port : UInt16)
  /-- The network has failed to do what was asked of it. -/
  | failed (reason : ε)
  deriving DecidableEq, Repr

/-- How an address answers: what became of the connection and of each option. -/
structure Answer (ε : Type) where
  connect : Except ε Unit := .ok ()
  nodelay : Except ε Unit := .ok ()
  readTimeout : Except ε Unit := .ok ()
  writeTimeout : Except ε Unit := .ok ()
  keepalive : Except ε Unit := .ok ()

variable {ω ε : Type}

/-- An attempt succeeds when the connection is made and every option that was asked for is
accepted; the first thing that is not decides. -/
def Answer.verdict (a : Answer ε) (o : Options) : Except ε Unit := do
  a.connect
  a.nodelay
  a.readTimeout
  a.writeTimeout
  if o.probing.isSome then a.keepalive

/-- An established connection, with the options it was opened with. -/
structure Stream where
  peer : Address
  options : Options
  deriving DecidableEq, Repr

/-- What a network does, in a world `ω`. -/
class Network (ω : Type) (ε : outParam Type) where
  /-- The addresses of a host, in the order in which they are to be tried. -/
  resolve (host : String) (port : UInt16) (w : ω) : Except ε (List Address) × ω
  /-- Contacts an address. -/
  contact (a : Address) (o : Options) (w : ω) : Answer ε × ω
  /-- Ends a connection in both directions. Nobody asks what comes of it. -/
  shutdown (s : Stream) (w : ω) : ω

variable [Network ω ε]

/-- Tries addresses one after the other until one takes the connection; `last` is what came of the
attempt before. -/
def tryEach (o : Options) (last : Fault ε) : List Address → ω → Except (Fault ε) Stream × ω
  | [], w => (.error last, w)
  | a :: rest, w =>
    let (answer, w) := Network.contact a o w
    match answer.verdict o with
    | .ok () => (.ok ⟨a, o⟩, w)
    | .error reason => tryEach o (.failed reason) rest w

/-- Connects to a host at the first of its addresses that takes the connection. -/
def connect (o : Options) (host : String) (port : UInt16) (w : ω) : Except (Fault ε) Stream × ω :=
  match Network.resolve host port w with
  | (.error reason, w) => (.error (.failed reason), w)
  | (.ok addresses, w) => tryEach o (.noAddress host port) addresses w

end SessionPool.Tcp
