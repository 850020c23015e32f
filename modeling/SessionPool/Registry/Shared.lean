import SessionPool.Interleaving
import SessionPool.Registry.Call

/-!
# Registries under several threads

Threads make calls of one registry at the same time. A state holds the registry, its client, and the
call that each thread is in; a move lets one thread start a call or take the next step of the call
that it is in. Meanwhile the sessions may be used as well, by the same threads or by others.
-/

namespace SessionPool

variable {φ μ ω : Type}

namespace Client

/-- Every session of a client is still there, under the same local id, and closed if it was. -/
def Continues (c c' : Client φ μ ω) : Prop :=
  ∀ ref s, c.session? ref = some s → ∃ s', c'.session? ref = some s' ∧ s'.localId = s.localId ∧
    (s.isClosed = true → s'.isClosed = true)

/-- Something that happens to a client: its sessions are used, closed or told their remote ids, more
are made, allocators are added, the world goes on. -/
structure Course (φ μ ω : Type) where
  apply : Client φ μ ω → Client φ μ ω
  continues : ∀ c : Client φ μ ω, c.Continues (apply c)

end Client

namespace Registry

/-- A call under way: what was asked, what comes next, what the table was when the call began, and
the sessions that the call has taken out of it. -/
structure Pending where
  request : Request
  next : Call
  before : List Registration
  took : List SessionRef := []
  deriving DecidableEq, Repr

/-- A call that has come back. -/
structure Finished where
  thread : Thread
  request : Request
  result : Result
  before : List Registration
  took : List SessionRef

/-- A registry that threads share, the calls under way, and the calls that have come back, the last
one first. Besides, the sessions that were made for the registry, and the ids that were in its table
before every step. -/
structure Shared (φ μ ω : Type) where
  registry : Registry φ
  client : Client φ μ ω
  pending : List (Thread × Pending) := []
  finished : List Finished := []
  created : List Registration := []
  past : List (List UInt64) := []

namespace Shared

/-- What happens next. -/
inductive Move (φ μ ω : Type) where
  /-- A thread that is in no call makes one. -/
  | start (thread : Thread) (request : Request)
  /-- A thread takes the next step of its call. -/
  | advance (thread : Thread)
  /-- A thread is done with a listing of the ids. -/
  | list (thread : Thread) (listing : List UInt64)
  /-- Something else happens to the client. -/
  | meanwhile (course : Client.Course φ μ ω)

/-- The call that a thread is in. -/
def pending? (st : Shared φ μ ω) (thread : Thread) : Option Pending := st.pending.lookup thread

/-- The calls under way without that of one thread. -/
def others (st : Shared φ μ ω) (thread : Thread) : List (Thread × Pending) :=
  st.pending.filter (·.1 != thread)

/-- Nobody is in a call. -/
def isQuiet (st : Shared φ μ ω) : Bool := st.pending.isEmpty

/-- The ids in the table at every moment since a given one, up to now. -/
def seen (st : Shared φ μ ω) (since : Nat) : List (List UInt64) :=
  st.past.drop since ++ [st.registry.keys]

/-- Takes the next step of a call. -/
def advance [Marshal μ ω] (st : Shared φ μ ω) (thread : Thread) (p : Pending) : Shared φ μ ω :=
  let step := p.next.step st.registry st.client st.past.length
  let took := p.took ++ step.took.toList
  let st' : Shared φ μ ω := {
    registry := step.registry
    client := step.client
    pending := st.others thread
    finished := st.finished
    created := st.created ++ step.made.toList
    past := st.past ++ [st.registry.keys] }
  match step.next with
  | .inl next => { st' with pending := (thread, { p with next, took }) :: st'.pending }
  | .inr result =>
    { st' with finished := ⟨thread, p.request, result, p.before, took⟩ :: st'.finished }

/-- Makes a move. A thread that is in a call cannot start another, one that is in none has no step
to take, and a listing has to be one of the table: other moves change nothing. -/
def move [Marshal μ ω] (st : Shared φ μ ω) : Move φ μ ω → Shared φ μ ω
  | .start thread request =>
    match st.pending? thread with
    | none =>
      { st with pending := (thread, ⟨request, request.call, st.registry.table, []⟩) :: st.pending }
    | some _ => st
  | .advance thread =>
    match st.pending? thread with
    | none => st
    | some p => st.advance thread p
  | .list thread listing =>
    match st.pending? thread with
    | some ⟨request, .list since, before, took⟩ =>
      if isListing (st.seen since) listing then
        let p : Pending := ⟨request, .removeNext listing 0, before, took⟩
        { st with pending := (thread, p) :: st.others thread }
      else st
    | _ => st
  | .meanwhile course => { st with client := course.apply st.client }

/-- Makes moves one after the other. -/
def run [Marshal μ ω] (st : Shared φ μ ω) (moves : List (Move φ μ ω)) : Shared φ μ ω :=
  moves.foldl move st

/-! ### What has come of the calls -/

/-- The sessions that calls have taken out of the table. -/
def taken (st : Shared φ μ ω) : List SessionRef :=
  st.pending.flatMap (·.2.took) ++ st.finished.flatMap (·.took)

/-- How many of the calls that have come back made a session. -/
def creations (st : Shared φ μ ω) : Nat := st.finished.countP (·.result.isCreation)

/-- How many of the calls that have come back removed a session. -/
def removals (st : Shared φ μ ω) : Nat := st.finished.countP (·.result.isRemoval)

/-- What the calls that close all sessions have counted together. -/
def closings (st : Shared φ μ ω) : Nat :=
  st.finished.foldr (fun f count => f.result.closings + count) 0

end Shared

end Registry

end SessionPool
