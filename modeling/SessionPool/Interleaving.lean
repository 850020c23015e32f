import SessionPool.Session.Call

/-!
# Sessions under several threads

Threads share sessions and call them at the same time. A state holds the sessions, the world, and
the call that each thread is in; a move lets one thread start a call or take the next step of the
call that it is in. Any list of moves is an interleaving, since a step is all that a thread does
without anybody else coming in between.
-/

namespace SessionPool

open Session (Call Result)

/-- A thread, by its number. -/
abbrev Thread := Nat

/-- The place of a session among those that are shared. -/
abbrev Place := Nat

/-- A call that has come back: who made it, where, what it was and what came of it. -/
structure Finished (μ : Type) where
  thread : Thread
  place : Place
  call : Call μ
  result : Result μ
  deriving DecidableEq, Repr

/-- A call under way: where it is made, how it started and what it does next. -/
structure Pending (μ : Type) where
  place : Place
  started : Call μ
  next : Call μ
  deriving DecidableEq, Repr

/-- Shared sessions, the world, the calls under way, and the calls that have come back, the last
one first. -/
structure Interleaving (φ μ ω : Type) where
  world : ω
  sessions : List (Session φ μ)
  pending : List (Thread × Pending μ) := []
  finished : List (Finished μ) := []

namespace Interleaving

/-- What happens next. -/
inductive Move (μ : Type) where
  /-- A thread that is in no call makes one. -/
  | start (thread : Thread) (place : Place) (call : Call μ)
  /-- A thread takes the next step of its call. -/
  | advance (thread : Thread)
  deriving DecidableEq, Repr

variable {φ μ ω : Type}

/-- The call that a thread is in. -/
def pending? (st : Interleaving φ μ ω) (thread : Thread) : Option (Pending μ) :=
  st.pending.lookup thread

/-- Nobody is in a call. -/
def isQuiet (st : Interleaving φ μ ω) : Bool := st.pending.isEmpty

/-- The calls under way without that of one thread. -/
def others (st : Interleaving φ μ ω) (thread : Thread) : List (Thread × Pending μ) :=
  st.pending.filter (·.1 != thread)

variable [Marshal μ ω] [Source φ μ ω]

/-- Takes the next step of a call. -/
def advance (st : Interleaving φ μ ω) (thread : Thread) (p : Pending μ) (s : Session φ μ) :
    Interleaving φ μ ω :=
  match p.next.step s st.world with
  | (.inl next, s, world) =>
    { st with
      world
      sessions := st.sessions.set p.place s
      pending := (thread, { p with next }) :: st.others thread }
  | (.inr result, s, world) =>
    { world
      sessions := st.sessions.set p.place s
      pending := st.others thread
      finished := ⟨thread, p.place, p.started, result⟩ :: st.finished }

/-- Makes a move. A thread that is in a call cannot start another, one that is in none has no step
to take, and a session that is not there cannot be called: such moves change nothing. -/
def move (st : Interleaving φ μ ω) : Move μ → Interleaving φ μ ω
  | .start thread place call =>
    match st.pending? thread, st.sessions[place]? with
    | none, some _ => { st with pending := (thread, ⟨place, call, call⟩) :: st.pending }
    | _, _ => st
  | .advance thread =>
    match st.pending? thread with
    | none => st
    | some p =>
      match st.sessions[p.place]? with
      | none => st
      | some s => st.advance thread p s

/-- Makes moves one after the other. -/
def run (st : Interleaving φ μ ω) (moves : List (Move μ)) : Interleaving φ μ ω :=
  moves.foldl move st

end Interleaving

end SessionPool
