import SessionPool.Interleaving
import SessionPool.Registry

/-!
# Ids that several threads draw

Threads share allocators and registries and draw ids from them at the same time: directly, by
building a session, or by creating one in a registry. Drawing an id is one step. What is done with
it takes further steps, and other threads may come in between: a session is made with it, the
session is registered, the thread has its answer.
-/

namespace SessionPool

/-- The place of a registry among those that are shared. -/
abbrev RegistryRef := Nat

namespace Numbering

/-- What a thread draws an id for. -/
inductive Request (φ : Type) where
  | next (allocator : AllocatorRef)
  | build (builder : Builder φ)
  | create (registry : RegistryRef) (domain : Domain)
  deriving DecidableEq, Repr

/-- What a thread gets: an id, or a session that has one. -/
inductive Reply where
  | id (id : UInt64)
  | session (ref : SessionRef)
  deriving DecidableEq, Repr

/-- A request under way, with what there is of the reply. -/
structure Waiting (φ : Type) where
  request : Request φ
  reply : Option Reply := none
  deriving DecidableEq, Repr

/-- An id that a thread has drawn for a request, and the allocator that it came from. -/
structure Grant (φ : Type) where
  thread : Thread
  request : Request φ
  allocator : AllocatorRef
  id : UInt64
  deriving DecidableEq, Repr

/-- A request that is over. -/
structure Answer (φ : Type) where
  thread : Thread
  request : Request φ
  reply : Reply
  deriving DecidableEq, Repr

/-- What happens next. -/
inductive Move (φ : Type) where
  /-- A thread that waits for nothing makes a request. -/
  | start (thread : Thread) (request : Request φ)
  /-- A thread takes the next step of its request. -/
  | advance (thread : Thread)
  deriving DecidableEq, Repr

end Numbering

open SessionPool.Numbering

/-- What threads share, the requests under way, the ids drawn and the requests that are over, both
in the order of time. -/
structure Numbering (φ μ ω : Type) where
  client : Client φ μ ω
  registries : List (Registry φ)
  waiting : Thread → Option (Waiting φ) := fun _ => none
  granted : List (Grant φ) := []
  answered : List (Answer φ) := []

namespace Numbering

variable {φ μ ω : Type}

/-- What the session of a request is made from, if it is for one. -/
def builder? (registries : List (Registry φ)) : Request φ → Option (Builder φ)
  | .next _ => none
  | .build b => some b
  | .create r domain => registries[r]?.map (·.builder domain)

/-- The allocator that a request draws from. -/
def source? (registries : List (Registry φ)) : Request φ → Option AllocatorRef
  | .next a => some a
  | request => (builder? registries request).map fun b => b.allocator.getD Client.common

/-- The requests under way after that of one thread has changed. -/
def setWaiting (st : Numbering φ μ ω) (thread : Thread) (w : Option (Waiting φ)) :
    Thread → Option (Waiting φ) :=
  fun other => if other = thread then w else st.waiting other

/-- Draws the id of a request. -/
def draw (st : Numbering φ μ ω) (thread : Thread) (request : Request φ) (a : AllocatorRef) :
    Numbering φ μ ω :=
  let (id, client) := st.client.nextId a
  { st with
    client
    waiting := st.setWaiting thread (some ⟨request, some (.id id)⟩)
    granted := st.granted ++ [⟨thread, request, a, id⟩] }

/-- Makes the session of a request. -/
def make (st : Numbering φ μ ω) (thread : Thread) (request : Request φ) (id : UInt64)
    (b : Builder φ) : Numbering φ μ ω :=
  let (ref, client) := st.client.addSession id b
  { st with client, waiting := st.setWaiting thread (some ⟨request, some (.session ref)⟩) }

/-- Ends a request. -/
def answer (st : Numbering φ μ ω) (thread : Thread) (request : Request φ) (reply : Reply) :
    Numbering φ μ ω :=
  { st with
    waiting := st.setWaiting thread none
    answered := st.answered ++ [⟨thread, request, reply⟩] }

/-- Registers the session of a request, if it is to be registered. -/
def register (st : Numbering φ μ ω) (ref : SessionRef) : Request φ → Numbering φ μ ω
  | .create r _ => { st with registries := st.registries.modify r (·.register ref st.client) }
  | _ => st

/-- Takes the next step of a request. -/
def advance (st : Numbering φ μ ω) (thread : Thread) (w : Waiting φ) : Numbering φ μ ω :=
  match w.reply with
  | none =>
    match source? st.registries w.request with
    | none => st
    | some a => st.draw thread w.request a
  | some (.id id) =>
    match builder? st.registries w.request with
    | none => st.answer thread w.request (.id id)
    | some b => st.make thread w.request id b
  | some (.session ref) => (st.register ref w.request).answer thread w.request (.session ref)

/-- The allocator of a request is there. -/
def accepts (st : Numbering φ μ ω) (request : Request φ) : Bool :=
  (source? st.registries request).any (· < st.client.allocators.length)

/-- Makes a move. A thread that waits for an answer cannot make another request, one that does not
has no step to take, and an allocator or a registry that is not there cannot be used: such moves
change nothing. -/
def move (st : Numbering φ μ ω) : Move φ → Numbering φ μ ω
  | .start thread request =>
    match st.waiting thread with
    | none =>
      if st.accepts request then { st with waiting := st.setWaiting thread (some { request }) }
      else st
    | some _ => st
  | .advance thread =>
    match st.waiting thread with
    | none => st
    | some w => st.advance thread w

/-- Makes moves one after the other. -/
def run (st : Numbering φ μ ω) (moves : List (Move φ)) : Numbering φ μ ω := moves.foldl move st

end Numbering

end SessionPool
