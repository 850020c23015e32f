import SessionPool.Allocator
import SessionPool.Session

/-!
# Clients

A client holds sessions that several callers may share, so a session is referred to by its number,
and ids for them come from allocators that may be shared too. The allocator at place 0 serves every
session that was not given another one.
-/

namespace SessionPool

/-- The number of a session among all that a client ever made. -/
abbrev SessionRef := Nat

/-- The place of an allocator. -/
abbrev AllocatorRef := Nat

/-- The sessions and the allocators of a client, and the world outside. -/
structure Client (φ μ ω : Type) where
  world : ω
  allocators : List Allocator := [{}]
  sessions : List (Session φ μ) := []

/-- What a session is made from. Without an allocator the common one is used. -/
structure Builder (φ : Type) where
  domain : Domain
  factory : φ
  allocator : Option AllocatorRef := none
  deriving DecidableEq, Repr

namespace Client

variable {φ μ ω : Type}

/-- The place of the allocator for everybody. -/
def common : AllocatorRef := 0

/-- A further allocator, and its place. -/
def addAllocator (c : Client φ μ ω) (a : Allocator) : AllocatorRef × Client φ μ ω :=
  (c.allocators.length, { c with allocators := c.allocators ++ [a] })

/-- The id that an allocator gave last. -/
def lastId (c : Client φ μ ω) (a : AllocatorRef) : UInt64 := (c.allocators.getD a {}).last

/-- The next id of an allocator. -/
def nextId (c : Client φ μ ω) (a : AllocatorRef) : UInt64 × Client φ μ ω :=
  ((c.allocators.getD a {}).next.1,
    { c with allocators := c.allocators.modify a fun a => a.next.2 })

/-- Makes a session with a given id. -/
def addSession (c : Client φ μ ω) (localId : UInt64) (b : Builder φ) :
    SessionRef × Client φ μ ω :=
  let session : Session φ μ := { localId, domain := b.domain, factory := b.factory }
  (c.sessions.length, { c with sessions := c.sessions ++ [session] })

/-- Makes a session with the next id of its allocator. -/
def build (c : Client φ μ ω) (b : Builder φ) : SessionRef × Client φ μ ω :=
  let (localId, c) := c.nextId (b.allocator.getD common)
  c.addSession localId b

/-- The session with a number. -/
def session? (c : Client φ μ ω) (ref : SessionRef) : Option (Session φ μ) := c.sessions[ref]?

/-- The client after a session and the world have changed. -/
def update (c : Client φ μ ω) (ref : SessionRef) (s : Session φ μ) (w : ω) : Client φ μ ω :=
  { c with world := w, sessions := c.sessions.set ref s }

/-- Closes a session, and tells how many marshals were idle. -/
def close [Marshal μ ω] (c : Client φ μ ω) (ref : SessionRef) : Nat × Client φ μ ω :=
  match c.session? ref with
  | none => (0, c)
  | some s =>
    let (count, s, w) := s.close c.world
    (count, c.update ref s w)

end Client

end SessionPool
