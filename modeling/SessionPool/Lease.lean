import SessionPool.Client

/-!
# Leases

A lease is a marshal that goes back to its session by itself when the lease ends, unless it was
taken out of the lease before.
-/

namespace SessionPool

/-- A lease from a session. It is empty once its marshal was taken out. -/
structure Lease (μ : Type) where
  session : SessionRef
  marshal : Option μ
  deriving DecidableEq, Repr

namespace Lease

variable {φ μ ω : Type} [Marshal μ ω]

/-- Acquires a marshal for a lease. -/
def start [Source φ μ ω] (c : Client φ μ ω) (ref : SessionRef) :
    Option (Lease μ) × Client φ μ ω :=
  match c.session? ref with
  | none => (none, c)
  | some s =>
    let (m, s, w) := s.acquire c.world
    (m.map fun m => ⟨ref, some m⟩, c.update ref s w)

/-- Takes the marshal out of a lease. The session goes on counting it as out. -/
def detach (l : Lease μ) : Option μ × Lease μ := (l.marshal, { l with marshal := none })

/-- Ends a lease: what is in it is released, and it does not matter whether the session took it
back. -/
def finish (l : Lease μ) (c : Client φ μ ω) : Client φ μ ω :=
  match l.marshal, c.session? l.session with
  | some m, some s =>
    let (_, s, w) := s.release m c.world
    c.update l.session s w
  | _, _ => c

/-- A lease for inspection shows whose it is. -/
def inspect (s : Session φ μ) : Text.Inspection :=
  .partialRecord "MarshalLease" [("local_id", .natural s.localId.toNat)]

end Lease

end SessionPool
