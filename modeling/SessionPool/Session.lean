import SessionPool.Domain
import SessionPool.Error
import SessionPool.Marshal
import SessionPool.Pool

/-!
# Sessions

A session owns a pool of marshals to one domain. Acquiring takes the marshal that was released
last, or opens a new one when none is idle. Releasing puts a marshal back. Closing the session
closes the idle marshals; those that are out are closed when they come back.

Here every call runs alone; `SessionPool.Session.Call` takes the same calls apart at their locks.
-/

namespace SessionPool

open Text

/-- A session. The daemon gives it the remote id, which is 0 before. -/
structure Session (φ μ : Type) where
  localId : UInt64
  remoteId : UInt32 := 0
  domain : Domain
  factory : φ
  pool : Pool μ := {}

namespace Session

variable {φ μ ω : Type} [Marshal μ ω] [Source φ μ ω]

/-- Takes a marshal that is ready for one exchange. There is none when the pool is empty and a new
connection cannot be opened; no second attempt is made. -/
def acquire (s : Session φ μ) (w : ω) : Option μ × Session φ μ × ω :=
  match s.pool.take with
  | (some m, pool) =>
    let (m, w) := Marshal.reset m w
    (some m, { s with pool }, w)
  | (none, pool) =>
    let (m, w) := Source.create s.factory w
    let (ok, m, w) := Marshal.dial m s.domain.host s.domain.port w
    if ok then
      let (m, w) := Marshal.reset m w
      (some m, { s with pool }, w)
    else (none, { s with pool := pool.uncount }, w)

/-- Puts a marshal back, wherever it came from. A closed session closes it and answers with an
error. -/
def release (s : Session φ μ) (m : μ) (w : ω) : Except Error Unit × Session φ μ × ω :=
  let (m, w) := Marshal.reset m w
  match s.pool.put m with
  | (true, pool) => (.ok (), { s with pool }, w)
  | (false, pool) => (.error (.sessionClosed s.localId), { s with pool }, (Marshal.close m w).2)

/-- Closes the session and its idle marshals, the one released last first, and tells how many
these were. Closing again does nothing. -/
def close (s : Session φ μ) (w : ω) : Nat × Session φ μ × ω :=
  let (idle, pool) := s.pool.drain
  (idle.length, { s with pool }, closeEach idle w)

/-- How many marshals are idle. -/
def pooled (s : Session φ μ) : Nat := s.pool.idle.length

/-- How many marshals are counted as out. -/
def outstanding (s : Session φ μ) : Nat := s.pool.outstanding

def isClosed (s : Session φ μ) : Bool := s.pool.closed

/-- Notes the id that the daemon gave to the session. -/
def setRemoteId (s : Session φ μ) (id : UInt32) : Session φ μ := { s with remoteId := id }

/-- A session field by field. -/
def inspect (s : Session φ μ) : Inspection :=
  .record "Session" [
    ("local_id", .natural s.localId.toNat),
    ("remote_id", .natural s.remoteId.toNat),
    ("domain", s.domain.inspect),
    ("idle", .natural s.pooled),
    ("outstanding", .natural s.outstanding),
    ("closed", .boolean s.isClosed)]

end Session

end SessionPool
