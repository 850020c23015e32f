import SessionPool.Session

/-!
# Calls taken apart at their locks

Callers share a session, and a call holds the lock of the pool only for moments. Between these it
works on a marshal that nobody else has. `Call.step` is the next thing that a call does without
anybody else coming in between: one step under the lock, or one thing done to the marshal outside
of it.
-/

namespace SessionPool.Session

/-- A call under way, by what it does next. -/
inductive Call (μ : Type) where
  /-- Takes from the pool, under the lock. -/
  | acquire
  /-- Found the pool empty: creates a marshal. -/
  | create
  /-- Opens the new marshal. -/
  | dial (m : μ)
  /-- Counts back after a failed attempt, or resets the new marshal, under the lock. -/
  | settle (m : μ) (ok : Bool)
  /-- Resets a marshal that comes back. -/
  | release (m : μ)
  /-- Puts it into the pool, under the lock. -/
  | put (m : μ)
  /-- Closes a marshal that came back to a closed session. -/
  | discard (m : μ)
  /-- Closes the session and its idle marshals, under the lock. -/
  | close
  /-- Counts the idle marshals, under the lock. -/
  | pooled
  /-- Looks whether the session is closed, under the lock. -/
  | isClosed
  deriving DecidableEq, Repr

/-- What a call comes back with. -/
inductive Result (μ : Type) where
  | acquired (m : Option μ)
  /-- The refusal is why the marshal was not taken back, if it was not. -/
  | released (refusal : Option Error)
  | closed (count : Nat)
  | pooled (count : Nat)
  | isClosed (closed : Bool)
  deriving DecidableEq, Repr

variable {φ μ ω : Type} [Marshal μ ω] [Source φ μ ω]

/-- The next step of a call, which either goes on with another one or is over. -/
def Call.step (s : Session φ μ) (w : ω) : Call μ → (Call μ ⊕ Result μ) × Session φ μ × ω
  | .acquire =>
    match s.pool.take with
    | (some m, pool) =>
      let (m, w) := Marshal.reset m w
      (.inr (.acquired (some m)), { s with pool }, w)
    | (none, pool) => (.inl .create, { s with pool }, w)
  | .create =>
    let (m, w) := Source.create s.factory w
    (.inl (.dial m), s, w)
  | .dial m =>
    let (ok, m, w) := Marshal.dial m s.domain.host s.domain.port w
    (.inl (.settle m ok), s, w)
  | .settle m true =>
    let (m, w) := Marshal.reset m w
    (.inr (.acquired (some m)), s, w)
  | .settle _ false => (.inr (.acquired none), { s with pool := s.pool.uncount }, w)
  | .release m =>
    let (m, w) := Marshal.reset m w
    (.inl (.put m), s, w)
  | .put m =>
    match s.pool.put m with
    | (true, pool) => (.inr (.released none), { s with pool }, w)
    | (false, pool) => (.inl (.discard m), { s with pool }, w)
  | .discard m =>
    (.inr (.released (some (.sessionClosed s.localId))), s, (Marshal.close m w).2)
  | .close =>
    let (idle, pool) := s.pool.drain
    (.inr (.closed idle.length), { s with pool }, closeEach idle w)
  | .pooled => (.inr (.pooled s.pooled), s, w)
  | .isClosed => (.inr (.isClosed s.isClosed), s, w)

end SessionPool.Session
