import SessionPool.Session.Call

/-!
# The steps of a call

Most steps of a call do one thing. Three have a choice: taking from the pool finds a marshal or
none, opening a marshal works or does not, and putting into the pool finds the session open or
closed. All branches are listed here once, and what a step does to a session follows from the list:
it changes nothing but the pool, and the pool of a closed session stays empty.
-/

namespace SessionPool.Session

variable {φ μ ω : Type}

/-! ### Kinds of calls and results -/

/-- An acquisition between its two steps under the lock. -/
def Call.isBetween : Call μ → Bool
  | .create | .dial _ | .settle _ _ => true
  | _ => false

/-- A release that has not had the lock yet. -/
def Call.isComingBack : Call μ → Bool
  | .release _ | .put _ => true
  | _ => false

/-- A release that was turned away under the lock. -/
def Call.isTurnedAway : Call μ → Bool
  | .discard _ => true
  | _ => false

/-- What comes next counts one marshal less as out. -/
def Call.countsDown : Call μ → Bool
  | .settle _ false | .put _ => true
  | _ => false

/-- A marshal is handed out. -/
def Result.isHandOut : Result μ → Bool
  | .acquired (some _) => true
  | _ => false

/-- A release is over. -/
def Result.isReturn : Result μ → Bool
  | .released _ => true
  | _ => false

variable [Marshal μ ω] [Source φ μ ω] {s : Session φ μ} {w : ω}

/-! ### The branches of the steps -/

variable (s w) in
/-- What comes out of a step: what the call does next or comes back with, the session, and the
world. -/
inductive Stepped : Call μ → (Call μ ⊕ Result μ) × Session φ μ × ω → Prop
  | hit {m : μ} {rest : List μ} (h : s.pool.idle = m :: rest) :
      Stepped .acquire
        (.inr (.acquired (some (Marshal.reset m w).1)), { s with pool := s.pool.take.2 },
          (Marshal.reset m w).2)
  | miss (h : s.pool.idle = []) :
      Stepped .acquire (.inl .create, { s with pool := s.pool.take.2 }, w)
  | create :
      Stepped .create
        (.inl (.dial (Source.create s.factory w).1), s, (Source.create s.factory w).2)
  | dial (m : μ) :
      Stepped (.dial m)
        (.inl (.settle (Marshal.dial m s.domain.host s.domain.port w).2.1
            (Marshal.dial m s.domain.host s.domain.port w).1), s,
          (Marshal.dial m s.domain.host s.domain.port w).2.2)
  | opened (m : μ) :
      Stepped (.settle m true)
        (.inr (.acquired (some (Marshal.reset m w).1)), s, (Marshal.reset m w).2)
  | refused (m : μ) :
      Stepped (.settle m false)
        (.inr (.acquired none), { s with pool := s.pool.uncount }, w)
  | release (m : μ) :
      Stepped (.release m) (.inl (.put (Marshal.reset m w).1), s, (Marshal.reset m w).2)
  | kept (m : μ) (h : s.pool.closed = false) :
      Stepped (.put m) (.inr (.released none), { s with pool := (s.pool.put m).2 }, w)
  | turnedAway (m : μ) (h : s.pool.closed = true) :
      Stepped (.put m) (.inl (.discard m), { s with pool := (s.pool.put m).2 }, w)
  | discard (m : μ) :
      Stepped (.discard m)
        (.inr (.released (some (.sessionClosed s.localId))), s, (Marshal.close m w).2)
  | close :
      Stepped .close
        (.inr (.closed s.pool.drain.1.length), { s with pool := s.pool.drain.2 },
          closeEach s.pool.drain.1 w)
  | pooled : Stepped .pooled (.inr (.pooled s.pooled), s, w)
  | isClosed : Stepped .isClosed (.inr (.isClosed s.isClosed), s, w)

theorem stepped (s : Session φ μ) (w : ω) (c : Call μ) : Stepped s w c (c.step s w) := by
  cases c with
  | acquire =>
    cases h : s.pool.idle with
    | nil =>
      have hmiss : Call.step s w .acquire =
          (.inl .create, { s with pool := s.pool.take.2 }, w) := by
        simp only [Call.step, Pool.take, h]
      rw [hmiss]
      exact .miss h
    | cons m rest =>
      have hhit : Call.step s w .acquire =
          (.inr (.acquired (some (Marshal.reset m w).1)), { s with pool := s.pool.take.2 },
            (Marshal.reset m w).2) := by
        simp only [Call.step, Pool.take, h]
      rw [hhit]
      exact .hit h
  | create => exact .create
  | dial m => exact .dial m
  | settle m ok =>
    cases ok with
    | true => exact .opened m
    | false => exact .refused m
  | release m => exact .release m
  | put m =>
    cases h : s.pool.closed with
    | false =>
      have hkept : Call.step s w (.put m) =
          (.inr (.released none), { s with pool := (s.pool.put m).2 }, w) := by
        simp only [Call.step, Pool.put, h, Bool.false_eq_true, ↓reduceIte]
      rw [hkept]
      exact .kept m h
    | true =>
      have hturned : Call.step s w (.put m) =
          (.inl (.discard m), { s with pool := (s.pool.put m).2 }, w) := by
        simp only [Call.step, Pool.put, h, ↓reduceIte]
      rw [hturned]
      exact .turnedAway m h
  | discard m => exact .discard m
  | close => exact .close
  | pooled => exact .pooled
  | isClosed => exact .isClosed

/-! ### What a step leaves alone, and what it keeps -/

variable {c : Call μ} {out : (Call μ ⊕ Result μ) × Session φ μ × ω}

theorem Stepped.session (h : Stepped s w c out) : ∃ pool, out.2.1 = { s with pool } := by
  cases h <;> exact ⟨_, rfl⟩

/-- The pool of a closed session is empty, and every step keeps it so. -/
theorem Stepped.idle_of_closed (h : Stepped s w c out)
    (hclosed : s.pool.closed = true → s.pool.idle = []) :
    out.2.1.pool.closed = true → out.2.1.pool.idle = [] := by
  cases h with
  | hit h =>
    intro hstill
    rw [Pool.take_closed] at hstill
    rw [Pool.take_idle, hclosed hstill, List.tail_nil]
  | miss h =>
    intro _
    rw [Pool.take_idle, h, List.tail_nil]
  -- A marshal is only ever kept in an open session.
  | kept m h =>
    intro hstill
    rw [Pool.put_closed, h] at hstill
    exact absurd hstill Bool.false_ne_true
  | turnedAway m h =>
    intro _
    rw [Pool.put_idle, h]
    exact hclosed h
  | close =>
    intro _
    show s.pool.drain.2.idle = []
    rw [Pool.drain]
    split
    · next h => exact hclosed h
    · rfl
  | _ => exact hclosed

/-! ### The count of marshals that are out -/

/-- A call that is between its locks, or that brings a marshal back, accounts for one of the
marshals that are counted as out. -/
def Call.isCounted (c : Call μ) : Bool := c.isBetween || c.isComingBack

/-- **The count is exact over a step.** What the session counts as out, and what the call accounts
for, change together, as long as there is something to count down when a step counts down. -/
theorem Stepped.outstanding (h : Stepped s w c out)
    (hpos : c.isCounted = true → 0 < s.pool.outstanding) :
    out.2.1.pool.outstanding + c.isCounted.toNat =
      s.pool.outstanding +
        out.1.elim (fun next => next.isCounted.toNat) fun result => result.isHandOut.toNat := by
  cases h with
  | hit h => exact s.pool.take_outstanding
  | miss h => exact s.pool.take_outstanding
  -- From here on the count goes down, and a difference of natural numbers needs something there.
  | refused m =>
    have hless := hpos rfl
    show s.pool.outstanding - 1 + 1 = s.pool.outstanding + 0
    omega
  | kept m h =>
    have hless := hpos rfl
    have hput := s.pool.put_outstanding m
    show (s.pool.put m).2.outstanding + 1 = s.pool.outstanding + 0
    omega
  -- A marshal that is turned away is counted down like one that is kept.
  | turnedAway m h =>
    have hless := hpos rfl
    have hput := s.pool.put_outstanding m
    show (s.pool.put m).2.outstanding + 1 = s.pool.outstanding + 0
    omega
  | close => exact s.pool.drain_outstanding
  | _ => rfl

end SessionPool.Session
