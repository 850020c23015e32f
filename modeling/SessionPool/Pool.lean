/-!
# Pools

A pool keeps the idle marshals of a session, counts those that are out, and knows whether the
session is closed. Each function here is one step under the lock of the pool: nobody sees the pool
in between.
-/

namespace SessionPool

/-- A pool. The marshal that was put back last comes first among the idle ones. The count of those
that are out has no bound here. It never gets beyond the number of acquisitions, the one under way
included (`Dealt.Reckoned.atMost`), so that a word of 64 bits is enough for fewer than 2⁶⁴ of
them. -/
structure Pool (μ : Type) where
  idle : List μ := []
  outstanding : Nat := 0
  closed : Bool := false
  deriving DecidableEq, Repr, Inhabited

namespace Pool

variable {μ : Type}

/-- Counts one marshal more as out and hands over the one put back last, if there is any. -/
def take (p : Pool μ) : Option μ × Pool μ :=
  match p.idle with
  | [] => (none, { p with outstanding := p.outstanding + 1 })
  | m :: rest => (some m, { p with idle := rest, outstanding := p.outstanding + 1 })

/-- Counts one marshal less as out; none can be less than out. -/
def uncount (p : Pool μ) : Pool μ := { p with outstanding := p.outstanding - 1 }

/-- Counts one marshal less as out and keeps the given one, unless the pool is closed. Tells
whether it was kept. -/
def put (p : Pool μ) (m : μ) : Bool × Pool μ :=
  if p.closed then (false, p.uncount)
  else (true, { p.uncount with idle := m :: p.idle })

/-- Closes the pool and hands over all idle marshals in the order in which they are to be closed.
A closed pool has none. -/
def drain (p : Pool μ) : List μ × Pool μ :=
  if p.closed then ([], p) else (p.idle, { p with idle := [], closed := true })

/-! ### What each step does to the parts of a pool -/

@[simp] theorem take_fst (p : Pool μ) : p.take.1 = p.idle.head? := by
  unfold take
  split <;> simp_all

@[simp] theorem take_idle (p : Pool μ) : p.take.2.idle = p.idle.tail := by
  unfold take
  split <;> simp_all

@[simp] theorem take_outstanding (p : Pool μ) : p.take.2.outstanding = p.outstanding + 1 := by
  unfold take
  split <;> rfl

@[simp] theorem take_closed (p : Pool μ) : p.take.2.closed = p.closed := by
  unfold take
  split <;> rfl

theorem take_of_empty {p : Pool μ} (h : p.idle = []) :
    p.take = (none, { p with outstanding := p.outstanding + 1 }) := by
  unfold take
  split
  · rfl
  · simp_all

@[simp] theorem put_fst (p : Pool μ) (m : μ) : (p.put m).1 = !p.closed := by
  unfold put
  split <;> simp_all

@[simp] theorem put_idle (p : Pool μ) (m : μ) :
    (p.put m).2.idle = if p.closed then p.idle else m :: p.idle := by
  unfold put
  split <;> rfl

@[simp] theorem put_outstanding (p : Pool μ) (m : μ) :
    (p.put m).2.outstanding = p.outstanding - 1 := by
  unfold put
  split <;> rfl

@[simp] theorem put_closed (p : Pool μ) (m : μ) : (p.put m).2.closed = p.closed := by
  unfold put
  split <;> rfl

@[simp] theorem drain_outstanding (p : Pool μ) : p.drain.2.outstanding = p.outstanding := by
  unfold drain
  split <;> rfl

@[simp] theorem drain_closed (p : Pool μ) : p.drain.2.closed = true := by
  unfold drain
  split
  · assumption
  · rfl

end Pool

end SessionPool
