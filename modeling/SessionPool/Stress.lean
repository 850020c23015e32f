import SessionPool.Interleaving
import SessionPool.Json.Value

/-!
# Stress

Workers share one session, and each of them acquires a marshal and releases it again, round after
round. A schedule says who goes next. When it comes to its end those who are not done go on one
after the other, so that there is a schedule for every way in which the workers can interleave.
-/

namespace SessionPool.Stress

open Json
open Session (Call Result)

/-- How many workers there are, and how many rounds each of them goes. -/
structure Load where
  workers : UInt64 := 8
  rounds : UInt64 := 100
  deriving DecidableEq, Repr, Inhabited

/-- What the workers found, and the milliseconds that it took them. -/
structure Report where
  workers : Nat
  rounds : Nat
  exchanges : Nat
  unavailable : Nat
  pooled : Nat
  elapsedMs : Nat
  deriving DecidableEq, Repr

/-- A report as a JSON object. -/
def Report.toJson (r : Report) : Value :=
  .object [
    ("workers", .natural r.workers),
    ("rounds", .natural r.rounds),
    ("exchanges", .natural r.exchanges),
    ("unavailable", .natural r.unavailable),
    ("pooled", .natural r.pooled),
    ("elapsedMs", .natural r.elapsedMs)]

/-! ### Workers -/

/-- A worker: the rounds that it has not begun, the marshal that it has to give back, what it has
counted, and whether the session refused a marshal of its. -/
structure Worker (μ : Type) where
  left : Nat
  holding : Option μ := none
  exchanges : Nat := 0
  unavailable : Nat := 0
  refused : Bool := false
  deriving DecidableEq, Repr

namespace Worker

variable {μ : Type}

/-- The call that a worker makes after the one before, and the worker in it. -/
def next? (k : Worker μ) : Option (Call μ × Worker μ) :=
  match k.holding, k.left with
  | some m, _ => some (.release m, { k with holding := none })
  | none, left + 1 => some (.acquire, { k with left })
  | none, 0 => none

/-- A worker whose call has come back. It stops when a marshal is refused. -/
def note (k : Worker μ) : Result μ → Worker μ
  | .acquired (some m) => { k with holding := some m }
  | .acquired none => { k with unavailable := k.unavailable + 1 }
  | .released none => { k with exchanges := k.exchanges + 1 }
  | .released (some _) => { k with left := 0, refused := true }
  | _ => k

/-- What some workers have counted together. -/
def total (count : Worker μ → Nat) : List (Worker μ) → Nat
  | [] => 0
  | k :: ks => count k + total count ks

end Worker

/-! ### Runs -/

/-- The workers and their calls. The only session is at place 0. -/
structure Run (φ μ ω : Type) where
  calls : Interleaving φ μ ω
  workers : List (Worker μ)

/-- Who goes next, and next after that. -/
abbrev Schedule := List Thread

/-- More steps than a round has. -/
def maxSteps : Nat := 9

/-- Every worker goes as long as it may need to, one after the other. -/
def inTurn (workers rounds : Nat) : Schedule :=
  (List.range workers).flatMap fun k => List.replicate (maxSteps * rounds) k

namespace Run

variable {φ μ ω : Type} [Marshal μ ω] [Source φ μ ω]

/-- Before the first step. -/
def start (workers rounds : Nat) (s : Session φ μ) (w : ω) : Run φ μ ω where
  calls := { world := w, sessions := [s] }
  workers := List.replicate workers { left := rounds }

/-- A worker starts its next call or takes a step of the call that it is in. One that is done does
nothing. -/
def go (r : Run φ μ ω) (k : Thread) : Run φ μ ω :=
  match r.workers[k]? with
  | none => r
  | some worker =>
    match r.calls.pending? k with
    | none =>
      match worker.next? with
      | none => r
      | some (call, worker) => {
          calls := r.calls.move (.start k 0 call)
          workers := r.workers.set k worker }
    | some _ =>
      let calls := r.calls.move (.advance k)
      match calls.pending? k, calls.finished.head? with
      | none, some back => { calls, workers := r.workers.set k (worker.note back.result) }
      | _, _ => { r with calls }

/-- Lets the workers go as a schedule says. -/
def follow (r : Run φ μ ω) (schedule : Schedule) : Run φ μ ω := schedule.foldl go r

end Run

variable {φ μ ω : Type} [Marshal μ ω] [Source φ μ ω]

/-- Puts a load on a session and closes it afterwards. The time that this takes is for somebody
with a clock to fill in. -/
def run (schedule : Schedule) (load : Load) (s : Session φ μ) (w : ω) :
    Except Error Report × Session φ μ × ω :=
  let workers := load.workers.toNat
  let rounds := load.rounds.toNat
  let r := (Run.start workers rounds s w).follow (schedule ++ inTurn workers rounds)
  let s := r.calls.sessions.headD s
  let pooled := s.pooled
  let (_, s, w) := s.close r.calls.world
  if r.workers.any (·.refused) then (.error (.sessionClosed s.localId), s, w)
  else
    (.ok {
      workers, rounds, pooled
      exchanges := Worker.total (·.exchanges) r.workers
      unavailable := Worker.total (·.unavailable) r.workers
      elapsedMs := 0 }, s, w)

end SessionPool.Stress
