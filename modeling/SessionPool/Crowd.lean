import SessionPool.Client
import SessionPool.Interleaving
import SessionPool.Mock.Daemon

/-!
# Crowds

What a crowd of threads finds when all of them use one session over a mock daemon at the same time.
The threads go in step with each other: whatever happens, it happens to every thread before any of
them goes on. So this is one order out of many, and it says nothing about the others.
-/

namespace SessionPool

open Session (Call Result)

/-- One session and one mock daemon. -/
abbrev Crowd := Interleaving Mock.Factory Mock.Marshal Mock.Fleet

namespace Crowd

abbrev Move := Interleaving.Move Mock.Marshal

/-- More steps than a call has. -/
def maxSteps : Nat := 4

/-- Every one of some threads makes a call, and all go in step until every call is over. The
results come by thread. -/
def together (c : Crowd) (calls : List (Call Mock.Marshal)) : List (Result Mock.Marshal) × Crowd :=
  let threads := List.range calls.length
  let starts := calls.mapIdx fun thread call => Interleaving.Move.start thread 0 call
  let steps := (List.replicate maxSteps (threads.map Interleaving.Move.advance)).flatten
  let after := Interleaving.run { c with finished := [] } (starts ++ steps : List Move)
  (threads.filterMap fun thread =>
      (after.finished.find? (·.thread == thread)).map (·.result),
    after)

/-- The marshals among some results. -/
def marshals (results : List (Result Mock.Marshal)) : List Mock.Marshal :=
  results.filterMap fun
    | .acquired m => m
    | _ => none

/-- The number of refusals among some results. -/
def failures (results : List (Result Mock.Marshal)) : Nat :=
  results.count (.acquired none)

/-- The number of marshals among some results that a closed session did not take back. -/
def rejections (results : List (Result Mock.Marshal)) : Nat :=
  results.countP fun
    | .released refusal => refusal.isSome
    | _ => false

/-- The session of a crowd. -/
def session? (c : Crowd) : Option (Session Mock.Factory Mock.Marshal) := c.sessions[0]?

def pooled (c : Crowd) : Nat := ((session? c).map (·.pooled)).getD 0

def outstanding (c : Crowd) : Nat := ((session? c).map (·.outstanding)).getD 0

def daemon (c : Crowd) : Mock.Daemon := c.world.daemon 0

/-- How a crowd begins: `warm` marshals are acquired and released again, the session may be closed,
and the daemon may start to refuse. -/
structure Start where
  warm : Nat
  accepting : Bool
  closed : Bool
  deriving DecidableEq, Repr

/-- Closes the session of a crowd, and tells how many marshals were idle. -/
def close (c : Crowd) : Nat × Crowd :=
  match together c [.close] with
  | ([.closed count], c) => (count, c)
  | (_, c) => (0, c)

/-- A crowd that has begun. -/
def Start.crowd (start : Start) : Crowd :=
  let fresh : Crowd := {
    world := ⟨[{}]⟩
    sessions := [{ localId := 1, domain := {}, factory := ⟨0⟩ }] }
  let (results, c) := together fresh (List.replicate start.warm .acquire)
  let (_, c) := together c ((marshals results).map .release)
  let c := if start.closed then (close c).2 else c
  { c with world := c.world.setAccepting 0 start.accepting }

/-- What is found while every thread keeps the marshal that it acquired. -/
structure Held where
  distinct : Nat
  failures : Nat
  dials : Nat
  outstanding : Nat
  pooled : Nat
  deriving DecidableEq, Repr

/-- What is found when every thread acquires once, keeps its marshal for a while and releases it. -/
structure Hold where
  held : Held
  rejections : Nat
  outstanding : Nat
  pooled : Nat
  closeEvents : Nat
  closing : Nat
  deriving DecidableEq, Repr

/-- Every thread acquires once, then every thread releases what it got. -/
def hold (start : Start) (threads : Nat) : Hold :=
  let c := start.crowd
  let dialsBefore := (daemon c).dials.length
  let (acquired, c) := together c (List.replicate threads .acquire)
  let held : Held := {
    distinct := ((marshals acquired).map (·.id)).eraseDups.length
    failures := failures acquired
    dials := (daemon c).dials.length - dialsBefore
    outstanding := outstanding c
    pooled := pooled c }
  let (released, c) := together c ((marshals acquired).map .release)
  { held
    rejections := rejections released
    outstanding := outstanding c
    pooled := pooled c
    closeEvents := (daemon c).closedIds.length
    closing := (close c).1 }

/-- What is found when every thread acquires and releases again and again. -/
structure Churn where
  overlaps : Nat
  failures : Nat
  rejections : Nat
  outstanding : Nat
  pooled : Nat
  closeEvents : Nat
  dials : Nat
  closing : Nat
  deriving DecidableEq, Repr

/-- Marshals that two threads have at the same time. -/
def overlaps (ms : List Mock.Marshal) : Nat :=
  let ids := ms.map (·.id)
  ids.length - ids.eraseDups.length

/-- Rounds of acquiring and releasing, with what was counted before. -/
def churnRounds (threads : Nat) : Nat → Churn × Crowd → Churn × Crowd
  | 0, counted => counted
  | rounds + 1, (counts, c) =>
    let (acquired, c) := together c (List.replicate threads .acquire)
    let (released, c) := together c ((marshals acquired).map .release)
    churnRounds threads rounds ({ counts with
      overlaps := counts.overlaps + overlaps (marshals acquired)
      failures := counts.failures + failures acquired
      rejections := counts.rejections + rejections released }, c)

/-- Every thread acquires and releases a number of times. -/
def churn (start : Start) (threads rounds : Nat) : Churn :=
  let (counts, c) := churnRounds threads rounds (⟨0, 0, 0, 0, 0, 0, 0, 0⟩, start.crowd)
  { counts with
    outstanding := outstanding c
    pooled := pooled c
    closeEvents := (daemon c).closedIds.length
    dials := (daemon c).dials.length
    closing := (close c).1 }

namespace Churn

/-- Every marshal that was opened is idle or closed. -/
def allPooled (c : Churn) : Bool := c.pooled + c.closeEvents + c.failures = c.dials

/-- No more marshals are idle than were ever wanted at the same time. -/
def poolBounded (c : Churn) (threads warm : Nat) : Bool := c.pooled ≤ max threads warm

/-- Closing the session closes every marshal that is still open. -/
def closeDrains (c : Churn) : Bool := c.closing + c.closeEvents + c.failures = c.dials

end Churn

/-- The ids that some threads get when each takes some from one allocator, and the allocator after
that. -/
def allocate (a : Allocator) : Nat → List UInt64 × Allocator
  | 0 => ([], a)
  | n + 1 =>
    let (ids, a) := allocate a n
    (a.next.1 :: ids, a.next.2)

end Crowd

end SessionPool
