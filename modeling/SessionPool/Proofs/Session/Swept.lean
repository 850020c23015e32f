import SessionPool.Proofs.Watched

/-!
# Sessions that leave nothing behind

When everybody is done with a session, each marshal that was opened has been collected, which is to
say that it is idle again. Closing the session then closes them all, each of them once:

    closed one after the other  ~  opened.
-/

namespace SessionPool

variable {φ μ ω : Type}

namespace Sighting

/-- The number of the marshal, if this is an attempt to open one. -/
def dialled? : Sighting μ → Option Nat
  | .dialled m _ _ _ => some m.number
  | _ => none

/-- The number of the marshal, if this is an attempt to open one and has succeeded. -/
def opened? : Sighting μ → Option Nat
  | .dialled m _ _ true => some m.number
  | _ => none

/-- Where an attempt to open a marshal went, and how it ended. -/
def attempt? : Sighting μ → Option (String × UInt16 × Bool)
  | .dialled _ host port ok => some (host, port, ok)
  | _ => none

def isClosing : Sighting μ → Bool
  | .closed _ => true
  | _ => false

end Sighting

/-- The numbers of the marshals that somebody attempted to open, whatever came of it. -/
def Watched.dialled (w : Watched μ ω) : List Nat := w.seen.filterMap Sighting.dialled?

/-- The numbers of the marshals that were opened. -/
def Watched.opened (w : Watched μ ω) : List Nat := w.seen.filterMap Sighting.opened?

namespace Watched

section Numbers

variable [Marshal μ ω] (m : Numbered μ) (w : Watched μ ω)

@[simp] theorem opened_reset : (Marshal.reset m w).2.opened = w.opened := by
  simp [opened, Sighting.opened?]

@[simp] theorem dialled_reset : (Marshal.reset m w).2.dialled = w.dialled := by
  simp [dialled, Sighting.dialled?]

@[simp] theorem opened_close : (Marshal.close m w).2.opened = w.opened := by
  simp [opened, Sighting.opened?]

@[simp] theorem opened_dial (host : String) (port : UInt16) :
    (Marshal.dial m host port w).2.2.opened =
      w.opened ++ if (Marshal.dial m host port w).1 then [m.number] else [] := by
  rw [opened, seen_dial, List.filterMap_append, opened]
  cases (Marshal.dial m host port w).1 <;> rfl

@[simp] theorem dialled_dial (host : String) (port : UInt16) :
    (Marshal.dial m host port w).2.2.dialled = w.dialled ++ [m.number] := by
  simp [dialled, Sighting.dialled?]

omit [Marshal μ ω]

variable [Source φ μ ω] (f : φ)

@[simp] theorem opened_create : (Source.create f w).2.opened = w.opened := by
  simp [opened, Sighting.opened?]

@[simp] theorem dialled_create : (Source.create f w).2.dialled = w.dialled := by
  simp [dialled, Sighting.dialled?]

end Numbers

/-- Whatever was opened is among what somebody attempted to open. -/
theorem opened_sublist (w : Watched μ ω) : w.opened.Sublist w.dialled := by
  rw [opened, dialled]
  induction w.seen with
  | nil => exact List.Sublist.slnil
  | cons e seen ih =>
    cases e with
    | dialled m host port ok =>
      cases ok with
      | true => exact ih.cons_cons m.number
      | false => exact ih.cons m.number
    | _ => exact ih

end Watched

namespace Session

/-- The session is open, nobody has a marshal of it, and the marshals that were opened are its idle
ones. All of these are open, and none was closed yet. -/
structure Collected (isOpen : μ → Bool) (s : Session φ (Numbered μ)) (w : Watched μ ω) :
    Prop where
  notClosed : s.pool.closed = false
  outstanding : s.pool.outstanding = 0
  unclosed : ∀ e ∈ w.seen, e.isClosing = false
  once : w.opened.Nodup
  idle : (s.pool.idle.map (·.number)).Perm w.opened
  ready : ∀ m ∈ s.pool.idle, isOpen m.marshal = true

/-- The session is closed, it has no marshal, and nobody else has one of it. Nothing was closed
before the end, and then every marshal that had been opened was closed, once and while it was
open. -/
structure Swept (isOpen : μ → Bool) (s : Session φ (Numbered μ)) (w : Watched μ ω) : Prop where
  closed : s.pool.closed = true
  empty : s.pool.idle = []
  outstanding : s.pool.outstanding = 0
  sweep : ∃ (before : List (Sighting μ)) (last : List (Numbered μ)),
    w.seen = before ++ last.map .closed ∧
    (∀ e ∈ before, e.isClosing = false) ∧
    (before.filterMap Sighting.opened?).Nodup ∧
    (last.map (·.number)).Perm (before.filterMap Sighting.opened?) ∧
    ∀ m ∈ last, isOpen m.marshal = true

/-- Closing a session that has its marshals together leaves nothing behind. -/
theorem Collected.swept [Marshal μ ω] {isOpen : μ → Bool} {s : Session φ (Numbered μ)}
    {w : Watched μ ω} (h : s.Collected isOpen w) :
    (s.close w).2.1.Swept isOpen (s.close w).2.2 := by
  have hdrain : s.pool.drain = (s.pool.idle, { s.pool with idle := [], closed := true }) := by
    rw [Pool.drain, if_neg (by simp [h.notClosed])]
  have hclose : s.close w = (s.pool.idle.length,
      { s with pool := { s.pool with idle := [], closed := true } },
      closeEach s.pool.idle w) := by
    simp only [close, hdrain]
  rw [hclose]
  refine ⟨rfl, rfl, h.outstanding, w.seen, s.pool.idle, ?_, h.unclosed, h.once, h.idle, h.ready⟩
  exact Watched.seen_closeEach s.pool.idle w

end Session

end SessionPool
