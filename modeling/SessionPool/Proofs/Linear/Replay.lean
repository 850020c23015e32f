import SessionPool.Proofs.Linear.Story
import SessionPool.Proofs.Steps

/-!
# Replaying calls

What a call does to the idle marshals it does when it first has the lock; what it does after that
concerns only itself and the count of marshals that are out. So a call that is still under way can
be replayed before it is over: it fits the session in which it had the lock, and each of its later
steps keeps it so.
-/

namespace SessionPool

open Session (Call Result)

variable {φ μ ω : Type}

namespace Session

/-- The same session, but for the count. -/
def recount (s : Session φ μ) (n : Nat) : Session φ μ :=
  { s with pool := { s.pool with outstanding := n } }

theorem recount_self (s : Session φ μ) : s.recount s.pool.outstanding = s := rfl

variable [Marshal μ ω] [Source φ μ ω]

/-! ### The branches of a call made alone -/

/-- What a call creates in its scenes when it finds nothing idle. -/
def created (s : Session φ μ) (sc : Scenes ω) : μ := (Source.create s.factory sc.create).1

/-- How opening that turns out. -/
def dialled (s : Session φ μ) (sc : Scenes ω) : Bool × μ :=
  let (ok, m, _) := Marshal.dial (s.created sc) s.domain.host s.domain.port sc.dial
  (ok, m)

/-- What comes out of a call that is made alone in its scenes. -/
inductive Served (s : Session φ μ) (sc : Scenes ω) : Call μ → Option (Result μ) × Session φ μ → Prop
  | hit {m : μ} {rest : List μ} (h : s.pool.idle = m :: rest) :
      Served s sc .acquire
        (some (.acquired (some (Marshal.reset m sc.reset).1)), { s with pool := s.pool.take.2 })
  | opened (h : s.pool.idle = []) (hok : (s.dialled sc).1 = true) :
      Served s sc .acquire
        (some (.acquired (some (Marshal.reset (s.dialled sc).2 sc.reset).1)),
          { s with pool := s.pool.take.2 })
  | refused (h : s.pool.idle = []) (hok : (s.dialled sc).1 = false) :
      Served s sc .acquire (some (.acquired none), { s with pool := s.pool.take.2.uncount })
  | kept (m : μ) (h : s.pool.closed = false) :
      Served s sc (.release m)
        (some (.released none), { s with pool := (s.pool.put (Marshal.reset m sc.reset).1).2 })
  | turnedAway (m : μ) (h : s.pool.closed = true) :
      Served s sc (.release m)
        (some (.released (some (.sessionClosed s.localId))),
          { s with pool := (s.pool.put (Marshal.reset m sc.reset).1).2 })
  | close :
      Served s sc .close
        (some (.closed s.pool.drain.1.length), { s with pool := s.pool.drain.2 })
  | pooled : Served s sc .pooled (some (.pooled s.pooled), s)
  | isClosed : Served s sc .isClosed (some (.isClosed s.isClosed), s)
  | inner {c : Call μ} (h : c.isEntry = false) : Served s sc c (none, s)

variable {s : Session φ μ} {sc : Scenes ω} {c : Call μ} {out : Option (Result μ) × Session φ μ}

theorem Served.eq (h : Served s sc c out) : s.serve sc c = out := by
  cases h with
  | hit h =>
    simp only [serve, acquire, Pool.take, h]
    rfl
  | opened h hok =>
    have hdial : (Marshal.dial (Source.create s.factory sc).1 s.domain.host s.domain.port
        (Source.create s.factory sc).2).1 = true := hok
    simp only [serve, acquire, Pool.take, h, hdial, ↓reduceIte]
    rfl
  | refused h hok =>
    have hdial : (Marshal.dial (Source.create s.factory sc).1 s.domain.host s.domain.port
        (Source.create s.factory sc).2).1 = false := hok
    simp only [serve, acquire, Pool.take, h, hdial, Bool.false_eq_true, ↓reduceIte]
  | kept m h =>
    simp only [serve, release, Pool.put, h, Bool.false_eq_true, ↓reduceIte]
    rfl
  | turnedAway m h =>
    simp only [serve, release, Pool.put, h, ↓reduceIte]
  | inner h => cases c <;> first | rfl | exact absurd h.symm Bool.false_ne_true
  | _ => rfl

theorem served (s : Session φ μ) (sc : Scenes ω) (c : Call μ) : Served s sc c (s.serve sc c) := by
  cases c with
  | acquire =>
    cases hidle : s.pool.idle with
    | cons m rest =>
      rw [(Served.hit hidle).eq]
      exact .hit hidle
    | nil =>
      cases hok : (s.dialled sc).1 with
      | true =>
        rw [(Served.opened hidle hok).eq]
        exact .opened hidle hok
      | false =>
        rw [(Served.refused hidle hok).eq]
        exact .refused hidle hok
  | release m =>
    cases hclosed : s.pool.closed with
    | false =>
      rw [(Served.kept m hclosed).eq]
      exact .kept m hclosed
    | true =>
      rw [(Served.turnedAway m hclosed).eq]
      exact .turnedAway m hclosed
  | close => exact .close
  | pooled => exact .pooled
  | isClosed => exact .isClosed
  | _ => exact .inner rfl

/-! ### What a call made alone leaves alone -/

theorem Served.session (h : Served s sc c out) : ∃ pool, out.2 = { s with pool } := by
  cases h <;> exact ⟨_, rfl⟩

/-- The count makes no difference to what comes out of a call, but for the count. -/
theorem Served.recount (h : Served s sc c out) (n : Nat) :
    ∃ n', Served (s.recount n) sc c (out.1, out.2.recount n') := by
  obtain ⟨localId, remoteId, domain, factory, ⟨idle, outstanding, closed⟩⟩ := s
  cases h with
  | @hit m rest h =>
    obtain rfl : idle = m :: rest := h
    exact ⟨n + 1, .hit rfl⟩
  | opened h hok =>
    obtain rfl : idle = [] := h
    exact ⟨n + 1, .opened rfl hok⟩
  | refused h hok =>
    obtain rfl : idle = [] := h
    exact ⟨n, .refused rfl hok⟩
  | kept m h =>
    obtain rfl : closed = false := h
    exact ⟨n - 1, .kept m rfl⟩
  | turnedAway m h =>
    obtain rfl : closed = true := h
    exact ⟨n - 1, .turnedAway m rfl⟩
  | close => cases closed <;> exact ⟨n, .close⟩
  | pooled => exact ⟨n, .pooled⟩
  | isClosed => exact ⟨n, .isClosed⟩
  | inner h => exact ⟨n, .inner h⟩

theorem serve_recount (s : Session φ μ) (sc : Scenes ω) (c : Call μ) (n : Nat) :
    ∃ n', (s.recount n).serve sc c = ((s.serve sc c).1, (s.serve sc c).2.recount n') := by
  obtain ⟨n', h⟩ := (served s sc c).recount n
  exact ⟨n', h.eq⟩

theorem serve_acquire_of_empty (h : s.pool.idle = []) (sc : Scenes ω) :
    ∃ n, (s.serve sc .acquire).2 = s.recount n := by
  cases hok : (s.dialled sc).1 with
  | true =>
    rw [(Served.opened h hok).eq, Pool.take_of_empty h]
    exact ⟨_, rfl⟩
  | false =>
    rw [(Served.refused h hok).eq, Pool.take_of_empty h]
    exact ⟨_, rfl⟩

end Session

/-! ### Calls before and after they have had the lock -/

variable [Marshal μ ω] [Source φ μ ω]

/-- A call that has not had the lock yet is where it began, or it has reset the marshal that it
brings back. -/
inductive Scenes.Enters (sc : Scenes ω) : Call μ → Call μ → Prop
  | entry {c : Call μ} (h : c.isEntry = true) : sc.Enters c c
  | back (m : μ) : sc.Enters (.release m) (.put (Marshal.reset m sc.reset).1)

/-- A call that has had the lock fits a session if, made there alone, it comes back with what it
came back with, or gets to where it is now. -/
def Story.Fits (s : Session φ μ) (story : Story μ ω) : Prop :=
  match story.now with
  | .inr result => (s.serve story.scenes story.call).1 = some result
  | .inl .create => story.call = .acquire ∧ s.pool.idle = []
  | .inl (.dial m) =>
    story.call = .acquire ∧ s.pool.idle = [] ∧ m = s.created story.scenes
  | .inl (.settle m ok) =>
    story.call = .acquire ∧ s.pool.idle = [] ∧ (ok, m) = s.dialled story.scenes
  | .inl (.discard _) => (∃ m, story.call = .release m) ∧ s.pool.closed = true
  | .inl _ => False

theorem Story.Fits.recount {s : Session φ μ} {story : Story μ ω} (h : story.Fits s) (n : Nat) :
    story.Fits (s.recount n) := by
  obtain ⟨t, call, sc, now⟩ := story
  cases now with
  | inr result =>
    obtain ⟨n', hserve⟩ := s.serve_recount sc call n
    show ((s.recount n).serve sc call).1 = some result
    rw [hserve]
    exact h
  | inl next => cases next <;> exact h

/-- **A call fits where it first has the lock**, and made alone there it does to the session what
this step does, but for the count. -/
theorem Story.fits_of_stepped {s : Session φ μ} {w : ω} {started next : Call μ}
    {out : (Call μ ⊕ Result μ) × Session φ μ × ω} (h : Session.Stepped s w next out)
    {sc : Scenes ω} (enters : sc.Enters started next) (locking : next.isLocking = true)
    (t : Thread) :
    (Story.mk t started (sc.note w next) out.1).Fits s ∧
      ∃ n, out.2.1 = (s.serve (sc.note w next) started).2.recount n := by
  cases h with
  | hit h =>
    cases enters
    rw [Fits, (Session.Served.hit h).eq]
    exact ⟨rfl, _, (Session.recount_self _).symm⟩
  | miss h =>
    -- How the opening turns out is not known yet, but it does not matter for the idle marshals.
    cases enters
    obtain ⟨n, hserve⟩ := Session.serve_acquire_of_empty h (sc.note w .acquire)
    rw [hserve, Pool.take_of_empty h]
    exact ⟨⟨rfl, h⟩, s.pool.outstanding + 1, rfl⟩
  | kept m h =>
    cases enters with
    | entry entry => exact absurd entry Bool.false_ne_true
    | back m =>
      rw [Fits, (Session.Served.kept m h).eq]
      exact ⟨rfl, _, (Session.recount_self _).symm⟩
  | turnedAway m h =>
    cases enters with
    | entry entry => exact absurd entry Bool.false_ne_true
    | back m =>
      refine ⟨⟨⟨m, rfl⟩, h⟩, ?_⟩
      show ∃ n, _ = (s.serve sc (.release m)).2.recount n
      rw [(Session.Served.turnedAway m h).eq]
      exact ⟨_, (Session.recount_self _).symm⟩
  | close =>
    cases enters
    exact ⟨rfl, _, (Session.recount_self _).symm⟩
  | pooled =>
    cases enters
    exact ⟨rfl, _, (Session.recount_self _).symm⟩
  | isClosed =>
    cases enters
    exact ⟨rfl, _, (Session.recount_self _).symm⟩
  | _ => exact absurd locking Bool.false_ne_true

/-- **A call that fits a session goes on fitting it** with every step that it takes after it has had
the lock, in whatever state the session is by then, and it still does the same to the session when
it is made alone, but for the count. -/
theorem Story.Fits.goOn {s : Session φ μ} {t : Thread} {call next : Call μ} {sc : Scenes ω}
    (h : (Story.mk t call sc (.inl next)).Fits s) (pool : Pool μ) (w : ω) :
    (Story.mk t call (sc.note w next) (next.step { s with pool } w).1).Fits s ∧
      ∃ n, (s.serve (sc.note w next) call).2 = (s.serve sc call).2.recount n := by
  have missed (hidle : s.pool.idle = []) (sc' : Scenes ω) :
      ∃ n, (s.serve sc' .acquire).2 = (s.serve sc .acquire).2.recount n := by
    obtain ⟨n, hserve⟩ := Session.serve_acquire_of_empty hidle sc
    obtain ⟨n', hserve'⟩ := Session.serve_acquire_of_empty hidle sc'
    rw [hserve, hserve']
    exact ⟨n', rfl⟩
  -- The new scene settles what the step needs, and the scenes before it stay as they are.
  cases next with
  | create =>
    obtain ⟨rfl, hidle⟩ := h
    exact ⟨⟨rfl, hidle, rfl⟩, missed hidle _⟩
  | dial m =>
    obtain ⟨rfl, hidle, hm⟩ := h
    refine ⟨⟨rfl, hidle, ?_⟩, missed hidle _⟩
    rw [hm]
    rfl
  | settle m ok =>
    obtain ⟨rfl, hidle, hdial⟩ := h
    refine ⟨?_, missed hidle _⟩
    have hdial' : s.dialled (sc.note w (.settle m ok)) = (ok, m) := hdial.symm
    cases ok with
    | true =>
      show (s.serve (sc.note w (.settle m true)) .acquire).1 = _
      rw [(Session.Served.opened hidle (by rw [hdial'])).eq, hdial']
      rfl
    | false =>
      show (s.serve (sc.note w (.settle m false)) .acquire).1 = _
      rw [(Session.Served.refused hidle (by rw [hdial'])).eq]
  | discard m =>
    obtain ⟨⟨m', rfl⟩, hclosed⟩ := h
    refine ⟨?_, _, (Session.recount_self _).symm⟩
    show (s.serve sc (.release m')).1 = _
    rw [(Session.Served.turnedAway m' hclosed).eq]
  | _ => exact absurd h id

end SessionPool
