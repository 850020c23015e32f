import SessionPool.Proofs.Brackets
import SessionPool.Proofs.Script.Clients
import SessionPool.Proofs.Watched

/-!
# Who is handed out again

Callers acquire from a session and release to it, one at a time. Written as brackets, a release
opens and an acquisition closes,

    release m · release n · acquire · acquire   as   m ( n ( ) ),

and an acquisition hands out the marshal of its partner. One without a partner opens a marshal of
its own, and the marshals of the releases without a partner are idle, so that closing closes these.
-/

namespace SessionPool

/-! ### Errands -/

/-- What a caller does with a session, or what happens to the world between two calls. -/
inductive Errand (μ ω : Type) where
  | acquire
  | release (m : μ)
  | meanwhile (change : ω → ω)

variable {φ μ ω : Type}

namespace Errand

/-- The session and the world after an errand. -/
def serve [Marshal μ ω] [Source φ μ ω] (s : Session φ μ) (w : ω) :
    Errand μ ω → Session φ μ × ω
  | .acquire => (s.acquire w).2
  | .release m => (s.release m w).2
  | .meanwhile change => (s, change w)

/-- The session and the world after some errands. -/
def serveAll [Marshal μ ω] [Source φ μ ω] (s : Session φ μ) (w : ω) :
    List (Errand μ ω) → Session φ μ × ω
  | [] => (s, w)
  | e :: errands => serveAll (e.serve s w).1 (e.serve s w).2 errands

/-- The errand with marshals that nobody watches. -/
def unwatched : Errand (Numbered μ) ω → Errand μ ω
  | .acquire => .acquire
  | .release m => .release m.marshal
  | .meanwhile change => .meanwhile change

/-- The errand in a watched world. -/
def watched : Errand (Numbered μ) ω → Errand (Numbered μ) (Watched μ ω)
  | .acquire => .acquire
  | .release m => .release m
  | .meanwhile change => .meanwhile fun w => { w with world := change w.world }

/-- An errand as a bracket. A release carries its marshal as it goes into the pool. -/
def bracket? [Marshal μ ω] (w : Watched μ ω) : Errand (Numbered μ) ω → Option (Bracket (Numbered μ))
  | .acquire => some .closing
  | .release m => some (.opening (Marshal.reset m w).1)
  | .meanwhile _ => none

end Errand

/-- A session after some errands, what was seen of its marshals, and the errands as brackets. -/
structure Served (φ μ ω : Type) where
  session : Session φ (Numbered μ)
  world : Watched μ ω
  word : List (Bracket (Numbered μ)) := []

namespace Served

variable [Marshal μ ω] [Source φ μ ω]

/-- One more errand. -/
def go (st : Served φ μ ω) (e : Errand (Numbered μ) ω) : Served φ μ ω where
  session := (e.watched.serve st.session st.world).1
  world := (e.watched.serve st.session st.world).2
  word := st.word ++ (e.bracket? st.world).toList

/-- Some more errands. -/
def run (st : Served φ μ ω) (errands : List (Errand (Numbered μ) ω)) : Served φ μ ω :=
  errands.foldl go st

/-! ### The idle marshals are a stack -/

/-- The session is open, and its idle marshals are those on the stack. -/
structure Stacked (st : Served φ μ ω) : Prop where
  isOpen : st.session.pool.closed = false
  idle : st.session.pool.idle = Bracket.stack st.word

variable {st : Served φ μ ω}

/-- **Step**: an acquisition takes the top off the stack, and a release puts one more on it. -/
theorem Stacked.go (h : st.Stacked) (e : Errand (Numbered μ) ω) : (st.go e).Stacked := by
  cases e with
  | acquire =>
    obtain ⟨outstanding, hs⟩ := st.session.acquire_session st.world
    refine ⟨?_, ?_⟩
    · show (st.session.acquire st.world).2.1.pool.closed = false
      rw [hs]
      exact h.isOpen
    · show (st.session.acquire st.world).2.1.pool.idle = Bracket.stack (st.word ++ [.closing])
      rw [hs, Bracket.stack_concat, ← h.idle]
      rfl
  | release m =>
    obtain ⟨outstanding, hs⟩ := st.session.release_session m st.world
    refine ⟨?_, ?_⟩
    · show (st.session.release m st.world).2.1.pool.closed = false
      rw [hs]
      exact h.isOpen
    · show (st.session.release m st.world).2.1.pool.idle =
        Bracket.stack (st.word ++ [.opening (Marshal.reset m st.world).1])
      rw [hs, Bracket.stack_concat, ← h.idle]
      show (if st.session.isClosed then _ else _) = _
      rw [Session.isClosed, h.isOpen]
      rfl
  | meanwhile change =>
    refine ⟨h.isOpen, ?_⟩
    show st.session.pool.idle = Bracket.stack (st.word ++ [])
    rw [List.append_nil, h.idle]

/-- **Run**. -/
theorem Stacked.run (h : st.Stacked) (errands : List (Errand (Numbered μ) ω)) :
    (st.run errands).Stacked := by
  induction errands generalizing st with
  | nil => exact h
  | cons e errands ih => exact ih (h.go e)

/-- Errands come to the same when nobody watches. -/
theorem unwatched_run (st : Served φ μ ω) (errands : List (Errand (Numbered μ) ω)) :
    Errand.serveAll st.session.unwatched st.world.world (errands.map Errand.unwatched) =
      ((st.run errands).session.unwatched, (st.run errands).world.world) := by
  induction errands generalizing st with
  | nil => rfl
  | cons e errands ih =>
    have hserve : e.unwatched.serve st.session.unwatched st.world.world =
        ((st.go e).session.unwatched, (st.go e).world.world) := by
      cases e with
      | acquire => exact congrArg Prod.snd (Watched.unwatched_acquire st.session st.world)
      | release m => exact congrArg Prod.snd (Watched.unwatched_release st.session st.world m)
      | meanwhile change => rfl
    rw [List.map_cons, Errand.serveAll, hserve]
    exact ih (st.go e)

/-! ### What an acquisition and closing come to -/

/-- The next acquisition hands out the marshal `m` again, which is reset and neither created nor
opened. -/
structure HandsBack (st : Served φ μ ω) (m : Numbered μ) : Prop where
  result : (st.session.acquire st.world).1 = some (Marshal.reset m st.world).1
  number : ∀ m', (st.session.acquire st.world).1 = some m' → m'.number = m.number
  seen : (st.session.acquire st.world).2.2.seen = st.world.seen ++ [.reset m]

/-- The next acquisition creates one marshal, which is a new one, and makes one attempt to open it,
at the endpoint of the session. It hands it out if that works, and nothing if it does not. -/
structure OpensNew (st : Served φ μ ω) : Prop where
  created : (st.session.acquire st.world).2.2.created = st.world.created + 1
  number : ∀ m, (st.session.acquire st.world).1 = some m → m.number = st.world.created + 1
  seen : ∃ made opened : Numbered μ, made.number = st.world.created + 1 ∧
    opened.number = made.number ∧
    (st.session.acquire st.world).2.2.seen = st.world.seen ++
      .created made :: .dialled made st.session.domain.host st.session.domain.port
        (st.session.acquire st.world).1.isSome ::
        if (st.session.acquire st.world).1.isSome then [.reset opened] else []

/-- Last in, first out: what the next call comes to, in terms of brackets. -/
structure LastInFirstOut (st : Served φ μ ω) : Prop where
  partner : ∀ m, Bracket.Awaits st.word m → st.HandsBack m
  noPartner : (∀ m, ¬ Bracket.Awaits st.word m) → st.OpensNew
  /-- The idle marshals, the one that was released first coming first. -/
  idle : st.session.pool.idle.reverse = Bracket.unmatched st.word
  count : (st.session.close st.world).1 = (Bracket.unmatched st.word).length
  /-- The marshal that was released last is closed first. -/
  closings : (st.session.close st.world).2.2.seen =
    st.world.seen ++ (Bracket.unmatched st.word).reverse.map .closed

theorem Stacked.handsBack (h : st.Stacked) {m : Numbered μ} (hm : Bracket.Awaits st.word m) :
    st.HandsBack m := by
  obtain ⟨rest, hidle⟩ := List.head?_eq_some_iff.mp (h.idle ▸ Bracket.awaits_iff.mp hm)
  have hacquire : st.session.acquire st.world =
      (some (Marshal.reset m st.world).1, { st.session with pool := st.session.pool.take.2 },
        (Marshal.reset m st.world).2) := by
    simp only [Session.acquire, Pool.take, hidle]
  refine ⟨by rw [hacquire], ?_, by rw [hacquire, Watched.seen_reset]⟩
  rw [hacquire]
  rintro _ ⟨⟩
  rfl

theorem Stacked.opensNew (h : st.Stacked) (hnone : ∀ m, ¬ Bracket.Awaits st.word m) :
    st.OpensNew := by
  have hempty : st.session.pool.idle = [] := by
    cases hidle : st.session.pool.idle with
    | nil => rfl
    | cons m rest =>
      have hm : Bracket.Awaits st.word m := by
        rw [Bracket.awaits_iff, ← h.idle, hidle]
        rfl
      exact absurd hm (hnone m)
  obtain ⟨made, m, ok, w₁, h⟩ := Session.exists_opening hempty st.world
  have hacquire := h.acquire
  cases ok with
  | true =>
    rw [if_pos rfl] at hacquire
    refine {
      created := by rw [hacquire]; exact h.created
      number := ?number
      seen := ⟨made, m, h.new, h.number, ?seen⟩ }
    case number =>
      rw [hacquire]
      rintro _ ⟨⟩
      exact h.number.trans h.new
    case seen =>
      rw [hacquire, Watched.seen_reset, h.seen, List.append_assoc]
      rfl
  | false =>
    rw [if_neg Bool.false_ne_true] at hacquire
    refine {
      created := by rw [hacquire]; exact h.created
      number := ?number
      seen := ⟨made, m, h.new, h.number, ?seen⟩ }
    case number =>
      rw [hacquire]
      rintro _ ⟨⟩
    case seen =>
      rw [hacquire, h.seen]
      rfl

theorem Stacked.lastInFirstOut (h : st.Stacked) : st.LastInFirstOut := by
  have hdrain : st.session.pool.drain.1 = (Bracket.unmatched st.word).reverse := by
    rw [Pool.drain, if_neg (by simp [h.isOpen]), h.idle, Bracket.stack_eq]
  refine {
    partner := fun m hm => h.handsBack hm
    noPartner := h.opensNew
    idle := by rw [h.idle, Bracket.stack_eq, List.reverse_reverse]
    count := ?count
    closings := ?closings }
  case count =>
    show st.session.pool.drain.1.length = _
    rw [hdrain, List.length_reverse]
  case closings =>
    show (closeEach st.session.pool.drain.1 st.world).seen = _
    rw [hdrain, Watched.seen_closeEach]

/-- A fresh session in a world of which nothing was seen yet. -/
def fresh (localId : UInt64) (remoteId : UInt32) (domain : Domain) (factory : φ) (w : ω) :
    Served φ μ ω where
  session := { localId, remoteId, domain, factory }
  world := { world := w }

/-- **Last in, first out**, whatever callers have done with a fresh session one after the other, and
with any outcomes of opening marshals. A session of which nobody watches the marshals goes the same
way. -/
theorem lifo_of_errands (localId : UInt64) (remoteId : UInt32) (domain : Domain) (factory : φ)
    (w : ω) (errands : List (Errand (Numbered μ) ω)) :
    ((fresh localId remoteId domain factory w).run errands).LastInFirstOut ∧
      Errand.serveAll { localId, remoteId, domain, factory } w (errands.map Errand.unwatched) =
        (((fresh localId remoteId domain factory w).run errands).session.unwatched,
          ((fresh localId remoteId domain factory w).run errands).world.world) := by
  have hfresh : (fresh localId remoteId domain factory w : Served φ μ ω).Stacked := ⟨rfl, rfl⟩
  exact ⟨(hfresh.run errands).lastInFirstOut,
    unwatched_run (fresh localId remoteId domain factory w) errands⟩

end Served

end SessionPool
