import SessionPool.Stress
import SessionPool.Proofs.Interleaving
import SessionPool.Proofs.Steps

/-!
# What the workers are at

A worker counts, and a call of its is under way or not. Both together say which part of a round the
worker is at. Whoever goes next goes on to the next part, and nobody else notices:

    r.Shows s posts  ⟹  (r.go k).Shows s' (posts.set k post').

The parts of a round come in order, and the only choices are made by the pool and by the attempt to
open a marshal.
-/

namespace SessionPool.Stress

open Session (Call Result Stepped)

/-! ### Parts of a round -/

/-- The part of a round that a worker is at. -/
inductive Phase (μ : Type) where
  /-- Between two rounds, before the first one or after the last one. -/
  | resting
  | taking
  | creating
  | dialling (m : μ)
  | settling (m : μ) (ok : Bool)
  /-- Between the two calls of a round. -/
  | holding (m : μ)
  | resetting (m : μ)
  | putting (m : μ)

/-- A worker without what it has in its hands, and the part of a round that it is at. -/
structure Post (μ : Type) where
  left : Nat
  phase : Phase μ := .resting
  exchanges : Nat := 0
  unavailable : Nat := 0

variable {φ μ ω : Type}

/-- What comes next in the call that belongs to a part of a round. -/
def Phase.call? : Phase μ → Option (Call μ)
  | resting | holding _ => none
  | taking => some .acquire
  | creating => some .create
  | dialling m => some (.dial m)
  | settling m ok => some (.settle m ok)
  | resetting m => some (.release m)
  | putting m => some (.put m)

/-- The marshal that a worker has between its calls. -/
def Phase.held? : Phase μ → Option μ
  | holding m => some m
  | _ => none

def Post.worker (post : Post μ) : Worker μ where
  left := post.left
  holding := post.phase.held?
  exchanges := post.exchanges
  unavailable := post.unavailable

/-- The workers of a run are at some posts, and `s` is their session. -/
structure Run.Shows (r : Run φ μ ω) (s : Session φ μ) (posts : List (Post μ)) : Prop where
  sessions : r.calls.sessions = [s]
  workers : r.workers = posts.map Post.worker
  pending : ∀ k, (r.calls.pending? k).map (fun p => (p.place, p.next)) =
    (posts[k]?.bind (·.phase.call?)).map fun call => (0, call)

/-- A worker goes on, and the pool changes with it. The outcome is that of an attempt to open a
marshal, if this is one. -/
inductive Turn (pool : Pool μ) : Post μ → Option Bool → Pool μ → Post μ → Prop
  | done {ex un : Nat} : Turn pool ⟨0, .resting, ex, un⟩ none pool ⟨0, .resting, ex, un⟩
  | begin {left ex un : Nat} :
      Turn pool ⟨left + 1, .resting, ex, un⟩ none pool ⟨left, .taking, ex, un⟩
  | hit {left ex un : Nat} {m m' : μ} {rest : List μ} (h : pool.idle = m :: rest) :
      Turn pool ⟨left, .taking, ex, un⟩ none pool.take.2 ⟨left, .holding m', ex, un⟩
  | miss {left ex un : Nat} (h : pool.idle = []) :
      Turn pool ⟨left, .taking, ex, un⟩ none pool.take.2 ⟨left, .creating, ex, un⟩
  | create {left ex un : Nat} {m : μ} :
      Turn pool ⟨left, .creating, ex, un⟩ none pool ⟨left, .dialling m, ex, un⟩
  | dial {left ex un : Nat} {m m' : μ} {ok : Bool} :
      Turn pool ⟨left, .dialling m, ex, un⟩ (some ok) pool ⟨left, .settling m' ok, ex, un⟩
  | opened {left ex un : Nat} {m m' : μ} :
      Turn pool ⟨left, .settling m true, ex, un⟩ none pool ⟨left, .holding m', ex, un⟩
  | refused {left ex un : Nat} {m : μ} :
      Turn pool ⟨left, .settling m false, ex, un⟩ none pool.uncount ⟨left, .resting, ex, un + 1⟩
  | giveBack {left ex un : Nat} {m : μ} :
      Turn pool ⟨left, .holding m, ex, un⟩ none pool ⟨left, .resetting m, ex, un⟩
  | reset {left ex un : Nat} {m m' : μ} :
      Turn pool ⟨left, .resetting m, ex, un⟩ none pool ⟨left, .putting m', ex, un⟩
  | put {left ex un : Nat} {m : μ} :
      Turn pool ⟨left, .putting m, ex, un⟩ none (pool.put m).2 ⟨left, .resting, ex + 1, un⟩

variable [Marshal μ ω] [Source φ μ ω]

/-- A worker goes on in a session `s` and a world `w`: what comes of its attempt to open a marshal,
if it makes one, and the pool, the world and the worker after that. -/
inductive Course (s : Session φ μ) (w : ω) :
    Post μ → Option Bool → Pool μ → ω → Post μ → Prop
  | done {ex un : Nat} :
      Course s w ⟨0, .resting, ex, un⟩ none s.pool w ⟨0, .resting, ex, un⟩
  | begin {left ex un : Nat} :
      Course s w ⟨left + 1, .resting, ex, un⟩ none s.pool w ⟨left, .taking, ex, un⟩
  | hit {left ex un : Nat} {m : μ} {rest : List μ} (h : s.pool.idle = m :: rest) :
      Course s w ⟨left, .taking, ex, un⟩ none s.pool.take.2 (Marshal.reset m w).2
        ⟨left, .holding (Marshal.reset m w).1, ex, un⟩
  | miss {left ex un : Nat} (h : s.pool.idle = []) :
      Course s w ⟨left, .taking, ex, un⟩ none s.pool.take.2 w ⟨left, .creating, ex, un⟩
  | create {left ex un : Nat} :
      Course s w ⟨left, .creating, ex, un⟩ none s.pool (Source.create s.factory w).2
        ⟨left, .dialling (Source.create s.factory w).1, ex, un⟩
  | dial {left ex un : Nat} {m : μ} {out : Bool × μ × ω}
      (h : Marshal.dial m s.domain.host s.domain.port w = out) :
      Course s w ⟨left, .dialling m, ex, un⟩ (some out.1) s.pool out.2.2
        ⟨left, .settling out.2.1 out.1, ex, un⟩
  | opened {left ex un : Nat} {m : μ} :
      Course s w ⟨left, .settling m true, ex, un⟩ none s.pool (Marshal.reset m w).2
        ⟨left, .holding (Marshal.reset m w).1, ex, un⟩
  | refused {left ex un : Nat} {m : μ} :
      Course s w ⟨left, .settling m false, ex, un⟩ none s.pool.uncount w
        ⟨left, .resting, ex, un + 1⟩
  | giveBack {left ex un : Nat} {m : μ} :
      Course s w ⟨left, .holding m, ex, un⟩ none s.pool w ⟨left, .resetting m, ex, un⟩
  | reset {left ex un : Nat} {m : μ} :
      Course s w ⟨left, .resetting m, ex, un⟩ none s.pool (Marshal.reset m w).2
        ⟨left, .putting (Marshal.reset m w).1, ex, un⟩
  | put {left ex un : Nat} {m : μ} :
      Course s w ⟨left, .putting m, ex, un⟩ none (s.pool.put m).2 w ⟨left, .resting, ex + 1, un⟩

/-- What matters of a course when nobody looks at the marshals and at the world. -/
theorem Course.turn {s : Session φ μ} {w w' : ω} {post post' : Post μ} {ok : Option Bool}
    {pool : Pool μ} (h : Course s w post ok pool w' post') : Turn s.pool post ok pool post' := by
  cases h with
  | done => exact .done
  | begin => exact .begin
  | hit h => exact .hit h
  | miss h => exact .miss h
  | create => exact .create
  | dial => exact .dial
  | opened => exact .opened
  | refused => exact .refused
  | giveBack => exact .giveBack
  | reset => exact .reset
  | put => exact .put

namespace Run

/-- What comes of the attempt to open a marshal that worker `k` makes if it goes next. -/
def dialled? (r : Run φ μ ω) (k : Thread) : Option Bool :=
  match r.calls.pending? k, r.calls.sessions with
  | some ⟨_, _, .dial m⟩, [s] =>
    some (Marshal.dial m s.domain.host s.domain.port r.calls.world).1
  | _, _ => none

/-- The outcomes of all attempts to open a marshal on a schedule. -/
def dials (r : Run φ μ ω) : Schedule → List Bool
  | [] => []
  | k :: schedule => (r.dialled? k).toList ++ (r.go k).dials schedule

variable {r : Run φ μ ω} {s : Session φ μ} {posts : List (Post μ)} {k : Thread}

/-! ### A worker goes on -/

omit [Marshal μ ω] [Source φ μ ω] in
theorem Shows.worker (h : r.Shows s posts) (k : Thread) :
    r.workers[k]? = posts[k]?.map Post.worker := by
  rw [h.workers, List.getElem?_map]

omit [Marshal μ ω] [Source φ μ ω] in
theorem Shows.free {post : Post μ} (h : r.Shows s posts) (hk : posts[k]? = some post)
    (hcall : post.phase.call? = none) : r.calls.pending? k = none := by
  have hpending := h.pending k
  rw [hk, Option.bind_some, hcall] at hpending
  exact Option.map_eq_none_iff.mp hpending

omit [Marshal μ ω] [Source φ μ ω] in
theorem Shows.busy {post : Post μ} {call : Call μ} (h : r.Shows s posts)
    (hk : posts[k]? = some post) (hcall : post.phase.call? = some call) :
    ∃ started, r.calls.pending? k = some ⟨0, started, call⟩ := by
  have hpending := h.pending k
  rw [hk, Option.bind_some, hcall] at hpending
  obtain ⟨⟨place, started, next⟩, hp, heq⟩ := Option.map_eq_some_iff.mp hpending
  cases heq
  exact ⟨started, hp⟩

/-- A worker that is not there does nothing. -/
theorem Shows.go_absent (h : r.Shows s posts) (hk : posts[k]? = none) : r.go k = r := by
  simp only [go, h.worker, hk, Option.map_none]

/-- A worker begins a call. -/
theorem Shows.go_free {post post' : Post μ} {call : Call μ} (h : r.Shows s posts)
    (hk : posts[k]? = some post) (hfree : post.phase.call? = none)
    (hnext : post.worker.next? = some (call, post'.worker))
    (hcall : post'.phase.call? = some call) :
    (r.go k).Shows s (posts.set k post') ∧ (r.go k).calls.world = r.calls.world := by
  have hbegun : r.go k = ⟨r.calls.begun k 0 call, r.workers.set k post'.worker⟩ := by
    have hstart : r.calls.move (.start k 0 call) = r.calls.begun k 0 call :=
      Interleaving.move_start (h.free hk hfree) (by rw [h.sessions]; rfl) call
    simp only [go, h.worker, hk, Option.map_some, h.free hk hfree, hnext, hstart]
  rw [hbegun]
  refine ⟨⟨h.sessions, ?_, fun k' => ?_⟩, rfl⟩
  · rw [h.workers, List.map_set]
  · by_cases hk' : k' = k
    · subst hk'
      have hlt := (List.getElem?_eq_some_iff.mp hk).1
      simp [List.getElem?_set_self hlt, hcall]
    · rw [Interleaving.pending?_begun_of_ne _ hk', List.getElem?_set_ne (Ne.symm hk')]
      exact h.pending k'

/-- A worker takes a step of the call that it is in. -/
theorem Shows.go_busy {post post' : Post μ} {call : Call μ} (h : r.Shows s posts)
    (hk : posts[k]? = some post) (hbusy : post.phase.call? = some call)
    {out : (Call μ ⊕ Result μ) × Session φ μ × ω} (hstep : call.step s r.calls.world = out)
    (hcall : post'.phase.call? = out.1.getLeft?)
    (hworker : post'.worker = out.1.elim (fun _ => post.worker) post.worker.note) :
    (r.go k).Shows out.2.1 (posts.set k post') ∧ (r.go k).calls.world = out.2.2 := by
  subst hstep
  obtain ⟨started, hp⟩ := h.busy hk hbusy
  have hlt := (List.getElem?_eq_some_iff.mp hk).1
  have hwork : r.workers[k]? = some post.worker := by rw [h.worker, hk, Option.map_some]
  have hadvance : r.calls.move (.advance k) = r.calls.advance k ⟨0, started, call⟩ s :=
    Interleaving.move_advance hp (by rw [h.sessions]; rfl)
  have hgo : r.go k = ⟨r.calls.advance k ⟨0, started, call⟩ s, r.workers.set k post'.worker⟩ := by
    have hthen := Interleaving.pending?_advance r.calls k ⟨0, started, call⟩ s
    have hover := Interleaving.advance_finished r.calls k ⟨0, started, call⟩ s
    rw [Interleaving.outcome] at hthen hover
    simp only [go, hwork, hp, hadvance]
    cases hout : (call.step s r.calls.world).1 with
    | inl next =>
      simp only [hout, Sum.elim_inl] at hthen hworker
      obtain ⟨hlt, hsame⟩ := List.getElem?_eq_some_iff.mp hwork
      rw [hthen, hworker, ← hsame, List.set_getElem_self]
    | inr result =>
      simp only [hout, Sum.elim_inr, List.singleton_append] at hthen hover hworker
      rw [hthen, hover, hworker]
      rfl
  rw [hgo]
  refine ⟨⟨?_, ?_, fun k' => ?_⟩, Interleaving.advance_world ..⟩
  · rw [Interleaving.advance_sessions, h.sessions]
    rfl
  · rw [h.workers, List.map_set]
  · by_cases hk' : k' = k
    · subst hk'
      rw [Interleaving.pending?_advance, Interleaving.outcome, List.getElem?_set_self hlt,
        Option.bind_some, hcall]
      cases (call.step s r.calls.world).1 <;> rfl
    · rw [Interleaving.pending?_advance_of_ne _ _ _ _ hk', List.getElem?_set_ne (Ne.symm hk')]
      exact h.pending k'

omit [Marshal μ ω] [Source φ μ ω] in
/-- Before the first step everybody rests. -/
theorem shows_start (workers rounds : Nat) (s : Session φ μ) (w : ω) :
    (start workers rounds s w).Shows s (List.replicate workers { left := rounds }) := by
  refine ⟨rfl, ?_, fun k => ?_⟩
  · rw [List.map_replicate]
    rfl
  · rw [List.getElem?_replicate]
    split <;> rfl

omit [Source φ μ ω] in
theorem Shows.dialled?_eq (h : r.Shows s posts) (k : Thread) :
    r.dialled? k = (posts[k]?.bind (·.phase.call?)).bind fun
      | .dial m => some (Marshal.dial m s.domain.host s.domain.port r.calls.world).1
      | _ => none := by
  rw [dialled?, h.sessions]
  cases hcall : posts[k]?.bind (·.phase.call?) with
  | none =>
    have hpending := h.pending k
    rw [hcall] at hpending
    rw [Option.map_eq_none_iff.mp hpending]
    rfl
  | some call =>
    have hpending := h.pending k
    rw [hcall] at hpending
    obtain ⟨⟨place, started, next⟩, hp, heq⟩ := Option.map_eq_some_iff.mp hpending
    cases heq
    rw [hp]
    cases next <;> rfl

/-- Whoever goes next goes on, as long as the session is open. -/
theorem Shows.course {post : Post μ} (h : r.Shows s posts) (hopen : s.pool.closed = false)
    (hk : posts[k]? = some post) :
    ∃ pool w' post', Course s r.calls.world post (r.dialled? k) pool w' post' ∧
      (r.go k).Shows { s with pool } (posts.set k post') ∧ (r.go k).calls.world = w' := by
  rw [h.dialled?_eq, hk, Option.bind_some]
  obtain ⟨left, phase, ex, un⟩ := post
  cases phase with
  | resting =>
    cases left with
    | zero =>
      have hdone : r.go k = r := by
        simp only [Run.go, h.worker, hk, Option.map_some, h.free hk rfl]
        rfl
      obtain ⟨hlt, hsame⟩ := List.getElem?_eq_some_iff.mp hk
      refine ⟨_, _, _, .done, ?_, congrArg (·.calls.world) hdone⟩
      rw [hdone, ← hsame, List.set_getElem_self]
      exact h
    | succ left => exact ⟨_, _, _, .begin, h.go_free hk rfl rfl rfl⟩
  | holding m => exact ⟨_, _, _, .giveBack, h.go_free hk rfl rfl rfl⟩
  | taking =>
    generalize hstep : Call.step s r.calls.world .acquire = out
    have hstepped := Session.stepped s r.calls.world .acquire
    rw [hstep] at hstepped
    cases hstepped with
    | hit hidle => exact ⟨_, _, _, .hit hidle, h.go_busy hk rfl hstep rfl rfl⟩
    | miss hidle => exact ⟨_, _, _, .miss hidle, h.go_busy hk rfl hstep rfl rfl⟩
  | creating => exact ⟨_, _, _, .create, h.go_busy hk rfl rfl rfl rfl⟩
  | dialling m => exact ⟨_, _, _, .dial rfl, h.go_busy hk rfl rfl rfl rfl⟩
  | settling m ok =>
    cases ok with
    | true => exact ⟨_, _, _, .opened, h.go_busy hk rfl rfl rfl rfl⟩
    | false => exact ⟨_, _, _, .refused, h.go_busy hk rfl rfl rfl rfl⟩
  | resetting m => exact ⟨_, _, _, .reset, h.go_busy hk rfl rfl rfl rfl⟩
  | putting m =>
    generalize hstep : Call.step s r.calls.world (.put m) = out
    have hstepped := Session.stepped s r.calls.world (.put m)
    rw [hstep] at hstepped
    cases hstepped with
    | kept m => exact ⟨_, _, _, .put, h.go_busy hk rfl hstep rfl rfl⟩
    | turnedAway m hclosed =>
      rw [hopen] at hclosed
      cases hclosed

end Run

end SessionPool.Stress
