import SessionPool.Proofs.Custody.Moves
import SessionPool.Proofs.Steps

/-!
# Marshals ready for use

Whatever their holders do to marshals, a session hands out clean ones: it resets a marshal when it
comes back, and once more before it is handed out. A reset opens nothing, so marshals are handed out
open only as long as open ones are given back; but a marshal that could not be opened never gets
into a pool.

Both are cases of one argument. It needs to know of a quality of marshals only what a standard says:

    given back ──reset──▶ idle ──reset──▶ handed out
                                             ▲
    created ──opened──────────────reset──────┘
-/

namespace SessionPool

open Session (Call Result)
open Script (World Holder Deed MockAct TcpAct)

/-- A quality of marshals, and a weaker one that is enough to start with: a reset turns the one into
the other, and a marshal that could be opened has at least the weaker one. -/
structure Standard (μ ω : Type) [Marshal μ ω] where
  isReady : μ → Bool
  isTakeable : μ → Bool
  isReady_reset (m : μ) (w : ω) (h : isTakeable m = true) : isReady (Marshal.reset m w).1 = true
  isTakeable_dial (m : μ) (host : String) (port : UInt16) (w : ω)
    (h : (Marshal.dial m host port w).1 = true) :
    isTakeable (Marshal.dial m host port w).2.1 = true
  isTakeable_of_isReady (m : μ) (h : isReady m = true) : isTakeable m = true

/-! ### Clean marshals and open marshals -/

namespace Mock.Marshal

def isClean (m : Marshal) : Bool := !m.isDirty

/-- Any marshal is clean after a reset. -/
def cleanliness : Standard Marshal Fleet where
  isReady := isClean
  isTakeable _ := true
  isReady_reset _ _ _ := rfl
  isTakeable_dial _ _ _ _ _ := rfl
  isTakeable_of_isReady _ _ := rfl

/-- A reset leaves an open marshal open. -/
def openness : Standard Marshal Fleet where
  isReady := isOpen
  isTakeable := isOpen
  isReady_reset _ _ h := h
  isTakeable_dial _ _ _ _ h := h
  isTakeable_of_isReady _ h := h

end Mock.Marshal

namespace Tcp.Marshal

variable {ω ε : Type} [Network ω ε]

/-- Nothing is in the scratch buffer, and the next message is the first one. -/
def isClean (m : Marshal) : Bool := m.scratch.isEmpty && m.nextId == 0

theorem isOpen_dial {m : Marshal} {host : String} {port : UInt16} {w : ω}
    (h : (m.dial host port w).1 = true) : (m.dial host port w).2.1.isOpen = true := by
  unfold dial at h ⊢
  split at h
  · rfl
  · cases h

/-- Any marshal is clean after a reset. -/
def cleanliness : Standard Marshal ω where
  isReady := isClean
  isTakeable _ := true
  isReady_reset _ _ _ := rfl
  isTakeable_dial _ _ _ _ _ := rfl
  isTakeable_of_isReady _ _ := rfl

/-- A reset leaves the stream alone. -/
def openness : Standard Marshal ω where
  isReady := isOpen
  isTakeable := isOpen
  isReady_reset _ _ h := h
  isTakeable_dial _ _ _ _ h := isOpen_dial h
  isTakeable_of_isReady _ h := h

end Tcp.Marshal

/-! ### One step -/

namespace Session

variable {φ μ ω : Type} [Marshal μ ω]

/-- What a call is to bring along: a marshal with the quality for the pool, and one with the weaker
quality for a reset. -/
def Call.Keeps (q : Standard μ ω) : Call μ → Prop
  | .settle m true | .release m => q.isTakeable m = true
  | .put m => q.isReady m = true
  | _ => True

/-- What is handed out is to have the quality. -/
def Result.Keeps (q : Standard μ ω) : Result μ → Prop
  | .acquired (some m) => q.isReady m = true
  | _ => True

variable [Source φ μ ω] {s : Session φ μ} {w : ω} {c : Call μ}
  {out : (Call μ ⊕ Result μ) × Session φ μ × ω}

theorem Stepped.keeps_outcome (h : Stepped s w c out) {q : Standard μ ω} (hc : c.Keeps q)
    (hidle : ∀ m ∈ s.pool.idle, q.isReady m = true) :
    out.1.elim (fun next => next.Keeps q) fun result => result.Keeps q := by
  cases h with
  | @hit m rest h =>
    have hready : q.isReady m = true := hidle m (by simp [h])
    exact q.isReady_reset m w (q.isTakeable_of_isReady m hready)
  | dial m =>
    -- Whether the marshal could be opened decides what the call goes on with.
    show Call.Keeps q (.settle _ (Marshal.dial m s.domain.host s.domain.port w).1)
    cases hok : (Marshal.dial m s.domain.host s.domain.port w).1 with
    | true => exact q.isTakeable_dial m _ _ w hok
    | false => exact True.intro
  | opened m => exact q.isReady_reset m w hc
  | release m => exact q.isReady_reset m w hc
  | _ => exact True.intro

theorem Stepped.ready_idle (h : Stepped s w c out) {q : Standard μ ω} (hc : c.Keeps q)
    (hidle : ∀ m ∈ s.pool.idle, q.isReady m = true) :
    ∀ m ∈ out.2.1.pool.idle, q.isReady m = true := by
  cases h with
  | hit h =>
    intro m hm
    rw [Pool.take_idle] at hm
    exact hidle m (List.mem_of_mem_tail hm)
  | miss h =>
    intro m hm
    rw [Pool.take_idle] at hm
    exact hidle m (List.mem_of_mem_tail hm)
  | kept m h =>
    rw [Pool.put_idle, h, if_neg Bool.false_ne_true]
    exact List.forall_mem_cons.mpr ⟨hc, hidle⟩
  | turnedAway m h =>
    rw [Pool.put_idle, h, if_pos rfl]
    exact hidle
  | close =>
    show ∀ m ∈ s.pool.drain.2.idle, q.isReady m = true
    rw [Pool.drain]
    split
    · exact hidle
    · simp
  | _ => exact hidle

end Session

/-! ### The invariant -/

namespace Custody

variable {φ μ ω χ α : Type}

/-- What a session could hand out has a quality, and so has all that was handed out, as it was
then. -/
structure Ready (st : Custody φ μ ω) (isReady : μ → Bool) : Prop where
  idle : ∀ s ∈ st.calls.sessions, ∀ m ∈ s.pool.idle, isReady m = true
  handedOut : ∀ back ∈ st.calls.finished, ∀ m, back.result = .acquired (some m) → isReady m = true

/-- Whether what a move gives back to a session has a quality at that moment. -/
def returns (isTakeable : μ → Bool) (st : Custody φ μ ω) : Move μ χ α → Bool
  | .release t _ i | .endLease t i => (st.inHand? t i).all fun h => isTakeable h.marshal
  | _ => true

variable [Marshal μ ω]

/-- A standard is kept in the pools, in what was handed out, and in the calls under way. -/
structure Keeps (st : Custody φ μ ω) (q : Standard μ ω) : Prop where
  idle : ∀ s ∈ st.calls.sessions, ∀ m ∈ s.pool.idle, q.isReady m = true
  finished : ∀ back ∈ st.calls.finished, back.result.Keeps q
  pending : ∀ entry ∈ st.calls.pending, entry.2.next.Keeps q

theorem Keeps.ready {st : Custody φ μ ω} {q : Standard μ ω} (h : st.Keeps q) :
    st.Ready q.isReady where
  idle := h.idle
  handedOut back hback m hm := by
    have hkeeps := h.finished back hback
    rwa [hm] at hkeeps

theorem keeps_fresh (w : ω) {sessions : List (Session φ μ)} (q : Standard μ ω)
    (new : ∀ s ∈ sessions, s.pool.idle = []) : (fresh w sessions).Keeps q where
  idle s hs m hm := by
    rw [new s hs] at hm
    cases hm
  finished _ hback := by cases hback
  pending _ hentry := by cases hentry

variable [Source φ μ ω] {st : Custody φ μ ω} {q : Standard μ ω}

theorem Keeps.advance (h : st.Keeps q) (t : Thread) : (st.advance t).Keeps q := by
  rcases st.advance_cases t with heq | ⟨p, s, hp, hs, hcalls⟩
  · rwa [heq]
  have hmem : s ∈ st.calls.sessions := List.mem_of_getElem? hs
  have hcall : p.next.Keeps q := h.pending _ (Interleaving.mem_pending hp)
  have hstepped := Session.stepped s st.calls.world p.next
  have hout := hstepped.keeps_outcome hcall (h.idle s hmem)
  change (st.calls.outcome p s).1.elim _ _ at hout
  refine ⟨?_, ?_, ?_⟩
  · rw [hcalls, Interleaving.advance_sessions]
    intro s' hs'
    rcases List.mem_or_eq_of_mem_set hs' with hold | rfl
    · exact h.idle s' hold
    · exact hstepped.ready_idle hcall (h.idle s hmem)
  · rw [hcalls, Interleaving.advance_finished]
    cases hcase : (st.calls.outcome p s).1 with
    | inl next => exact h.finished
    | inr result =>
      rw [hcase] at hout
      exact List.forall_mem_cons.mpr ⟨hout, h.finished⟩
  · rw [hcalls, Interleaving.advance_pending]
    have hothers : ∀ entry ∈ st.calls.others t, entry.2.next.Keeps q := by
      intro entry hentry
      exact h.pending entry (Interleaving.mem_others.mp hentry).1
    cases hcase : (st.calls.outcome p s).1 with
    | inl next =>
      rw [hcase] at hout
      exact List.forall_mem_cons.mpr ⟨hout, hothers⟩
    | inr result => exact hothers

theorem Keeps.start (h : st.Keeps q) {t : Thread} {place : Place}
    (hcan : st.canCall t place = true) (call : Call μ) (hcall : call.Keeps q) :
    (st.start t place call).Keeps q := by
  have hcalls := calls_start hcan call
  refine ⟨?_, ?_, ?_⟩
  · rw [hcalls]
    exact h.idle
  · rw [hcalls]
    exact h.finished
  · rw [hcalls]
    exact List.forall_mem_cons.mpr ⟨hcall, h.pending⟩

variable [World ω χ] [Holder μ α]

theorem Keeps.arranged {st' : Custody φ μ ω} {m : Move μ χ α} (h : st.Keeps q)
    (harranged : Arranged st m st') (hback : st.returns q.isTakeable m = true) : st'.Keeps q := by
  -- Only a call that begins matters, and only a release begins with a marshal.
  cases harranged with
  | request r hcan =>
    have hstart := h.start hcan r.call (by cases r <;> trivial)
    exact ⟨hstart.idle, hstart.finished, hstart.pending⟩
  | release hh hfree hcan =>
    rw [returns, hh] at hback
    have hstart := h.start hcan (.release _) hback
    exact ⟨hstart.idle, hstart.finished, hstart.pending⟩
  | endLease hh hleased horigin hcan =>
    rw [returns, hh] at hback
    have hstart := h.start hcan (.release _) hback
    exact ⟨hstart.idle, hstart.finished, hstart.pending⟩
  | dropSession hcan hfree =>
    have hstart := h.start hcan .close trivial
    exact ⟨hstart.idle, hstart.finished, hstart.pending⟩
  | _ => exact ⟨h.idle, h.finished, h.pending⟩

theorem Keeps.move {m : Move μ χ α} (h : st.Keeps q) (hback : st.returns q.isTakeable m = true) :
    (st.move m).Keeps q := by
  rcases m.advance_or with ⟨t, rfl⟩ | hm
  · exact h.advance t
  · exact h.arranged (Custody.arranged st hm) hback

/-- **What is given back in a quality is handed out in it**, in every run. -/
theorem ready_run (w : ω) {sessions : List (Session φ μ)} (q : Standard μ ω)
    (new : ∀ s ∈ sessions, s.pool.idle = []) {moves : List (Move μ χ α)}
    (hback : (fresh w sessions).permits (returns q.isTakeable) moves = true) :
    ((fresh w sessions).run moves).Ready q.isReady :=
  (run_invariant (fun _ _ hm h => Keeps.move h hm) hback (keeps_fresh w q new)).ready

/-! ### The theorem -/

/-- What sessions hand out in a run, and what they have idle after it, is clean. If moreover all
that is given back in the run is open at that moment, it is open, too. -/
structure Usable (st : Custody φ μ ω) (moves : List (Move μ χ α)) (isClean isOpen : μ → Bool) :
    Prop where
  clean : (st.run moves).Ready isClean
  opened : st.permits (returns isOpen) moves = true → (st.run moves).Ready isOpen

theorem permits_returns_any (st : Custody φ μ ω) (moves : List (Move μ χ α)) :
    st.permits (returns fun _ => true) moves = true := by
  induction moves generalizing st with
  | nil => rfl
  | cons m moves ih =>
    rw [permits, ih, Bool.and_true]
    cases m with
    | release t place i =>
      rw [returns]
      exact Option.all_true
    | endLease t i =>
      rw [returns]
      exact Option.all_true
    | _ => rfl

/-- A reset makes any marshal clean, and it leaves open what is open. -/
theorem usable_of_standards (w : ω) {sessions : List (Session φ μ)} (clean opened : Standard μ ω)
    (hclean : clean.isTakeable = fun _ => true) (hopened : opened.isTakeable = opened.isReady)
    (new : ∀ s ∈ sessions, s.pool.idle = []) (moves : List (Move μ χ α)) :
    (fresh w sessions).Usable moves clean.isReady opened.isReady where
  clean := by
    refine ready_run w clean new ?_
    rw [hclean]
    exact permits_returns_any _ moves
  opened hback := by
    refine ready_run w opened new ?_
    rw [hopened]
    exact hback

/-- **Every marshal that is handed out is clean**, and open as long as open ones are given back,
whatever the holders do to marshals in the meantime. This holds of mock marshals, and of marshals
over TCP on any network. -/
theorem usable_handOuts {ω ε χ : Type} [Tcp.Network ω ε] [World ω χ] (fleet : Mock.Fleet)
    (mocks : List (Session Mock.Factory Mock.Marshal)) (newMocks : ∀ s ∈ mocks, s.pool.idle = [])
    (mockMoves : List MockMove) (network : ω) (tcps : List (Session Tcp.Factory Tcp.Marshal))
    (newTcps : ∀ s ∈ tcps, s.pool.idle = []) (tcpMoves : List (Move Tcp.Marshal χ TcpAct)) :
    (fresh fleet mocks).Usable mockMoves Mock.Marshal.isClean Mock.Marshal.isOpen ∧
      (fresh network tcps).Usable tcpMoves Tcp.Marshal.isClean Tcp.Marshal.isOpen :=
  ⟨usable_of_standards fleet Mock.Marshal.cleanliness Mock.Marshal.openness rfl rfl newMocks
      mockMoves,
    usable_of_standards network Tcp.Marshal.cleanliness Tcp.Marshal.openness rfl rfl newTcps
      tcpMoves⟩

/-- A marshal is used, closed, opened again and given back, and then leased to another thread. -/
def usedAndReopened {μ χ α : Type} (use : α) (host : String) (port : UInt16) :
    List (Move μ χ α) :=
  [.request 0 0 .acquire, .advance 0, .advance 0, .advance 0, .advance 0,
    .deed 0 0 (.act use), .deed 0 0 .close, .deed 0 0 (.dial host port),
    .release 0 0 0, .advance 0, .advance 0, .request 1 0 .lease, .advance 1]

/-- Of either kind one session, and every marshal is open when it is given back. -/
theorem usable_usedAndReopened :
    (fresh (⟨[{}]⟩ : Mock.Fleet)
        [(⟨1, 0, {}, ⟨0⟩, {}⟩ : Session Mock.Factory Mock.Marshal)]).permits
          (returns Mock.Marshal.isOpen) (usedAndReopened MockAct.markDirty "" 1) = true ∧
      (fresh (⟨true, [{}]⟩ : Tcp.Loopback)
        [(⟨1, 0, { host := "127.0.0.1", port := 49152 }, {}, {}⟩ :
          Session Tcp.Factory Tcp.Marshal)]).permits
          (returns Tcp.Marshal.isOpen)
          (usedAndReopened (TcpAct.takeMessageIds 3) "127.0.0.1" 49152) = true ∧
      (fresh (⟨[{}]⟩ : Mock.Fleet)
        [(⟨1, 0, {}, ⟨0⟩, {}⟩ : Session Mock.Factory Mock.Marshal)]).Usable
          (usedAndReopened MockAct.markDirty "" 1) Mock.Marshal.isClean Mock.Marshal.isOpen ∧
      (fresh (⟨true, [{}]⟩ : Tcp.Loopback)
        [(⟨1, 0, { host := "127.0.0.1", port := 49152 }, {}, {}⟩ :
          Session Tcp.Factory Tcp.Marshal)]).Usable
          (usedAndReopened (TcpAct.takeMessageIds 3) "127.0.0.1" 49152)
          Tcp.Marshal.isClean Tcp.Marshal.isOpen :=
  ⟨by decide, by decide,
    usable_handOuts (⟨[{}]⟩ : Mock.Fleet) [⟨1, 0, {}, ⟨0⟩, {}⟩] (by decide) _
      (⟨true, [{}]⟩ : Tcp.Loopback)
      [⟨1, 0, { host := "127.0.0.1", port := 49152 }, {}, {}⟩] (by decide) _⟩

end Custody

end SessionPool
