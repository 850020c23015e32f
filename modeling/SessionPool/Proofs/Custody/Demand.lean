import Mathlib.Data.List.Perm.Subperm
import SessionPool.Proofs.Custody.Outstanding
import SessionPool.Proofs.Custody.Turns
import SessionPool.Proofs.Mock.Log

/-!
# A pool is no larger than the demand was

A session opens a marshal only when it has none idle, and it counts the marshal as out in the same
step in which it finds that out. So what it has idle was out before, and most of all at the moment
at which most were out:

    idle + outstanding ≤ greatest value of outstanding so far,

however the calls of the threads overlap. The marshals that it has opened are no more than that
either, except for those in place of marshals that it has given up:

    opened ≤ greatest value of outstanding so far + given up.
-/

namespace SessionPool

open Session (Call Result)
open Script (World Holder)

variable {φ μ ω χ α : Type}

/-! ### What a step opens and what it gives up -/

namespace Turn

variable [Marshal μ ω] [Source φ μ ω]

/-- Whether a step opens a marshal. -/
def opens (turn : Turn φ μ ω) : Bool :=
  match turn.outcome.1 with
  | .inl (.settle _ ok) => ok
  | _ => false

/-- How many marshals a session gives up by a step: those that are idle when the session is closed,
or the one that it turns away. The former are closed in this very step. The latter is closed by a
step of its own, outside the lock, and other threads may have the lock in between. -/
def givesUp (turn : Turn φ μ ω) : Nat :=
  match turn.outcome.1 with
  | .inr (.closed count) => count
  | .inl (.discard _) => 1
  | _ => 0

/-- How many marshals were opened in some turns. -/
def opened (ts : List (Turn φ μ ω)) : Nat := ts.countP opens

/-- How many marshals were given up in some turns. -/
def givenUp (ts : List (Turn φ μ ω)) : Nat := (ts.map givesUp).foldr (· + ·) 0

theorem opened_snoc (ts : List (Turn φ μ ω)) (turn : Turn φ μ ω) :
    opened (ts ++ [turn]) = opened ts + turn.opens.toNat := by
  rw [opened, List.countP_append, countP_cons_toNat, List.countP_nil, Nat.zero_add]
  rfl

theorem givenUp_snoc (ts : List (Turn φ μ ω)) (turn : Turn φ μ ω) :
    givenUp (ts ++ [turn]) = givenUp ts + turn.givesUp := by
  induction ts with
  | nil => exact Nat.add_comm _ _
  | cons first ts ih =>
    show first.givesUp + givenUp (ts ++ [turn]) = first.givesUp + givenUp ts + turn.givesUp
    omega

theorem givenUp_eq_zero {ts : List (Turn φ μ ω)} (h : ∀ turn ∈ ts, turn.givesUp = 0) :
    givenUp ts = 0 := by
  induction ts with
  | nil => rfl
  | cons first ts ih =>
    have hfirst : first.givesUp = 0 := h first (by simp)
    have hrest : givenUp ts = 0 := ih fun turn hturn => h turn (by simp [hturn])
    show first.givesUp + givenUp ts = 0
    omega

end Turn

/-- The marshals outside the pool that were opened and not given up. -/
def Tally.live : Tally μ where
  call
    | .settle _ ok => ok
    | .release _ | .put _ => true
    | _ => false
  holding h := h.origin.isSome
  result := Result.isHandOut

theorem Tally.live_lawful : (Tally.live : Tally μ).Lawful where
  request r := by cases r <;> rfl
  relabel _ _ _ := rfl
  result := countP_gained

namespace Session

variable [Marshal μ ω] [Source φ μ ω] {s : Session φ μ} {w : ω} {c : Call μ}
  {out : (Call μ ⊕ Result μ) × Session φ μ × ω}

/-- The idle marshals and those that are out become more in a step only when none is idle. -/
theorem Stepped.pooled_add_outstanding_le (h : Stepped s w c out)
    (hpos : c.isCounted = true → 0 < s.pool.outstanding) :
    out.2.1.pooled + out.2.1.outstanding ≤ s.pooled + s.outstanding ∨ out.2.1.pooled = 0 := by
  unfold Session.pooled Session.outstanding
  cases h with
  | hit h =>
    left
    rw [Pool.take_idle, Pool.take_outstanding, h, List.tail_cons, List.length_cons]
    omega
  | miss h =>
    right
    rw [Pool.take_idle, h]
    rfl
  | refused m =>
    left
    exact Nat.add_le_add_left (Nat.sub_le _ _) _
  -- What comes back was counted as out, so that the sum stays what it was.
  | kept m h =>
    left
    have hout := hpos rfl
    rw [Pool.put_idle, Pool.put_outstanding, h, if_neg Bool.false_ne_true, List.length_cons]
    omega
  | turnedAway m h =>
    left
    rw [Pool.put_idle, Pool.put_outstanding, h, if_pos rfl]
    omega
  | close =>
    left
    rw [Pool.drain_outstanding]
    apply Nat.add_le_add_right
    unfold Pool.drain
    split
    · exact Nat.le_refl _
    · exact Nat.zero_le _
  | _ => exact .inl (Nat.le_refl _)

end Session

section

variable [Marshal μ ω] [Source φ μ ω]

/-- What a step opens is in its call or handed out afterwards, and what it gives up was idle or in
its call before. -/
theorem Turn.live_outcome (turn : Turn φ μ ω) :
    turn.outcome.2.1.pooled + Tally.live.outcome turn.outcome.1 + turn.givesUp =
      turn.session.pooled + (Tally.live.call turn.call).toNat + turn.opens.toNat := by
  have hstep := turn.stepped
  unfold givesUp opens Session.pooled
  generalize turn.outcome = out at hstep ⊢
  obtain ⟨t, place, started, c, s, w⟩ := turn
  cases hstep with
  | hit h =>
    rw [Pool.take_idle, h]
    rfl
  | miss h =>
    rw [Pool.take_idle, h]
    rfl
  | dial m =>
    show _ + Bool.toNat _ + 0 = _ + 0 + Bool.toNat _
    rfl
  | kept m h =>
    rw [Pool.put_idle, h]
    rfl
  | turnedAway m h =>
    rw [Pool.put_idle, h]
    rfl
  | close =>
    show s.pool.drain.2.idle.length + 0 + s.pool.drain.1.length = s.pool.idle.length + 0 + 0
    unfold Pool.drain
    split
    · rfl
    · exact Nat.zero_add _
  | _ => rfl

end

namespace Custody

/-! ### Peaks -/

/-- What the session at a place counts as out. -/
def countAt (st : Custody φ μ ω) (place : Place) : Nat :=
  st.calls.sessions[place]?.elim 0 Session.outstanding

theorem countAt_zero {st : Custody φ μ ω} {s : Session φ μ} (hs : st.calls.sessions = [s]) :
    st.countAt 0 = s.outstanding := by
  rw [countAt, hs]
  rfl

/-- The threads that are in a call or have a marshal, once for each call and each marshal. -/
def busy (st : Custody φ μ ω) : List Thread :=
  st.calls.pending.map (·.1) ++ st.holdings.map (·.owner)

/-- Whether only the threads of a crew are in calls or have marshals, none of them is in more than
one call or has more than one marshal or both, and nobody has dropped a marshal. -/
def isModest (crew : List Thread) (st : Custody φ μ ω) : Bool :=
  st.busy.all crew.contains && decide st.busy.Nodup && st.dropped.isEmpty

variable [Marshal μ ω] [Source φ μ ω] [World ω χ] [Holder μ α]

/-- The greatest number of marshals that the session at a place has counted as out in a run. -/
def peak (st : Custody φ μ ω) (place : Place) : List (Move μ χ α) → Nat
  | [] => st.countAt place
  | m :: moves => max (st.countAt place) ((st.move m).peak place moves)

/-- Whether a crew is modest in every state of a run after the first. -/
def isModestRun (crew : List Thread) (st : Custody φ μ ω) (moves : List (Move μ χ α)) : Bool :=
  st.permits (fun st m => (st.move m).isModest crew) moves

theorem countAt_le_peak (st : Custody φ μ ω) (place : Place) (moves : List (Move μ χ α)) :
    st.countAt place ≤ st.peak place moves := by
  cases moves with
  | nil => exact Nat.le_refl _
  | cons m moves => exact Nat.le_max_left _ _

variable {before : Nat} {st : Custody φ μ ω} {s : Session φ μ}

/-! ### Idle marshals and those that are out -/

theorem Exact.pooled_le_of_move (h : st.Exact before) (hs : st.calls.sessions = [s])
    (m : Move μ χ α) {s' : Session φ μ} (hs' : (st.move m).calls.sessions = [s']) :
    s'.pooled + s'.outstanding ≤ max (s.pooled + s.outstanding) s'.outstanding := by
  rcases st.move_cases m with ⟨-, harranged⟩ | ⟨turn, -, -, due, hcalls⟩
  · rw [harranged.begins.sessions_eq, hs] at hs'
    obtain rfl := (List.cons.inj hs').1
    exact Nat.le_max_left _ _
  · obtain ⟨hplace, hsession⟩ := place_eq_zero (hs ▸ due.session)
    rw [hcalls, due.sessions, hs, hplace] at hs'
    obtain rfl : turn.outcome.2.1 = s' := (List.cons.inj hs').1
    have hpos : turn.call.isCounted = true → 0 < turn.session.pool.outstanding := by
      intro hcounted
      rw [hsession]
      exact h.pos hs (Interleaving.mem_pending due.pending) hcounted
    rw [← hsession]
    rcases turn.stepped.pooled_add_outstanding_le hpos with hle | hnone
    · exact Nat.le_trans hle (Nat.le_max_left _ _)
    · rw [hnone, Nat.zero_add]
      exact Nat.le_max_right _ _

theorem Exact.pooled_le_max_peak {moves : List (Move μ χ α)} (h : st.Exact before)
    (loyal : st.isLoyalRun moves = true) (hs : st.calls.sessions = [s]) {s' : Session φ μ}
    (hs' : (st.run moves).calls.sessions = [s']) :
    s'.pooled + s'.outstanding ≤ max (s.pooled + s.outstanding) (st.peak 0 moves) := by
  induction moves generalizing st s with
  | nil =>
    obtain rfl : s = s' := (List.cons.inj (hs.symm.trans hs')).1
    exact Nat.le_max_left _ _
  | cons m moves ih =>
    obtain ⟨hm, hrest⟩ := Bool.and_eq_true_iff.mp loyal
    have hnext := h.move hm
    obtain ⟨s₁, hs₁, -⟩ := hnext.counted
    have hstep := h.pooled_le_of_move hs m hs₁
    have hafter := ih hnext hrest hs₁ hs'
    have hpeak := (st.move m).countAt_le_peak 0 moves
    rw [countAt_zero hs₁] at hpeak
    rw [peak]
    omega

/-! ### Modest crews -/

omit [Marshal μ ω] [Source φ μ ω] in
/-- A modest crew has no more marshals out than there are threads in it. -/
theorem Exact.outstanding_le_of_isModest {crew : List Thread} (h : st.Exact 0)
    (hs : st.calls.sessions = [s]) (modest : st.isModest crew = true) :
    s.outstanding ≤ crew.length := by
  obtain ⟨hboth, hdropped⟩ := Bool.and_eq_true_iff.mp modest
  obtain ⟨hcrew, hnodup⟩ := Bool.and_eq_true_iff.mp hboth
  have hsubset : st.busy ⊆ crew := by
    intro t ht
    exact List.contains_iff_mem.mp (List.all_eq_true.mp hcrew t ht)
  have hlength : st.busy.length ≤ crew.length :=
    (List.subperm_of_subset (of_decide_eq_true hnodup) hsubset).length_le
  obtain ⟨s', hs', hout⟩ := h.counted
  obtain rfl : s' = s := (List.cons.inj (hs'.symm.trans hs)).1
  -- Every marshal that counts as out is in a call or in somebody's hands.
  have hcalls : st.calls.inCalls Call.isCounted ≤ st.calls.pending.length := List.countP_le_length
  have hhands : st.holdings.countP (·.origin.isSome) ≤ st.holdings.length := List.countP_le_length
  have hnone : st.dropped.countP (·.origin.isSome) = 0 := by
    rw [List.isEmpty_iff.mp hdropped]
    rfl
  rw [busy, List.length_append, List.length_map, List.length_map] at hlength
  change s'.outstanding = 0 + (st.calls.inCalls Call.isCounted +
    st.holdings.countP (·.origin.isSome) + st.dropped.countP (·.origin.isSome)) at hout
  omega

theorem Exact.peak_le_of_isModestRun {crew : List Thread} {moves : List (Move μ χ α)}
    (h : st.Exact 0) (loyal : st.isLoyalRun moves = true) (hs : st.calls.sessions = [s])
    (hcrew : s.outstanding ≤ crew.length) (modest : st.isModestRun crew moves = true) :
    st.peak 0 moves ≤ crew.length := by
  induction moves generalizing st s with
  | nil =>
    rw [peak, countAt_zero hs]
    exact hcrew
  | cons m moves ih =>
    obtain ⟨hm, hrest⟩ := Bool.and_eq_true_iff.mp loyal
    obtain ⟨hnow, hlater⟩ := Bool.and_eq_true_iff.mp modest
    have hnext := h.move hm
    obtain ⟨s₁, hs₁, -⟩ := hnext.counted
    rw [peak, countAt_zero hs]
    exact Nat.max_le.mpr
      ⟨hcrew, ih hnext hrest hs₁ (hnext.outstanding_le_of_isModest hs₁ hnow) hlater⟩

/-! ### Opened marshals

Whatever a session has opened is idle, or out, or given up. -/

/-- The only session has opened what it has idle, what is out and opened, and what it has given
up. -/
structure Stocked (ts : List (Turn φ μ ω)) (st : Custody φ μ ω) : Prop where
  exact : st.Exact 0
  opened : ∃ s, st.calls.sessions = [s] ∧
    s.pooled + st.tally .live + Turn.givenUp ts = Turn.opened ts

theorem Stocked.move {ts : List (Turn φ μ ω)} (h : st.Stocked ts) {m : Move μ χ α}
    (loyal : st.isLoyal m = true) : (st.move m).Stocked (ts ++ (st.turn? m).toList) := by
  obtain ⟨s, hs, hopened⟩ := h.opened
  rcases st.move_cases m with ⟨hnone, harranged⟩ | ⟨turn, hsome, hm, due, hcalls⟩
  · refine ⟨h.exact.move loyal, s, ?_, ?_⟩
    · rw [harranged.begins.sessions_eq, hs]
    · have hlive : (st.move m).tally .live = st.tally .live :=
        tally_of_arranged harranged Tally.live_lawful
          (Tally.keptBy_of_isLoyal (fun _ => rfl) (fun _ => rfl) loyal)
      rw [hlive, hnone, Option.toList_none, List.append_nil]
      exact hopened
  · obtain ⟨hplace, hsession⟩ := place_eq_zero (hs ▸ due.session)
    refine ⟨h.exact.move loyal, turn.outcome.2.1, ?_, ?_⟩
    · rw [hcalls, due.sessions, hs, hplace]
      rfl
    · have htally := due.tally Tally.live_lawful h.exact.one
      have hstep := turn.live_outcome
      rw [hsome, Option.toList_some, Turn.givenUp_snoc, Turn.opened_snoc, hm]
      rw [hsession] at hstep
      show _ + (st.advance turn.thread).tally .live + _ = _
      omega

omit [Marshal μ ω] [Source φ μ ω] in
theorem tally_live_le (st : Custody φ μ ω) : st.tally .live ≤ st.tally .out := by
  have hcalls : st.calls.inCalls Tally.live.call ≤ st.calls.inCalls Call.isCounted := by
    apply List.countP_mono_left
    intro entry _ hlive
    revert hlive
    cases entry.2.next with
    | settle m ok => exact fun _ => rfl
    | release m => exact fun _ => rfl
    | put m => exact fun _ => rfl
    | _ => exact fun h => absurd h Bool.false_ne_true
  exact Nat.add_le_add_right (Nat.add_le_add_right hcalls _) _

/-! ### The theorem -/

/-- A session that has grown with the demand for it: its idle marshals together with those that are
out are no more than its peak, so the idle ones are no more than there are threads in a modest crew.
Every marshal that it has opened beyond its peak stands in for one that it has given up, so as long
as it has given up none, the marshals that it has opened are no more than its peak. -/
structure WithinDemand (st : Custody φ μ ω) (moves : List (Move μ χ α)) (s : Session φ μ) :
    Prop where
  pooled : s.pooled + s.outstanding ≤ st.peak 0 moves
  crew : ∀ crew : List Thread, st.isModestRun crew moves = true → s.pooled ≤ crew.length
  replaced : Turn.opened (st.turns moves) ≤ st.peak 0 moves + Turn.givenUp (st.turns moves)
  opened : (∀ turn ∈ st.turns moves, turn.givesUp = 0) →
    Turn.opened (st.turns moves) ≤ st.peak 0 moves

/-- **A pool does not outgrow the demand**, in any run of threads over a new session to which they
give back only what it handed out. -/
theorem withinDemand (localId : UInt64) (domain : Domain) (factory : φ) (w : ω)
    (moves : List (Move μ χ α))
    (loyal : (fresh w [{ localId, domain, factory }]).isLoyalRun moves = true) :
    ∃ s, ((fresh w [{ localId, domain, factory }]).run moves).calls.sessions = [s] ∧
      (fresh w [{ localId, domain, factory }]).WithinDemand moves s := by
  have hfresh : (fresh w [({ localId, domain, factory } : Session φ μ)]).Exact 0 :=
    exact_fresh w { localId, domain, factory }
  have hstocked : (((fresh w [{ localId, domain, factory }]).run moves)).Stocked
      ([] ++ (fresh w [{ localId, domain, factory }]).turns moves) :=
    run_turns_invariant (fun _ _ _ hm h => h.move hm) loyal ⟨hfresh, _, rfl, rfl⟩
  obtain ⟨s, hs, hopened⟩ := hstocked.opened
  obtain ⟨s', hs', hout⟩ := hstocked.exact.counted
  obtain rfl : s' = s := (List.cons.inj (hs'.symm.trans hs)).1
  have hpooled : s'.pooled + s'.outstanding ≤ max 0 _ := hfresh.pooled_le_max_peak loyal rfl hs
  rw [Nat.zero_max] at hpooled
  have hreplaced : Turn.opened ((fresh w [{ localId, domain, factory }]).turns moves) ≤
      (fresh w [{ localId, domain, factory }]).peak 0 moves +
        Turn.givenUp ((fresh w [{ localId, domain, factory }]).turns moves) := by
    have hlive := ((fresh w [{ localId, domain, factory }]).run moves).tally_live_le
    rw [List.nil_append] at hopened
    change s'.outstanding = _ at hout
    omega
  refine ⟨s', hs, hpooled, ?_, hreplaced, ?_⟩
  · intro crew modest
    have hpeak := hfresh.peak_le_of_isModestRun loyal rfl (Nat.zero_le _) modest
    omega
  · intro kept
    rwa [Turn.givenUp_eq_zero kept, Nat.add_zero] at hreplaced

/-- Two threads overlap in their acquisitions, one of which is refused; what comes back is used
again. -/
def overlappingMisses : List MockMove :=
  [.request 0 0 .acquire, .advance 0, .advance 0, .advance 0,
    .change (.setAccepting 0 false),
    .request 1 0 .acquire, .advance 1, .advance 1, .advance 1,
    .advance 0, .advance 1,
    .release 0 0 0, .advance 0, .advance 0,
    .request 1 0 .acquire, .advance 1]

theorem withinDemand_overlappingMisses :
    (overMock true [(1, {})]).isLoyalRun overlappingMisses = true ∧
      (overMock true [(1, {})]).isModestRun [0, 1] overlappingMisses = true ∧
      (∀ turn ∈ (overMock true [(1, {})]).turns overlappingMisses, turn.givesUp = 0) ∧
      ∃ s, ((overMock true [(1, {})]).run overlappingMisses).calls.sessions = [s] ∧
        (overMock true [(1, {})]).WithinDemand overlappingMisses s :=
  ⟨by decide, by decide, by decide,
    withinDemand 1 {} (⟨0⟩ : Mock.Factory) (⟨[{}]⟩ : Mock.Fleet) overlappingMisses (by decide)⟩

/-! ### What a daemon sees

It is not enough that no marshal has been closed yet. A daemon may see more marshals opened than
were ever out at the same time, and none closed. -/

/-- A session over a mock daemon has opened more marshals than were ever out, and the daemon has
seen none of them closed. -/
def OutgrowsDemand (moves : List MockMove) : Prop :=
  (overMock true [(1, {})]).isLoyalRun moves = true ∧
    ((overMock true [(1, {})]).run moves).daemon.closedIds = [] ∧
    (overMock true [(1, {})]).peak 0 moves <
      ((overMock true [(1, {})]).run moves).daemon.openedIds.length

/-- The session is closed while thread 0 has a marshal, so that it turns the marshal away. Before
thread 0 goes on to close what it could not give back, thread 1 is done with an acquisition. -/
def lateClose : List MockMove :=
  [.request 0 0 .acquire, .advance 0, .advance 0, .advance 0, .advance 0,
    .request 1 0 .close, .advance 1,
    .release 0 0 0, .advance 0, .advance 0,
    .request 1 0 .acquire, .advance 1, .advance 1, .advance 1, .advance 1]

/-- Whoever has acquired a marshal connects it once more. -/
def connectedAgain : List MockMove :=
  [.request 0 0 .acquire, .advance 0, .advance 0, .advance 0, .advance 0,
    .deed 0 0 (.dial "localhost" 4743)]

theorem outgrowsDemand_unclosed : OutgrowsDemand lateClose ∧ OutgrowsDemand connectedAgain :=
  ⟨⟨by decide, by decide, by decide⟩, ⟨by decide, by decide, by decide⟩⟩

end Custody

end SessionPool
