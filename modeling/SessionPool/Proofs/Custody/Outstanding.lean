import SessionPool.Proofs.Custody.Tally
import SessionPool.Proofs.Steps

/-!
# The count of marshals that are out

A session counts a marshal as out from the moment at which an acquisition has the lock until a
release has it, and it counts down no further than to 0. As long as it is given back only what it
handed out, that floor is never reached by counting down: the count is exact,

    outstanding = acquisitions between their locks + marshals that are checked out,

whoever has the marshals, whether they are still used, and whether the session was closed meanwhile.
-/

namespace SessionPool

open Session (Call Result)
open Script (World Holder Deed)

namespace Tally

variable {φ μ ω χ α : Type}

/-- What a session counts as out. -/
def out : Tally μ where
  call := Call.isCounted
  holding h := h.origin.isSome
  result := Result.isHandOut

/-- The marshals that were handed out and whose release, if there is one, is not over. -/
def away : Tally μ where
  call c := c.isComingBack || c.isTurnedAway
  holding h := h.origin.isSome
  result := Result.isHandOut

theorem countP_gained (t : Thread) (place : Place) (leased : Bool) (r : Result μ) :
    (Custody.gained t place leased (.inr r)).countP (fun h => h.origin.isSome) =
      r.isHandOut.toNat := by
  cases r with
  | acquired m => cases m <;> rfl
  | _ => rfl

theorem out_lawful : (out : Tally μ).Lawful where
  request r := by cases r <;> rfl
  relabel _ _ _ := rfl
  result := countP_gained

theorem away_lawful : (away : Tally μ).Lawful where
  request r := by cases r <;> rfl
  relabel _ _ _ := rfl
  result := countP_gained

variable [Marshal μ ω] [Holder μ α]

/-- A loyal move keeps every tally that counts releases and what was handed out by a session. -/
theorem keptBy_of_isLoyal {T : Tally μ} (hcall : ∀ m, T.call (.release m) = true)
    (hholding : ∀ h, T.holding h = h.origin.isSome) {st : Custody φ μ ω}
    {m : Custody.Move μ χ α} (h : st.isLoyal m = true) : T.KeptBy st m := by
  cases m with
  | release t place i =>
    intro held hheld
    have horigin : held.origin = some place := by
      simpa [Custody.isLoyal, hheld] using h
    rw [hcall, hholding, horigin]
    rfl
  | endLease t i =>
    intro held _ horigin
    rw [hcall, hholding, horigin]
  | adopt t marshal => exact hholding _
  | deed t i d =>
    intro held _
    rw [hholding, hholding]
  | _ => trivial

end Tally

namespace Custody

variable {φ μ ω χ α : Type}

/-! ### The quantities -/

/-- The acquisitions between their first and their last step under the lock. -/
def between (st : Custody φ μ ω) : Nat := st.calls.inCalls Call.isBetween

/-- The marshals that a session handed out and that no release has since brought to the lock: those
in somebody's hands or in a lease, those that their holders dropped, and those on their way back. -/
def checkedOut (st : Custody φ μ ω) : Nat :=
  st.holdings.countP (·.origin.isSome) + st.dropped.countP (·.origin.isSome) +
    st.calls.inCalls Call.isComingBack

/-- How often a marshal was handed out. -/
def handedOut (st : Custody φ μ ω) : Nat := st.calls.finished.countP (·.result.isHandOut)

/-- How many releases have had the lock. -/
def takenBack (st : Custody φ μ ω) : Nat :=
  st.calls.finished.countP (·.result.isReturn) + st.calls.inCalls Call.isTurnedAway

theorem tally_out (st : Custody φ μ ω) : st.tally .out = st.between + st.checkedOut := by
  have hcalls : st.calls.inCalls Call.isCounted =
      st.calls.inCalls Call.isBetween + st.calls.inCalls Call.isComingBack :=
    st.calls.inCalls_or fun c hc => by cases c <;> first | rfl | exact absurd hc Bool.false_ne_true
  show st.calls.inCalls Call.isCounted + _ + _ = _
  rw [hcalls, between, checkedOut]
  show _ + st.holdings.countP (·.origin.isSome) + st.dropped.countP (·.origin.isSome) = _
  omega

theorem tally_away (st : Custody φ μ ω) :
    st.tally .away = st.checkedOut + st.calls.inCalls Call.isTurnedAway := by
  have hcalls : st.calls.inCalls (fun c => c.isComingBack || c.isTurnedAway) =
      st.calls.inCalls Call.isComingBack + st.calls.inCalls Call.isTurnedAway :=
    st.calls.inCalls_or fun c hc => by cases c <;> first | rfl | exact absurd hc Bool.false_ne_true
  show st.calls.inCalls (fun c => c.isComingBack || c.isTurnedAway) + _ + _ = _
  rw [hcalls, checkedOut]
  show _ + st.holdings.countP (·.origin.isSome) + st.dropped.countP (·.origin.isSome) = _
  omega

theorem place_eq_zero {s s' : Session φ μ} {place : Place} (h : [s][place]? = some s') :
    place = 0 ∧ s' = s := by
  cases place with
  | zero => exact ⟨rfl, (Option.some.inj h).symm⟩
  | succ n => simp at h

/-! ### The invariant

The session may have counted some marshals as out before the run; nobody gives those back in it. -/

/-- The only session counts what is out, on top of what it had counted before, and what was handed
out is away or was taken back. -/
structure Exact (before : Nat) (st : Custody φ μ ω) : Prop where
  one : st.calls.OneCallEach
  counted : ∃ s, st.calls.sessions = [s] ∧ s.pool.outstanding = before + st.tally .out
  history : st.tally .away + st.calls.finished.countP (·.result.isReturn) = st.handedOut

theorem Exact.balance {before : Nat} {st : Custody φ μ ω} (h : st.Exact before) :
    st.checkedOut + st.takenBack = st.handedOut := by
  have hhistory := h.history
  rw [tally_away] at hhistory
  rw [takenBack]
  omega

/-- While a call accounts for a marshal that is out, the session has counted one. -/
theorem Exact.pos {before : Nat} {st : Custody φ μ ω} (h : st.Exact before) {s : Session φ μ}
    (hs : st.calls.sessions = [s]) {t : Thread} {p : Pending μ} (hp : (t, p) ∈ st.calls.pending)
    (hcounted : p.next.isCounted = true) : 0 < s.pool.outstanding := by
  obtain ⟨s', hs', hout⟩ := h.counted
  obtain rfl : s' = s := (List.cons.inj (hs'.symm.trans hs)).1
  have hcalls : 0 < st.calls.inCalls Call.isCounted :=
    List.countP_pos_iff.mpr ⟨(t, p), hp, hcounted⟩
  have htally : st.calls.inCalls Call.isCounted ≤ st.tally .out := by
    show _ ≤ st.calls.inCalls Call.isCounted + _ + _
    omega
  omega

theorem exact_fresh (w : ω) (s : Session φ μ) : (fresh w [s]).Exact s.pool.outstanding where
  one := List.nodup_nil
  counted := ⟨s, rfl, rfl⟩
  history := rfl

variable [Marshal μ ω] [Source φ μ ω]

theorem countP_finished_advance (calls : Interleaving φ μ ω) (t : Thread) (p : Pending μ)
    (s : Session φ μ) (f : Result μ → Bool) :
    (calls.advance t p s).finished.countP (fun back => f back.result) =
      calls.finished.countP (fun back => f back.result) +
        (calls.outcome p s).1.elim (fun _ => 0) (fun r => (f r).toNat) := by
  rw [Interleaving.advance_finished, List.countP_append, Nat.add_comm]
  cases (calls.outcome p s).1 with
  | inl next => rfl
  | inr result => cases hf : f result <;> simp [hf]

/-- What is in a release before a step is in it after the step, or the release is over. -/
theorem away_of_stepped {s : Session φ μ} {w : ω} {c : Call μ}
    {out : (Call μ ⊕ Result μ) × Session φ μ × ω} (h : Session.Stepped s w c out) :
    Tally.away.outcome out.1 + out.1.elim (fun _ => 0) (fun r => r.isReturn.toNat) =
      (Tally.away.call c).toNat + out.1.elim (fun _ => 0) fun r => r.isHandOut.toNat := by
  cases h <;> rfl

theorem Exact.advance {before : Nat} {st : Custody φ μ ω} (h : st.Exact before) (t : Thread) :
    (st.advance t).Exact before := by
  rcases st.advance_cases t with heq | ⟨p, s, hp, hs, hcalls⟩
  · rwa [heq]
  obtain ⟨s', hsessions, hout⟩ := h.counted
  obtain ⟨hplace, rfl⟩ := place_eq_zero (hsessions ▸ hs)
  refine ⟨?_, ⟨(st.calls.outcome p s).2.1, ?_, ?_⟩, ?_⟩
  · rw [hcalls]
    exact h.one.advance s hp
  · rw [hcalls, Interleaving.advance_sessions, hsessions, hplace]
    rfl
  -- The count goes up and down with what the call accounts for, and so does the tally.
  · have hstep : (st.calls.outcome p s).2.1.pool.outstanding + (Tally.out.call p.next).toNat =
        s.pool.outstanding + Tally.out.outcome (st.calls.outcome p s).1 :=
      (Session.stepped s st.calls.world p.next).outstanding
        (h.pos hsessions (Interleaving.mem_pending hp))
    have htally := tally_advance Tally.out_lawful h.one hp hs
    omega
  · have hstep := away_of_stepped (Session.stepped s st.calls.world p.next)
    have htally := tally_advance Tally.away_lawful h.one hp hs
    have hreturns := countP_finished_advance st.calls t p s Result.isReturn
    have hhandOuts := countP_finished_advance st.calls t p s Result.isHandOut
    have hhistory := h.history
    rw [← hcalls] at hreturns hhandOuts
    rw [handedOut] at hhistory ⊢
    rw [hreturns, hhandOuts]
    change _ = _ + Tally.away.outcome (p.next.step s st.calls.world).1 at htally
    show _ + (_ + (p.next.step s st.calls.world).1.elim _ _) =
      _ + (p.next.step s st.calls.world).1.elim _ _
    omega

variable [World ω χ] [Holder μ α]

theorem Exact.move {before : Nat} {st : Custody φ μ ω} (h : st.Exact before) {m : Move μ χ α}
    (loyal : st.isLoyal m = true) : (st.move m).Exact before := by
  rcases m.advance_or with ⟨t, rfl⟩ | hm
  · exact h.advance t
  · have harranged := arranged st hm
    have hbegins := harranged.begins
    obtain ⟨s, hsessions, hout⟩ := h.counted
    have htally : (st.move m).tally .out = st.tally .out :=
      tally_of_arranged harranged Tally.out_lawful
        (Tally.keptBy_of_isLoyal (fun _ => rfl) (fun _ => rfl) loyal)
    have haway : (st.move m).tally .away = st.tally .away :=
      tally_of_arranged harranged Tally.away_lawful
        (Tally.keptBy_of_isLoyal (fun _ => rfl) (fun _ => rfl) loyal)
    refine ⟨hbegins.oneCallEach h.one, ⟨s, ?_, ?_⟩, ?_⟩
    · rw [hbegins.sessions_eq, hsessions]
    · rw [htally, hout]
    · rw [haway, handedOut, hbegins.finished_eq]
      exact h.history

theorem exact_run (w : ω) (s : Session φ μ) {moves : List (Move μ χ α)}
    (loyal : (fresh w [s]).isLoyalRun moves = true) :
    ((fresh w [s]).run moves).Exact s.pool.outstanding :=
  run_invariant (fun _ _ hm h => h.move hm) loyal (exact_fresh w s)

/-! ### The theorem -/

/-- A session counts as out the acquisitions between their locks and the marshals that are checked
out; those are the ones that were handed out and have not come back to the lock; and a call that
counts down finds something to count down. -/
structure CountsExactly (st : Custody φ μ ω) (s : Session φ μ) : Prop where
  outstanding : s.outstanding = st.between + st.checkedOut
  checkedOut : st.checkedOut + st.takenBack = st.handedOut
  floor : ∀ entry ∈ st.calls.pending, entry.2.next.countsDown = true → 0 < s.outstanding

/-- **The count of marshals that are out is exact** in every state that threads reach with a new
session to which they give back only what it handed out. -/
theorem outstanding_exact (localId : UInt64) (domain : Domain) (factory : φ) (w : ω)
    (moves : List (Move μ χ α))
    (loyal : (fresh w [{ localId, domain, factory }]).isLoyalRun moves = true) :
    ∃ s, ((fresh w [{ localId, domain, factory }]).run moves).calls.sessions = [s] ∧
      ((fresh w [{ localId, domain, factory }]).run moves).CountsExactly s := by
  have hexact := exact_run w { localId, domain, factory } loyal
  obtain ⟨s, hsessions, hout⟩ := hexact.counted
  refine ⟨s, hsessions, ?_, ?_, ?_⟩
  · rw [Session.outstanding, hout, tally_out]
    exact Nat.zero_add _
  · exact hexact.balance
  · intro entry hentry hdown
    -- Whatever counts down next accounts for a marshal that the session has counted.
    refine hexact.pos hsessions hentry ?_
    cases hnext : entry.2.next <;> rw [hnext] at hdown <;>
      first | rfl | exact absurd hdown Bool.false_ne_true

/-- A session is closed while a marshal of its is leased. Then the marshal leaves its lease and is
on its way back while another one is being opened. -/
def detachedAfterClose : List MockMove :=
  [.request 0 0 .lease, .advance 0, .advance 0, .advance 0, .advance 0,
    .request 1 0 .close, .advance 1,
    .detach 0 0, .release 0 0 0, .advance 0,
    .request 1 0 .acquire, .advance 1, .advance 1]

theorem outstanding_exact_detachedAfterClose :
    ∃ s, ((fresh (⟨[{}]⟩ : Mock.Fleet)
        [{ localId := 1, domain := {}, factory := (⟨0⟩ : Mock.Factory) }]).run
          detachedAfterClose).calls.sessions = [s] ∧
      ((fresh (⟨[{}]⟩ : Mock.Fleet)
        [{ localId := 1, domain := {}, factory := (⟨0⟩ : Mock.Factory) }]).run
          detachedAfterClose).CountsExactly s :=
  outstanding_exact 1 {} (⟨0⟩ : Mock.Factory) (⟨[{}]⟩ : Mock.Fleet) detachedAfterClose (by decide)

end Custody

end SessionPool
