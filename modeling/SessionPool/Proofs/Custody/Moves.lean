import SessionPool.Proofs.Custody.Basic
import SessionPool.Proofs.Interleaving

/-!
# What a move does to custody

To the calls under way a move does one of three things: it leaves them alone, it begins a call, or
it lets one take a step. To the marshals outside the calls a step does something only when a call
comes back with a marshal. What the other moves do is listed once, as `Arranged`.
-/

namespace SessionPool.Custody

open Session (Call Result)
open Script (World Holder Deed)

variable {φ μ ω χ α : Type}

theorem canCall_iff {st : Custody φ μ ω} {t : Thread} {place : Place} :
    st.canCall t place = true ↔
      st.calls.pending? t = none ∧ (∃ s, st.calls.sessions[place]? = some s) ∧
        place ∉ st.gone := by
  simp [canCall, Option.isSome_iff_exists, and_assoc]

theorem inHand?_eq_some {st : Custody φ μ ω} {t : Thread} {i : Nat} {h : Holding μ} :
    st.inHand? t i = some h ↔
      st.calls.pending? t = none ∧ st.holdings[i]? = some h ∧ h.owner = t := by
  simp [inHand?, Option.filter_eq_some_iff]

variable [Marshal μ ω] [Source φ μ ω]

theorem calls_start {st : Custody φ μ ω} {t : Thread} {place : Place}
    (h : st.canCall t place = true) (call : Call μ) :
    (st.start t place call).calls = st.calls.begun t place call := by
  obtain ⟨free, ⟨s, there⟩, -⟩ := canCall_iff.mp h
  exact Interleaving.move_start free there call

/-! ### A step of a call -/

theorem calls_advance (st : Custody φ μ ω) (t : Thread) :
    (st.advance t).calls = st.calls.move (.advance t) := by
  unfold advance
  split
  · next hp => simp only [Interleaving.move, hp]
  · dsimp only
    split <;> rfl

/-- What a thread has in its hands when a call of its comes back. -/
def gained (t : Thread) (place : Place) (leased : Bool) : Call μ ⊕ Result μ → List (Holding μ)
  | .inr (.acquired (some m)) => [⟨t, m, some place, leased⟩]
  | _ => []

theorem advance_eq {st : Custody φ μ ω} {t : Thread} {p : Pending μ} {s : Session φ μ}
    (hp : st.calls.pending? t = some p) (hs : st.calls.sessions[p.place]? = some s) :
    ∃ leasing, st.advance t =
      { st with
        calls := st.calls.advance t p s
        leasing
        holdings :=
          gained t p.place (st.leasing.contains t) (st.calls.outcome p s).1 ++ st.holdings } := by
  have hpending := st.calls.pending?_advance t p s
  have hfinished := st.calls.advance_finished t p s
  -- That the call is over shows in the thread being in none, and its result came back last.
  cases hout : (st.calls.outcome p s).1 with
  | inl next =>
    have hstill : (st.calls.advance t p s).pending? t = some { p with next } := by
      rw [hpending, hout]
      rfl
    simp only [advance, hp, Interleaving.move_advance hp hs, hstill]
    exact ⟨st.leasing, rfl⟩
  | inr result =>
    have hback : (st.calls.advance t p s).pending? t = none := by
      rw [hpending, hout]
      rfl
    have hhead : (st.calls.advance t p s).finished.head? =
        some ⟨t, p.place, p.started, result⟩ := by
      rw [hfinished, hout]
      rfl
    simp only [advance, hp, Interleaving.move_advance hp hs, hback, hhead]
    refine ⟨st.leasing.filter (· != t), ?_⟩
    cases result with
    | acquired m => cases m <;> rfl
    | _ => rfl

theorem advance_of_not_pending {st : Custody φ μ ω} {t : Thread}
    (hp : st.calls.pending? t = none) : st.advance t = st := by
  simp only [advance, hp]

theorem advance_of_no_session {st : Custody φ μ ω} {t : Thread} {p : Pending μ}
    (hp : st.calls.pending? t = some p) (hs : st.calls.sessions[p.place]? = none) :
    st.advance t = st := by
  simp only [advance, hp, Interleaving.move, hs]

theorem advance_cases (st : Custody φ μ ω) (t : Thread) :
    st.advance t = st ∨ ∃ p s, st.calls.pending? t = some p ∧
      st.calls.sessions[p.place]? = some s ∧ (st.advance t).calls = st.calls.advance t p s := by
  cases hp : st.calls.pending? t with
  | none => exact .inl (advance_of_not_pending hp)
  | some p =>
    cases hs : st.calls.sessions[p.place]? with
    | none => exact .inl (advance_of_no_session hp hs)
    | some s => exact .inr ⟨p, s, rfl, hs, by rw [calls_advance, Interleaving.move_advance hp hs]⟩

/-! ### Moves and calls -/

theorem Move.advance_or (m : Move μ χ α) : (∃ t, m = .advance t) ∨ ∀ t, m ≠ .advance t := by
  cases m with
  | advance t => exact .inl ⟨t, rfl⟩
  | _ => exact .inr fun t => by simp

/-- What can happen to the calls under way when no thread takes a step. -/
inductive Begins (calls : Interleaving φ μ ω) : Interleaving φ μ ω → Prop
  | nothing (w : ω) : Begins calls { calls with world := w }
  | call {t : Thread} {place : Place} {s : Session φ μ} {call : Call μ}
      (free : calls.pending? t = none) (there : calls.sessions[place]? = some s)
      (entry : call.isEntry = true) : Begins calls (calls.begun t place call)

namespace Begins

omit [Marshal μ ω] [Source φ μ ω]

variable {calls calls' : Interleaving φ μ ω}

theorem sessions_eq (h : Begins calls calls') : calls'.sessions = calls.sessions := by
  cases h <;> rfl

theorem finished_eq (h : Begins calls calls') : calls'.finished = calls.finished := by
  cases h <;> rfl

theorem oneCallEach (h : Begins calls calls') (hone : calls.OneCallEach) :
    calls'.OneCallEach := by
  cases h with
  | nothing w => exact hone
  | call free there entry => exact hone.begun free _ _

/-- What no call begins with is not there more often than before. -/
theorem inCalls_eq (h : Begins calls calls') {f : Call μ → Bool}
    (hf : ∀ call, call.isEntry = true → f call = false) : calls'.inCalls f = calls.inCalls f := by
  cases h with
  | nothing w => rfl
  | call free there entry =>
    rw [Interleaving.inCalls_begun, hf _ entry]
    rfl

/-- A thread is in the call that it was in, or it was in none and is now at the beginning of one. -/
theorem pending? (h : Begins calls calls') (t : Thread) :
    calls'.pending? t = calls.pending? t ∨ calls.pending? t = none ∧
      ∃ place call, call.isEntry = true ∧ calls'.pending? t = some ⟨place, call, call⟩ := by
  cases h with
  | nothing w => exact .inl rfl
  | @call u place s call free there entry =>
    by_cases hu : t = u
    · rw [hu]
      exact .inr ⟨free, place, call, entry, calls.pending?_begun u place call⟩
    · exact .inl (calls.pending?_begun_of_ne hu place call)

end Begins

theorem begins_start {st : Custody φ μ ω} {t : Thread} {place : Place}
    (h : st.canCall t place = true) {call : Call μ} (entry : call.isEntry = true) :
    Begins st.calls (st.start t place call).calls := by
  obtain ⟨free, ⟨s, there⟩, -⟩ := canCall_iff.mp h
  rw [calls_start h]
  exact .call free there entry

variable [World ω χ] [Holder μ α]

/-- What comes out of a move that lets no thread take a step. -/
inductive Arranged (st : Custody φ μ ω) : Move μ χ α → Custody φ μ ω → Prop
  /-- The move cannot be made. -/
  | stuck (m : Move μ χ α) : Arranged st m st
  | request {t : Thread} {place : Place} (r : Request) (hcan : st.canCall t place = true) :
      Arranged st (.request t place r)
        { st.start t place r.call with
          leasing := if r = .lease then t :: st.leasing else st.leasing }
  | release {t : Thread} {place : Place} {i : Nat} {h : Holding μ} (hh : st.inHand? t i = some h)
      (hfree : h.leased = false) (hcan : st.canCall t place = true) :
      Arranged st (.release t place i) (st.giveBack t place i h)
  | endLease {t : Thread} {place : Place} {i : Nat} {h : Holding μ} (hh : st.inHand? t i = some h)
      (hleased : h.leased = true) (horigin : h.origin = some place)
      (hcan : st.canCall t place = true) :
      Arranged st (.endLease t i) (st.giveBack t place i h)
  | detach {t : Thread} {i : Nat} {h : Holding μ} (hh : st.inHand? t i = some h) :
      Arranged st (.detach t i) { st with holdings := st.holdings.set i { h with leased := false } }
  | drop {t : Thread} {i : Nat} {h : Holding μ} (hh : st.inHand? t i = some h)
      (hfree : h.leased = false) :
      Arranged st (.drop t i)
        { st with holdings := st.holdings.eraseIdx i, dropped := h :: st.dropped }
  | pass {t : Thread} {i : Nat} {h : Holding μ} (receiver : Thread)
      (hh : st.inHand? t i = some h) :
      Arranged st (.pass t i receiver)
        { st with holdings := st.holdings.set i { h with owner := receiver } }
  | adopt (t : Thread) (m : μ) :
      Arranged st (.adopt t m) { st with holdings := { owner := t, marshal := m } :: st.holdings }
  | deed {t : Thread} {i : Nat} {h : Holding μ} (d : Script.Deed α)
      (hh : st.inHand? t i = some h) :
      Arranged st (.deed t i d)
        { st.withWorld (Script.State.doDeed h.marshal st.calls.world d).2.2 with
          holdings := st.holdings.set i
            { h with marshal := (Script.State.doDeed h.marshal st.calls.world d).2.1 } }
  | change (c : χ) : Arranged st (.change c) (st.withWorld (World.change c st.calls.world))
  | dropSession {t : Thread} {place : Place} (hcan : st.canCall t place = true)
      (hfree : st.isBorrowed place = false) :
      Arranged st (.dropSession t place)
        { st.start t place .close with gone := place :: st.gone }

theorem arranged (st : Custody φ μ ω) {m : Move μ χ α} (hm : ∀ t, m ≠ .advance t) :
    Arranged st m (st.move m) := by
  cases m with
  | request t place r =>
    rw [move]
    split
    · next h => exact .request r h
    · exact .stuck _
  | release t place i =>
    rw [move]
    split
    · next h hh =>
      split
      · next hcan =>
        obtain ⟨hfree, hcan⟩ := Bool.and_eq_true_iff.mp hcan
        exact .release hh (Bool.not_eq_true' _ ▸ hfree) hcan
      · exact .stuck _
    · exact .stuck _
  | endLease t i =>
    rw [move]
    split
    · next h hh =>
      split
      · next place horigin =>
        split
        · next hcan =>
          obtain ⟨hleased, hcan⟩ := Bool.and_eq_true_iff.mp hcan
          exact .endLease hh hleased horigin hcan
        · exact .stuck _
      · exact .stuck _
    · exact .stuck _
  | detach t i =>
    rw [move]
    split
    · next h hh => exact .detach hh
    · exact .stuck _
  | drop t i =>
    rw [move]
    split
    · next h hh =>
      split
      · exact .stuck _
      · next hfree => exact .drop hh (Bool.eq_false_iff.mpr hfree)
    · exact .stuck _
  | pass t i receiver =>
    rw [move]
    split
    · next h hh => exact .pass receiver hh
    · exact .stuck _
  | adopt t m => exact .adopt t m
  | deed t i d =>
    rw [move]
    split
    · next h hh => exact .deed d hh
    · exact .stuck _
  | change c => exact .change c
  | dropSession t place =>
    rw [move]
    split
    · next h =>
      obtain ⟨hcan, hfree⟩ := Bool.and_eq_true_iff.mp h
      exact .dropSession hcan (Bool.not_eq_true' _ ▸ hfree)
    · exact .stuck _
  | advance t => exact absurd rfl (hm t)

namespace Arranged

variable {st st' : Custody φ μ ω} {m : Move μ χ α}

theorem begins (h : Arranged st m st') : Begins st.calls st'.calls := by
  cases h with
  | request r hcan => exact begins_start hcan (by cases r <;> rfl)
  | release hh hfree hcan => exact begins_start hcan rfl
  | endLease hh hleased horigin hcan => exact begins_start hcan rfl
  | deed d hh => exact .nothing _
  | change c => exact .nothing _
  | dropSession hcan hfree => exact begins_start hcan rfl
  | _ => exact .nothing st.calls.world

end Arranged

/-! ### Runs -/

/-- What every permitted move preserves, a run of permitted moves preserves. -/
theorem run_invariant {P : Custody φ μ ω → Prop} {ok : Custody φ μ ω → Move μ χ α → Bool}
    (step : ∀ st m, ok st m = true → P st → P (st.move m)) :
    ∀ {moves : List (Move μ χ α)} {st : Custody φ μ ω}, st.permits ok moves = true → P st →
      P (st.run moves)
  | [], _, _, h => h
  | m :: moves, st, hok, h => by
    rw [permits, Bool.and_eq_true_iff] at hok
    show P ((st.move m).run moves)
    exact run_invariant step hok.2 (step st m hok.1 h)

/-- A promise that does not depend on where a move is made. -/
theorem permits_of_forall {ok : Move μ χ α → Bool} :
    ∀ {moves : List (Move μ χ α)} (st : Custody φ μ ω), (∀ m ∈ moves, ok m = true) →
      st.permits (fun _ => ok) moves = true
  | [], _, _ => rfl
  | m :: moves, st, h => by
    rw [permits, Bool.and_eq_true_iff]
    exact ⟨h m (by simp), permits_of_forall (st.move m) fun m' hm' => h m' (by simp [hm'])⟩

end SessionPool.Custody
