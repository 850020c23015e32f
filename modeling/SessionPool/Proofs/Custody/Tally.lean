import Mathlib.Data.List.Perm.Basic
import SessionPool.Proofs.Custody.Moves

/-!
# Counting marshals

A tally counts marshals wherever they are outside the pools: in calls, in hands, or dropped. What
the threads do between two calls moves marshals around and changes no tally. So a tally changes only
by the steps of the calls, and there it changes by what the one call counts:

    (st.advance t).tally T + (what p counts) = st.tally T + (what comes out of the step counts).
-/

namespace SessionPool

open Session (Call Result)
open Script (World Holder Deed)

/-- What counts: calls, by what they do next, holdings, and results, by the holdings that they
make. -/
structure Tally (μ : Type) where
  call : Call μ → Bool
  holding : Holding μ → Bool
  result : Result μ → Bool

namespace Custody

variable {φ μ ω χ α : Type}

/-- How many calls under way, holdings and dropped marshals count. -/
def tally (st : Custody φ μ ω) (T : Tally μ) : Nat :=
  st.calls.inCalls T.call + st.holdings.countP T.holding + st.dropped.countP T.holding

end Custody

namespace Tally

variable {φ μ ω χ α : Type}

/-- What counts of the outcome of a step. -/
def outcome (T : Tally μ) (out : Call μ ⊕ Result μ) : Nat :=
  out.elim (fun next => (T.call next).toNat) fun result => (T.result result).toNat

/-- A call that carries no marshal counts nothing; for a holding it does not matter whose it is and
whether it is a lease; and a result counts if the holding that it makes does. -/
structure Lawful (T : Tally μ) : Prop where
  request : ∀ r : Custody.Request, T.call r.call = false
  relabel : ∀ (h : Holding μ) (owner : Thread) (leased : Bool),
    T.holding { h with owner, leased } = T.holding h
  result : ∀ (t : Thread) (place : Place) (leased : Bool) (r : Result μ),
    (Custody.gained t place leased (.inr r)).countP T.holding = (T.result r).toNat

variable [Marshal μ ω] [Holder μ α]

/-- Whether what counts before a move goes on counting after it. -/
def KeptBy (T : Tally μ) (st : Custody φ μ ω) : Custody.Move μ χ α → Prop
  | .release t _ i =>
    ∀ h, st.inHand? t i = some h → T.call (.release h.marshal) = T.holding h
  | .endLease t i =>
    ∀ h, st.inHand? t i = some h → h.origin.isSome = true →
      T.call (.release h.marshal) = T.holding h
  | .adopt t m => T.holding { owner := t, marshal := m } = false
  | .deed t i d =>
    ∀ h, st.inHand? t i = some h →
      T.holding { h with marshal := (Script.State.doDeed h.marshal st.calls.world d).2.1 } =
        T.holding h
  | _ => True

end Tally

namespace Custody

variable {φ μ ω χ α : Type}

/-! ### Hands -/

theorem countP_eraseIdx {f : Holding μ → Bool} {holdings : List (Holding μ)} {i : Nat}
    {h : Holding μ} (hi : holdings[i]? = some h) :
    holdings.countP f = (holdings.eraseIdx i).countP f + (f h).toNat := by
  obtain ⟨hlt, rfl⟩ := List.getElem?_eq_some_iff.mp hi
  have hperm := (List.getElem_cons_eraseIdx_perm hlt).countP_eq f
  rw [← hperm, countP_cons_toNat]

theorem countP_set {f : Holding μ → Bool} {holdings : List (Holding μ)} {i : Nat}
    {h h' : Holding μ} (hi : holdings[i]? = some h) (hf : f h' = f h) :
    (holdings.set i h').countP f = holdings.countP f := by
  obtain ⟨hlt, rfl⟩ := List.getElem?_eq_some_iff.mp hi
  have hperm := (List.getElem_cons_eraseIdx_perm hlt).countP_eq f
  have hperm' := (List.set_perm_cons_eraseIdx hlt h').countP_eq f
  rw [hperm', ← hperm, countP_cons_toNat, countP_cons_toNat, hf]

variable [Marshal μ ω] [Source φ μ ω] {T : Tally μ} {st : Custody φ μ ω}

theorem tally_start {t : Thread} {place : Place} (h : st.canCall t place = true)
    (call : Call μ) : (st.start t place call).tally T = st.tally T + (T.call call).toNat := by
  rw [tally, calls_start h, Interleaving.inCalls_begun]
  show _ + st.holdings.countP T.holding + st.dropped.countP T.holding = _
  rw [tally]
  omega

theorem tally_giveBack {t : Thread} {place : Place} {i : Nat} {h : Holding μ}
    (hcan : st.canCall t place = true) (hi : st.holdings[i]? = some h)
    (hT : T.call (.release h.marshal) = T.holding h) :
    (st.giveBack t place i h).tally T = st.tally T := by
  rw [tally, giveBack, calls_start hcan, Interleaving.inCalls_begun, hT]
  show _ + (st.holdings.eraseIdx i).countP T.holding + st.dropped.countP T.holding = _
  rw [tally, countP_eraseIdx hi]
  omega

/-! ### Steps -/

theorem tally_advance (law : T.Lawful) (hone : st.calls.OneCallEach) {t : Thread}
    {p : Pending μ} {s : Session φ μ} (hp : st.calls.pending? t = some p)
    (hs : st.calls.sessions[p.place]? = some s) :
    (st.advance t).tally T + (T.call p.next).toNat =
      st.tally T + T.outcome (st.calls.outcome p s).1 := by
  obtain ⟨leasing, hadvance⟩ := advance_eq hp hs
  have hcalls := hone.inCalls_advance s hp T.call
  rw [hadvance]
  simp only [tally, List.countP_append]
  -- A call that goes on counts among the calls, and one that is over among the hands.
  cases hout : (st.calls.outcome p s).1 with
  | inl next =>
    rw [hout, Sum.elim_inl] at hcalls
    show _ + (List.countP _ [] + _) + _ + _ = _ + (T.call next).toNat
    rw [List.countP_nil]
    omega
  | inr result =>
    rw [hout, Sum.elim_inr] at hcalls
    rw [law.result]
    show _ = _ + (T.result result).toNat
    omega

variable [World ω χ] [Holder μ α]

/-- What the threads do between two calls changes no tally. -/
theorem tally_of_arranged {st' : Custody φ μ ω} {m : Move μ χ α} (h : Arranged st m st')
    (law : T.Lawful) (kept : T.KeptBy st m) : st'.tally T = st.tally T := by
  cases h with
  | stuck m => rfl
  | request r hcan =>
    have hstart := tally_start (T := T) hcan r.call
    rw [law.request, Bool.toNat_false, Nat.add_zero] at hstart
    exact hstart
  | release hh hfree hcan => exact tally_giveBack hcan (inHand?_eq_some.mp hh).2.1 (kept _ hh)
  | endLease hh hleased horigin hcan =>
    exact tally_giveBack hcan (inHand?_eq_some.mp hh).2.1 (kept _ hh (by rw [horigin]; rfl))
  | @detach t i h hh =>
    rw [tally, tally, countP_set (inHand?_eq_some.mp hh).2.1 (law.relabel h h.owner false)]
  | @drop t i h hh hfree =>
    rw [tally, tally, countP_eraseIdx (inHand?_eq_some.mp hh).2.1, countP_cons_toNat]
    show st.calls.inCalls T.call + (st.holdings.eraseIdx i).countP T.holding + _ = _
    omega
  | @pass t i h receiver hh =>
    rw [tally, tally, countP_set (inHand?_eq_some.mp hh).2.1 (law.relabel h receiver h.leased)]
  | adopt t m =>
    have hnot : T.holding { owner := t, marshal := m } = false := kept
    rw [tally, tally, countP_cons_toNat, hnot]
    rfl
  | @deed t i h d hh =>
    show st.calls.inCalls T.call + (st.holdings.set i _).countP T.holding + _ = _
    rw [countP_set (inHand?_eq_some.mp hh).2.1 (kept h hh)]
    rfl
  | change c => rfl
  | dropSession hcan hfree =>
    have hstart := tally_start (T := T) hcan (.close : Call μ)
    rw [show T.call .close = false from law.request .close, Bool.toNat_false,
      Nat.add_zero] at hstart
    exact hstart

end Custody

end SessionPool
