import SessionPool.Proofs.Interleaving
import SessionPool.Proofs.Mock.Log
import SessionPool.Script.Perform
import Mathlib.Data.List.Perm.Subperm

/-!
# The ledger of a fleet

The daemons of a fleet number their marshals and note which ones are closed. So a marshal comes only
by being created, and what is closed is counted. Whatever is done with marshals,

    there afterwards + closed ≤ there before + created,

for every single one of them.
-/

namespace SessionPool.Mock

open Script (MockAct Deed State)

namespace Fleet

/-- How often a marshal was closed. -/
def closeCount (w : Fleet) (k : Key) : Nat := (w.daemon k.1).closedIds.count k.2

/-- Whether there has been a marshal with a given key. -/
def hasIssued (w : Fleet) (k : Key) : Bool :=
  decide (k.1 < w.daemons.length) && decide (k.2 < (w.daemon k.1).nextId)

theorem daemon_modify_eq (w : Fleet) (place : Nat) (f : Daemon → Daemon) (other : Nat) :
    (w.modify place f).daemon other =
      if other = place ∧ place < w.daemons.length then f (w.daemon place) else w.daemon other := by
  split
  · next h =>
    obtain ⟨rfl, hplace⟩ := h
    exact daemon_modify hplace f
  · next h =>
    by_cases hother : other = place
    · subst hother
      have hge : w.daemons.length ≤ other := Nat.le_of_not_lt fun hlt => h ⟨rfl, hlt⟩
      rw [daemon, daemon, modify, List.modify_eq_self hge]
    · exact daemon_modify_of_ne hother f

theorem closeCount_close (w : Fleet) (m : Marshal) (k : Key) :
    (m.close w).2.closeCount k =
      w.closeCount k + if m.place < w.daemons.length then (m.key == k).toNat else 0 := by
  obtain ⟨place, id⟩ := k
  rw [Marshal.close, closeCount, record, daemon_modify_eq, closeCount]
  by_cases hplace : m.place < w.daemons.length
  · rw [if_pos hplace]
    by_cases hkey : place = m.place
    · subst hkey
      rw [if_pos ⟨rfl, hplace⟩, Daemon.closedIds_record, List.count_append]
      cases hid : m.id == id <;> simp_all [Marshal.key, Event.closed?]
    · have hne : (m.key == (place, id)) = false := by
        simp [Marshal.key, Ne.symm hkey]
      rw [if_neg (fun h => hkey h.1), hne]
      rfl
  · rw [if_neg (fun h => hplace h.2), if_neg hplace]
    rfl

end Fleet

/-- What becomes of marshals while the fleet changes: one comes only by being created, and closing
one is noted. -/
structure Ledger (w w' : Fleet) (ms ms' : List Marshal) : Prop where
  length : w.daemons.length ≤ w'.daemons.length
  closed (k : Key) : w.closeCount k ≤ w'.closeCount k
  counts (k : Key) :
    ms'.countP (·.key == k) + w'.closeCount k + (w.hasIssued k).toNat ≤
      ms.countP (·.key == k) + w.closeCount k + (w'.hasIssued k).toNat

namespace Ledger

variable {w w' w'' : Fleet} {ms ms' ms'' : List Marshal}

theorem of_subperm (h : ms'.Subperm ms) : Ledger w w ms ms' := by
  refine ⟨Nat.le_refl _, fun _ => Nat.le_refl _, fun k => ?_⟩
  have hcount := h.countP_le (·.key == k)
  omega

theorem trans (h : Ledger w w' ms ms') (h' : Ledger w' w'' ms' ms'') : Ledger w w'' ms ms'' := by
  refine ⟨Nat.le_trans h.length h'.length, fun k => Nat.le_trans (h.closed k) (h'.closed k),
    fun k => ?_⟩
  have hcounts := h.counts k
  have hcounts' := h'.counts k
  omega

/-- The other marshals are not concerned. -/
theorem append (h : Ledger w w' ms ms') (rest : List Marshal) :
    Ledger w w' (ms ++ rest) (ms' ++ rest) := by
  refine ⟨h.length, h.closed, fun k => ?_⟩
  have hcounts := h.counts k
  rw [List.countP_append, List.countP_append]
  omega

/-- A marshal that is changed keeps its key. -/
theorem relabel (h : Ledger w w' ms ms) {m m' : Marshal} (hkey : m'.key = m.key) :
    Ledger w w' (m :: ms) (m' :: ms) := by
  refine ⟨h.length, h.closed, fun k => ?_⟩
  have hcounts := h.counts k
  rw [countP_cons_toNat, countP_cons_toNat, hkey]
  omega

/-! ### What is done to a daemon -/

theorem modify (w : Fleet) (place : Nat) {f : Daemon → Daemon}
    (hclosed : ∀ d, (f d).closedIds = d.closedIds) (hnext : ∀ d, (f d).nextId = d.nextId)
    (ms : List Marshal) : Ledger w (w.modify place f) ms ms := by
  have hlength : (w.modify place f).daemons.length = w.daemons.length := w.length_modify place f
  have hcount (k : Key) : (w.modify place f).closeCount k = w.closeCount k := by
    rw [Fleet.closeCount, Fleet.closeCount, Fleet.daemon_modify_eq]
    split
    · next h => rw [hclosed, h.1]
    · rfl
  have hissued (k : Key) : (w.modify place f).hasIssued k = w.hasIssued k := by
    rw [Fleet.hasIssued, Fleet.hasIssued, hlength, Fleet.daemon_modify_eq]
    split
    · next h => rw [hnext, h.1]
    · rfl
  refine ⟨Nat.le_of_eq hlength.symm, fun k => Nat.le_of_eq (hcount k).symm, fun k => ?_⟩
  exact Nat.le_of_eq (by rw [hcount, hissued])

/-- A new daemon has closed nothing yet. -/
theorem start (w : Fleet) {d : Daemon} (hd : d.closedIds = []) (ms : List Marshal) :
    Ledger w (w.start d).2 ms ms := by
  have hlength : (w.start d).2.daemons.length = w.daemons.length + 1 := List.length_append
  have hcount (k : Key) : (w.start d).2.closeCount k = w.closeCount k := by
    by_cases hlt : k.1 < w.daemons.length
    · rw [Fleet.closeCount, Fleet.closeCount, Fleet.daemon_start hlt]
    · have hold : w.daemon k.1 = {} := by
        simp [Fleet.daemon, List.getD_eq_getElem?_getD, Nat.le_of_not_lt hlt]
      have hnew : (w.start d).2.daemon k.1 = d ∨ (w.start d).2.daemon k.1 = {} := by
        rw [Fleet.daemon, Fleet.start, List.getD_eq_getElem?_getD,
          List.getElem?_append_right (Nat.le_of_not_lt hlt), List.getElem?_singleton]
        split
        · exact .inl rfl
        · exact .inr rfl
      rw [Fleet.closeCount, Fleet.closeCount, hold]
      rcases hnew with hnew | hnew
      · rw [hnew, hd]
        rfl
      · rw [hnew]
  refine ⟨by omega, fun k => Nat.le_of_eq (hcount k).symm, fun k => ?_⟩
  have hissued : (w.hasIssued k).toNat ≤ ((w.start d).2.hasIssued k).toNat := by
    cases h : w.hasIssued k with
    | false => exact Nat.zero_le _
    | true =>
      rw [Fleet.hasIssued, Bool.and_eq_true, decide_eq_true_eq] at h
      have hlt : k.1 < (w.start d).2.daemons.length := by omega
      rw [Fleet.hasIssued, Fleet.daemon_start h.1, decide_eq_true hlt, h.2]
      exact Nat.le_refl _
  rw [hcount]
  omega

/-! ### What is done to marshals -/

theorem record (w : Fleet) (place : Nat) {e : Event} (he : e.closed? = none) (ms : List Marshal) :
    Ledger w (w.record place e) ms ms := by
  refine modify (f := (·.record e)) w place (fun d => ?_) (fun _ => rfl) ms
  rw [Daemon.closedIds_record, he]
  exact List.append_nil _

theorem reset (m : Marshal) (w : Fleet) : Ledger w (m.reset w).2 [m] [(m.reset w).1] :=
  (record w m.place rfl []).relabel rfl

theorem dial (m : Marshal) (host : String) (port : UInt16) (w : Fleet) :
    Ledger w (m.dial host port w).2.2 [m] [(m.dial host port w).2.1] :=
  (record w m.place rfl []).relabel rfl

theorem close (m : Marshal) (w : Fleet) : Ledger w (m.close w).2 [m] [] := by
  have hlength : (m.close w).2.daemons.length = w.daemons.length := w.length_modify _ _
  have hissued (k : Key) : (m.close w).2.hasIssued k = w.hasIssued k := by
    rw [Fleet.hasIssued, Fleet.hasIssued, hlength, Marshal.close, Fleet.record,
      Fleet.daemon_modify_eq]
    split
    · next h => rw [h.1]; rfl
    · rfl
  have hcount (k : Key) := w.closeCount_close m k
  refine ⟨Nat.le_of_eq hlength.symm, fun k => ?_, fun k => ?_⟩
  · rw [hcount]
    exact Nat.le_add_right _ _
  · rw [hcount, hissued, countP_cons_toNat, List.countP_nil]
    split
    · omega
    · omega

/-- A new marshal has a key that no other one has had. -/
theorem create {f : Factory} {w : Fleet} (hplace : f.place < w.daemons.length) :
    Ledger w (f.create w).2 [] [(f.create w).1] := by
  have hlength : (f.create w).2.daemons.length = w.daemons.length := w.length_modify _ _
  have hcount (k : Key) : (f.create w).2.closeCount k = w.closeCount k := by
    rw [Factory.create, Fleet.closeCount, Fleet.closeCount, Fleet.daemon_modify_eq]
    split
    · next h => rw [h.1]; rfl
    · rfl
  refine ⟨Nat.le_of_eq hlength.symm, fun k => Nat.le_of_eq (hcount k).symm, fun k => ?_⟩
  have hissued : ((f.create w).1.key == k).toNat + (w.hasIssued k).toNat ≤
      ((f.create w).2.hasIssued k).toNat := by
    obtain ⟨place, id⟩ := k
    rw [Fleet.hasIssued, Fleet.hasIssued, hlength, Factory.create, Fleet.daemon_modify_eq,
      Marshal.key]
    by_cases hk : place = f.place
    · subst hk
      rw [if_pos ⟨rfl, hplace⟩, decide_eq_true hplace, Bool.true_and, Bool.true_and]
      rcases Nat.lt_trichotomy id (w.daemon f.place).nextId with hlt | rfl | hgt
      · have hne : ((f.place, (w.daemon f.place).nextId) == (f.place, id)) = false := by
          simp [Nat.ne_of_gt hlt]
        rw [hne, decide_eq_true hlt, decide_eq_true (Nat.lt_succ_of_lt hlt)]
        exact Nat.le_refl _
      · simp
      · have hne : ((f.place, (w.daemon f.place).nextId) == (f.place, id)) = false := by
          simp [Nat.ne_of_lt hgt]
        rw [hne, decide_eq_false (Nat.lt_asymm hgt)]
        exact Nat.zero_le _
    · have hne : ((f.place, (w.daemon f.place).nextId) == (place, id)) = false := by
        simp [Ne.symm hk]
      rw [if_neg (fun h => hk h.1), hne]
      exact Nat.le_of_eq (Nat.zero_add _)
  rw [hcount, countP_cons_toNat, List.countP_nil]
  omega

theorem closeEach (ms : List Marshal) (w : Fleet) : Ledger w (closeEach ms w) ms [] := by
  induction ms generalizing w with
  | nil => exact of_subperm (.refl _)
  | cons m ms ih => exact ((close m w).append ms).trans (ih _)

/-- Nothing that the holder of a marshal does to it closes it, but closing it. -/
theorem deed (m : Marshal) (w : Fleet) {d : Deed MockAct} (hd : d ≠ .close) :
    Ledger w (State.doDeed m w d).2.2 [m] [(State.doDeed m w d).2.1] := by
  cases d with
  | look => exact of_subperm (.refl _)
  | dial host port => exact dial m host port w
  | reset => exact reset m w
  | close => exact absurd rfl hd
  | act a =>
    cases a with
    | markDirty =>
      have h : Ledger w w [] [] := of_subperm (.refl _)
      exact h.relabel rfl

/-! ### What sessions do -/

theorem acquire (s : Session Factory Marshal) {w : Fleet}
    (hplace : s.factory.place < w.daemons.length) :
    Ledger w (s.acquire w).2.2 s.pool.idle
      ((s.acquire w).1.toList ++ (s.acquire w).2.1.pool.idle) := by
  obtain ⟨localId, remoteId, domain, factory, ⟨idle, outstanding, closed⟩⟩ := s
  cases idle with
  | cons m rest => exact (reset m w).append rest
  | nil =>
    have hdialled := (create hplace).trans (dial (factory.create w).1 domain.host domain.port _)
    simp only [Session.acquire, Pool.take]
    split
    · exact hdialled.trans (reset _ _)
    · exact hdialled.trans (of_subperm (List.nil_subperm))

theorem release (s : Session Factory Marshal) (m : Marshal) (w : Fleet) :
    Ledger w (s.release m w).2.2 (m :: s.pool.idle) (s.release m w).2.1.pool.idle := by
  have hreset := (reset m w).append s.pool.idle
  obtain ⟨localId, remoteId, domain, factory, ⟨idle, outstanding, closed⟩⟩ := s
  cases closed with
  | false => exact hreset
  | true => exact hreset.trans ((close (m.reset w).1 _).append idle)

theorem closeSession (s : Session Factory Marshal) (w : Fleet) :
    Ledger w (s.close w).2.2 s.pool.idle (s.close w).2.1.pool.idle := by
  obtain ⟨localId, remoteId, domain, factory, ⟨idle, outstanding, closed⟩⟩ := s
  cases closed with
  | false => exact closeEach idle w
  | true => exact of_subperm (.refl _)

end Ledger

/-! ### Marshals that are closed -/

/-- Whatever is done to a marshal, it keeps its key. -/
theorem key_doDeed (m : Marshal) (w : Fleet) (d : Deed MockAct) :
    (State.doDeed m w d).2.1.key = m.key := by
  cases d with
  | act a =>
    cases a with
    | markDirty => rfl
  | _ => rfl

theorem Fleet.closeCount_close_pos {w : Fleet} {m : Marshal}
    (hplace : m.place < w.daemons.length) : 0 < (m.close w).2.closeCount m.key := by
  rw [closeCount_close, if_pos hplace, beq_self_eq_true]
  exact Nat.succ_pos _

theorem Fleet.closeCount_closeEach_pos {w : Fleet} {m : Marshal} {ms : List Marshal} (hm : m ∈ ms)
    (hplace : m.place < w.daemons.length) : 0 < (closeEach ms w).closeCount m.key := by
  induction ms generalizing w with
  | nil => cases hm
  | cons first rest ih =>
    rcases List.mem_cons.mp hm with rfl | hrest
    · have hlater := (Ledger.closeEach rest (m.close w).2).closed m.key
      exact Nat.lt_of_lt_of_le (closeCount_close_pos hplace) hlater
    · exact ih hrest (Nat.lt_of_lt_of_le hplace (Ledger.close first w).length)

end SessionPool.Mock
