import SessionPool.Proofs.Custody.Census

/-!
# No marshal is in two places

The census is taken of threads that leave opening and closing to the sessions. Threads that do as
they like with what they have may close a marshal that they go on to use, so that the log of the
daemon no longer tells where it is. But still nobody can copy a marshal, and whatever its holders do
to it,

    idle + in calls, in hands and dropped ≤ created.
-/

namespace SessionPool

open Session (Call Result)
open Script (World Holder FleetChange MockAct)
open Mock (Key Fleet Daemon)

namespace Custody

/-- Whether a move brings in no marshal from elsewhere. -/
def Move.isNative {μ χ α : Type} : Move μ χ α → Bool
  | .adopt _ _ => false
  | _ => true

/-- All sessions are over the first daemon, and what that has created is in one place at most. -/
structure Unshared (st : MockCustody) : Prop where
  one : st.calls.OneCallEach
  homes : ∀ s ∈ st.calls.sessions, s.factory.place = 0
  running : 0 < st.calls.world.daemons.length
  first : 1 ≤ st.daemon.nextId
  once : ∀ k, st.idle.countP (·.key == k) + st.tally (.of k) ≤ (st.daemon.hasCreated k).toNat

/-! ### Where marshals come from -/

namespace Unshared

variable {st : MockCustody}

theorem place_eq (h : st.Unshared) {k : Key}
    (hk : 0 < st.idle.countP (·.key == k) + st.tally (.of k)) : k.1 = 0 := by
  have honce := h.once k
  cases hcreated : st.daemon.hasCreated k with
  | false =>
    rw [hcreated, Bool.toNat_false] at honce
    omega
  | true => exact beq_iff_eq.mp (Bool.and_eq_true_iff.mp hcreated).1

theorem idle_place (h : st.Unshared) {s : Session Mock.Factory Mock.Marshal}
    (hs : s ∈ st.calls.sessions) {m : Mock.Marshal} (hm : m ∈ s.pool.idle) : m.place = 0 := by
  have hidle : 0 < st.idle.countP (·.key == m.key) :=
    List.countP_pos_iff.mpr ⟨m, List.mem_flatMap.mpr ⟨s, hs, hm⟩, beq_self_eq_true _⟩
  exact h.place_eq (k := m.key) (by omega)

theorem carried_place (h : st.Unshared) {t : Thread} {p : Pending Mock.Marshal}
    (hp : st.calls.pending? t = some p) {m : Mock.Marshal} (hm : Mock.carried? p.next = some m) :
    m.place = 0 := by
  have hcall : 0 < st.calls.inCalls (Tally.of m.key).call :=
    List.countP_pos_iff.mpr ⟨(t, p), Interleaving.mem_pending hp, by simp [Tally.of, hm]⟩
  exact h.place_eq (k := m.key) (by rw [tally]; omega)

/-- Nobody has a marshal that somebody else has. -/
theorem nodup_holdings (h : st.Unshared) : (st.holdings.map (·.marshal.key)).Nodup := by
  rw [List.nodup_iff_count]
  intro k
  have honce := h.once k
  have hcreated := (st.daemon.hasCreated k).toNat_le
  rw [List.count, List.countP_map]
  rw [tally] at honce
  change _ + (_ + st.holdings.countP ((· == k) ∘ (·.marshal.key)) + _) ≤ _ at honce
  omega

/-! ### Moves -/

theorem advance (h : st.Unshared) (t : Thread) : (st.advance t).Unshared := by
  rcases st.advance_cases t with heq | ⟨p, s, hp, hs, hcalls⟩
  · rwa [heq]
  have hmem : s ∈ st.calls.sessions := List.mem_of_getElem? hs
  have hstepped := Session.stepped s st.calls.world p.next
  have hstep : Mock.Step s.pool p.next st.daemon (st.advance t).daemon := by
    rw [daemon_advance hcalls]
    exact Mock.step_of_stepped hstepped h.running (h.homes s hmem) (fun _ => h.carried_place hp)
      fun _ => h.idle_place hmem
  refine ⟨?_, ?_, ?_, ?_, fun k => ?_⟩
  · rw [hcalls]
    exact h.one.advance s hp
  · rw [hcalls, Interleaving.advance_sessions]
    intro s' hs'
    rcases List.mem_or_eq_of_mem_set hs' with hold | rfl
    · exact h.homes s' hold
    · obtain ⟨pool, hpool⟩ := hstepped.session
      rw [Interleaving.outcome, hpool]
      exact h.homes s hmem
  · rw [hcalls, Interleaving.advance_world, Interleaving.outcome, Mock.length_of_stepped hstepped]
    exact h.running
  · rw [hstep.nextId]
    exact Nat.le_add_right_of_le h.first
  -- A step creates what it counts anew, and what it refuses or closes it counts no more.
  · have hcreated := hstep.hasCreated h.first k
    have hkey := Mock.key_of_stepped hstepped (h.homes s hmem) (fun _ => h.carried_place hp)
      (fun _ => h.idle_place hmem) k
    have htally := tally_advance (Tally.of_lawful k) h.one hp hs
    have hset := countP_idle_set hs (st.calls.outcome p s).2.1 (·.key == k)
    have hbefore := h.once k
    rw [← Interleaving.advance_sessions st.calls t p s, ← hcalls] at hset
    rw [idle] at hbefore ⊢
    rw [Interleaving.outcome] at hset htally
    rw [← daemon] at hkey
    omega

end Unshared

/-- What a holder does to a marshal leaves it the marshal that it is, and creates none. -/
theorem nextId_deed {w : Fleet} (hw : 0 < w.daemons.length) (m : Mock.Marshal)
    (deed : Script.Deed MockAct) :
    (Script.State.doDeed m w deed).2.1.key = m.key ∧
      0 < (Script.State.doDeed m w deed).2.2.daemons.length ∧
      ((Script.State.doDeed m w deed).2.2.daemon 0).nextId = (w.daemon 0).nextId := by
  have recorded (e : Mock.Event) : 0 < (w.record m.place e).daemons.length ∧
      ((w.record m.place e).daemon 0).nextId = (w.daemon 0).nextId :=
    ⟨(Fleet.length_modify ..).symm ▸ hw, Fleet.nextId_record hw m.place e⟩
  cases deed with
  | look => exact ⟨rfl, hw, rfl⟩
  | dial host port => exact ⟨rfl, recorded _⟩
  | reset => exact ⟨rfl, recorded _⟩
  | close => exact ⟨rfl, recorded _⟩
  | act a => cases a; exact ⟨rfl, hw, rfl⟩

/-- Marshals are created only by the steps of calls. -/
theorem nextId_of_arranged {st st' : MockCustody} {m : MockMove} (h : Arranged st m st')
    (hw : 0 < st.calls.world.daemons.length) :
    0 < st'.calls.world.daemons.length ∧ st'.daemon.nextId = st.daemon.nextId := by
  have started (t : Thread) (place : Place) (call : Call Mock.Marshal) :
      0 < (st.start t place call).calls.world.daemons.length ∧
        (st.start t place call).daemon.nextId = st.daemon.nextId := by
    rw [daemon, daemon, world_start]
    exact ⟨hw, rfl⟩
  cases h with
  | request r hcan => exact started _ _ _
  | release hh hfree hcan => exact started _ _ _
  | endLease hh hleased horigin hcan => exact started _ _ _
  | @deed t i h d hh => exact (nextId_deed hw h.marshal d).2
  | change c =>
    obtain ⟨hrunning, hlives⟩ := sameLives_change hw c
    exact ⟨hrunning, hlives.nextId⟩
  | dropSession hcan hfree => exact started _ _ _
  | _ => exact ⟨hw, rfl⟩

theorem Unshared.move {st : MockCustody} (h : st.Unshared) {m : MockMove}
    (native : m.isNative = true) : (st.move m).Unshared := by
  rcases m.advance_or with ⟨t, rfl⟩ | hm
  · exact h.advance t
  · have harranged := arranged st hm
    have hbegins := harranged.begins
    obtain ⟨hrunning, hnext⟩ := nextId_of_arranged harranged h.running
    refine ⟨hbegins.oneCallEach h.one, ?_, hrunning, ?_, fun k => ?_⟩
    · rw [hbegins.sessions_eq]
      exact h.homes
    · rw [hnext]
      exact h.first
    · have kept : (Tally.of k).KeptBy st m := by
        cases m with
        | release t place i => exact fun _ _ => rfl
        | endLease t i => exact fun _ _ _ => rfl
        | adopt t marshal => exact absurd native Bool.false_ne_true
        | deed t i deed =>
          intro held _
          show (_ == k) = (_ == k)
          rw [(nextId_deed h.running held.marshal deed).1]
        | _ => trivial
      have honce := h.once k
      rw [idle, Mock.Daemon.hasCreated] at honce ⊢
      rw [hbegins.sessions_eq, tally_of_arranged harranged (Tally.of_lawful k) kept, hnext]
      exact honce

theorem unshared_run (accepting : Bool) (sessions : List (UInt64 × Domain))
    {moves : List MockMove} (native : ∀ m ∈ moves, m.isNative = true) :
    ((overMock accepting sessions).run moves).Unshared := by
  have haccounted := accounted_overMock accepting sessions
  have hfresh : (overMock accepting sessions).Unshared := by
    refine ⟨haccounted.one, haccounted.homes, haccounted.running, haccounted.first, fun k => ?_⟩
    have hcensus := haccounted.census k
    rw [census] at hcensus
    omega
  exact run_invariant (fun _ _ hm h => h.move hm) (permits_of_forall _ native) hfresh

end Custody

end SessionPool
