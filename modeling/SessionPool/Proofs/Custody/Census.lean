import SessionPool.Proofs.Custody.Tally
import SessionPool.Proofs.Mock.Steps

/-!
# A census of the marshals of a daemon

Sessions share one mock daemon. A marshal is idle in a session, or in a call, in somebody's hands or
dropped, or the daemon is done with it, as its log tells. Every marshal that the daemon has created
is counted once over all of this, and nothing else is counted:

    idle + in calls, in hands and dropped + refused and closed = created.
-/

namespace SessionPool

open Session (Call Result)
open Script (World Holder FleetChange MockAct)
open Mock (Key Fleet Daemon)

namespace Mock.Daemon

/-- Whether the daemon has created a marshal with a given key. -/
def hasCreated (d : Daemon) (k : Key) : Bool := k.1 == 0 && decide (1 ≤ k.2 ∧ k.2 < d.nextId)

/-- How often a marshal was refused or closed. -/
def spent (d : Daemon) (k : Key) : Nat :=
  (d.refusedIds ++ d.closedIds).countP fun id => (0, id) == k

theorem SameLives.hasCreated_eq {d d' : Daemon} (h : d.SameLives d') (k : Key) :
    d'.hasCreated k = d.hasCreated k := by
  rw [hasCreated, hasCreated, h.nextId]

theorem SameLives.spent_eq {d d' : Daemon} (h : d.SameLives d') (k : Key) :
    d'.spent k = d.spent k := by
  rw [spent, spent, h.refused, h.closed]

end Mock.Daemon

/-- The marshal with a given key, outside the pools. -/
def Tally.of (k : Key) : Tally Mock.Marshal where
  call c := (Mock.carried? c).any (·.key == k)
  holding h := h.marshal.key == k
  result
    | .acquired m => m.any (·.key == k)
    | _ => false

theorem Tally.of_lawful (k : Key) : (Tally.of k).Lawful where
  request r := by cases r <;> rfl
  relabel _ _ _ := rfl
  result t place leased r := by
    cases r with
    | acquired m =>
      cases m with
      | none => rfl
      | some m => cases h : m.key == k <;> simp [Custody.gained, Tally.of, h]
    | _ => rfl

/-! ### One step -/

namespace Mock

variable {s : Session Factory Marshal} {w : Fleet} {c : Call Marshal}
  {out : (Call Marshal ⊕ Result Marshal) × Session Factory Marshal × Fleet}

/-- What a call refuses and closes is no more in its pool or carried by it afterwards, what it
creates is; nothing else comes or goes. -/
theorem key_of_stepped (h : Session.Stepped s w c out) (hs : s.factory.place = 0)
    (hcarried : ∀ m, carried? c = some m → m.place = 0) (hidle : ∀ m ∈ s.pool.idle, m.place = 0)
    (k : Key) :
    out.2.1.pool.idle.countP (·.key == k) + (Tally.of k).outcome out.1 +
        (refuses (w.daemon 0).accepting c ++ closes s.pool c).countP (fun id => (0, id) == k) =
      s.pool.idle.countP (·.key == k) + ((Tally.of k).call c).toNat +
        (creates c && (0, (w.daemon 0).nextId) == k).toNat := by
  cases h with
  | @hit m rest h =>
    rw [Pool.take_idle, h, List.tail_cons, countP_cons_toNat]
    rfl
  | miss h =>
    rw [Pool.take_idle, h]
    rfl
  | create =>
    show s.pool.idle.countP _ + ((s.factory.create w).1.key == k).toNat + 0 = _ + 0 + _
    rw [Factory.create, Marshal.key, hs]
    rfl
  | dial m =>
    have hkey : (0, m.id) = m.key := by rw [Marshal.key, hcarried m rfl]
    have hdaemon : w.daemon 0 = w.daemon m.place := by rw [hcarried m rfl]
    show s.pool.idle.countP _ + ((Tally.of k).call (.settle { m with isOpen := _ }
      (w.daemon m.place).accepting)).toNat + _ = _
    rw [hdaemon]
    -- An accepted marshal stays in the call, a refused one goes from the call to the log.
    cases hok : (w.daemon m.place).accepting with
    | true => rfl
    | false =>
      show s.pool.idle.countP _ + 0 + List.countP _ [m.id] = _ + (m.key == k).toNat + 0
      rw [countP_cons_toNat, hkey, List.countP_nil, Nat.zero_add]
      rfl
  | kept m h =>
    rw [Pool.put_idle, h, if_neg Bool.false_ne_true, countP_cons_toNat]
    rfl
  | turnedAway m h =>
    rw [Pool.put_idle, h]
    rfl
  | discard m =>
    have hkey : (0, m.id) = m.key := by rw [Marshal.key, hcarried m rfl]
    show s.pool.idle.countP _ + 0 + List.countP _ [m.id] = _ + (m.key == k).toNat + 0
    rw [countP_cons_toNat, hkey, List.countP_nil, Nat.zero_add]
    rfl
  -- What is drained goes from the idle list to the log, which knows it by its id alone.
  | close =>
    have hkeys : (s.pool.drain.1.map (·.id)).countP (fun id => (0, id) == k) =
        s.pool.drain.1.countP (·.key == k) := by
      rw [List.countP_map]
      refine List.countP_congr fun m hm => ?_
      rw [Function.comp_apply, Marshal.key, hidle m (mem_idle_of_mem_drain hm)]
    show s.pool.drain.2.idle.countP _ + 0 + (s.pool.drain.1.map (·.id)).countP _ = _ + 0 + 0
    rw [hkeys, Pool.drain]
    split
    · simp
    · simp
  | _ => rfl

/-- A step counts the marshal that it creates, and goes on counting every other. -/
theorem census_of_stepped (h : Session.Stepped s w c out) (hw : 0 < w.daemons.length)
    (hs : s.factory.place = 0) (hcarried : ∀ m, carried? c = some m → m.place = 0)
    (hidle : ∀ m ∈ s.pool.idle, m.place = 0) (k : Key) :
    out.2.1.pool.idle.countP (·.key == k) + (Tally.of k).outcome out.1 +
        (out.2.2.daemon 0).spent k =
      s.pool.idle.countP (·.key == k) + ((Tally.of k).call c).toNat + (w.daemon 0).spent k +
        (creates c && (0, (w.daemon 0).nextId) == k).toNat := by
  have hkey := key_of_stepped h hs hcarried hidle k
  have hstep := step_of_stepped h hw hs hcarried hidle
  rw [Daemon.spent, Daemon.spent, hstep.refused, hstep.closed]
  simp only [List.countP_append] at hkey ⊢
  omega

theorem Step.hasCreated {p : Pool Marshal} {c : Call Marshal} {d d' : Daemon}
    (h : Step p c d d') (hd : 1 ≤ d.nextId) (k : Key) :
    (d'.hasCreated k).toNat =
      (d.hasCreated k).toNat + (creates c && (0, d.nextId) == k).toNat := by
  rw [Daemon.hasCreated, Daemon.hasCreated, h.nextId]
  cases creates c with
  | false => rfl
  | true =>
    by_cases hk : ((0, d.nextId) : Key) = k
    · have hlast : 1 ≤ d.nextId ∧ d.nextId < d.nextId + 1 := ⟨hd, Nat.lt_succ_self _⟩
      have hbefore : ¬ (1 ≤ d.nextId ∧ d.nextId < d.nextId) := fun h => Nat.lt_irrefl _ h.2
      subst hk
      show (true && decide (1 ≤ d.nextId ∧ d.nextId < d.nextId + 1)).toNat = _
      rw [decide_eq_true hlast, decide_eq_false hbefore, beq_self_eq_true ((0, d.nextId) : Key)]
      rfl
    · rw [beq_false_of_ne hk]
      by_cases hplace : k.1 = 0
      · have hid : d.nextId ≠ k.2 := fun h => hk (Prod.ext hplace.symm h)
        have hlt : 1 ≤ k.2 ∧ k.2 < d.nextId + 1 ↔ 1 ≤ k.2 ∧ k.2 < d.nextId := by omega
        show (k.1 == 0 && decide (1 ≤ k.2 ∧ k.2 < d.nextId + 1)).toNat = _
        rw [decide_eq_decide.mpr hlt]
        rfl
      · rw [beq_false_of_ne hplace]
        rfl

end Mock

/-! ### What the threads do between two calls -/

namespace Custody

theorem world_start (st : MockCustody) (t : Thread) (place : Place) (call : Call Mock.Marshal) :
    (st.start t place call).calls.world = st.calls.world := by
  show (st.calls.move (.start t place call)).world = _
  rw [Interleaving.move]
  split <;> rfl

/-- What a gentle holder does to a marshal lets no marshal come or go. -/
theorem sameLives_deed {w : Fleet} (hw : 0 < w.daemons.length) (m : Mock.Marshal)
    {deed : Script.Deed MockAct} (gentle : isGentleDeed deed = true) :
    (Script.State.doDeed m w deed).2.1.key = m.key ∧
      0 < (Script.State.doDeed m w deed).2.2.daemons.length ∧
      (w.daemon 0).SameLives ((Script.State.doDeed m w deed).2.2.daemon 0) := by
  cases deed with
  | look => exact ⟨rfl, hw, .refl _⟩
  | dial host port => exact absurd gentle Bool.false_ne_true
  | reset =>
    refine ⟨rfl, ?_, Fleet.sameLives_modify hw m.place fun d => d.sameLives_reset m.id⟩
    exact (Fleet.length_modify ..).symm ▸ hw
  | close => exact absurd gentle Bool.false_ne_true
  | act a => cases a; exact ⟨rfl, hw, .refl _⟩

/-- No more does a change of the world outside. -/
theorem sameLives_change {w : Fleet} (hw : 0 < w.daemons.length) (c : FleetChange) :
    0 < (World.change c w).daemons.length ∧
      (w.daemon 0).SameLives ((World.change c w).daemon 0) := by
  cases c with
  | start d =>
    refine ⟨?_, ?_⟩
    · show 0 < (w.daemons ++ [d]).length
      simp
    · show (w.daemon 0).SameLives ((w.start d).2.daemon 0)
      rw [Fleet.daemon_start hw]
      exact .refl _
  | setAccepting place on =>
    refine ⟨?_, Fleet.sameLives_modify hw place fun d => d.sameLives_accepting on⟩
    exact (Fleet.length_modify ..).symm ▸ hw

/-- Marshals come and go only by the steps of calls. -/
theorem sameLives_of_arranged {st st' : MockCustody} {m : MockMove} (h : Arranged st m st')
    (hw : 0 < st.calls.world.daemons.length) (gentle : m.isGentle = true) :
    0 < st'.calls.world.daemons.length ∧ st.daemon.SameLives st'.daemon := by
  have started (t : Thread) (place : Place) (call : Call Mock.Marshal) :
      0 < (st.start t place call).calls.world.daemons.length ∧
        st.daemon.SameLives (st.start t place call).daemon := by
    rw [daemon, daemon, world_start]
    exact ⟨hw, .refl _⟩
  cases h with
  | request r hcan => exact started _ _ _
  | release hh hfree hcan => exact started _ _ _
  | endLease hh hleased horigin hcan => exact started _ _ _
  | @deed t i h d hh => exact (sameLives_deed hw h.marshal gentle).2
  | change c => exact sameLives_change hw c
  | dropSession hcan hfree => exact started _ _ _
  | _ => exact ⟨hw, .refl _⟩

/-! ### The invariant -/

/-- All idle marshals, session by session. -/
def idle (st : MockCustody) : List Mock.Marshal := st.calls.sessions.flatMap (·.pool.idle)

/-- How often a marshal is somewhere. -/
def census (st : MockCustody) (k : Key) : Nat :=
  st.idle.countP (·.key == k) + st.tally (.of k) + st.daemon.spent k

/-- All sessions are over the first daemon, and everything that it has created is somewhere once. -/
structure Accounted (st : MockCustody) : Prop where
  one : st.calls.OneCallEach
  homes : ∀ s ∈ st.calls.sessions, s.factory.place = 0
  running : 0 < st.calls.world.daemons.length
  first : 1 ≤ st.daemon.nextId
  census : ∀ k, st.census k = (st.daemon.hasCreated k).toNat

theorem Accounted.place_eq {st : MockCustody} (h : st.Accounted) {k : Key}
    (hk : 0 < st.census k) : k.1 = 0 := by
  rw [h.census] at hk
  cases hcreated : st.daemon.hasCreated k with
  | false => simp [hcreated] at hk
  | true => exact beq_iff_eq.mp (Bool.and_eq_true_iff.mp hcreated).1

theorem Accounted.idle_place {st : MockCustody} (h : st.Accounted) {s : Session _ _}
    (hs : s ∈ st.calls.sessions) {m : Mock.Marshal} (hm : m ∈ s.pool.idle) : m.place = 0 := by
  have hidle : 0 < st.idle.countP (·.key == m.key) :=
    List.countP_pos_iff.mpr ⟨m, List.mem_flatMap.mpr ⟨s, hs, hm⟩, beq_self_eq_true _⟩
  exact h.place_eq (k := m.key) (by rw [Custody.census]; omega)

theorem Accounted.carried_place {st : MockCustody} (h : st.Accounted) {t : Thread}
    {p : Pending Mock.Marshal} (hp : st.calls.pending? t = some p) {m : Mock.Marshal}
    (hm : Mock.carried? p.next = some m) : m.place = 0 := by
  have hcall : 0 < st.calls.inCalls (Tally.of m.key).call :=
    List.countP_pos_iff.mpr ⟨(t, p), Interleaving.mem_pending hp, by simp [Tally.of, hm]⟩
  exact h.place_eq (k := m.key) (by rw [Custody.census, tally]; omega)

theorem countP_idle_set {sessions : List (Session Mock.Factory Mock.Marshal)} {i : Nat}
    {s : Session Mock.Factory Mock.Marshal} (hs : sessions[i]? = some s)
    (s' : Session Mock.Factory Mock.Marshal) (f : Mock.Marshal → Bool) :
    ((sessions.set i s').flatMap (·.pool.idle)).countP f + s.pool.idle.countP f =
      (sessions.flatMap (·.pool.idle)).countP f + s'.pool.idle.countP f := by
  obtain ⟨hlt, rfl⟩ := List.getElem?_eq_some_iff.mp hs
  -- Before and after, the sessions are the changed one and the same others, up to their order.
  have hperm := ((List.getElem_cons_eraseIdx_perm hlt).flatMap_right (·.pool.idle)).countP_eq f
  have hperm' :=
    ((List.set_perm_cons_eraseIdx hlt s').flatMap_right (·.pool.idle)).countP_eq f
  rw [List.flatMap_cons, List.countP_append] at hperm hperm'
  omega

theorem daemon_advance {st : MockCustody} {t : Thread} {p : Pending Mock.Marshal}
    {s : Session Mock.Factory Mock.Marshal}
    (hcalls : (st.advance t).calls = st.calls.advance t p s) :
    (st.advance t).daemon = (p.next.step s st.calls.world).2.2.daemon 0 := by
  rw [daemon, hcalls, Interleaving.advance_world]
  rfl

/-- A step of a thread does to the daemon what the call of the thread says. -/
theorem Accounted.step {st : MockCustody} (h : st.Accounted) {t : Thread}
    {p : Pending Mock.Marshal} {s : Session Mock.Factory Mock.Marshal}
    (hp : st.calls.pending? t = some p) (hs : st.calls.sessions[p.place]? = some s)
    (hcalls : (st.advance t).calls = st.calls.advance t p s) :
    Mock.Step s.pool p.next st.daemon (st.advance t).daemon := by
  have hmem : s ∈ st.calls.sessions := List.mem_of_getElem? hs
  rw [daemon_advance hcalls]
  exact Mock.step_of_stepped (Session.stepped s _ p.next) h.running (h.homes s hmem)
    (fun _ => h.carried_place hp) fun _ => h.idle_place hmem

theorem Accounted.advance {st : MockCustody} (h : st.Accounted) (t : Thread) :
    (st.advance t).Accounted := by
  rcases st.advance_cases t with heq | ⟨p, s, hp, hs, hcalls⟩
  · rwa [heq]
  have hmem : s ∈ st.calls.sessions := List.mem_of_getElem? hs
  have hstep := h.step hp hs hcalls
  refine ⟨?_, ?_, ?_, ?_, fun k => ?_⟩
  · rw [hcalls]
    exact h.one.advance s hp
  · rw [hcalls, Interleaving.advance_sessions]
    intro s' hs'
    rcases List.mem_or_eq_of_mem_set hs' with hold | rfl
    · exact h.homes s' hold
    · obtain ⟨pool, hpool⟩ := (Session.stepped s st.calls.world p.next).session
      rw [Interleaving.outcome, hpool]
      exact h.homes s hmem
  · rw [hcalls, Interleaving.advance_world, Interleaving.outcome,
      Mock.length_of_stepped (Session.stepped s _ p.next)]
    exact h.running
  · rw [hstep.nextId]
    exact Nat.le_add_right_of_le h.first
  -- Pool, calls and hands, log, and what was created: one equation each, and they balance.
  · have hcreated := hstep.hasCreated h.first k
    have hcensus := Mock.census_of_stepped (Session.stepped s _ p.next) h.running
      (h.homes s hmem) (fun _ => h.carried_place hp) (fun _ => h.idle_place hmem) k
    have htally := tally_advance (Tally.of_lawful k) h.one hp hs
    have hset := countP_idle_set hs (st.calls.outcome p s).2.1 (·.key == k)
    have hbefore := h.census k
    rw [← Interleaving.advance_sessions st.calls t p s, ← hcalls] at hset
    rw [← daemon_advance hcalls, ← daemon] at hcensus
    rw [Custody.census, idle] at hbefore ⊢
    rw [Interleaving.outcome] at hset htally
    omega

theorem Accounted.move {st : MockCustody} (h : st.Accounted) {m : MockMove}
    (gentle : m.isGentle = true) : (st.move m).Accounted := by
  rcases m.advance_or with ⟨t, rfl⟩ | hm
  · exact h.advance t
  · have harranged := arranged st hm
    have hbegins := harranged.begins
    obtain ⟨hrunning, hlives⟩ := sameLives_of_arranged harranged h.running gentle
    refine ⟨hbegins.oneCallEach h.one, ?_, hrunning, ?_, fun k => ?_⟩
    · rw [hbegins.sessions_eq]
      exact h.homes
    · rw [hlives.nextId]
      exact h.first
    · have kept : (Tally.of k).KeptBy st m := by
        cases m with
        | release t place i => exact fun _ _ => rfl
        | endLease t i => exact fun _ _ _ => rfl
        | adopt t marshal => exact absurd gentle Bool.false_ne_true
        | deed t i deed =>
          intro held _
          show (_ == k) = (_ == k)
          rw [(sameLives_deed h.running held.marshal gentle).1]
        | _ => trivial
      have hcensus := h.census k
      rw [Custody.census, idle] at hcensus ⊢
      rw [hbegins.sessions_eq, tally_of_arranged harranged (Tally.of_lawful k) kept,
        hlives.spent_eq, hlives.hasCreated_eq]
      exact hcensus

/-! ### Runs -/

theorem hasCreated_overMock (accepting : Bool) (sessions : List (UInt64 × Domain)) (k : Key) :
    (overMock accepting sessions).daemon.hasCreated k = false := by
  have hnone : ¬ (1 ≤ k.2 ∧ k.2 < 1) := by omega
  show (k.1 == 0 && decide (1 ≤ k.2 ∧ k.2 < 1)) = false
  rw [decide_eq_false hnone, Bool.and_false]

theorem idle_overMock (accepting : Bool) (sessions : List (UInt64 × Domain)) :
    (overMock accepting sessions).idle = [] := by
  rw [idle, List.flatMap_eq_nil_iff]
  intro s hs
  obtain ⟨⟨localId, domain⟩, -, rfl⟩ := List.mem_map.mp hs
  rfl

theorem accounted_overMock (accepting : Bool) (sessions : List (UInt64 × Domain)) :
    (overMock accepting sessions).Accounted where
  one := List.nodup_nil
  homes s hs := by
    obtain ⟨⟨localId, domain⟩, -, rfl⟩ := List.mem_map.mp hs
    rfl
  running := Nat.zero_lt_one
  first := Nat.le_refl 1
  census k := by
    rw [Custody.census, idle_overMock, hasCreated_overMock]
    rfl

theorem accounted_run (accepting : Bool) (sessions : List (UInt64 × Domain))
    {moves : List MockMove} (gentle : ∀ m ∈ moves, m.isGentle = true) :
    ((overMock accepting sessions).run moves).Accounted :=
  run_invariant (fun _ _ hm h => h.move hm) (permits_of_forall _ gentle)
    (accounted_overMock accepting sessions)

end Custody

end SessionPool
