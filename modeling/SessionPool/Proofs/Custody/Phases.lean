import SessionPool.Proofs.Custody.Census
import SessionPool.Proofs.Mock.Life

/-!
# The phases of marshals under way

Where a marshal is tells how far it has come: one that is being opened was never seen, one that is
in somebody's hands was reset an odd number of times, one that is idle has come back. So of every
phase that a marshal can go on from it is known how often the marshal is somewhere in that phase,
and this is once for the phase that the log of the daemon tells, and never for any other:

    st.standing (0, id) g = (st.daemon.phase id == g).toNat.

A step moves at most one marshal on, by the one event that it notes of it.
-/

namespace SessionPool

open Session (Call Result)
open Script (World Holder FleetChange MockAct)
open Mock (Key Fleet Daemon Event Phase)

namespace Mock

/-- A phase that a marshal can go on from. -/
def Phase.isLive : Phase → Bool
  | .unseen | .opened | .handed | .returned => true
  | _ => false

theorem Phase.after_ne {g : Phase} (h : g.isLive = true) (e : Event) : g.after e ≠ g := by
  cases e with
  | dialled id host port ok => cases g <;> cases ok <;> simp_all [isLive, after]
  | _ => cases g <;> simp_all [isLive, after]

theorem Phase.beq_of_isLive {g g' : Phase} (h : g'.isLive = true) (hg : g.isLive = false) :
    (g == g') = false := by
  refine beq_false_of_ne ?_
  rintro rfl
  rw [h] at hg
  cases hg

/-- A marshal that a call works on, and the phase in which it is. -/
def phased? : Call Marshal → Option (Phase × Marshal)
  | .dial m => some (.unseen, m)
  | .settle m true => some (.opened, m)
  | .release m => some (.handed, m)
  | .put m | .discard m => some (.returned, m)
  | _ => none

end Mock

/-- The marshal with a given key in a given phase, outside the pools. -/
def Tally.at (g : Phase) (k : Key) : Tally Mock.Marshal where
  call c := (Mock.phased? c).any fun (g', m) => g' == g && m.key == k
  holding h := .handed == g && h.marshal.key == k
  result
    | .acquired m => m.any fun m => .handed == g && m.key == k
    | _ => false

theorem Tally.at_lawful (g : Phase) (k : Key) : (Tally.at g k).Lawful where
  request r := by cases r <;> rfl
  relabel _ _ _ := rfl
  result t place leased r := by
    cases r with
    | acquired m =>
      cases m with
      | none => rfl
      | some m => cases h : (Phase.handed == g && m.key == k) <;> simp [Custody.gained, Tally.at, h]
    | _ => rfl

namespace Mock

variable {s : Session Factory Marshal} {w : Fleet} {c : Call Marshal}
  {out : (Call Marshal ⊕ Result Marshal) × Session Factory Marshal × Fleet}

/-! ### What a step moves on -/

/-- How often a marshal with a given key is in a phase without being in a call or in somebody's
hands: before it is created, and while it is idle. -/
def waiting (d : Daemon) (idle : List Marshal) (k : Key) : Phase → Nat
  | .unseen => (!d.hasCreated k).toNat
  | .returned => idle.countP (·.key == k)
  | _ => 0

theorem waiting_congr {d d' : Daemon} (h : d'.nextId = d.nextId) (idle : List Marshal) (k : Key)
    (g : Phase) : waiting d' idle k g = waiting d idle k g := by
  cases g with
  | unseen => rw [waiting, waiting, Daemon.hasCreated, Daemon.hasCreated, h]
  | _ => rfl

theorem waiting_cons (d : Daemon) (m : Marshal) (idle : List Marshal) (k : Key) (g : Phase) :
    waiting d (m :: idle) k g = waiting d idle k g + (.returned == g && m.key == k).toNat := by
  cases g with
  | returned => exact countP_cons_toNat ..
  | _ => rfl

/-- What may happen to the marshal with a given id in a step: nothing, or it moves on by one event.
`before` and `after` tell how often it is in each phase. -/
inductive Passage (id : Nat) (noted : List Event) (before after : Phase → Nat) : Prop
  | still (hnone : noted.filter (·.id == id) = [])
      (hsame : ∀ g, g.isLive = true → after g = before g)
  | moves (g : Phase) (e : Event) (hlive : g.isLive = true) (hsound : g.after e ≠ .broken)
      (hone : noted.filter (·.id == id) = [e])
      (hmoves : ∀ g', g'.isLive = true →
        after g' + (g == g').toNat = before g' + (g.after e == g').toNat)

/-- A passage may be counted in a larger place, where nothing else changes. -/
theorem Passage.widen {id : Nat} {noted : List Event} {before after before' after' : Phase → Nat}
    (h : Passage id noted before after) (hwide : ∀ g, after' g + before g = before' g + after g) :
    Passage id noted before' after' := by
  cases h with
  | still hnone hsame =>
    refine .still hnone fun g hg => ?_
    have h₁ := hsame g hg
    have h₂ := hwide g
    omega
  | moves g e hlive hsound hone hmoves =>
    refine .moves g e hlive hsound hone fun g' hg' => ?_
    have h₁ := hmoves g' hg'
    have h₂ := hwide g'
    omega

/-- A marshal that is once in its phase is afterwards once in the phase that the events tell. -/
theorem Passage.phase {id : Nat} {noted : List Event} {before after : Phase → Nat}
    (h : Passage id noted before after) {g₀ : Phase} (hsound : g₀ ≠ .broken)
    (hbefore : ∀ g, g.isLive = true → before g = (g₀ == g).toNat) :
    (noted.filter (·.id == id)).foldl Phase.after g₀ ≠ .broken ∧
      ∀ g, g.isLive = true →
        after g = ((noted.filter (·.id == id)).foldl Phase.after g₀ == g).toNat := by
  cases h with
  | still hnone hsame =>
    rw [hnone]
    exact ⟨hsound, fun g hg => (hsame g hg).trans (hbefore g hg)⟩
  | moves g e hlive hnext hone hmoves =>
    -- The phase that the marshal leaves is the one in which it was.
    have hleft := hmoves g hlive
    rw [beq_self_eq_true, beq_false_of_ne (Phase.after_ne hlive e), hbefore g hlive,
      Bool.toNat_true, Bool.toNat_false] at hleft
    have hg : g₀ = g := by
      by_contra hne
      rw [beq_false_of_ne hne, Bool.toNat_false] at hleft
      omega
    subst hg
    rw [hone]
    refine ⟨hnext, fun g' hg' => ?_⟩
    have hmove := hmoves g' hg'
    rw [hbefore g' hg'] at hmove
    show _ = (g₀.after e == g').toNat
    omega

/-- A step that does one thing to one marshal moves that one on. -/
theorem Passage.of_event {k : Key} (hk : k.1 = 0) {m : Marshal} (hm : m.place = 0) {e : Event}
    (he : e.id = m.id) {g : Phase} (hlive : g.isLive = true) (hsound : g.after e ≠ .broken)
    {before after : Phase → Nat}
    (hmoves : ∀ g', g'.isLive = true →
      after g' + (g == g' && m.key == k).toNat =
        before g' + (g.after e == g' && m.key == k).toNat) :
    Passage k.2 [e] before after := by
  by_cases hkey : m.key = k
  · refine .moves g e hlive hsound ?_ fun g' hg' => ?_
    · have hid : e.id = k.2 := by rw [he, ← hkey, Marshal.key]
      simp [hid]
    · have h := hmoves g' hg'
      rwa [hkey, beq_self_eq_true, Bool.and_true, Bool.and_true] at h
  · refine .still ?_ fun g' hg' => ?_
    · have hid : e.id ≠ k.2 := by
        intro heq
        exact hkey (Prod.ext (hm.trans hk.symm) (he.symm.trans heq))
      simp [hid]
    · have h := hmoves g' hg'
      rwa [beq_false_of_ne hkey, Bool.and_false, Bool.and_false] at h

theorem filter_closed {k : Key} (hk : k.1 = 0) {ms : List Marshal} (hms : ∀ m ∈ ms, m.place = 0) :
    (ms.map fun m => Event.closed m.id).filter (·.id == k.2) =
      List.replicate (ms.countP (·.key == k)) (.closed k.2) := by
  induction ms with
  | nil => rfl
  | cons m ms ih =>
    have hrest := ih fun m' hm' => hms m' (by simp [hm'])
    by_cases hkey : m.key = k
    · have hid : m.id = k.2 := by rw [← hkey, Marshal.key]
      rw [List.countP_cons_of_pos (p := fun m : Marshal => m.key == k) (beq_iff_eq.mpr hkey),
        List.replicate_succ, ← hrest]
      simp [Event.id, hid]
    · have hid : m.id ≠ k.2 := fun h => hkey (Prod.ext ((hms m (by simp)).trans hk.symm) h)
      rw [List.countP_cons_of_neg (p := fun m : Marshal => m.key == k) (by simpa using hkey),
        ← hrest]
      simp [Event.id, hid]

/-- Closing a session moves the marshal on if it is idle there. -/
theorem passage_of_drain {d d' : Daemon} (hnext : d'.nextId = d.nextId) {p : Pool Marshal} {k : Key}
    (hk : k.1 = 0) (hidle : ∀ m ∈ p.idle, m.place = 0)
    (hunique : p.idle.countP (·.key == k) ≤ 1) :
    Passage k.2 (p.drain.1.map fun m => .closed m.id) (waiting d p.idle k)
      (waiting d' p.drain.2.idle k) := by
  rw [Pool.drain]
  split
  · exact .still rfl fun g _ => waiting_congr hnext _ k g
  · have hfilter := filter_closed hk hidle
    have hcases : p.idle.countP (·.key == k) = 0 ∨ p.idle.countP (·.key == k) = 1 := by omega
    rcases hcases with hzero | hone
    · refine .still (by rw [hfilter, hzero]; rfl) fun g hg => ?_
      rw [waiting_congr hnext]
      cases g with
      | returned => exact hzero.symm
      | _ => rfl
    · refine .moves .returned (.closed k.2) rfl (by simp [Phase.after])
        (by rw [hfilter, hone]; rfl) fun g hg => ?_
      have hend : (Phase.closed == g) = false := Phase.beq_of_isLive hg rfl
      rw [waiting_congr hnext]
      show _ = _ + (Phase.closed == g).toNat
      rw [hend]
      cases g with
      | returned => exact hone.symm
      | _ => rfl

/-- **A step moves a marshal on as the daemon notes it.** -/
theorem passage_of_stepped (h : Session.Stepped s w c out) (hw : 0 < w.daemons.length)
    (hs : s.factory.place = 0) (hcarried : ∀ m, carried? c = some m → m.place = 0)
    (hidle : ∀ m ∈ s.pool.idle, m.place = 0) (hfirst : 1 ≤ (w.daemon 0).nextId) {k : Key}
    (hk : k.1 = 0) (hunique : s.pool.idle.countP (·.key == k) ≤ 1) :
    Passage k.2 (notes s (w.daemon 0).accepting c)
      (fun g => waiting (w.daemon 0) s.pool.idle k g + ((Tally.at g k).call c).toNat)
      (fun g =>
        waiting (out.2.2.daemon 0) out.2.1.pool.idle k g + (Tally.at g k).outcome out.1) := by
  have hstep := step_of_stepped h hw hs hcarried hidle
  have hsame (idle : List Marshal) (g : Phase) (hc : creates c = false) :
      waiting (out.2.2.daemon 0) idle k g = waiting (w.daemon 0) idle k g :=
    waiting_congr (by rw [hstep.nextId, hc]; rfl) idle k g
  cases h with
  | @hit m rest h =>
    rw [notes, h]
    have hm : m.place = 0 := hidle m (by simp [h])
    refine .of_event hk hm rfl (g := .returned) rfl (by simp [Phase.after]) ?_
    intro g hg
    rw [hsame _ g rfl, Pool.take_idle, h, List.tail_cons, waiting_cons]
    exact Nat.add_right_comm ..
  | miss h =>
    rw [notes, h]
    refine .still rfl fun g hg => ?_
    rw [Pool.take_idle, h]
    rfl
  | create =>
    refine .still rfl fun g hg => ?_
    cases g with
    | unseen =>
      have hcreated := hstep.hasCreated hfirst k
      have hkey : (s.factory.create w).1.key = (0, (w.daemon 0).nextId) := by
        rw [Factory.create, Marshal.key, hs]
      show (!((s.factory.create w).2.daemon 0).hasCreated k).toNat +
        ((s.factory.create w).1.key == k).toNat = (!(w.daemon 0).hasCreated k).toNat
      rw [hkey]
      -- What was not created before is now, or it is the one that the call has.
      have hnot : ∀ created' created new : Bool, created'.toNat = created.toNat + new.toNat →
          (!created').toNat + new.toNat = (!created).toNat := by decide
      exact hnot _ _ _ hcreated
    | _ => rfl
  | dial m =>
    have hm : m.place = 0 := hcarried m rfl
    refine .of_event hk hm rfl (g := .unseen) rfl ?_ ?_
    · cases (w.daemon 0).accepting <;> simp [Phase.after]
    · intro g hg
      rw [hsame _ g rfl]
      have hplace : (w.daemon m.place).accepting = (w.daemon 0).accepting := by rw [hm]
      show _ + ((Tally.at g k).call (.settle { m with isOpen := _ }
        (w.daemon m.place).accepting)).toNat + _ = _
      rw [hplace]
      -- An accepted marshal stays in the call, a refused one has come to its end.
      cases (w.daemon 0).accepting with
      | true => exact Nat.add_right_comm ..
      | false =>
        have hend : (Phase.refused == g) = false := Phase.beq_of_isLive hg rfl
        show _ + 0 + _ = _ + _ + (Phase.refused == g && _).toNat
        rw [hend]
        rfl
  | opened m =>
    have hm : m.place = 0 := hcarried m rfl
    refine .of_event hk hm rfl (g := .opened) rfl (by simp [Phase.after]) ?_
    intro g hg
    rw [hsame _ g rfl]
    exact Nat.add_right_comm ..
  | refused m => exact .still rfl fun g hg => rfl
  | release m =>
    have hm : m.place = 0 := hcarried m rfl
    refine .of_event hk hm rfl (g := .handed) rfl (by simp [Phase.after]) ?_
    intro g hg
    rw [hsame _ g rfl]
    exact Nat.add_right_comm ..
  | kept m h =>
    refine .still rfl fun g hg => ?_
    rw [Pool.put_idle, h, if_neg Bool.false_ne_true, waiting_cons]
    rfl
  | turnedAway m h =>
    refine .still rfl fun g hg => ?_
    rw [Pool.put_idle, h, if_pos rfl]
    rfl
  | discard m =>
    have hm : m.place = 0 := hcarried m rfl
    refine .of_event hk hm rfl (g := .returned) rfl (by simp [Phase.after]) ?_
    intro g hg
    have hend : (Phase.closed == g) = false := Phase.beq_of_isLive hg rfl
    rw [hsame _ g rfl]
    show _ + 0 + _ = _ + _ + (Phase.closed == g && _).toNat
    rw [hend]
    rfl
  | close => exact passage_of_drain hstep.nextId hk hidle hunique
  | pooled => exact .still rfl fun g hg => rfl
  | isClosed => exact .still rfl fun g hg => rfl

end Mock

/-! ### The invariant -/

namespace Custody

/-- How often the marshal with a given key is in a phase. -/
def standing (st : MockCustody) (k : Key) (g : Phase) : Nat :=
  Mock.waiting st.daemon st.idle k g + st.tally (.at g k)

/-- Every marshal is once in the phase that the log tells, and in no other. -/
structure Phased (st : MockCustody) : Prop where
  accounted : st.Accounted
  standing : ∀ id g, g.isLive = true → st.standing (0, id) g = (st.daemon.phase id == g).toNat
  unbroken : ∀ id, st.daemon.phase id ≠ .broken
  undropped : st.dropped = []

theorem phase_of_log {d d' : Daemon} {noted : List Event} {id : Nat}
    (h : d'.log.toList = d.log.toList ++ noted) :
    d'.phase id = (noted.filter (·.id == id)).foldl Phase.after (d.phase id) := by
  rw [Daemon.phase, Daemon.history, h, List.filter_append, Mock.phaseAfter_append]
  rfl

/-- A step changes what is in a phase by what it does to the call and to the session. -/
theorem standing_advance {st : MockCustody} (hone : st.calls.OneCallEach) {t : Thread}
    {p : Pending Mock.Marshal} {s : Session Mock.Factory Mock.Marshal}
    (hp : st.calls.pending? t = some p) (hs : st.calls.sessions[p.place]? = some s)
    (hcalls : (st.advance t).calls = st.calls.advance t p s) (k : Key) (g : Phase) :
    (st.advance t).standing k g +
        (Mock.waiting st.daemon s.pool.idle k g + ((Tally.at g k).call p.next).toNat) =
      st.standing k g +
        (Mock.waiting (st.advance t).daemon (st.calls.outcome p s).2.1.pool.idle k g +
          (Tally.at g k).outcome (st.calls.outcome p s).1) := by
  have htally := tally_advance (Tally.at_lawful g k) hone hp hs
  have hset := countP_idle_set hs (st.calls.outcome p s).2.1 (·.key == k)
  rw [← Interleaving.advance_sessions st.calls t p s, ← hcalls] at hset
  rw [standing, standing]
  cases g with
  | returned =>
    rw [Mock.waiting, Mock.waiting, Mock.waiting, Mock.waiting, idle, idle]
    omega
  | _ =>
    simp only [Mock.waiting]
    omega

theorem Accounted.unique_idle {st : MockCustody} (h : st.Accounted) {place : Place}
    {s : Session Mock.Factory Mock.Marshal} (hs : st.calls.sessions[place]? = some s) (k : Key) :
    s.pool.idle.countP (·.key == k) ≤ 1 := by
  have hwithout := countP_idle_set hs { s with pool := {} } (·.key == k)
  have hcensus := h.census k
  have hcreated := (st.daemon.hasCreated k).toNat_le
  rw [List.countP_nil] at hwithout
  rw [Custody.census, Custody.idle] at hcensus
  omega

section Step

variable {st : MockCustody} {t : Thread} {p : Pending Mock.Marshal}
  {s : Session Mock.Factory Mock.Marshal}

theorem Accounted.log_advance (h : st.Accounted) (hp : st.calls.pending? t = some p)
    (hs : st.calls.sessions[p.place]? = some s)
    (hcalls : (st.advance t).calls = st.calls.advance t p s) :
    (st.advance t).daemon.log.toList =
      st.daemon.log.toList ++ Mock.notes s st.daemon.accepting p.next := by
  have hmem : s ∈ st.calls.sessions := List.mem_of_getElem? hs
  rw [daemon_advance hcalls]
  exact (Mock.daemon_of_stepped (Session.stepped s st.calls.world p.next) h.running
    (h.homes s hmem) (fun _ => h.carried_place hp) fun _ => h.idle_place hmem).2

theorem Accounted.passage_advance (h : st.Accounted) (hp : st.calls.pending? t = some p)
    (hs : st.calls.sessions[p.place]? = some s)
    (hcalls : (st.advance t).calls = st.calls.advance t p s) (id : Nat) :
    Mock.Passage id (Mock.notes s st.daemon.accepting p.next) (st.standing (0, id))
      ((st.advance t).standing (0, id)) := by
  have hmem : s ∈ st.calls.sessions := List.mem_of_getElem? hs
  have hpassage := Mock.passage_of_stepped (Session.stepped s st.calls.world p.next) h.running
    (h.homes s hmem) (fun _ => h.carried_place hp) (fun _ => h.idle_place hmem) h.first
    (k := (0, id)) rfl (h.unique_idle hs _)
  refine hpassage.widen fun g => ?_
  rw [← daemon_advance hcalls]
  exact standing_advance h.one hp hs hcalls (0, id) g

end Step

theorem Phased.advance {st : MockCustody} (h : st.Phased) (t : Thread) : (st.advance t).Phased := by
  rcases st.advance_cases t with heq | ⟨p, s, hp, hs, hcalls⟩
  · rwa [heq]
  have hphase (id : Nat) :
      (st.advance t).daemon.phase id ≠ .broken ∧ ∀ g, g.isLive = true →
        (st.advance t).standing (0, id) g = ((st.advance t).daemon.phase id == g).toNat := by
    rw [phase_of_log (h.accounted.log_advance hp hs hcalls)]
    exact (h.accounted.passage_advance hp hs hcalls id).phase (h.unbroken id) (h.standing id)
  refine ⟨h.accounted.advance t, fun id => (hphase id).2, fun id => (hphase id).1, ?_⟩
  obtain ⟨leasing, hadvance⟩ := advance_eq hp hs
  rw [hadvance]
  exact h.undropped

/-! ### Runs -/

/-- Whether a move leaves it to the sessions to open, reset and close marshals, brings none in from
elsewhere and drops none. -/
def Move.isHandsOff {μ χ α : Type} : Move μ χ α → Bool
  | .adopt _ _ | .drop _ _ => false
  | .deed _ _ (.dial _ _) | .deed _ _ .reset | .deed _ _ .close => false
  | _ => true

theorem Move.isGentle_of_isHandsOff {μ χ α : Type} {m : Move μ χ α} (h : m.isHandsOff = true) :
    m.isGentle = true := by
  cases m with
  | adopt t m => cases h
  | deed t i d => cases d <;> first | rfl | cases h
  | _ => rfl

/-- What the threads do between two calls the daemon does not note. -/
theorem log_of_arranged {st st' : MockCustody} {m : MockMove} (h : Arranged st m st')
    (hw : 0 < st.calls.world.daemons.length) (handsOff : m.isHandsOff = true) :
    st'.daemon.log = st.daemon.log := by
  cases h with
  | request r hcan => exact congrArg (·.daemon 0 |>.log) (world_start ..)
  | release hh hfree hcan => exact congrArg (·.daemon 0 |>.log) (world_start ..)
  | endLease hh hleased horigin hcan => exact congrArg (·.daemon 0 |>.log) (world_start ..)
  | deed d hh =>
    cases d with
    | look => rfl
    | act a => rfl
    | _ => cases handsOff
  | change c =>
    cases c with
    | start d => exact congrArg Daemon.log (Fleet.daemon_start hw d)
    | setAccepting place on =>
      by_cases hplace : place = 0
      · subst hplace
        exact (congrArg Daemon.log (Fleet.daemon_modify hw _) :)
      · exact congrArg Daemon.log (Fleet.daemon_modify_of_ne (Ne.symm hplace) _)
  | dropSession hcan hfree => exact congrArg (·.daemon 0 |>.log) (world_start ..)
  | _ => rfl

theorem dropped_of_arranged {st st' : MockCustody} {m : MockMove} (h : Arranged st m st')
    (handsOff : m.isHandsOff = true) : st'.dropped = st.dropped := by
  cases h with
  | drop hh hfree => cases handsOff
  | _ => rfl

theorem Phased.move {st : MockCustody} (h : st.Phased) {m : MockMove}
    (handsOff : m.isHandsOff = true) : (st.move m).Phased := by
  rcases m.advance_or with ⟨t, rfl⟩ | hm
  · exact h.advance t
  · have harranged := arranged st hm
    have hgentle := Move.isGentle_of_isHandsOff handsOff
    have hrunning := h.accounted.running
    have hlog := log_of_arranged harranged hrunning handsOff
    have hnext := (sameLives_of_arranged harranged hrunning hgentle).2.nextId
    have hphase (id : Nat) : (st.move m).daemon.phase id = st.daemon.phase id := by
      rw [Daemon.phase, Daemon.history, hlog]
      rfl
    refine ⟨h.accounted.move hgentle, fun id g hg => ?_, fun id => ?_, ?_⟩
    · have kept : (Tally.at g (0, id)).KeptBy st m := by
        cases m with
        | release t place i => exact fun _ _ => rfl
        | endLease t i => exact fun _ _ _ => rfl
        | adopt t marshal => cases handsOff
        | deed t i deed =>
          intro held _
          show (_ && _ == _) = (_ && _ == _)
          rw [(sameLives_deed hrunning held.marshal hgentle).1]
        | _ => trivial
      rw [Custody.standing, idle, harranged.begins.sessions_eq, Mock.waiting_congr hnext,
        tally_of_arranged harranged (Tally.at_lawful g _) kept, hphase]
      exact h.standing id g hg
    · rw [hphase]
      exact h.unbroken id
    · rw [dropped_of_arranged harranged handsOff]
      exact h.undropped

theorem phased_overMock (accepting : Bool) (sessions : List (UInt64 × Domain)) :
    (overMock accepting sessions).Phased where
  accounted := accounted_overMock accepting sessions
  standing id g hg := by
    rw [Custody.standing, idle_overMock]
    cases g with
    | unseen =>
      rw [Mock.waiting, hasCreated_overMock]
      rfl
    | _ => rfl
  unbroken _ := Phase.noConfusion
  undropped := rfl

theorem phased_run (accepting : Bool) (sessions : List (UInt64 × Domain)) {moves : List MockMove}
    (handsOff : ∀ m ∈ moves, m.isHandsOff = true) :
    ((overMock accepting sessions).run moves).Phased :=
  run_invariant (fun _ _ hm h => h.move hm) (permits_of_forall _ handsOff)
    (phased_overMock accepting sessions)

end Custody

end SessionPool
