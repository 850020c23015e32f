import SessionPool.Proofs.Custody.Phases
import SessionPool.Proofs.Custody.Turns

/-!
# The lives of marshals in a run

Sessions share a mock daemon, and threads leave it to them to open, reset and close marshals. Then
every marshal lives as it should, in whatever order the threads take their turns: what the daemon
notes of it is the beginning of a whole life, it was opened at the endpoint of the session that
created it, and by its resets it can be told whether somebody holds it:

    Odd (st.daemon.resetCount id) ↔ st.IsHeld id.
-/

namespace SessionPool

open Session (Call Result)
open Mock (Key Daemon Event Phase)

/-! ### Who created a marshal -/

/-- A step of a call to a session over mock daemons. -/
abbrev MockTurn := Turn Mock.Factory Mock.Marshal Mock.Fleet

/-- Whether a turn creates the marshal with a given id. -/
def Turn.creates (turn : MockTurn) (id : Nat) : Bool :=
  match turn.call with
  | .create => (turn.session.factory.create turn.world).1.key == (0, id)
  | _ => false

/-- The places of the sessions that created the marshal with a given id. -/
def creators (ts : List MockTurn) (id : Nat) : List Place :=
  (ts.filter (·.creates id)).map (·.place)

theorem creators_append (ts : List MockTurn) (turn : MockTurn) (id : Nat) :
    creators (ts ++ [turn]) id =
      creators ts id ++ if turn.creates id then [turn.place] else [] := by
  rw [creators, List.filter_append, List.map_append, creators]
  cases h : turn.creates id <;> simp [h]

namespace Custody

/-- Every marshal that is being opened or was opened has one creator, and it is opened there, at the
endpoint of the session. Marshals to come have none. -/
structure Traced (ts : List MockTurn) (st : MockCustody) : Prop where
  fresh : ∀ id, st.daemon.nextId ≤ id → creators ts id = []
  dialling : ∀ t p m, st.calls.pending? t = some p → p.next = .dial m →
    creators ts m.id = [p.place]
  dialled : ∀ id host port ok, .dialled id host port ok ∈ st.daemon.log.toList →
    ∃ place s, creators ts id = [place] ∧ st.calls.sessions[place]? = some s ∧
      s.domain.host = host ∧ s.domain.port = port

section Step

variable {st : MockCustody} {ts : List MockTurn} {turn : MockTurn}

/-- A turn creates at most the marshal with the next id. -/
theorem Due.eq_of_creates (due : st.Due turn) (h : st.Accounted) {id : Nat}
    (hcreates : turn.creates id = true) : turn.call = .create ∧ id = st.daemon.nextId := by
  rw [Turn.creates] at hcreates
  split at hcreates
  · next hcall =>
    have hkey := beq_iff_eq.mp hcreates
    have hs := h.homes turn.session (List.mem_of_getElem? due.session)
    rw [Mock.Factory.create, Mock.Marshal.key, hs, due.world] at hkey
    exact ⟨hcall, (congrArg Prod.snd hkey).symm⟩
  · cases hcreates

theorem Due.creates_nextId (due : st.Due turn) (h : st.Accounted) (hcall : turn.call = .create) :
    turn.creates st.daemon.nextId = true := by
  have hs := h.homes turn.session (List.mem_of_getElem? due.session)
  rw [Turn.creates, hcall]
  show ((turn.session.factory.create turn.world).1.key == _) = true
  rw [Mock.Factory.create, Mock.Marshal.key, hs, due.world]
  exact beq_self_eq_true _

/-- The creator of a marshal stays the only one. -/
theorem Traced.creators_eq (h : Traced ts st) (hacc : st.Accounted) (due : st.Due turn) {id : Nat}
    {place : Place} (hcreators : creators ts id = [place]) :
    creators (ts ++ [turn]) id = [place] := by
  rw [creators_append, hcreators]
  cases hcreates : turn.creates id with
  | false => rfl
  | true =>
    obtain ⟨-, rfl⟩ := due.eq_of_creates hacc hcreates
    rw [h.fresh _ (Nat.le_refl _)] at hcreators
    cases hcreators

/-- Sessions keep their endpoints. -/
theorem Due.domain_taken (due : st.Due turn) {place : Place} {s : Session Mock.Factory Mock.Marshal}
    (hs : st.calls.sessions[place]? = some s) :
    ∃ s', (st.taken turn).sessions[place]? = some s' ∧ s'.domain = s.domain := by
  rw [due.sessions]
  by_cases hplace : place = turn.place
  · subst hplace
    obtain rfl := Option.some.inj (due.session.symm.trans hs)
    obtain ⟨hlt, -⟩ := List.getElem?_eq_some_iff.mp hs
    obtain ⟨pool, hpool⟩ := turn.stepped.session
    exact ⟨_, List.getElem?_set_self hlt, by rw [hpool]⟩
  · rw [List.getElem?_set_ne (Ne.symm hplace)]
    exact ⟨s, hs, rfl⟩

/-- Only a marshal that was just created is opened next. -/
theorem call_of_dial {m : Mock.Marshal} (h : turn.outcome.1 = .inl (.dial m)) :
    turn.call = .create ∧ m = (turn.session.factory.create turn.world).1 := by
  have hstepped := turn.stepped
  generalize turn.outcome = out at h hstepped
  generalize turn.call = c at hstepped ⊢
  cases hstepped with
  | create => exact ⟨rfl, (Call.dial.inj (Sum.inl.inj h)).symm⟩
  | _ => cases h

/-- Only the call that opens a marshal has that noted. -/
theorem call_of_dialled {s : Session Mock.Factory Mock.Marshal} {accepting : Bool}
    {c : Call Mock.Marshal} {id : Nat} {host : String} {port : UInt16} {ok : Bool}
    (h : .dialled id host port ok ∈ Mock.notes s accepting c) :
    ∃ m, c = .dial m ∧ m.id = id ∧ s.domain.host = host ∧ s.domain.port = port := by
  cases c with
  | dial m =>
    obtain ⟨rfl, rfl, rfl, -⟩ := Event.dialled.inj (List.mem_singleton.mp h)
    exact ⟨m, rfl, rfl, rfl, rfl⟩
  | settle m ok => cases ok <;> simp [Mock.notes] at h
  | _ => simp [Mock.notes] at h

theorem Traced.taken (h : Traced ts st) (hacc : st.Accounted) (due : st.Due turn)
    (hcalls : (st.advance turn.thread).calls = st.taken turn) :
    Traced (ts ++ [turn]) (st.advance turn.thread) := by
  have hstep := hacc.step due.pending due.session hcalls
  have hlog := hacc.log_advance due.pending due.session hcalls
  refine ⟨fun id hid => ?_, fun t p m hp hm => ?_, fun id host port ok he => ?_⟩
  · rw [hstep.nextId] at hid
    rw [creators_append, h.fresh id (by omega)]
    cases hcreates : turn.creates id with
    | false => rfl
    | true =>
      obtain ⟨hcall, rfl⟩ := due.eq_of_creates hacc hcreates
      rw [hcall] at hid
      exact absurd hid (Nat.not_succ_le_self _)
  · rw [hcalls] at hp
    by_cases ht : t = turn.thread
    -- The thread of the turn opens a marshal next when it has just created one.
    · rw [ht, due.pending?_taken] at hp
      cases hout : turn.outcome.1 with
      | inl next =>
        rw [hout] at hp
        obtain rfl := Option.some.inj hp
        obtain rfl : next = .dial m := hm
        obtain ⟨hcall, rfl⟩ := call_of_dial hout
        have hid : (turn.session.factory.create turn.world).1.id = st.daemon.nextId := by
          have hs := hacc.homes turn.session (List.mem_of_getElem? due.session)
          rw [Mock.Factory.create, hs, due.world]
          rfl
        rw [hid, creators_append, h.fresh _ (Nat.le_refl _),
          if_pos (due.creates_nextId hacc hcall)]
        rfl
      | inr result =>
        rw [hout] at hp
        cases hp
    · rw [Custody.taken, Interleaving.pending?_advance_of_ne _ _ _ _ ht] at hp
      exact h.creators_eq hacc due (h.dialling t p m hp hm)
  · rw [hlog] at he
    obtain ⟨place, s, hcreators, hs, rfl, rfl⟩ : ∃ place s, creators ts id = [place] ∧
        st.calls.sessions[place]? = some s ∧ s.domain.host = host ∧ s.domain.port = port := by
      rcases List.mem_append.mp he with hold | hnew
      · exact h.dialled id host port ok hold
      · obtain ⟨m, hcall, rfl, hhost, hport⟩ := call_of_dialled hnew
        exact ⟨turn.place, turn.session,
          h.dialling _ _ m due.pending hcall, due.session, hhost, hport⟩
    obtain ⟨s', hs', hdomain⟩ := due.domain_taken hs
    refine ⟨place, s', h.creators_eq hacc due hcreators, ?_, ?_, ?_⟩
    · rw [hcalls]
      exact hs'
    · rw [hdomain]
    · rw [hdomain]

end Step

theorem Traced.arranged {ts : List MockTurn} {st st' : MockCustody} {m : MockMove}
    (h : Traced ts st) (hacc : st.Accounted) (harranged : Arranged st m st')
    (handsOff : m.isHandsOff = true) : Traced ts st' := by
  have hlog := log_of_arranged harranged hacc.running handsOff
  have hlives := (sameLives_of_arranged harranged hacc.running
    (Move.isGentle_of_isHandsOff handsOff)).2
  have hsessions := harranged.begins.sessions_eq
  refine ⟨?_, ?_, ?_⟩
  · rw [hlives.nextId]
    exact h.fresh
  · intro t p m hp hm
    rcases harranged.begins.pending? t with hsame | ⟨-, place, call, hentry, hnew⟩
    · exact h.dialling t p m (hsame.symm.trans hp) hm
    · obtain rfl := Option.some.inj (hnew.symm.trans hp)
      obtain rfl : call = .dial m := hm
      cases hentry
  · rw [hlog, hsessions]
    exact h.dialled

theorem Traced.move {ts : List MockTurn} {st : MockCustody} {m : MockMove} (h : Traced ts st)
    (hacc : st.Accounted) (handsOff : m.isHandsOff = true) :
    Traced (ts ++ (st.turn? m).toList) (st.move m) := by
  rcases st.move_cases m with ⟨hnone, harranged⟩ | ⟨turn, hsome, rfl, due, hcalls⟩
  · rw [hnone, Option.toList_none, List.append_nil]
    exact h.arranged hacc harranged handsOff
  · rw [hsome, Option.toList_some]
    exact h.taken hacc due hcalls

theorem traced_overMock (accepting : Bool) (sessions : List (UInt64 × Domain)) :
    Traced [] (overMock accepting sessions) where
  fresh _ _ := rfl
  dialling t p m hp := by cases hp
  dialled id host port ok he := by cases he

theorem traced_run (accepting : Bool) (sessions : List (UInt64 × Domain)) {moves : List MockMove}
    (handsOff : ∀ m ∈ moves, m.isHandsOff = true) :
    Traced ((overMock accepting sessions).turns moves) ((overMock accepting sessions).run moves) :=
  (run_turns_invariant (P := fun ts st => Accounted st ∧ Traced ts st)
    (fun _ _ _ hm h => ⟨h.1.move (Move.isGentle_of_isHandsOff hm), h.2.move h.1 hm⟩)
    (permits_of_forall _ handsOff)
    ⟨accounted_overMock accepting sessions, traced_overMock accepting sessions⟩).2

/-! ### Who holds a marshal -/

/-- Whether somebody holds the marshal with a given id, by itself or inside a lease. A release takes
it from its holder with the reset that it begins with. -/
def IsHeld (st : MockCustody) (id : Nat) : Prop :=
  (∃ h ∈ st.holdings, h.marshal.key = (0, id)) ∨
    ∃ entry ∈ st.calls.pending, ∃ m, entry.2.next = .release m ∧ m.key = (0, id)

theorem call_at_handed_iff {c : Call Mock.Marshal} {k : Key} :
    (Tally.at .handed k).call c = true ↔ ∃ m, c = .release m ∧ m.key = k := by
  cases c with
  | settle m ok => cases ok <;> simp [Tally.at, Mock.phased?]
  | _ => simp [Tally.at, Mock.phased?]

/-- A marshal is held just when it is handed out. -/
theorem Phased.isHeld_iff {st : MockCustody} (h : st.Phased) (id : Nat) :
    st.IsHeld id ↔ st.daemon.phase id = .handed := by
  have hstanding := h.standing id .handed rfl
  rw [Custody.standing, tally, h.undropped] at hstanding
  change 0 + (st.calls.inCalls (Tally.at .handed (0, id)).call +
    st.holdings.countP (·.marshal.key == (0, id)) + 0) = _ at hstanding
  have hcalls : 0 < st.calls.inCalls (Tally.at .handed (0, id)).call ↔
      ∃ entry ∈ st.calls.pending, ∃ m, entry.2.next = .release m ∧ m.key = (0, id) := by
    rw [Interleaving.inCalls, List.countP_pos_iff]
    simp only [call_at_handed_iff]
  have hhands : 0 < st.holdings.countP (·.marshal.key == (0, id)) ↔
      ∃ h ∈ st.holdings, h.marshal.key = (0, id) := by
    rw [List.countP_pos_iff]
    simp only [beq_iff_eq]
  rw [IsHeld, ← hcalls, ← hhands]
  by_cases hphase : st.daemon.phase id = .handed
  · rw [hphase, beq_self_eq_true, Bool.toNat_true] at hstanding
    rw [hphase]
    refine iff_of_true ?_ rfl
    omega
  · rw [beq_false_of_ne hphase, Bool.toNat_false] at hstanding
    refine iff_of_false ?_ hphase
    omega

/-! ### The theorem -/

/-- What a daemon has seen of one of its marshals is how a marshal lives; if it was opened at all,
it was opened at the endpoint of the one session that created it; and it was reset an odd number of
times just while somebody holds it. Here a marshal is still held when it is on its way back, in a
release that has not begun: nothing has happened to it by then, and the first thing that the release
does is to reset it. -/
structure LivesWell (ts : List MockTurn) (st : MockCustody) (id : Nat) : Prop where
  lives : Mock.Lives id (st.daemon.history id)
  endpoint : ∀ host port ok, .dialled id host port ok ∈ st.daemon.history id →
    ∃ place s, creators ts id = [place] ∧ st.calls.sessions[place]? = some s ∧
      s.domain.host = host ∧ s.domain.port = port
  held : Odd (st.daemon.resetCount id) ↔ st.IsHeld id

/-- **Every marshal lives as it should**, in every run of threads with sessions over one daemon, as
long as they leave opening, resetting and closing to the sessions and drop no marshal. -/
theorem livesWell_of_isHandsOff (accepting : Bool) (sessions : List (UInt64 × Domain))
    (moves : List MockMove) (handsOff : ∀ m ∈ moves, m.isHandsOff = true) (id : Nat) :
    LivesWell ((overMock accepting sessions).turns moves) ((overMock accepting sessions).run moves)
      id := by
  have hphased := phased_run accepting sessions handsOff
  have htraced := traced_run accepting sessions handsOff
  have hid : ∀ e ∈ ((overMock accepting sessions).run moves).daemon.history id, e.id = id :=
    fun e he => Daemon.id_of_mem_history he
  refine ⟨Mock.lives_of_phase hid (hphased.unbroken id), ?_, ?_⟩
  · intro host port ok he
    exact htraced.dialled id host port ok (List.mem_filter.mp he).1
  · rw [Daemon.resetCount_eq, Mock.odd_count_reset_iff hid (hphased.unbroken id),
      hphased.isHeld_iff]
    rfl

/-- Two sessions have different endpoints. A marshal of the first one is given to the second one and
leased from there; the second one is closed, and the marshal comes back to it when the lease ends. A
second marshal is refused, and a third one is idle in the first session when that is dropped. -/
def wanderingMarshal : List MockMove :=
  [.request 0 0 .acquire, .advance 0, .advance 0, .advance 0, .advance 0,
    .release 0 1 0, .advance 0, .advance 0,
    .request 1 1 .lease, .advance 1,
    .change (.setAccepting 0 false),
    .request 0 0 .acquire, .advance 0, .advance 0, .advance 0, .advance 0,
    .change (.setAccepting 0 true),
    .request 2 0 .acquire, .advance 2, .advance 2, .advance 2, .advance 2,
    .request 0 1 .close, .advance 0,
    .endLease 1 1, .advance 1, .advance 1, .advance 1,
    .release 2 0 0, .advance 2, .advance 2,
    .dropSession 0 0, .advance 0]

/-- The whole life of the first marshal: three times handed out, once from the other session. -/
theorem livesWell_wanderingMarshal :
    (∀ m ∈ wanderingMarshal, m.isHandsOff = true) ∧
      ((overMock true [(1, { port := 1 }), (2, { port := 2 })]).run
        wanderingMarshal).daemon.history 1 =
          [.dialled 1 "localhost" 1 true, .reset 1, .reset 1, .reset 1, .reset 1, .closed 1] ∧
      LivesWell ((overMock true [(1, { port := 1 }), (2, { port := 2 })]).turns wanderingMarshal)
        ((overMock true [(1, { port := 1 }), (2, { port := 2 })]).run wanderingMarshal) 1 := by
  refine ⟨by decide, by decide +kernel, ?_⟩
  exact livesWell_of_isHandsOff true [(1, { port := 1 }), (2, { port := 2 })] wanderingMarshal
    (by decide) 1

end Custody

end SessionPool
