import SessionPool.Proofs.Custody.Census
import SessionPool.Proofs.Custody.Outstanding

/-!
# Closing for good

When a session is closed, nobody is in a call and nobody has a marshal, then every marshal that was
ever opened is closed, and closed once. What the calls came back with tells the same: the counts of
the calls that closed the session and the releases that were turned away add up to the opened
marshals,

    drained + turned away = opened.
-/

namespace SessionPool

open Session (Call Result)
open Mock (Key Daemon)

namespace Session

/-- How many idle marshals a call has closed. -/
def Result.drained {μ : Type} : Result μ → Nat
  | .closed count => count
  | _ => 0

/-- A release that met a closed session. -/
def Result.isRefusal {μ : Type} : Result μ → Bool
  | .released refusal => refusal.isSome
  | _ => false

end Session

/-- The marshal with a given key, while it is being opened. -/
def Tally.dialling (k : Key) : Tally Mock.Marshal where
  call
    | .dial m => m.key == k
    | _ => false
  holding _ := false
  result _ := false

theorem Tally.dialling_lawful (k : Key) : (Tally.dialling k).Lawful where
  request r := by cases r <;> rfl
  relabel _ _ _ := rfl
  result t place leased r := by
    cases r with
    | acquired m => cases m <;> rfl
    | _ => rfl

namespace Mock

variable {s : Session Factory Marshal} {w : Fleet} {c : Call Marshal}
  {out : (Call Marshal ⊕ Result Marshal) × Session Factory Marshal × Fleet}

/-- What a call creates it opens, unless it is refused. -/
theorem dialling_of_stepped (h : Session.Stepped s w c out) (hs : s.factory.place = 0)
    (hcarried : ∀ m, carried? c = some m → m.place = 0) (k : Key) :
    (Tally.dialling k).outcome out.1 +
        (opens (w.daemon 0).accepting c ++ refuses (w.daemon 0).accepting c).countP
          (fun id => (0, id) == k) =
      ((Tally.dialling k).call c).toNat +
        (creates c && (0, (w.daemon 0).nextId) == k).toNat := by
  cases h with
  | create =>
    show ((s.factory.create w).1.key == k).toNat + 0 = 0 + _
    rw [Factory.create, Marshal.key, hs, Nat.zero_add]
    rfl
  | dial m =>
    have hkey : (0, m.id) = m.key := by rw [Marshal.key, hcarried m rfl]
    have hone : opens (w.daemon 0).accepting (.dial m) ++ refuses (w.daemon 0).accepting (.dial m) =
        [m.id] := by
      cases hok : (w.daemon 0).accepting <;> rfl
    rw [hone, countP_cons_toNat, hkey]
    show 0 + (0 + _) = _
    rw [Nat.zero_add, Nat.zero_add]
    rfl
  | _ => rfl

/-- What a step closes, the result of the call tells. -/
theorem closes_of_stepped (h : Session.Stepped s w c out) :
    (closes s.pool c).length =
      out.1.elim (fun _ => 0) fun r => r.drained + r.isRefusal.toNat := by
  cases h with
  | close => exact List.length_map _
  | _ => rfl

end Mock

namespace Custody

/-! ### The books -/

/-- How many marshals the calls that closed sessions say they have closed. -/
def drained (st : MockCustody) : Nat :=
  st.calls.finished.foldr (fun back n => back.result.drained + n) 0

/-- How many releases met a closed session. -/
def turnedAway (st : MockCustody) : Nat := st.calls.finished.countP (·.result.isRefusal)

/-- What was created is being opened, or opened or refused; what is closed was told to a caller; and
a closed session has nothing. -/
structure Booked (st : MockCustody) : Prop where
  accounted : st.Accounted
  opened : ∀ k, st.tally (.dialling k) +
      (st.daemon.openedIds ++ st.daemon.refusedIds).countP (fun id => (0, id) == k) =
    (st.daemon.hasCreated k).toNat
  closed : st.daemon.closedIds.length = st.drained + st.turnedAway
  empty : ∀ s ∈ st.calls.sessions, s.pool.closed = true → s.pool.idle = []

theorem drained_advance {st : MockCustody} {t : Thread} {p : Pending Mock.Marshal}
    {s : Session Mock.Factory Mock.Marshal}
    (hcalls : (st.advance t).calls = st.calls.advance t p s) :
    (st.advance t).drained =
      st.drained + (st.calls.outcome p s).1.elim (fun _ => 0) fun r => r.drained := by
  rw [drained, hcalls, Interleaving.advance_finished]
  cases (st.calls.outcome p s).1 with
  | inl next => rfl
  | inr result => exact Nat.add_comm _ _

theorem turnedAway_advance {st : MockCustody} {t : Thread} {p : Pending Mock.Marshal}
    {s : Session Mock.Factory Mock.Marshal}
    (hcalls : (st.advance t).calls = st.calls.advance t p s) :
    (st.advance t).turnedAway = st.turnedAway +
      (st.calls.outcome p s).1.elim (fun _ => 0) fun r => r.isRefusal.toNat := by
  rw [turnedAway, hcalls]
  exact countP_finished_advance st.calls t p s Result.isRefusal

theorem Booked.advance {st : MockCustody} (h : st.Booked) (t : Thread) :
    (st.advance t).Booked := by
  rcases st.advance_cases t with heq | ⟨p, s, hp, hs, hcalls⟩
  · rwa [heq]
  have hmem : s ∈ st.calls.sessions := List.mem_of_getElem? hs
  have hstep := h.accounted.step hp hs hcalls
  refine ⟨h.accounted.advance t, fun k => ?_, ?_, ?_⟩
  · have htally := tally_advance (Tally.dialling_lawful k) h.accounted.one hp hs
    have hdialling := Mock.dialling_of_stepped (Session.stepped s st.calls.world p.next)
      (h.accounted.homes s hmem) (fun _ => h.accounted.carried_place hp) k
    have hcreated := hstep.hasCreated h.accounted.first k
    have hbefore := h.opened k
    rw [hstep.opened, hstep.refused]
    rw [Interleaving.outcome] at htally
    rw [← daemon] at hdialling
    simp only [List.countP_append] at hbefore hdialling ⊢
    omega
  · have hcloses := Mock.closes_of_stepped (Session.stepped s st.calls.world p.next)
    rw [hstep.closed, List.length_append, hcloses, h.closed, drained_advance hcalls,
      turnedAway_advance hcalls, Interleaving.outcome]
    cases (p.next.step s st.calls.world).1 with
    | inl next => rfl
    | inr result =>
      simp only [Sum.elim_inr]
      omega
  · rw [hcalls, Interleaving.advance_sessions]
    intro s' hs'
    rcases List.mem_or_eq_of_mem_set hs' with hold | rfl
    · exact h.empty s' hold
    · exact (Session.stepped s st.calls.world p.next).idle_of_closed (h.empty s hmem)

theorem Booked.move {st : MockCustody} (h : st.Booked) {m : MockMove}
    (gentle : m.isGentle = true) : (st.move m).Booked := by
  rcases m.advance_or with ⟨t, rfl⟩ | hm
  · exact h.advance t
  · have harranged := arranged st hm
    have hbegins := harranged.begins
    obtain ⟨-, hlives⟩ := sameLives_of_arranged harranged h.accounted.running gentle
    refine ⟨h.accounted.move gentle, fun k => ?_, ?_, ?_⟩
    · have kept : (Tally.dialling k).KeptBy st m := by
        cases m <;> first | trivial | exact fun _ _ => rfl | exact fun _ _ _ => rfl
      rw [tally_of_arranged harranged (Tally.dialling_lawful k) kept, hlives.opened, hlives.refused,
        hlives.hasCreated_eq]
      exact h.opened k
    · rw [hlives.closed, drained, turnedAway, hbegins.finished_eq]
      exact h.closed
    · rw [hbegins.sessions_eq]
      exact h.empty

theorem booked_overMock (accepting : Bool) (sessions : List (UInt64 × Domain)) :
    (overMock accepting sessions).Booked where
  accounted := accounted_overMock accepting sessions
  opened k := by
    rw [hasCreated_overMock]
    rfl
  closed := rfl
  empty s hs _ := by
    obtain ⟨⟨localId, domain⟩, -, rfl⟩ := List.mem_map.mp hs
    rfl

theorem booked_run (accepting : Bool) (sessions : List (UInt64 × Domain))
    {moves : List MockMove} (gentle : ∀ m ∈ moves, m.isGentle = true) :
    ((overMock accepting sessions).run moves).Booked :=
  run_invariant (fun _ _ hm h => h.move hm) (permits_of_forall _ gentle)
    (booked_overMock accepting sessions)

/-! ### The theorem -/

/-- The session has nothing and counts nothing, every opened marshal was closed once, and the calls
have told so. -/
structure TornDown (st : MockCustody) (s : Session Mock.Factory Mock.Marshal) : Prop where
  pooled : s.pooled = 0
  outstanding : s.outstanding = 0
  once : ∀ id ∈ st.daemon.openedIds, st.daemon.closedIds.count id = 1
  told : st.drained + st.turnedAway = st.daemon.openedIds.length

theorem Booked.count_closedIds {st : MockCustody} (h : st.Booked) (quiet : st.calls.isQuiet = true)
    (hands : st.holdings = []) (undropped : st.dropped = []) (hidle : st.idle = []) (id : Nat) :
    st.daemon.closedIds.count id = st.daemon.openedIds.count id ∧
      st.daemon.openedIds.count id ≤ 1 := by
  have hpending : st.calls.pending = [] := List.isEmpty_iff.mp quiet
  have hnone (T : Tally Mock.Marshal) : st.tally T = 0 := by
    rw [tally, hands, undropped, Interleaving.inCalls, hpending]
    rfl
  have hcount (ids : List Nat) :
      ids.countP (fun id' => ((0, id') : Key) == (0, id)) = ids.count id := by
    rw [List.count]
    refine List.countP_congr fun id' _ => ?_
    simp
  -- What was created was opened or refused, and it is refused or closed by now.
  have hcensus := h.accounted.census (0, id)
  have hopened := h.opened (0, id)
  have hcreated := (st.daemon.hasCreated (0, id)).toNat_le
  rw [census, hnone, hidle, Mock.Daemon.spent, List.countP_nil] at hcensus
  rw [hnone] at hopened
  rw [List.countP_append, hcount, hcount] at hcensus hopened
  omega

/-- **A closed session closes every marshal that it opened**, and closes it once, as soon as nobody
is in a call and nobody has a marshal, in every run of threads that give back to the session what
they got from it, drop nothing, and leave opening and closing to the session. -/
theorem tornDown_of_closed (accepting : Bool) (localId : UInt64) (domain : Domain)
    (moves : List MockMove) (gentle : ∀ m ∈ moves, m.isGentle = true)
    (loyal : (overMock accepting [(localId, domain)]).isLoyalRun moves = true)
    (closed : ∀ s ∈ ((overMock accepting [(localId, domain)]).run moves).calls.sessions,
      s.isClosed = true)
    (quiet : ((overMock accepting [(localId, domain)]).run moves).calls.isQuiet = true)
    (hands : ((overMock accepting [(localId, domain)]).run moves).holdings = [])
    (undropped : ((overMock accepting [(localId, domain)]).run moves).dropped = []) :
    ∃ s, ((overMock accepting [(localId, domain)]).run moves).calls.sessions = [s] ∧
      ((overMock accepting [(localId, domain)]).run moves).TornDown s := by
  have hbooked := booked_run accepting [(localId, domain)] gentle
  have hexact : ((overMock accepting [(localId, domain)]).run moves).Exact 0 :=
    exact_run _ _ loyal
  generalize (overMock accepting [(localId, domain)]).run moves = st at *
  obtain ⟨s, hsessions, hout⟩ := hexact.counted
  have hmem : s ∈ st.calls.sessions := by simp [hsessions]
  have hempty : s.pool.idle = [] := hbooked.empty s hmem (closed s hmem)
  have hidle : st.idle = [] := by simp [idle, hsessions, hempty]
  have hcount := hbooked.count_closedIds quiet hands undropped hidle
  have hperm : st.daemon.closedIds.Perm st.daemon.openedIds :=
    List.perm_iff_count.mpr fun id => (hcount id).1
  refine ⟨s, hsessions, ?_, ?_, ?_, ?_⟩
  · rw [Session.pooled, hempty]
    rfl
  · have hpending : st.calls.pending = [] := List.isEmpty_iff.mp quiet
    rw [Session.outstanding, hout, tally, hands, undropped, Interleaving.inCalls, hpending]
    rfl
  · intro id hid
    have hpos := List.count_pos_iff.mpr hid
    have hboth := hcount id
    omega
  · rw [← hbooked.closed, hperm.length_eq]

/-- A session is closed while one marshal is idle and another is being opened for a lease. A third
marshal is refused. -/
def closedWhileOpening : List MockMove :=
  [.request 0 0 .acquire, .advance 0, .advance 0, .advance 0, .advance 0,
    .request 1 0 .lease, .advance 1, .advance 1,
    .release 0 0 0, .advance 0, .advance 0,
    .request 0 0 .close, .advance 0,
    .advance 1, .advance 1,
    .change (.setAccepting 0 false),
    .request 0 0 .acquire, .advance 0, .advance 0, .advance 0, .advance 0,
    .endLease 1 0, .advance 1, .advance 1, .advance 1]

theorem tornDown_closedWhileOpening :
    ∃ s, ((overMock true [(1, {})]).run closedWhileOpening).calls.sessions = [s] ∧
      ((overMock true [(1, {})]).run closedWhileOpening).TornDown s :=
  tornDown_of_closed true 1 {} closedWhileOpening (by decide) (by decide) (by decide) (by decide)
    (by decide) (by decide)

end Custody

end SessionPool
