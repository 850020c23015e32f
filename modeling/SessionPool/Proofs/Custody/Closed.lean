import SessionPool.Proofs.Custody.Turns

/-!
# Closed is for good

Whether a session is closed is looked up only under its lock, and a release looks before it puts its
marshal into the pool. So a run of a session falls into two parts, with the turn in which it is
first closed between them:

    st.turns moves = before ++ closing :: after.

Every release that has the lock in the first part keeps its marshal in the pool. In the second part
the pool is empty for ever, whatever calls were under way when the session was closed.
-/

namespace SessionPool

open Session (Call Result)
open Script (World Holder)

variable {φ μ ω χ α : Type} [Marshal μ ω] [Source φ μ ω]

/-! ### Closed sessions -/

namespace Session

/-- The step that closes a session. -/
def Call.isClose {μ : Type} : Call μ → Bool
  | .close => true
  | _ => false

omit [Marshal μ ω] [Source φ μ ω] in
/-- A closed session as a call to it meets it. -/
structure Shut (s : Session φ μ) : Prop where
  closed : s.isClosed = true
  empty : s.pool.idle = []

variable {s : Session φ μ} {w : ω} {c : Call μ} {out : (Call μ ⊕ Result μ) × Session φ μ × ω}

theorem Stepped.localId (h : Stepped s w c out) : out.2.1.localId = s.localId := by
  obtain ⟨pool, hpool⟩ := h.session
  rw [hpool]

/-- Only a closing step closes a session, and no step opens it again. -/
theorem Stepped.isClosed_iff (h : Stepped s w c out) :
    out.2.1.isClosed = true ↔ s.isClosed = true ∨ c = .close := by
  cases h with
  | close => exact ⟨fun _ => .inr rfl, fun _ => s.pool.drain_closed⟩
  | _ => simp [Session.isClosed, Pool.uncount]

/-- What a step finds shut it leaves shut. -/
theorem Stepped.shut (h : Stepped s w c out) (shut : s.Shut) : out.2.1.Shut := by
  have hclosed := h.isClosed_iff.mpr (.inl shut.closed)
  exact ⟨hclosed, h.idle_of_closed (fun _ => shut.empty) hclosed⟩

/-- An open session is shut by a closing step. -/
theorem Stepped.shut_of_close (h : Stepped s w .close out) (unclosed : s.isClosed = false) :
    out.2.1.Shut := by
  have hclosed : out.2.1.isClosed = true := h.isClosed_iff.mpr (.inr rfl)
  refine ⟨hclosed, h.idle_of_closed ?_ hclosed⟩
  intro hbefore
  rw [Session.isClosed, hbefore] at unclosed
  cases unclosed

/-! ### Steps under the lock, by what they find -/

theorem step_put_of_open (h : s.isClosed = false) (m : μ) (w : ω) :
    Call.step s w (.put m) = (.inr (.released none), { s with pool := (s.pool.put m).2 }, w) := by
  have hstep := stepped s w (.put m)
  generalize Call.step s w (.put m) = out at hstep ⊢
  cases hstep with
  | kept _ _ => rfl
  | turnedAway _ hclosed =>
    rw [Session.isClosed, hclosed] at h
    cases h

theorem Shut.step_put (shut : s.Shut) (m : μ) (w : ω) :
    Call.step s w (.put m) = (.inl (.discard m), { s with pool := (s.pool.put m).2 }, w) := by
  have hstep := stepped s w (.put m)
  generalize Call.step s w (.put m) = out at hstep ⊢
  cases hstep with
  | kept _ hopen =>
    have hclosed := shut.closed
    rw [Session.isClosed, hopen] at hclosed
    cases hclosed
  | turnedAway _ _ => rfl

theorem Shut.step_acquire (shut : s.Shut) (w : ω) :
    (Call.step s w .acquire).1 = .inl .create := by
  have hstep := stepped s w .acquire
  generalize Call.step s w .acquire = out at hstep ⊢
  cases hstep with
  | hit hidle =>
    rw [shut.empty] at hidle
    cases hidle
  | miss _ => rfl

theorem Shut.step_close (shut : s.Shut) (w : ω) :
    Call.step s w .close = (.inr (.closed 0), s, w) := by
  have hdrain : s.pool.drain = ([], s.pool) := if_pos shut.closed
  simp only [Call.step, hdrain]
  rfl

end Session

/-- Whether a turn closes the session at a place. -/
def Turn.isClosing (turn : Turn φ μ ω) (place : Place) : Bool :=
  turn.place == place && turn.call.isClose

omit [Marshal μ ω] [Source φ μ ω] in
theorem Turn.isClosing_iff (turn : Turn φ μ ω) {place : Place} :
    turn.isClosing place = true ↔ turn.place = place ∧ turn.call = .close := by
  rw [isClosing, Bool.and_eq_true_iff, beq_iff_eq]
  cases turn.call <;> simp [Session.Call.isClose]

/-! ### Releases bring what they were given -/

/-- Whether a release brings a marshal that it was given, after a reset in some world. -/
def Session.Call.Brings (ω : Type) {μ : Type} [Marshal μ ω] (started : Call μ) (m : μ) : Prop :=
  ∃ (given : μ) (w : ω), started = .release given ∧ m = (Marshal.reset given w).1

/-- A call that has a release to do next, or a marshal to put into the pool, is the release of that
marshal. -/
inductive Pending.Honest (ω : Type) {μ : Type} [Marshal μ ω] (p : Pending μ) : Prop
  | release (m : μ) (hnext : p.next = .release m) (hstarted : p.started = .release m)
  | put (m : μ) (hnext : p.next = .put m) (hbrings : p.started.Brings ω m)
  | other (hrelease : ∀ m, p.next ≠ .release m) (hput : ∀ m, p.next ≠ .put m)

theorem Pending.Honest.entry {place : Place} {call : Call μ} (entry : call.isEntry = true) :
    (Pending.mk place call call).Honest ω := by
  cases call with
  | release m => exact .release m rfl rfl
  | put m => exact absurd entry Bool.false_ne_true
  | _ => exact .other (by simp) (by simp)

namespace Custody

/-- Every release under way brings what it was given. -/
def Honest (st : Custody φ μ ω) : Prop :=
  ∀ t p, st.calls.pending? t = some p → p.Honest ω

theorem Due.honest {st : Custody φ μ ω} {turn : Turn φ μ ω} (due : st.Due turn) (h : st.Honest)
    {next : Call μ} (hnext : turn.outcome.1 = .inl next) :
    (Pending.mk turn.place turn.started next).Honest ω := by
  have hstep := turn.stepped
  generalize turn.outcome = out at hstep hnext
  obtain ⟨t, place, started, c, s, w⟩ := turn
  have hhonest := h _ _ due.pending
  cases hstep with
  | release m =>
    obtain rfl : Call.put _ = next := Sum.inl.inj hnext
    cases hhonest with
    | release m' hcall hstarted =>
      obtain rfl : m = m' := Call.release.inj hcall
      exact .put _ rfl ⟨m, w, hstarted, rfl⟩
    | put m' hcall _ => cases hcall
    | other hrelease _ => exact absurd rfl (hrelease m)
  | miss _ | create | dial _ | turnedAway _ _ =>
    obtain rfl := Sum.inl.inj hnext
    exact .other (by simp) (by simp)
  | _ => cases hnext

omit [Source φ μ ω] in
theorem Due.brings {st : Custody φ μ ω} {turn : Turn φ μ ω} (due : st.Due turn) (h : st.Honest)
    {m : μ} (hcall : turn.call = .put m) : turn.started.Brings ω m := by
  have hhonest := h _ _ due.pending
  rw [hcall] at hhonest
  cases hhonest with
  | release _ hnext _ => cases hnext
  | put m' hnext hbrings =>
    obtain rfl : m = m' := Call.put.inj hnext
    exact hbrings
  | other _ hput => exact absurd rfl (hput m)

variable [World ω χ] [Holder μ α]

theorem Honest.move {st : Custody φ μ ω} (h : st.Honest) (m : Move μ χ α) :
    (st.move m).Honest := by
  intro t p hp
  rcases st.move_cases m with ⟨-, harranged⟩ | ⟨turn, -, -, due, hcalls⟩
  · rcases harranged.begins.pending? t with hsame | ⟨-, place, call, entry, hnew⟩
    · exact h t p (hsame ▸ hp)
    · obtain rfl := Option.some.inj (hnew.symm.trans hp)
      exact .entry entry
  · rw [hcalls] at hp
    by_cases ht : t = turn.thread
    · subst ht
      rw [due.pending?_taken] at hp
      cases hout : turn.outcome.1 with
      | inl next =>
        rw [hout] at hp
        obtain rfl := Option.some.inj hp
        exact due.honest h hout
      | inr result =>
        rw [hout] at hp
        cases hp
    · rw [taken, Interleaving.pending?_advance_of_ne _ _ _ _ ht] at hp
      exact h t p hp

theorem Honest.run {st : Custody φ μ ω} (h : st.Honest) (moves : List (Move μ χ α)) :
    (st.run moves).Honest := by
  induction moves generalizing st with
  | nil => exact h
  | cons m moves ih => exact ih (h.move m)

/-! ### The session at a place -/

/-- The session at a place after a turn is the one that comes out of the turn, or the turn was taken
elsewhere. -/
theorem Due.session_taken {st : Custody φ μ ω} {turn : Turn φ μ ω} (due : st.Due turn)
    {place : Place} {s : Session φ μ} (hs : st.calls.sessions[place]? = some s) :
    (turn.place = place ∧ turn.session = s ∧
        (st.taken turn).sessions[place]? = some turn.outcome.2.1) ∨
      (turn.place ≠ place ∧ (st.taken turn).sessions[place]? = some s) := by
  rw [due.sessions]
  by_cases hplace : turn.place = place
  · left
    subst hplace
    have hsession : turn.session = s := Option.some.inj (due.session.symm.trans hs)
    have hlt : turn.place < st.calls.sessions.length := (List.getElem?_eq_some_iff.mp hs).1
    exact ⟨rfl, hsession, List.getElem?_set_self hlt⟩
  · right
    exact ⟨hplace, by rw [List.getElem?_set_ne hplace, hs]⟩

theorem length_sessions_run (st : Custody φ μ ω) (moves : List (Move μ χ α)) :
    (st.run moves).calls.sessions.length = st.calls.sessions.length := by
  induction moves generalizing st with
  | nil => rfl
  | cons m moves ih =>
    rw [show st.run (m :: moves) = (st.move m).run moves from rfl, ih]
    rcases st.move_cases m with ⟨-, harranged⟩ | ⟨turn, -, -, due, hcalls⟩
    · rw [harranged.begins.sessions_eq]
    · rw [hcalls, due.sessions, List.length_set]

/-- What every turn at a session preserves, holds in every turn at it and after the run. -/
theorem session_run {P : Session φ μ → Prop} {st : Custody φ μ ω} {place : Place}
    {s : Session φ μ} {moves : List (Move μ χ α)} (hs : st.calls.sessions[place]? = some s)
    (h : P s)
    (step : ∀ turn ∈ st.turns moves, turn.place = place → P turn.session → P turn.outcome.2.1) :
    (∃ s', (st.run moves).calls.sessions[place]? = some s' ∧ P s') ∧
      ∀ turn ∈ st.turns moves, turn.place = place → P turn.session := by
  induction moves generalizing st s with
  | nil => exact ⟨⟨s, hs, h⟩, by simp [turns]⟩
  | cons m moves ih =>
    rw [turns] at step ⊢
    rcases st.move_cases m with ⟨hnone, harranged⟩ | ⟨turn, hsome, -, due, hcalls⟩
    · rw [hnone] at step ⊢
      exact ih (harranged.begins.sessions_eq ▸ hs) h step
    · rw [hsome] at step ⊢
      have hrest := fun later hlater => step later (List.mem_cons_of_mem _ hlater)
      rcases due.session_taken hs with ⟨hplace, rfl, hafter⟩ | ⟨hplace, hafter⟩
      · have hnext := step turn (List.mem_cons_self ..) hplace h
        obtain ⟨hstill, hturns⟩ := ih (hcalls ▸ hafter) hnext hrest
        exact ⟨hstill, List.forall_mem_cons.mpr ⟨fun _ => h, hturns⟩⟩
      · obtain ⟨hstill, hturns⟩ := ih (hcalls ▸ hafter) h hrest
        exact ⟨hstill, List.forall_mem_cons.mpr ⟨fun hat => absurd hat hplace, hturns⟩⟩

variable {st : Custody φ μ ω} {place : Place} {s : Session φ μ}

/-- A shut session stays shut, and every turn finds it so. -/
theorem shut_run (hs : st.calls.sessions[place]? = some s) (shut : s.Shut)
    (moves : List (Move μ χ α)) :
    (∃ s', (st.run moves).calls.sessions[place]? = some s' ∧ s'.Shut ∧ s'.localId = s.localId) ∧
      ∀ turn ∈ st.turns moves, turn.place = place →
        turn.session.Shut ∧ turn.session.localId = s.localId :=
  session_run (P := fun s' => s'.Shut ∧ s'.localId = s.localId) hs ⟨shut, rfl⟩
    fun turn _ _ h => ⟨turn.stepped.shut h.1, turn.stepped.localId.trans h.2⟩

/-- An open session stays open as long as no turn closes it, and every turn finds it open. -/
theorem open_run {moves : List (Move μ χ α)} (hs : st.calls.sessions[place]? = some s)
    (unclosed : s.isClosed = false)
    (none : ∀ turn ∈ st.turns moves, turn.isClosing place = false) :
    (∃ s', (st.run moves).calls.sessions[place]? = some s' ∧ s'.isClosed = false ∧
        s'.localId = s.localId) ∧
      ∀ turn ∈ st.turns moves, turn.place = place →
        turn.session.isClosed = false ∧ turn.session.localId = s.localId := by
  refine session_run (P := fun s' => s'.isClosed = false ∧ s'.localId = s.localId) hs
    ⟨unclosed, rfl⟩ ?_
  intro turn hturn hplace ⟨hopen, hid⟩
  refine ⟨?_, turn.stepped.localId.trans hid⟩
  rw [Bool.eq_false_iff]
  intro hclosed
  rcases turn.stepped.isClosed_iff.mp hclosed with hbefore | hclose
  · rw [hopen] at hbefore
    cases hbefore
  · exact absurd (turn.isClosing_iff.mpr ⟨hplace, hclose⟩) (Bool.eq_false_iff.mp (none turn hturn))

end Custody

/-! ### What calls do before and after -/

/-- A release that keeps its marshal: it comes back without a refusal, and the marshal that it was
given is the next one to be handed out. -/
structure Turn.IsKept (turn : Turn φ μ ω) (m : μ) : Prop where
  brings : turn.started.Brings ω m
  answer : turn.outcome.1 = .inr (.released none)
  pooled : turn.outcome.2.1.pool.idle = m :: turn.session.pool.idle

/-- A release that is turned away: under the lock it counts down and does no more, and then, unless
the run ends before, it closes the marshal that it was given and comes back with a refusal. -/
structure Turn.IsTurnedAway (turn : Turn φ μ ω) (localId : UInt64) (m : μ)
    (rest : List (Turn φ μ ω)) : Prop where
  brings : turn.started.Brings ω m
  answer : turn.outcome.1 = .inl (.discard m)
  outstanding : turn.outcome.2.1.outstanding = turn.session.outstanding - 1
  pooled : turn.outcome.2.1.pool.idle = turn.session.pool.idle
  world : turn.outcome.2.2 = turn.world
  rest : ∃ discard : Turn φ μ ω, rest <+: [discard] ∧ discard.call = .discard m ∧
    discard.outcome = (.inr (.released (some (.sessionClosed localId))), discard.session,
      (Marshal.close m discard.world).2)

/-- An acquisition that finds the pool empty: then, unless the run ends before, it creates one
marshal, opens that one, and comes back. -/
structure Turn.IsMiss (turn : Turn φ μ ω) (rest : List (Turn φ μ ω)) : Prop where
  answer : turn.outcome.1 = .inl .create
  here : ∀ later ∈ rest, later.place = turn.place
  rest : ∃ create dial settle : Turn φ μ ω, rest <+: [create, dial, settle] ∧
    create.call = .create ∧
    dial.call = .dial (Source.create create.session.factory create.world).1 ∧
    dial.outcome.1 = .inl settle.call ∧ ∃ m, settle.outcome.1 = .inr (.acquired m)

theorem Turn.isMiss_of_goes {turn : Turn φ μ ω} {rest : List (Turn φ μ ω)}
    (hnext : turn.outcome.1 = .inl .create) (h : Goes turn.place turn.started .create rest) :
    turn.IsMiss rest := by
  refine ⟨hnext, h.place_eq, ?_⟩
  obtain ⟨create, rest₁, hcreate, hcall₁, hon₁, -⟩ := h.exists_next turn
  have hdial : create.outcome.1 =
      .inl (.dial (Source.create create.session.factory create.world).1) := by
    rw [Turn.outcome, hcall₁]
    rfl
  obtain ⟨dial, rest₂, hrest₁, hcall₂, hon₂, -⟩ := (hon₁ _ hdial).exists_next turn
  have hsettle : ∃ m ok, dial.outcome.1 = .inl (.settle m ok) := by
    rw [Turn.outcome, hcall₂]
    exact ⟨_, _, rfl⟩
  obtain ⟨m, ok, hsettle⟩ := hsettle
  obtain ⟨settle, rest₃, hrest₂, hcall₃, -, hover⟩ := (hon₂ _ hsettle).exists_next turn
  have hback : ∃ m, settle.outcome.1 = .inr (.acquired m) := by
    rw [Turn.outcome, hcall₃]
    cases ok with
    | true => exact ⟨_, rfl⟩
    | false => exact ⟨_, rfl⟩
  obtain rfl : rest₃ = [] := hover _ hback.choose_spec
  refine ⟨create, dial, settle, ?_, hcall₁, hcall₂, hcall₃ ▸ hsettle, hback⟩
  have htail : rest₁ <+: [dial, settle] :=
    hrest₁.trans (List.cons_prefix_cons.mpr ⟨rfl, hrest₂⟩)
  exact hcreate.trans (List.cons_prefix_cons.mpr ⟨rfl, htail⟩)

theorem Turn.isKept_of_open {turn : Turn φ μ ω} {m : μ} (hcall : turn.call = .put m)
    (unclosed : turn.session.isClosed = false) (brings : turn.started.Brings ω m) :
    turn.IsKept m := by
  have hout := Session.step_put_of_open unclosed m turn.world
  rw [← hcall] at hout
  refine ⟨brings, ?_, ?_⟩
  · rw [outcome, hout]
  · rw [outcome, hout]
    show (turn.session.pool.put m).2.idle = _
    rw [Pool.put_idle]
    exact if_neg (Bool.eq_false_iff.mp unclosed)

theorem Turn.outcome_discard {turn : Turn φ μ ω} {m : μ} (hcall : turn.call = .discard m) :
    turn.outcome = (.inr (.released (some (.sessionClosed turn.session.localId))), turn.session,
      (Marshal.close m turn.world).2) := by
  rw [outcome, hcall]
  rfl

theorem Turn.isTurnedAway_of_shut {turn : Turn φ μ ω} {m : μ} {rest : List (Turn φ μ ω)}
    (hcall : turn.call = .put m) (shut : turn.session.Shut) (brings : turn.started.Brings ω m)
    (hrest : ∀ next, turn.outcome.1 = .inl next → Goes turn.place turn.started next rest)
    (hid : ∀ later ∈ rest, later.session.localId = turn.session.localId) :
    turn.IsTurnedAway turn.session.localId m rest := by
  have hout := shut.step_put m turn.world
  rw [← hcall] at hout
  have hanswer : turn.outcome.1 = .inl (.discard m) := by rw [outcome, hout]
  refine ⟨brings, hanswer, ?_, ?_, ?_, ?_⟩
  · rw [outcome, hout]
    exact turn.session.pool.put_outstanding m
  · rw [outcome, hout]
    show (turn.session.pool.put m).2.idle = _
    rw [Pool.put_idle]
    exact if_pos shut.closed
  · rw [outcome, hout]
  · cases hrest _ hanswer with
    | waits _ =>
      let discard : Turn φ μ ω := { turn with call := .discard m }
      exact ⟨discard, List.nil_prefix, rfl, discard.outcome_discard rfl⟩
    | @on _ next discard later hplace hstarted hdiscard hnext hlater =>
      rw [discard.outcome_discard hdiscard] at hnext
      cases hnext
    | @comesBack _ discard result hplace hstarted hdiscard hresult =>
      refine ⟨discard, List.prefix_rfl, hdiscard, ?_⟩
      rw [discard.outcome_discard hdiscard, hid discard (List.mem_singleton_self _)]

/-! ### The theorem -/

/-- What happens at a place once the session there, which has a given local id, is closed: it stays
closed and has nothing idle, closing it again closes nothing, acquisitions open marshals of their
own, and releases are turned away. -/
structure ClosedForGood (place : Place) (localId : UInt64) (st : Custody φ μ ω)
    (ts : List (Turn φ μ ω)) : Prop where
  stays : ∃ s, st.calls.sessions[place]? = some s ∧ s.isClosed = true ∧ s.pool.idle = []
  close : ∀ turn ∈ ts, turn.place = place → turn.call = .close →
    turn.outcome = (.inr (.closed 0), turn.session, turn.world)
  acquire : ∀ before turn after, ts = before ++ turn :: after → turn.place = place →
    turn.call = .acquire → turn.IsMiss (course turn.thread after)
  release : ∀ before turn after m, ts = before ++ turn :: after → turn.place = place →
    turn.call = .put m → turn.IsTurnedAway localId m (course turn.thread after)

namespace Custody

variable [World ω χ] [Holder μ α]

theorem closedForGood_of_shut {st : Custody φ μ ω} {place : Place} {s : Session φ μ}
    (honest : st.Honest) (hs : st.calls.sessions[place]? = some s) (shut : s.Shut)
    (moves : List (Move μ χ α)) :
    ClosedForGood place s.localId (st.run moves) (st.turns moves) := by
  obtain ⟨⟨s', hs', hshut', -⟩, hturns⟩ := shut_run hs shut moves
  refine ⟨⟨s', hs', hshut'.closed, hshut'.empty⟩, ?_, ?_, ?_⟩
  · intro turn hturn hplace hcall
    rw [Turn.outcome, hcall]
    exact (hturns turn hturn hplace).1.step_close turn.world
  · intro before turn after hsplit hplace hcall
    have hshut := (hturns turn (by simp [hsplit]) hplace).1
    have hnext : turn.outcome.1 = .inl .create := by
      rw [Turn.outcome, hcall]
      exact hshut.step_acquire turn.world
    exact Turn.isMiss_of_goes hnext (Goes.of_turns_eq hsplit hnext)
  · intro before turn after m hsplit hplace hcall
    obtain ⟨hshut, hid⟩ := hturns turn (by simp [hsplit]) hplace
    obtain ⟨earlier, -, -, -, -, due, -⟩ := exists_due_of_turns_eq hsplit
    rw [← hid]
    refine Turn.isTurnedAway_of_shut hcall hshut (due.brings (honest.run earlier) hcall) ?_ ?_
    · intro next hnext
      exact Goes.of_turns_eq hsplit hnext
    -- What is left of the call is at the same place, where all turns find the same session.
    · intro later hlater
      have hanswer : turn.outcome.1 = .inl (.discard m) := by
        rw [Turn.outcome, hcall, hshut.step_put]
      have hat := (Goes.of_turns_eq hsplit hanswer).place_eq later hlater
      have hmem : later ∈ st.turns moves := by
        rw [hsplit]
        exact List.mem_append_right _ (List.mem_cons_of_mem _ (mem_of_mem_course hlater))
      exact (hturns later hmem (hat.trans hplace)).2.trans hid.symm

omit [World ω χ] [Holder μ α] in
/-- A turn that closes an open session leaves it shut. -/
theorem Due.shut_of_closing {st : Custody φ μ ω} {turn : Turn φ μ ω} (due : st.Due turn)
    {place : Place} {s : Session φ μ} (hs : st.calls.sessions[place]? = some s)
    (unclosed : s.isClosed = false) (hplace : turn.place = place) (hclose : turn.call = .close) :
    turn.outcome.2.1.Shut ∧ (st.taken turn).sessions[place]? = some turn.outcome.2.1 := by
  rcases due.session_taken hs with ⟨-, rfl, hafter⟩ | ⟨hne, -⟩
  · have hstep := turn.stepped
    rw [hclose] at hstep
    exact ⟨hstep.shut_of_close unclosed, hafter⟩
  · exact absurd hplace hne

/-- A run in which the session at a place is closed for good: there is a first turn that closes it,
all releases that have the lock before that turn keep their marshals, and from that turn on,
whatever moves come later, everything goes as it does in a closed session. -/
def ClosesForGood (st : Custody φ μ ω) (moves : List (Move μ χ α)) (place : Place)
    (localId : UInt64) : Prop :=
  ∃ before closing after, st.turns moves = before ++ closing :: after ∧
    closing.isClosing place = true ∧
    (∀ turn ∈ before, turn.place = place → ∀ m, turn.call = .put m → turn.IsKept m) ∧
    ∀ later : List (Move μ χ α),
      ClosedForGood place localId (st.run (moves ++ later)) (after ++ (st.run moves).turns later)

/-- **Closed is for good**, for every session that is open at first and closed in the state that a
run of threads over any sessions has reached, whatever calls are under way there. -/
theorem closesForGood (w : ω) (sessions : List (Session φ μ)) (moves : List (Move μ χ α))
    (new : ∀ s ∈ sessions, s.isClosed = false) (place : Place) (s : Session φ μ)
    (hs : ((fresh w sessions).run moves).calls.sessions[place]? = some s)
    (closed : s.isClosed = true) :
    (fresh w sessions).ClosesForGood moves place s.localId := by
  have hfresh : (fresh w sessions).Honest := by
    intro t p hp
    cases hp
  have hlength := (fresh w sessions).length_sessions_run moves
  obtain ⟨hplace, -⟩ := List.getElem?_eq_some_iff.mp hs
  rw [hlength] at hplace
  have hs₀ : (fresh w sessions).calls.sessions[place]? = some sessions[place] :=
    List.getElem?_eq_getElem hplace
  have hopen₀ : sessions[place].isClosed = false := new _ (List.getElem_mem hplace)
  cases hfind : ((fresh w sessions).turns moves).find? (·.isClosing place) with
  | none =>
    -- If no turn closes the session, it is still open.
    have hnone : ∀ turn ∈ (fresh w sessions).turns moves, turn.isClosing place = false := by
      intro turn hturn
      exact Bool.eq_false_iff.mpr (List.find?_eq_none.mp hfind turn hturn)
    obtain ⟨⟨s', hs', hopen, -⟩, -⟩ := open_run hs₀ hopen₀ hnone
    obtain rfl := Option.some.inj (hs.symm.trans hs')
    rw [hopen] at closed
    cases closed
  | some closing =>
    obtain ⟨hclosing, before, after, hsplit, hfirst⟩ := List.find?_eq_some_iff_append.mp hfind
    obtain ⟨earlier, m, rest, rfl, rfl, due, hcalls, rfl⟩ := exists_due_of_turns_eq hsplit
    have hnone : ∀ turn ∈ (fresh w sessions).turns earlier, turn.isClosing place = false := by
      intro turn hturn
      simpa using hfirst turn hturn
    obtain ⟨⟨s₁, hs₁, hopen₁, -⟩, hbefore⟩ := open_run hs₀ hopen₀ hnone
    obtain ⟨hat, hclose⟩ := closing.isClosing_iff.mp hclosing
    refine ⟨_, closing, _, hsplit, hclosing, ?_, ?_⟩
    · intro turn hturn hplace m hcall
      obtain ⟨turns₁, turns₂, hmem⟩ := List.append_of_mem hturn
      obtain ⟨earlier', -, -, -, -, due', -⟩ := exists_due_of_turns_eq hmem
      exact Turn.isKept_of_open hcall (hbefore turn hturn hplace).1
        (due'.brings (hfresh.run earlier') hcall)
    · intro later
      obtain ⟨hshut, hs₂⟩ := due.shut_of_closing hs₁ hopen₁ hat hclose
      rw [← hcalls] at hs₂
      have hend : (((fresh w sessions).run earlier).move m).run rest =
          (fresh w sessions).run (earlier ++ m :: rest) := by
        rw [run_append]
        rfl
      have hid : s.localId = closing.outcome.2.1.localId := by
        obtain ⟨⟨s₃, hs₃, -, hid₃⟩, -⟩ := shut_run hs₂ hshut rest
        rw [hend, hs] at hs₃
        rw [Option.some.inj hs₃, hid₃]
      rw [run_append, ← hend, ← run_append, ← turns_append, hid]
      exact closedForGood_of_shut ((hfresh.run earlier).move m) hs₂ hshut (rest ++ later)

/-- A session is closed while one thread opens a marshal and another has reset the one that it gives
back. Before that, a third one was kept and handed out again. -/
def closedMidway : List MockMove :=
  [.request 0 0 .acquire, .advance 0, .advance 0, .advance 0, .advance 0,
    .request 1 0 .acquire, .advance 1, .advance 1, .advance 1, .advance 1,
    .release 1 0 0, .advance 1, .advance 1,
    .request 2 0 .lease, .advance 2,
    .request 1 0 .acquire, .advance 1, .advance 1,
    .release 0 0 1, .advance 0,
    .request 3 0 .close, .advance 3,
    .advance 0, .advance 1, .advance 1]

/-- The session ends closed, with the two callers that still hold its later marshals counted. -/
theorem closesForGood_closedMidway :
    ((fresh (⟨[{}]⟩ : Mock.Fleet)
        [(⟨1, 0, {}, ⟨0⟩, {}⟩ : Session Mock.Factory Mock.Marshal)]).run
          closedMidway).calls.sessions[0]? =
        some ⟨1, 0, {}, ⟨0⟩, { outstanding := 2, closed := true }⟩ ∧
      (fresh (⟨[{}]⟩ : Mock.Fleet)
        [(⟨1, 0, {}, ⟨0⟩, {}⟩ : Session Mock.Factory Mock.Marshal)]).ClosesForGood
          closedMidway 0 1 := by
  have hend : ((fresh (⟨[{}]⟩ : Mock.Fleet)
      [(⟨1, 0, {}, ⟨0⟩, {}⟩ : Session Mock.Factory Mock.Marshal)]).run
        closedMidway).calls.sessions[0]? =
      some ⟨1, 0, {}, ⟨0⟩, { outstanding := 2, closed := true }⟩ := by rfl
  refine ⟨hend, ?_⟩
  exact closesForGood _ _ closedMidway (by decide) 0
    ⟨1, 0, {}, ⟨0⟩, { outstanding := 2, closed := true }⟩ hend rfl

end Custody

end SessionPool
