import SessionPool.Proofs.Custody.Tally
import SessionPool.Proofs.Steps

/-!
# Turns

A turn is a step that a thread has taken: what its call did, in which session and in which world.
The turns of a run, one after the other, are all that happens to the sessions in it, and the turns
of one thread are its calls, each from its beginning to its end:

    st.turns (moves ++ moves') = st.turns moves ++ (st.run moves).turns moves'.
-/

namespace SessionPool

open Session (Call Result)
open Script (World Holder)

/-- A step that a thread has taken. -/
structure Turn (φ μ ω : Type) where
  thread : Thread
  place : Place
  /-- How the call began. -/
  started : Call μ
  /-- What the call did in this step. -/
  call : Call μ
  /-- The session right before the step. -/
  session : Session φ μ
  world : ω

variable {φ μ ω χ α : Type} [Marshal μ ω] [Source φ μ ω]

namespace Turn

/-- What the call does next or came back with, and the session and the world after the step. -/
def outcome (turn : Turn φ μ ω) : (Call μ ⊕ Result μ) × Session φ μ × ω :=
  turn.call.step turn.session turn.world

theorem stepped (turn : Turn φ μ ω) :
    Session.Stepped turn.session turn.world turn.call turn.outcome :=
  Session.stepped turn.session turn.world turn.call

end Turn

namespace Custody

/-! ### The turns of a run -/

/-- The turn that a move lets a thread take, if it does. -/
def turn? (st : Custody φ μ ω) : Move μ χ α → Option (Turn φ μ ω)
  | .advance t =>
    match st.calls.pending? t with
    | none => none
    | some p =>
      match st.calls.sessions[p.place]? with
      | none => none
      | some s => some ⟨t, p.place, p.started, p.next, s, st.calls.world⟩
  | _ => none

/-- A turn that a thread can take. -/
structure Due (st : Custody φ μ ω) (turn : Turn φ μ ω) : Prop where
  pending : st.calls.pending? turn.thread = some ⟨turn.place, turn.started, turn.call⟩
  session : st.calls.sessions[turn.place]? = some turn.session
  world : turn.world = st.calls.world

/-- The calls under way after a turn. -/
def taken (st : Custody φ μ ω) (turn : Turn φ μ ω) : Interleaving φ μ ω :=
  st.calls.advance turn.thread ⟨turn.place, turn.started, turn.call⟩ turn.session

theorem Due.outcome {st : Custody φ μ ω} {turn : Turn φ μ ω} (due : st.Due turn) :
    st.calls.outcome ⟨turn.place, turn.started, turn.call⟩ turn.session = turn.outcome := by
  rw [Interleaving.outcome, Turn.outcome, due.world]

theorem Due.sessions {st : Custody φ μ ω} {turn : Turn φ μ ω} (due : st.Due turn) :
    (st.taken turn).sessions = st.calls.sessions.set turn.place turn.outcome.2.1 := by
  rw [taken, Interleaving.advance_sessions, due.outcome]

/-- After a turn the thread is in the call that goes on, or in none. -/
theorem Due.pending?_taken {st : Custody φ μ ω} {turn : Turn φ μ ω} (due : st.Due turn) :
    (st.taken turn).pending? turn.thread =
      turn.outcome.1.elim (fun next => some ⟨turn.place, turn.started, next⟩) fun _ => none := by
  rw [taken, Interleaving.pending?_advance, due.outcome]

/-- What is counted over calls and hands changes in a turn by what the one call counts. -/
theorem Due.tally {st : Custody φ μ ω} {turn : Turn φ μ ω} (due : st.Due turn) {T : Tally μ}
    (law : T.Lawful) (hone : st.calls.OneCallEach) :
    (st.advance turn.thread).tally T + (T.call turn.call).toNat =
      st.tally T + T.outcome turn.outcome.1 := by
  rw [← due.outcome]
  exact tally_advance law hone due.pending due.session

variable [World ω χ] [Holder μ α]

/-- The turns that the threads take in a run. -/
def turns (st : Custody φ μ ω) : List (Move μ χ α) → List (Turn φ μ ω)
  | [] => []
  | m :: moves => (st.turn? m).toList ++ (st.move m).turns moves

/-- A move lets a thread take a turn, or it is something that happens between two calls. -/
theorem move_cases (st : Custody φ μ ω) (m : Move μ χ α) :
    (st.turn? m = none ∧ Arranged st m (st.move m)) ∨
      ∃ turn, st.turn? m = some turn ∧ m = .advance turn.thread ∧ st.Due turn ∧
        (st.move m).calls = st.taken turn := by
  rcases m.advance_or with ⟨t, rfl⟩ | hm
  · cases hp : st.calls.pending? t with
    | none =>
      left
      have hmove : st.move (.advance t : Move μ χ α) = st := advance_of_not_pending hp
      rw [hmove]
      exact ⟨by simp only [turn?, hp], .stuck _⟩
    | some p =>
      cases hs : st.calls.sessions[p.place]? with
      | none =>
        left
        have hmove : st.move (.advance t : Move μ χ α) = st := advance_of_no_session hp hs
        rw [hmove]
        exact ⟨by simp only [turn?, hp, hs], .stuck _⟩
      | some s =>
        right
        refine ⟨⟨t, p.place, p.started, p.next, s, st.calls.world⟩, ?_, rfl, ⟨hp, hs, rfl⟩, ?_⟩
        · simp only [turn?, hp, hs]
        · show (st.advance t).calls = _
          rw [calls_advance, Interleaving.move_advance hp hs]
          rfl
  · left
    refine ⟨?_, arranged st hm⟩
    cases m with
    | advance t => exact absurd rfl (hm t)
    | _ => rfl

/-- **Run**: no thread ever gets into two calls. -/
theorem oneCallEach_run {st : Custody φ μ ω} (h : st.calls.OneCallEach)
    (moves : List (Move μ χ α)) : (st.run moves).calls.OneCallEach := by
  induction moves generalizing st with
  | nil => exact h
  | cons m moves ih =>
    have hmove : (st.move m).calls.OneCallEach := by
      rcases st.move_cases m with ⟨-, harranged⟩ | ⟨turn, -, -, due, hcalls⟩
      · exact harranged.begins.oneCallEach h
      · rw [hcalls]
        exact h.advance _ due.pending
    exact ih hmove

theorem run_append (st : Custody φ μ ω) (moves moves' : List (Move μ χ α)) :
    st.run (moves ++ moves') = (st.run moves).run moves' := List.foldl_append

theorem turns_append (st : Custody φ μ ω) (moves moves' : List (Move μ χ α)) :
    st.turns (moves ++ moves') = st.turns moves ++ (st.run moves).turns moves' := by
  induction moves generalizing st with
  | nil => rfl
  | cons m moves ih =>
    rw [List.cons_append, turns, turns, ih, List.append_assoc]
    rfl

/-- What every permitted move preserves of the turns so far and the state, a run of permitted moves
preserves. -/
theorem run_turns_invariant {P : List (Turn φ μ ω) → Custody φ μ ω → Prop}
    {ok : Custody φ μ ω → Move μ χ α → Bool}
    (step : ∀ ts st m, ok st m = true → P ts st → P (ts ++ (st.turn? m).toList) (st.move m)) :
    ∀ {moves : List (Move μ χ α)} {ts : List (Turn φ μ ω)} {st : Custody φ μ ω},
      st.permits ok moves = true → P ts st → P (ts ++ st.turns moves) (st.run moves)
  | [], ts, st, _, h => by
    rw [turns, List.append_nil]
    exact h
  | m :: moves, ts, st, hok, h => by
    rw [permits, Bool.and_eq_true_iff] at hok
    rw [turns, ← List.append_assoc]
    exact run_turns_invariant step hok.2 (step ts st m hok.1 h)

/-- Where a turn stands in a run, a thread takes it, and what comes after it are the turns of the
rest of the run. -/
theorem exists_due_of_turns_eq {st : Custody φ μ ω} {moves : List (Move μ χ α)}
    {before after : List (Turn φ μ ω)} {turn : Turn φ μ ω}
    (h : st.turns moves = before ++ turn :: after) :
    ∃ earlier m later, moves = earlier ++ m :: later ∧ st.turns earlier = before ∧
      (st.run earlier).Due turn ∧ ((st.run earlier).move m).calls = (st.run earlier).taken turn ∧
      ((st.run earlier).move m).turns later = after := by
  induction moves generalizing st before with
  | nil =>
    rw [turns] at h
    simp at h
  | cons m moves ih =>
    rw [turns] at h
    rcases st.move_cases m with ⟨hnone, -⟩ | ⟨first, hsome, -, due, hcalls⟩
    · rw [hnone] at h
      obtain ⟨earlier, m', later, rfl, hbefore, hrest⟩ := ih h
      refine ⟨m :: earlier, m', later, rfl, ?_, hrest⟩
      rw [turns, hnone, hbefore]
      rfl
    · rw [hsome] at h
      cases before with
      | nil =>
        obtain ⟨rfl, hafter⟩ := List.cons.inj h
        exact ⟨[], m, moves, rfl, rfl, due, hcalls, hafter⟩
      | cons first' before =>
        obtain ⟨rfl, hrest⟩ := List.cons.inj h
        obtain ⟨earlier, m', later, rfl, hbefore, hrest⟩ := ih hrest
        refine ⟨m :: earlier, m', later, rfl, ?_, hrest⟩
        rw [turns, hsome, hbefore]
        rfl

end Custody

/-! ### The turns of one call -/

/-- The turns of the call that a thread is in, up to the one with which it comes back. -/
def course (t : Thread) : List (Turn φ μ ω) → List (Turn φ μ ω)
  | [] => []
  | turn :: rest =>
    if turn.thread = t then turn :: turn.outcome.1.elim (fun _ => course t rest) (fun _ => [])
    else course t rest

theorem mem_of_mem_course {t : Thread} {ts : List (Turn φ μ ω)} {turn : Turn φ μ ω}
    (h : turn ∈ course t ts) : turn ∈ ts := by
  induction ts with
  | nil => exact h
  | cons first rest ih =>
    rw [course] at h
    split at h
    · rcases List.mem_cons.mp h with rfl | hrest
      · exact List.mem_cons_self ..
      · cases hout : first.outcome.1 with
        | inl next =>
          rw [hout] at hrest
          exact List.mem_cons_of_mem _ (ih hrest)
        | inr result =>
          rw [hout] at hrest
          cases hrest
    · exact List.mem_cons_of_mem _ (ih h)

/-- How a call goes on from what it does next, as far as it gets: every turn does what the one
before it has left to do. -/
inductive Goes (place : Place) (started : Call μ) : Call μ → List (Turn φ μ ω) → Prop
  | waits (c : Call μ) : Goes place started c []
  | on {c next : Call μ} {turn : Turn φ μ ω} {rest : List (Turn φ μ ω)}
      (hplace : turn.place = place) (hstarted : turn.started = started) (hcall : turn.call = c)
      (hnext : turn.outcome.1 = .inl next) (hrest : Goes place started next rest) :
      Goes place started c (turn :: rest)
  | comesBack {c : Call μ} {turn : Turn φ μ ω} {result : Result μ} (hplace : turn.place = place)
      (hstarted : turn.started = started) (hcall : turn.call = c)
      (hresult : turn.outcome.1 = .inr result) : Goes place started c [turn]

namespace Goes

variable {place : Place} {started c : Call μ} {ts : List (Turn φ μ ω)}

theorem place_eq (h : Goes place started c ts) : ∀ turn ∈ ts, turn.place = place := by
  induction h with
  | waits c => simp
  | on hplace hstarted hcall hnext hrest ih => exact List.forall_mem_cons.mpr ⟨hplace, ih⟩
  | comesBack hplace hstarted hcall hresult => simpa using hplace

/-- A call that goes on takes its next turn and goes on from there, unless the run ends before. The
turn that it does not get to is made up from another one. -/
theorem exists_next (h : Goes place started c ts) (other : Turn φ μ ω) :
    ∃ turn rest, ts <+: turn :: rest ∧ turn.call = c ∧
      (∀ next, turn.outcome.1 = .inl next → Goes place started next rest) ∧
      ∀ result, turn.outcome.1 = .inr result → rest = [] := by
  cases h with
  | waits c =>
    exact ⟨{ other with call := c }, [], by simp, rfl, fun _ _ => .waits _, fun _ _ => rfl⟩
  | @on _ next turn rest hplace hstarted hcall hnext hrest =>
    refine ⟨turn, rest, List.prefix_rfl, hcall, ?_, ?_⟩
    · intro next' hnext'
      obtain rfl := Sum.inl.inj (hnext.symm.trans hnext')
      exact hrest
    · intro result hresult
      rw [hnext] at hresult
      cases hresult
  | @comesBack _ turn result hplace hstarted hcall hresult =>
    exact ⟨turn, [], List.prefix_rfl, hcall, fun _ _ => .waits _, fun _ _ => rfl⟩

end Goes

variable [World ω χ] [Holder μ α]

theorem Goes.of_pending {st : Custody φ μ ω} {t : Thread} {p : Pending μ}
    (hp : st.calls.pending? t = some p) (moves : List (Custody.Move μ χ α)) :
    Goes p.place p.started p.next (course t (st.turns moves)) := by
  induction moves generalizing st p with
  | nil => exact .waits _
  | cons m moves ih =>
    rw [Custody.turns]
    rcases st.move_cases m with ⟨hnone, harranged⟩ | ⟨turn, hsome, -, due, hcalls⟩
    -- A thread that is in a call begins no other.
    · rw [hnone]
      rcases harranged.begins.pending? t with hsame | ⟨hfree, -⟩
      · exact ih (hsame.trans hp)
      · rw [hp] at hfree
        cases hfree
    · rw [hsome, Option.toList_some, List.singleton_append, course]
      by_cases ht : turn.thread = t
      · subst ht
        have hpending := due.pending?_taken
        rw [← hcalls] at hpending
        obtain rfl : ⟨turn.place, turn.started, turn.call⟩ = p :=
          Option.some.inj (due.pending.symm.trans hp)
        rw [if_pos rfl]
        cases hout : turn.outcome.1 with
        | inl next =>
          rw [hout] at hpending
          exact .on rfl rfl rfl hout (ih hpending)
        | inr result => exact .comesBack rfl rfl rfl hout
      · rw [if_neg ht]
        refine ih (p := p) ?_
        rw [hcalls, Custody.taken, Interleaving.pending?_advance_of_ne _ _ _ _ (Ne.symm ht), hp]

/-- When the call of a turn goes on, it does so in the rest of the run. -/
theorem Goes.of_turns_eq {st : Custody φ μ ω} {moves : List (Custody.Move μ χ α)}
    {before after : List (Turn φ μ ω)} {turn : Turn φ μ ω}
    (h : st.turns moves = before ++ turn :: after) {next : Call μ}
    (hnext : turn.outcome.1 = .inl next) :
    Goes turn.place turn.started next (course turn.thread after) := by
  obtain ⟨earlier, m, later, -, -, due, hcalls, hafter⟩ := Custody.exists_due_of_turns_eq h
  have hpending := due.pending?_taken
  rw [← hcalls, hnext] at hpending
  rw [← hafter]
  exact .of_pending hpending later

end SessionPool
