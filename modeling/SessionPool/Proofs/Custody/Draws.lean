import SessionPool.Proofs.Custody.Demand
import SessionPool.Proofs.Custody.Unshared
import SessionPool.Proofs.Custody.Closed

/-!
# Acquisitions that overlap

Threads acquire marshals from a session at the same time, and nobody gives one back meanwhile. Who
gets which marshal is up to the schedule. But the pool is looked at under its lock, so that the idle
marshals go to the acquisitions that have the lock first, one after the other, and every later one
opens a marshal of its own:

    idle afterwards = idle.drop (acquisitions that have had the lock).
-/

namespace SessionPool

open Session (Call Result)
open Script (World Holder)

variable {φ μ ω χ α : Type}

/-- The marshal that a call comes back with. -/
def Session.Result.handedOut? : Result μ → Option μ
  | .acquired m => m
  | _ => none

/-! ### What an acquisition does to the pool -/

namespace Turn

/-- Whether a turn takes from the pool. -/
def draws (turn : Turn φ μ ω) : Bool :=
  match turn.call with
  | .acquire => true
  | _ => false

/-- The idle marshal that a turn takes from the pool. -/
def taken? (turn : Turn φ μ ω) : Option μ :=
  if turn.draws then turn.session.pool.idle.head? else none

/-- Whether a turn finds nothing to take. -/
def misses (turn : Turn φ μ ω) : Bool := turn.draws && turn.taken?.isNone

theorem draws_iff (turn : Turn φ μ ω) : turn.draws = true ↔ turn.call = .acquire := by
  unfold draws
  cases turn.call <;> simp

/-- Who takes from the pool takes a marshal or finds none. -/
theorem taken_add_misses (ts : List (Turn φ μ ω)) :
    (ts.filterMap taken?).length + ts.countP misses = ts.countP draws := by
  induction ts with
  | nil => rfl
  | cons turn ts ih =>
    have hturn : turn.taken?.toList.length + turn.misses.toNat = turn.draws.toNat := by
      rw [misses, taken?]
      cases turn.draws with
      | false => rfl
      | true => cases turn.session.pool.idle <;> rfl
    have hlength : ((turn :: ts).filterMap taken?).length =
        turn.taken?.toList.length + (ts.filterMap taken?).length := by
      rw [List.filterMap_cons]
      cases turn.taken? with
      | none => exact (Nat.zero_add _).symm
      | some m => exact Nat.add_comm _ _
    rw [countP_cons_toNat, countP_cons_toNat, hlength]
    omega

variable [Marshal μ ω] [Source φ μ ω]

/-- The call that comes back in a turn, if it does. -/
def back (turn : Turn φ μ ω) : List (Finished μ) :=
  turn.outcome.1.elim (fun _ => []) fun result =>
    [⟨turn.thread, turn.place, turn.started, result⟩]

theorem mem_back (turn : Turn φ μ ω) {back : Finished μ} :
    back ∈ turn.back ↔ ∃ result, turn.outcome.1 = .inr result ∧
      back = ⟨turn.thread, turn.place, turn.started, result⟩ := by
  rw [Turn.back]
  cases turn.outcome.1 <;> simp

/-- What is taken from the pool is handed out in the same step. -/
theorem outcome_of_taken? {turn : Turn φ μ ω} {m : μ} (h : turn.taken? = some m) :
    turn.outcome.1 = .inr (.acquired (some (Marshal.reset m turn.world).1)) := by
  rw [taken?] at h
  split at h
  · next hdraws =>
    rw [outcome, turn.draws_iff.mp hdraws]
    have htake := turn.session.pool.take_fst
    rw [h] at htake
    simp only [Call.step]
    generalize turn.session.pool.take = taken at htake ⊢
    obtain ⟨m', pool⟩ := taken
    obtain rfl : m' = some m := htake
    rfl
  · cases h

theorem outcome_of_misses {turn : Turn φ μ ω} (h : turn.misses = true) :
    turn.outcome.1 = .inl .create := by
  obtain ⟨hdraws, hnone⟩ := Bool.and_eq_true_iff.mp h
  rw [taken?, if_pos hdraws, Option.isNone_iff_eq_none, List.head?_eq_none_iff] at hnone
  rw [outcome, turn.draws_iff.mp hdraws]
  simp only [Call.step, Pool.take_of_empty hnone]

end Turn

namespace Session

/-- Whether a call is an acquisition on its way. -/
def Call.isDrawing (c : Call μ) : Bool :=
  match c with
  | .acquire => true
  | c => c.isBetween

variable [Marshal μ ω] [Source φ μ ω] {s : Session φ μ} {w : ω} {c : Call μ}
  {out : (Call μ ⊕ Result μ) × Session φ μ × ω}

/-- An acquisition goes on between its locks, or it is over. -/
theorem Stepped.drawing (h : Stepped s w c out) (drawing : c.isDrawing = true) :
    (∃ next, out.1 = .inl next ∧ next.isBetween = true) ∨ ∃ m, out.1 = .inr (.acquired m) := by
  cases h with
  | hit h => exact .inr ⟨_, rfl⟩
  | miss h => exact .inl ⟨_, rfl, rfl⟩
  | create => exact .inl ⟨_, rfl, rfl⟩
  | dial m => exact .inl ⟨_, rfl, rfl⟩
  | opened m => exact .inr ⟨_, rfl⟩
  | refused m => exact .inr ⟨_, rfl⟩
  | _ => cases drawing

omit [Marshal μ ω] [Source φ μ ω] in
theorem Call.isDrawing_of_isBetween (between : c.isBetween = true) : c.isDrawing = true := by
  cases c <;> first | rfl | cases between

omit [Marshal μ ω] [Source φ μ ω] in
theorem Call.isCounted_of_isDrawing (drawing : c.isDrawing = true) : c.isCounted = c.isBetween := by
  cases c <;> first | rfl | cases drawing

end Session

namespace Turn

variable [Marshal μ ω] [Source φ μ ω]

/-- An acquisition takes the first idle marshal when it has the lock, and none before or after. -/
theorem idle_of_drawing (turn : Turn φ μ ω) (drawing : turn.call.isDrawing = true) :
    turn.outcome.2.1.pool.idle = turn.session.pool.idle.drop turn.draws.toNat := by
  have hstep := turn.stepped
  unfold draws
  generalize turn.outcome = out at hstep ⊢
  generalize turn.call = call at hstep drawing ⊢
  cases hstep with
  | hit h => rw [Pool.take_idle, Bool.toNat_true, List.drop_one]
  | miss h => rw [Pool.take_idle, Bool.toNat_true, List.drop_one]
  | create => rfl
  | dial m => rfl
  | opened m => rfl
  | refused m => rfl
  | _ => cases drawing

/-- An acquisition that has had the lock is between its locks or over. -/
theorem draws_add_isBetween (turn : Turn φ μ ω) (drawing : turn.call.isDrawing = true) :
    turn.draws.toNat + turn.call.isBetween.toNat =
      turn.outcome.1.elim (fun next => next.isBetween.toNat) fun _ => 1 := by
  have hbefore : turn.draws.toNat + turn.call.isBetween.toNat = 1 := by
    unfold draws
    revert drawing
    cases turn.call <;> first | exact fun _ => rfl | exact fun h => absurd h Bool.false_ne_true
  rw [hbefore]
  rcases turn.stepped.drawing drawing with ⟨next, hnext, hbetween⟩ | ⟨m, hresult⟩
  · rw [hnext, Sum.elim_inl, hbetween]
    rfl
  · rw [hresult, Sum.elim_inr]

/-! ### What an acquisition does that finds nothing -/

/-- How a call goes on that has found the pool empty: it creates one marshal, tries once to open it,
and comes back, without a marshal exactly if that did not work. -/
def OpensOnce (rest : List (Turn φ μ ω)) : Prop :=
  ∃ (create dial settle : Turn φ μ ω) (m : Option μ), rest = [create, dial, settle] ∧
    create.call = .create ∧
    dial.call = .dial (Source.create create.session.factory create.world).1 ∧
    dial.outcome.1 = .inl settle.call ∧
    settle.outcome.1 = .inr (.acquired m) ∧ (m = none ↔ dial.opens = false)

theorem opensOnce_of_isMiss {turn : Turn φ μ ω} {rest : List (Turn φ μ ω)} (h : turn.IsMiss rest)
    (ended : ∃ last ∈ rest, ∃ result, last.outcome.1 = .inr result) : OpensOnce rest := by
  obtain ⟨create, dial, settle, hprefix, hcreate, hdial, hsettle, m, hback⟩ := h.rest
  obtain ⟨last, hlast, result, hresult⟩ := ended
  have hgoes : ∀ next ∈ [create, dial], ∃ call, next.outcome.1 = .inl call := by
    intro next hnext
    rcases List.mem_pair.mp hnext with rfl | rfl
    · rw [outcome, hcreate]
      exact ⟨_, rfl⟩
    · exact ⟨_, hsettle⟩
  -- The first two turns go on, so that the last one is not among them.
  have hall : rest = [create, dial, settle] := by
    rcases List.prefix_concat_iff.mp (show rest <+: [create, dial] ++ [settle] from hprefix) with
      hall | hfew
    · exact hall
    · obtain ⟨call, hcall⟩ := hgoes last (hfew.subset hlast)
      rw [hresult] at hcall
      cases hcall
  refine ⟨create, dial, settle, m, hall, hcreate, hdial, hsettle, hback, ?_⟩
  obtain ⟨opened, ok, hdialled⟩ : ∃ opened ok, dial.outcome.1 = .inl (.settle opened ok) := by
    rw [outcome, hdial]
    exact ⟨_, _, rfl⟩
  rw [hdialled] at hsettle
  rw [outcome, ← Sum.inl.inj hsettle] at hback
  rw [opens, hdialled]
  cases ok with
  | true =>
    obtain rfl := Result.acquired.inj (Sum.inr.inj hback)
    simp
  | false =>
    obtain rfl := Result.acquired.inj (Sum.inr.inj hback)
    simp

end Turn

namespace Custody

variable [Marshal μ ω] [Source φ μ ω] [World ω χ] [Holder μ α]

/-- A call that is over after a run has come back in one of its turns. -/
theorem exists_back_of_over {st : Custody φ μ ω} {t : Thread} {p : Pending μ}
    {moves : List (Move μ χ α)} (hp : st.calls.pending? t = some p)
    (ended : (st.run moves).calls.pending? t = none) :
    ∃ last ∈ course t (st.turns moves), ∃ result, last.outcome.1 = .inr result := by
  induction moves generalizing st p with
  | nil =>
    rw [show st.run [] = st from rfl, hp] at ended
    cases ended
  | cons m moves ih =>
    rw [turns]
    rcases st.move_cases m with ⟨hnone, harranged⟩ | ⟨turn, hsome, -, due, hcalls⟩
    · rw [hnone]
      rcases harranged.begins.pending? t with hsame | ⟨hfree, -⟩
      · exact ih (hsame.trans hp) ended
      · rw [hp] at hfree
        cases hfree
    · rw [hsome, Option.toList_some, List.singleton_append, course]
      by_cases ht : turn.thread = t
      · subst ht
        rw [if_pos rfl]
        cases hout : turn.outcome.1 with
        | inl next =>
          have hpending := due.pending?_taken
          rw [← hcalls, hout] at hpending
          obtain ⟨last, hlast, hback⟩ := ih hpending ended
          exact ⟨last, List.mem_cons_of_mem _ hlast, hback⟩
        | inr result => exact ⟨turn, List.mem_cons_self .., result, hout⟩
      · rw [if_neg ht]
        refine ih (p := p) ?_ ended
        rw [hcalls, taken, Interleaving.pending?_advance_of_ne _ _ _ _ (Ne.symm ht), hp]

/-! ### What a turn leaves behind -/

namespace Due

variable {st : Custody φ μ ω} {turn : Turn φ μ ω}

omit [World ω χ] [Holder μ α]

theorem mem_pending_taken (due : st.Due turn) {entry : Thread × Pending μ}
    (h : entry ∈ (st.taken turn).pending) :
    entry ∈ st.calls.pending ∨
      ∃ next, turn.outcome.1 = .inl next ∧ entry.2 = ⟨turn.place, turn.started, next⟩ := by
  rw [taken, Interleaving.advance_pending, due.outcome] at h
  rcases List.mem_append.mp h with hown | hother
  · cases hout : turn.outcome.1 with
    | inl next =>
      rw [hout] at hown
      obtain rfl := List.mem_singleton.mp hown
      exact .inr ⟨next, rfl, rfl⟩
    | inr result =>
      rw [hout] at hown
      cases hown
  · exact .inl (Interleaving.mem_others.mp hother).1

theorem finished_taken (due : st.Due turn) :
    (st.taken turn).finished = turn.back ++ st.calls.finished := by
  rw [taken, Interleaving.advance_finished, due.outcome]
  rfl

theorem received (due : st.Due turn) :
    (st.advance turn.thread).holdings.map (·.marshal) =
      turn.back.filterMap (·.result.handedOut?) ++ st.holdings.map (·.marshal) := by
  obtain ⟨leasing, hadvance⟩ := advance_eq due.pending due.session
  rw [hadvance, due.outcome, List.map_append]
  congr 1
  rw [Turn.back]
  cases turn.outcome.1 with
  | inl next => rfl
  | inr result =>
    cases result with
    | acquired m => cases m <;> rfl
    | _ => rfl

end Due

/-! ### The invariant -/

/-- Whether a move acquires from the session at a place, or changes the world outside. -/
def Move.isDraw (place : Place) : Move μ χ α → Bool
  | .request _ place' .acquire | .request _ place' .lease => place' == place
  | .change _ | .advance _ => true
  | _ => false

/-- Acquisitions have gone on since a quiet state: `ts` are the turns since then, and `calls` those
that have come back. -/
structure Drawing (place : Place) (st₀ : Custody φ μ ω) (s₀ : Session φ μ)
    (ts : List (Turn φ μ ω)) (st : Custody φ μ ω) (s : Session φ μ) (calls : List (Finished μ)) :
    Prop where
  one : st.calls.OneCallEach
  session : st.calls.sessions[place]? = some s
  drawing : ∀ entry ∈ st.calls.pending,
    entry.2.place = place ∧ entry.2.started = .acquire ∧ entry.2.next.isDrawing = true
  finished : st.calls.finished = calls ++ st₀.calls.finished
  acquired : ∀ back ∈ calls,
    back.place = place ∧ back.call = .acquire ∧ ∃ m, back.result = .acquired m
  received : st.holdings.map (·.marshal) =
    calls.filterMap (·.result.handedOut?) ++ st₀.holdings.map (·.marshal)
  drawn : ts.countP Turn.draws = calls.length + st.between
  served : ts.filterMap Turn.taken? = s₀.pool.idle.take (ts.countP Turn.draws)
  idle : s.pool.idle = s₀.pool.idle.drop (ts.countP Turn.draws)
  outstanding : s.outstanding =
    s₀.outstanding + st.between + calls.countP (·.result.isHandOut)

variable {place : Place} {st₀ st : Custody φ μ ω} {s₀ s : Session φ μ} {ts : List (Turn φ μ ω)}
  {calls : List (Finished μ)}

namespace Drawing

omit [World ω χ] [Holder μ α]

theorem arranged {st' : Custody φ μ ω} {m : Move μ χ α} [World ω χ] [Holder μ α]
    (h : Drawing place st₀ s₀ ts st s calls) (draw : m.isDraw place = true)
    (harranged : Arranged st m st') : Drawing place st₀ s₀ ts st' s calls := by
  have hbegins := harranged.begins
  have hbetween : st'.between = st.between :=
    hbegins.inCalls_eq fun call entry => by cases call <;> first | rfl | cases entry
  refine ⟨hbegins.oneCallEach h.one, hbegins.sessions_eq ▸ h.session, ?_,
    hbegins.finished_eq ▸ h.finished, h.acquired, ?_, hbetween ▸ h.drawn, h.served, h.idle,
    hbetween ▸ h.outstanding⟩
  · cases harranged with
    | @request t place' r hcan =>
      show ∀ entry ∈ (st.start t place' r.call).calls.pending, _
      rw [calls_start hcan]
      refine List.forall_mem_cons.mpr ⟨?_, h.drawing⟩
      cases r with
      | acquire => exact ⟨beq_iff_eq.mp draw, rfl, rfl⟩
      | lease => exact ⟨beq_iff_eq.mp draw, rfl, rfl⟩
      | _ => cases draw
    | stuck m => exact h.drawing
    | change c => exact h.drawing
    | _ => cases draw
  · cases harranged with
    | request r hcan => exact h.received
    | stuck m => exact h.received
    | change c => exact h.received
    | _ => cases draw

omit [Marshal μ ω] [Source φ μ ω] in
theorem pos (h : Drawing place st₀ s₀ ts st s calls) {t : Thread} {p : Pending μ}
    (hp : st.calls.pending? t = some p) (hbetween : p.next.isBetween = true) :
    0 < s.pool.outstanding := by
  have hcalls : 0 < st.between :=
    List.countP_pos_iff.mpr ⟨(t, p), Interleaving.mem_pending hp, hbetween⟩
  have hout := h.outstanding
  rw [Session.outstanding] at hout
  omega

theorem advance (h : Drawing place st₀ s₀ ts st s calls) {turn : Turn φ μ ω}
    (due : st.Due turn) :
    Drawing place st₀ s₀ (ts ++ [turn]) (st.advance turn.thread) turn.outcome.2.1
      (turn.back ++ calls) := by
  obtain ⟨hplace, hstarted, hdrawing⟩ : turn.place = place ∧ turn.started = .acquire ∧
      turn.call.isDrawing = true := h.drawing _ (Interleaving.mem_pending due.pending)
  have hsession : turn.session = s := Option.some.inj (due.session.symm.trans (hplace ▸ h.session))
  have hcalls : (st.advance turn.thread).calls = st.taken turn := by
    rw [calls_advance, Interleaving.move_advance due.pending due.session]
    rfl
  have hdrawn : (ts ++ [turn]).countP Turn.draws = ts.countP Turn.draws + turn.draws.toNat := by
    rw [List.countP_append, countP_cons_toNat, List.countP_nil, Nat.zero_add]
  have hbetween : (st.advance turn.thread).between + turn.call.isBetween.toNat =
      st.between + turn.outcome.1.elim (fun next => next.isBetween.toNat) fun _ => 0 := by
    rw [between, hcalls, ← due.outcome]
    exact h.one.inCalls_advance _ due.pending _
  have hover := turn.stepped.drawing hdrawing
  constructor
  case one =>
    rw [hcalls]
    exact h.one.advance _ due.pending
  case session =>
    rw [hcalls, due.sessions, hplace, List.getElem?_set_self]
    exact (List.getElem?_eq_some_iff.mp h.session).1
  case drawing =>
    rw [hcalls]
    intro entry hentry
    rcases due.mem_pending_taken hentry with hold | ⟨next, hnext, hnew⟩
    · exact h.drawing entry hold
    · rcases hover with ⟨next', hnext', hstill⟩ | ⟨m, hresult⟩
      · obtain rfl := Sum.inl.inj (hnext.symm.trans hnext')
        rw [hnew]
        exact ⟨hplace, hstarted, Call.isDrawing_of_isBetween hstill⟩
      · rw [hresult] at hnext
        cases hnext
  case finished =>
    rw [hcalls, due.finished_taken, h.finished, List.append_assoc]
  case acquired =>
    intro back hback
    rcases List.mem_append.mp hback with hnew | hold
    · obtain ⟨result, hresult, rfl⟩ := turn.mem_back.mp hnew
      rcases hover with ⟨next, hnext, -⟩ | ⟨m, hacquired⟩
      · rw [hresult] at hnext
        cases hnext
      · exact ⟨hplace, hstarted, m, Sum.inr.inj (hresult.symm.trans hacquired)⟩
    · exact h.acquired back hold
  case received =>
    rw [due.received, h.received, List.filterMap_append, List.append_assoc]
  case drawn =>
    have hlocks := turn.draws_add_isBetween hdrawing
    have hbefore := h.drawn
    rw [hdrawn, List.length_append, Turn.back]
    rcases hover with ⟨next, hnext, -⟩ | ⟨m, hresult⟩
    · rw [hnext] at hbetween hlocks ⊢
      simp only [Sum.elim_inl, List.length_nil] at hbetween hlocks ⊢
      omega
    · rw [hresult] at hbetween hlocks ⊢
      simp only [Sum.elim_inr, List.length_singleton] at hbetween hlocks ⊢
      omega
  case served =>
    have htaken : turn.taken? =
        if turn.draws then s₀.pool.idle[ts.countP Turn.draws]? else none := by
      rw [Turn.taken?, hsession, h.idle, List.head?_drop]
    rw [hdrawn, List.filterMap_append, h.served, List.filterMap_cons, List.filterMap_nil, htaken]
    cases turn.draws with
    | true =>
      rw [Bool.toNat_true, List.take_add_one]
      cases s₀.pool.idle[ts.countP Turn.draws]? <;> rfl
    | false => exact List.append_nil _
  case idle =>
    rw [turn.idle_of_drawing hdrawing, hsession, h.idle, List.drop_drop, hdrawn]
  case outstanding =>
    have hstep := turn.stepped.outstanding fun hcounted =>
      hsession ▸ h.pos due.pending (Call.isCounted_of_isDrawing hdrawing ▸ hcounted)
    have hbefore := h.outstanding
    rw [Session.outstanding] at hbefore ⊢
    rw [Call.isCounted_of_isDrawing hdrawing, hsession] at hstep
    rw [List.countP_append, Turn.back]
    rcases hover with ⟨next, hnext, hstill⟩ | ⟨m, hresult⟩
    · rw [hnext] at hbetween hstep ⊢
      simp only [Sum.elim_inl, List.countP_nil,
        Call.isCounted_of_isDrawing (Call.isDrawing_of_isBetween hstill)] at hbetween hstep ⊢
      omega
    · rw [hresult] at hbetween hstep ⊢
      simp only [Sum.elim_inr, countP_cons_toNat, List.countP_nil] at hbetween hstep ⊢
      omega

theorem move [World ω χ] [Holder μ α] (h : Drawing place st₀ s₀ ts st s calls) {m : Move μ χ α}
    (draw : m.isDraw place = true) :
    ∃ s' calls', Drawing place st₀ s₀ (ts ++ (st.turn? m).toList) (st.move m) s' calls' := by
  rcases st.move_cases m with ⟨hnone, harranged⟩ | ⟨turn, hsome, rfl, due, -⟩
  · rw [hnone, Option.toList_none, List.append_nil]
    exact ⟨s, calls, h.arranged draw harranged⟩
  · rw [hsome, Option.toList_some]
    exact ⟨_, _, h.advance due⟩

end Drawing

theorem drawing_run {moves : List (Move μ χ α)} (one : st.calls.OneCallEach)
    (quiet : st.calls.isQuiet = true) (hs : st.calls.sessions[place]? = some s)
    (draws : ∀ m ∈ moves, m.isDraw place = true) :
    ∃ s' calls, Drawing place st s (st.turns moves) (st.run moves) s' calls := by
  have hpending : st.calls.pending = [] := List.isEmpty_iff.mp quiet
  have hbetween : st.between = 0 := by rw [between, Interleaving.inCalls, hpending]; rfl
  have hstart : Drawing place st s [] st s [] := by
    refine ⟨one, hs, ?_, rfl, by simp, rfl, ?_, rfl, rfl, ?_⟩
    · rw [hpending]
      simp
    · rw [hbetween]
      rfl
    · rw [hbetween]
      rfl
  have hrun : ∃ s' calls,
      Drawing place st s ([] ++ st.turns moves) (st.run moves) s' calls := by
    refine run_turns_invariant (P := fun ts st' => ∃ s' calls, Drawing place st s ts st' s' calls)
      (fun _ _ _ hm hdrawing => ?_) (permits_of_forall st draws) ⟨s, [], hstart⟩
    obtain ⟨_, _, h⟩ := hdrawing
    exact h.move hm
  exact hrun

/-! ### The theorem -/

/-- What acquisitions from the session at a place, which is `s` before and `s'` afterwards, have
done when they are all over: `calls` are what they came back with. The first of them have taken
what was idle, one after the other, and each of the others has opened a marshal or come back with
none. -/
structure DrawnDown (st : Custody φ μ ω) (moves : List (Move μ χ α)) (place : Place)
    (s s' : Session φ μ) (calls : List (Finished μ)) : Prop where
  finished : (st.run moves).calls.finished = calls ++ st.calls.finished
  acquired : ∀ back ∈ calls,
    back.place = place ∧ back.call = .acquire ∧ ∃ m, back.result = .acquired m
  served : (st.turns moves).filterMap Turn.taken? =
    s.pool.idle.take (min calls.length s.pooled)
  handsOut : ∀ turn ∈ st.turns moves, ∀ m, turn.taken? = some m →
    turn.outcome.1 = .inr (.acquired (some (Marshal.reset m turn.world).1))
  missed : (st.turns moves).countP Turn.misses = calls.length - min calls.length s.pooled
  opensOnce : ∀ before turn after, st.turns moves = before ++ turn :: after →
    turn.misses = true → Turn.OpensOnce (course turn.thread after)
  idle : s'.pool.idle = s.pool.idle.drop (min calls.length s.pooled)
  outstanding : s'.outstanding = s.outstanding + calls.countP (·.result.isHandOut)

theorem opensOnce_of_misses {moves : List (Move μ χ α)} {before after : List (Turn φ μ ω)}
    {turn : Turn φ μ ω} (h : st.turns moves = before ++ turn :: after)
    (misses : turn.misses = true) (ended : (st.run moves).calls.isQuiet = true) :
    Turn.OpensOnce (course turn.thread after) := by
  have hnext := Turn.outcome_of_misses misses
  have hmiss : turn.IsMiss (course turn.thread after) :=
    Turn.isMiss_of_goes hnext (Goes.of_turns_eq h hnext)
  obtain ⟨earlier, m, later, rfl, -, due, hcalls, rfl⟩ := exists_due_of_turns_eq h
  refine Turn.opensOnce_of_isMiss hmiss ?_
  have hpending := due.pending?_taken
  rw [← hcalls, hnext] at hpending
  refine exists_back_of_over hpending ?_
  have hend : (((st.run earlier).move m).run later).calls.pending = [] := by
    rw [run_append] at ended
    exact List.isEmpty_iff.mp ended
  rw [Interleaving.pending?, hend]
  rfl

/-- Acquisitions that are all over have drawn down the pool, whatever the marshals are. -/
theorem drawnDown_of_quiet {moves : List (Move μ χ α)} (one : st.calls.OneCallEach)
    (quiet : st.calls.isQuiet = true) (hs : st.calls.sessions[place]? = some s)
    (draws : ∀ m ∈ moves, m.isDraw place = true) (ended : (st.run moves).calls.isQuiet = true) :
    ∃ s' calls, (st.run moves).calls.sessions[place]? = some s' ∧
      st.DrawnDown moves place s s' calls ∧
      (st.run moves).holdings.map (·.marshal) =
        calls.filterMap (·.result.handedOut?) ++ st.holdings.map (·.marshal) := by
  obtain ⟨s', calls, h⟩ := drawing_run one quiet hs draws
  have hbetween : (st.run moves).between = 0 := by
    rw [between, Interleaving.inCalls, List.isEmpty_iff.mp ended]
    rfl
  have hdrawn : (st.turns moves).countP Turn.draws = calls.length := by
    rw [h.drawn, hbetween, Nat.add_zero]
  have hserved := h.served
  have hidle := h.idle
  rw [hdrawn, List.take_eq_take_min] at hserved
  rw [hdrawn, List.drop_eq_drop_min] at hidle
  refine ⟨s', calls, h.session, ⟨h.finished, h.acquired, hserved, ?_, ?_, ?_, hidle, ?_⟩,
    h.received⟩
  · exact fun _ _ _ htaken => Turn.outcome_of_taken? htaken
  · have htaken := Turn.taken_add_misses (st.turns moves)
    rw [hserved, List.length_take, hdrawn] at htaken
    rw [Session.pooled]
    omega
  · exact fun _ _ _ hsplit misses => opensOnce_of_misses hsplit misses ended
  · rw [h.outstanding, hbetween, Nat.add_zero]

/-- **Acquisitions that overlap share what is idle**, in every quiet state that threads have reached
with sessions over one daemon, **and never a marshal**, if none came from elsewhere. -/
theorem drawnDown (accepting : Bool) (sessions : List (UInt64 × Domain)) (earlier : List MockMove)
    (quiet : ((overMock accepting sessions).run earlier).calls.isQuiet = true) (place : Place)
    (s : Session Mock.Factory Mock.Marshal)
    (hs : ((overMock accepting sessions).run earlier).calls.sessions[place]? = some s)
    (moves : List MockMove) (draws : ∀ m ∈ moves, m.isDraw place = true)
    (ended : (((overMock accepting sessions).run earlier).run moves).calls.isQuiet = true) :
    ∃ s' calls,
      (((overMock accepting sessions).run earlier).run moves).calls.sessions[place]? = some s' ∧
      ((overMock accepting sessions).run earlier).DrawnDown moves place s s' calls ∧
      ((∀ m ∈ earlier, m.isNative = true) →
        ((calls.filterMap (·.result.handedOut?)).map (·.key)).Nodup) := by
  have hfresh : (overMock accepting sessions).calls.OneCallEach := List.nodup_nil
  obtain ⟨s', calls, hs', hdrawn, hholdings⟩ :=
    drawnDown_of_quiet (oneCallEach_run hfresh earlier) quiet hs draws ended
  refine ⟨s', calls, hs', hdrawn, fun native => ?_⟩
  have hunshared := unshared_run accepting sessions native
  have hlater : ∀ m ∈ moves, m.isNative = true := by
    intro m hm
    have hdraw := draws m hm
    cases m <;> first | rfl | cases hdraw
  have hend : (((overMock accepting sessions).run earlier).run moves).Unshared :=
    run_invariant (fun _ _ hm h => h.move hm) (permits_of_forall _ hlater) hunshared
  have hnodup := hend.nodup_holdings
  have hkeys : (((overMock accepting sessions).run earlier).run moves).holdings.map
      (·.marshal.key) = (calls.filterMap (·.result.handedOut?)).map (·.key) ++
        ((overMock accepting sessions).run earlier).holdings.map (·.marshal.key) := by
    have hmap := congrArg (List.map Mock.Marshal.key) hholdings
    rwa [List.map_append, List.map_map, List.map_map] at hmap
  rw [hkeys] at hnodup
  exact (List.nodup_append.mp hnodup).1

/-- Two marshals are given back, so that both are idle. -/
def twoGivenBack : List MockMove :=
  [.request 0 0 .acquire, .advance 0, .advance 0, .advance 0, .advance 0,
    .request 1 0 .acquire, .advance 1, .advance 1, .advance 1, .advance 1,
    .release 0 0 1, .advance 0, .advance 0, .release 1 0 0, .advance 1, .advance 1]

/-- Four threads want a marshal. Two find one idle; the other two open one at the same time, and the
daemon refuses the second of these. -/
def fourWantOne : List MockMove :=
  [.request 0 0 .acquire, .request 1 0 .lease, .request 2 0 .acquire, .request 3 0 .acquire,
    .advance 2, .advance 0, .advance 1, .advance 3, .advance 3, .advance 1, .advance 1,
    .change (.setAccepting 0 false), .advance 3, .advance 3, .advance 1]

theorem drawnDown_fourWantOne :
    ∃ s s' calls, ((overMock true [(1, {})]).run twoGivenBack).calls.sessions[0]? = some s ∧
      s.pooled = 2 ∧
      (((overMock true [(1, {})]).run twoGivenBack).run fourWantOne).calls.sessions[0]? = some s' ∧
      ((overMock true [(1, {})]).run twoGivenBack).DrawnDown fourWantOne 0 s s' calls ∧
      ((calls.filterMap (·.result.handedOut?)).map (·.key)).Nodup := by
  have hs : ((overMock true [(1, {})]).run twoGivenBack).calls.sessions[0]? =
      some ⟨1, 0, {}, ⟨0⟩, { idle := [⟨0, 2, true, false⟩, ⟨0, 1, true, false⟩] }⟩ := by rfl
  obtain ⟨s', calls, hs', hdrawn, hdistinct⟩ := drawnDown true [(1, {})] twoGivenBack (by decide)
    0 _ hs fourWantOne (by decide) (by decide)
  exact ⟨_, s', calls, hs, rfl, hs', hdrawn, hdistinct (by decide)⟩

end Custody

end SessionPool
