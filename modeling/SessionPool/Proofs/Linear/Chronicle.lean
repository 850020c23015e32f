import SessionPool.Proofs.Custody.Outstanding
import SessionPool.Proofs.Linear.Explain

/-!
# Keeping a chronicle

The stories of a run over one session explain the session at every moment. A step of a thread does
one of three things to them: a call that gets the lock for the first time adds a story, a call that
has had it goes on with its story, and a release that resets its marshal before it has the lock does
nothing.
-/

namespace SessionPool

open Session (Call Result)
open Script (World Holder)

variable {φ μ ω χ α : Type}

/-! ### The story of the call that a thread is in -/

/-- A thread that is in no call has no open story. One that is in a call has none as long as the
call has not had the lock, and one story, which is that of the call, from then on. -/
def Chronicle.Follows [Marshal μ ω] (k : Chronicle φ μ ω) (t : Thread) : Prop :=
  match k.custody.calls.pending? t with
  | none => k.stories.filter (Story.isOpen t) = []
  | some p =>
    k.stories.filter (Story.isOpen t) = [] ∧ (k.scenes t).Enters p.started p.next ∨
      k.stories.filter (Story.isOpen t) = [⟨t, p.started, k.scenes t, .inl p.next⟩]

namespace Story

theorem goOn_of_not_isOpen {t : Thread} {sc : Scenes ω} {now : Call μ ⊕ Result μ}
    {story : Story μ ω} (h : story.isOpen t = false) : story.goOn t sc now = story := by
  rw [goOn, h]
  rfl

theorem map_goOn_of_filter_eq_nil {stories : List (Story μ ω)} {t : Thread}
    (h : stories.filter (isOpen t) = []) (sc : Scenes ω) (now : Call μ ⊕ Result μ) :
    stories.map (·.goOn t sc now) = stories := by
  have hid : ∀ story ∈ stories, story.goOn t sc now = id story := by
    intro story hstory
    exact goOn_of_not_isOpen (Bool.eq_false_iff.mpr (List.filter_eq_nil_iff.mp h story hstory))
  rw [List.map_congr_left hid, List.map_id]

theorem map_goOn {stories : List (Story μ ω)} {t : Thread} {story : Story μ ω}
    (h : stories.filter (isOpen t) = [story]) (sc : Scenes ω) (now : Call μ ⊕ Result μ) :
    ∃ before after, stories = before ++ story :: after ∧
      before.filter (isOpen t) = [] ∧ after.filter (isOpen t) = [] ∧
      stories.map (·.goOn t sc now) = before ++ { story with scenes := sc, now } :: after := by
  obtain ⟨before, after, rfl, hbefore, hopen, hafter⟩ := List.filter_eq_cons_iff.mp h
  rw [← List.filter_eq_nil_iff] at hbefore
  refine ⟨before, after, rfl, hbefore, hafter, ?_⟩
  rw [List.map_append, List.map_cons, map_goOn_of_filter_eq_nil hbefore,
    map_goOn_of_filter_eq_nil hafter, goOn, if_pos hopen]

theorem isOpen_of_ne {t t' : Thread} (h : t' ≠ t) (call : Call μ) (sc : Scenes ω)
    (now : Call μ ⊕ Result μ) : (mk t call sc now).isOpen t' = false := by
  rw [isOpen, beq_false_of_ne h.symm, Bool.false_and]

theorem filter_isOpen_singleton (t : Thread) (call : Call μ) (sc : Scenes ω)
    (now : Call μ ⊕ Result μ) :
    [mk t call sc now].filter (isOpen t) =
      now.elim (fun next => [⟨t, call, sc, .inl next⟩]) fun _ => [] := by
  cases now with
  | inl next => simp [isOpen]
  | inr result => simp [isOpen]

theorem filterMap_finished?_singleton (t : Thread) (call : Call μ) (sc : Scenes ω)
    (now : Call μ ⊕ Result μ) :
    [mk t call sc now].filterMap finished? =
      now.elim (fun _ => []) fun result => [⟨t, 0, call, result⟩] := by
  cases now <;> rfl

/-- A story of a release. -/
def isRelease (story : Story μ ω) : Bool :=
  match story.call with
  | .release _ => true
  | _ => false

end Story

/-! ### The invariant -/

variable [Marshal μ ω] [Source φ μ ω]

/-- A chronicle of a run over a session: the stories explain the session as it is now, every thread
has the story of its call, and the stories that are over are those of the calls that have come
back. -/
structure Chronicle.Kept (s : Session φ μ) (k : Chronicle φ μ ω) : Prop where
  one : k.custody.calls.OneCallEach
  session : ∃ s', k.custody.calls.sessions = [s'] ∧ s.Explains k.stories s'
  follows : ∀ t, k.Follows t
  finished : (k.stories.filterMap Story.finished?).Perm k.custody.calls.finished
  takenBack : k.stories.countP Story.isRelease = k.custody.takenBack

namespace Chronicle

variable {s : Session φ μ} {k : Chronicle φ μ ω} {t : Thread} {p : Pending μ} {s' : Session φ μ}

theorem note_advance (hp : k.custody.calls.pending? t = some p)
    (hs : k.custody.calls.sessions[p.place]? = some s') :
    k.note (.advance t : Custody.Move μ χ α) = k.record t p s' := by
  simp only [note, hp, hs]

/-! ### What a step does to the stories -/

theorem stories_advance [World ω χ] [Holder μ α] (hp : k.custody.calls.pending? t = some p)
    (hs : k.custody.calls.sessions[p.place]? = some s') :
    (k.move (.advance t : Custody.Move μ χ α)).stories = (k.record t p s').stories := by
  rw [move, note_advance hp hs]

theorem record_scenes (k : Chronicle φ μ ω) (t : Thread) (p : Pending μ) (s' : Session φ μ) :
    (k.record t p s').scenes t = (k.scenes t).note k.custody.calls.world p.next := if_pos rfl

theorem record_locks (locking : p.next.isLocking = true) (s' : Session φ μ) :
    (k.record t p s').stories = k.stories ++
      [⟨t, p.started, (k.scenes t).note k.custody.calls.world p.next,
        (k.custody.calls.outcome p s').1⟩] := if_pos locking

theorem record_resets {m : μ} (hnext : p.next = .release m)
    (none : k.stories.filter (Story.isOpen t) = []) (s' : Session φ μ) :
    (k.record t p s').stories = k.stories := by
  rw [record, hnext]
  exact Story.map_goOn_of_filter_eq_nil none _ _

theorem record_goesOn (late : p.next.isLocking = false)
    (own : k.stories.filter (Story.isOpen t) = [⟨t, p.started, k.scenes t, .inl p.next⟩])
    (s' : Session φ μ) :
    ∃ before after, k.stories = before ++ ⟨t, p.started, k.scenes t, .inl p.next⟩ :: after ∧
      before.filter (Story.isOpen t) = [] ∧ after.filter (Story.isOpen t) = [] ∧
      (k.record t p s').stories = before ++
        ⟨t, p.started, (k.scenes t).note k.custody.calls.world p.next,
          (k.custody.calls.outcome p s').1⟩ :: after := by
  rw [record, late]
  exact Story.map_goOn own _ _

theorem takenBack_advance {st : Custody φ μ ω} (hone : st.calls.OneCallEach)
    (hp : st.calls.pending? t = some p)
    (hcalls : (st.advance t).calls = st.calls.advance t p s') :
    (st.advance t).takenBack + p.next.isTurnedAway.toNat = st.takenBack +
      (st.calls.outcome p s').1.elim (fun next => next.isTurnedAway.toNat)
        fun result => result.isReturn.toNat := by
  have hfinished := Custody.countP_finished_advance st.calls t p s' Result.isReturn
  have hpending := hone.inCalls_advance s' hp Call.isTurnedAway
  rw [Custody.takenBack, Custody.takenBack, hcalls, hfinished]
  cases hout : (st.calls.outcome p s').1 with
  | inl next =>
    rw [hout] at hpending
    simp only [Sum.elim_inl] at *
    omega
  | inr result =>
    rw [hout] at hpending
    simp only [Sum.elim_inr] at *
    omega

/-! ### Steps keep a chronicle -/

variable [World ω χ] [Holder μ α]

/-- A step keeps a chronicle if the stories after it explain the session after it, have the story of
the thread as it is after it, and count what comes back with it. -/
theorem Kept.step (h : k.Kept s) (hp : k.custody.calls.pending? t = some p)
    (hs : k.custody.calls.sessions[p.place]? = some s') {stories : List (Story μ ω)}
    (hstories : (k.record t p s').stories = stories)
    (explains : s.Explains stories (k.custody.calls.outcome p s').2.1)
    (others : ∀ t', t' ≠ t → stories.filter (Story.isOpen t') = k.stories.filter (Story.isOpen t'))
    (own : (k.custody.calls.outcome p s').1.elim
      (fun next => stories.filter (Story.isOpen t) = [] ∧
          ((k.record t p s').scenes t).Enters p.started next ∨
        stories.filter (Story.isOpen t) =
          [⟨t, p.started, (k.record t p s').scenes t, .inl next⟩])
      fun _ => stories.filter (Story.isOpen t) = [])
    (finished : (stories.filterMap Story.finished?).Perm
      ((k.custody.calls.outcome p s').1.elim (fun _ => [])
        (fun result => [⟨t, 0, p.started, result⟩]) ++ k.stories.filterMap Story.finished?))
    (released : stories.countP Story.isRelease + p.next.isTurnedAway.toNat =
      k.stories.countP Story.isRelease +
        (k.custody.calls.outcome p s').1.elim (fun next => next.isTurnedAway.toNat)
          fun result => result.isReturn.toNat) :
    (k.move (.advance t : Custody.Move μ χ α)).Kept s := by
  obtain ⟨s₀, hsessions, -⟩ := h.session
  obtain ⟨hplace, rfl⟩ := Custody.place_eq_zero (hsessions ▸ hs)
  have hcalls : (k.custody.advance t).calls = k.custody.calls.advance t p s' := by
    rw [Custody.calls_advance, Interleaving.move_advance hp hs]
  have hcustody : (k.move (.advance t : Custody.Move μ χ α)).custody = k.custody.advance t := rfl
  have hmove : (k.move (.advance t : Custody.Move μ χ α)).stories = stories :=
    (stories_advance hp hs).trans hstories
  have hscenes : (k.move (.advance t : Custody.Move μ χ α)).scenes = (k.record t p s').scenes := by
    rw [move, note_advance hp hs]
  refine ⟨?_, ?_, ?_, ?_, ?_⟩
  · rw [hcustody, hcalls]
    exact h.one.advance s' hp
  · refine ⟨(k.custody.calls.outcome p s').2.1, ?_, hmove ▸ explains⟩
    rw [hcustody, hcalls, Interleaving.advance_sessions, hsessions, hplace]
    rfl
  -- The call of every other thread, its scenes and its story are what they were.
  · intro t'
    by_cases ht : t' = t
    · subst ht
      rw [Follows, hcustody, hcalls, Interleaving.pending?_advance, hmove, hscenes]
      cases hout : (k.custody.calls.outcome p s').1 with
      | inl next => rw [hout] at own; exact own
      | inr result => rw [hout] at own; exact own
    · have hfollows := h.follows t'
      rw [Follows] at hfollows ⊢
      rw [hcustody, hcalls, Interleaving.pending?_advance_of_ne _ _ _ _ ht, hmove, others t' ht,
        hscenes]
      have hsame : (k.record t p s').scenes t' = k.scenes t' := if_neg ht
      rw [hsame]
      exact hfollows
  · rw [hmove, hcustody, hcalls, Interleaving.advance_finished, hplace]
    exact finished.trans (h.finished.append_left _)
  · have hreturns := takenBack_advance h.one hp hcalls
    have hbefore := h.takenBack
    rw [hmove, hcustody]
    omega

section

variable {w : ω} {c : Call μ} {out : (Call μ ⊕ Result μ) × Session φ μ × ω}

/-- A call that gets the lock is a release that now has had it, or it is none. -/
theorem released_of_locking (h : Session.Stepped s' w c out) {sc sc' : Scenes ω} {started : Call μ}
    (enters : sc.Enters started c) (locking : c.isLocking = true) (now : Call μ ⊕ Result μ) :
    [Story.mk t started sc' now].countP Story.isRelease + c.isTurnedAway.toNat =
      out.1.elim (fun next => next.isTurnedAway.toNat) fun result => result.isReturn.toNat := by
  cases enters with
  | entry entry => cases h <;> first | rfl | exact absurd locking Bool.false_ne_true |
      exact absurd entry Bool.false_ne_true
  | back m => cases h <;> rfl

/-- After it has had the lock, a release that was turned away stays one until it is over. -/
theorem released_of_late (h : Session.Stepped s' w c out) (late : c.isLocking = false) :
    out.1.elim (fun next => next.isTurnedAway.toNat) (fun result => result.isReturn.toNat) =
      c.isTurnedAway.toNat := by
  cases h <;> first | rfl | exact absurd late.symm Bool.false_ne_true

/-- Outside of its first step under the lock a call changes nothing but the count. -/
theorem recount_of_late (h : Session.Stepped s' w c out) (late : c.isLocking = false) :
    ∃ n, out.2.1 = s'.recount n := by
  cases h <;> first | exact ⟨_, rfl⟩ | exact ⟨_, (Session.recount_self _).symm⟩ |
    exact absurd late.symm Bool.false_ne_true

end

/-- A call that gets the lock for the first time. -/
theorem Kept.locks (h : k.Kept s) (hp : k.custody.calls.pending? t = some p)
    (hs : k.custody.calls.sessions[p.place]? = some s') (locking : p.next.isLocking = true)
    (none : k.stories.filter (Story.isOpen t) = [])
    (enters : (k.scenes t).Enters p.started p.next) :
    (k.move (.advance t : Custody.Move μ χ α)).Kept s := by
  obtain ⟨s₀, hsessions, hexplains⟩ := h.session
  obtain ⟨-, rfl⟩ := Custody.place_eq_zero (hsessions ▸ hs)
  have hstep := Session.stepped s' k.custody.calls.world p.next
  obtain ⟨hfits, n, hsession⟩ := Story.fits_of_stepped hstep enters locking t
  refine h.step hp hs (record_locks locking s') ?_ ?_ ?_ ?_ ?_
  · rw [Interleaving.outcome, hsession]
    exact hexplains.append hfits
  · intro t' ht
    rw [List.filter_append, List.filter_cons_of_neg (by simp [Story.isOpen_of_ne ht]),
      List.filter_nil, List.append_nil]
  · rw [List.filter_append, none, Story.filter_isOpen_singleton, record_scenes, List.nil_append]
    cases (k.custody.calls.outcome p s').1 with
    | inl next => exact .inr rfl
    | inr result => rfl
  · rw [List.filterMap_append, Story.filterMap_finished?_singleton]
    exact List.perm_append_comm
  · rw [List.countP_append, Nat.add_assoc, released_of_locking hstep enters locking]
    rfl

/-- A release that resets its marshal before it has the lock. -/
theorem Kept.resets (h : k.Kept s) (hp : k.custody.calls.pending? t = some p)
    (hs : k.custody.calls.sessions[p.place]? = some s') {m : μ} (hnext : p.next = .release m)
    (none : k.stories.filter (Story.isOpen t) = []) (hstarted : p.started = .release m) :
    (k.move (.advance t : Custody.Move μ χ α)).Kept s := by
  obtain ⟨s₀, hsessions, hexplains⟩ := h.session
  obtain ⟨-, rfl⟩ := Custody.place_eq_zero (hsessions ▸ hs)
  have hout : k.custody.calls.outcome p s' =
      (.inl (.put (Marshal.reset m k.custody.calls.world).1), s',
        (Marshal.reset m k.custody.calls.world).2) := by
    rw [Interleaving.outcome, hnext]
    rfl
  refine h.step hp hs (record_resets hnext none s') ?_ (fun _ _ => rfl) ?_ ?_ ?_
  · rw [hout]
    exact hexplains
  · rw [hout, record_scenes, hnext, hstarted]
    exact .inl ⟨none, .back m⟩
  · rw [hout]
    exact .refl _
  · rw [hout, hnext]
    rfl

/-- A call that has had the lock. -/
theorem Kept.goesOn (h : k.Kept s) (hp : k.custody.calls.pending? t = some p)
    (hs : k.custody.calls.sessions[p.place]? = some s') (late : p.next.isLocking = false)
    (own : k.stories.filter (Story.isOpen t) = [⟨t, p.started, k.scenes t, .inl p.next⟩]) :
    (k.move (.advance t : Custody.Move μ χ α)).Kept s := by
  obtain ⟨s₀, hsessions, hexplains⟩ := h.session
  obtain ⟨-, rfl⟩ := Custody.place_eq_zero (hsessions ▸ hs)
  have hstep := Session.stepped s' k.custody.calls.world p.next
  obtain ⟨before, after, hsplit, hbefore, hafter, hstories⟩ := record_goesOn late own s'
  refine h.step hp hs hstories ?_ ?_ ?_ ?_ ?_
  · obtain ⟨n, hsession⟩ := recount_of_late hstep late
    rw [hsplit] at hexplains
    have hgoes := hexplains.goOn hexplains.session k.custody.calls.world
    rw [Interleaving.outcome, hsession]
    exact hgoes.recount_right n
  · intro t' ht
    rw [hsplit, List.filter_append, List.filter_append,
      List.filter_cons_of_neg (by simp [Story.isOpen_of_ne ht]),
      List.filter_cons_of_neg (by simp [Story.isOpen_of_ne ht])]
  · rw [List.append_cons, List.filter_append, List.filter_append, hbefore, hafter,
      Story.filter_isOpen_singleton, record_scenes]
    cases (k.custody.calls.outcome p s').1 with
    | inl next => exact .inr rfl
    | inr result => rfl
  -- The open story had no result, so what the step comes back with is all that is added.
  · rw [hsplit, List.append_cons, List.append_cons before, List.append_assoc, List.append_assoc]
    simp only [List.filterMap_append, Story.filterMap_finished?_singleton]
    exact List.perm_append_comm_assoc _ _ _
  · rw [Interleaving.outcome, released_of_late hstep late, hsplit, List.countP_append,
      List.countP_append, countP_cons_toNat, countP_cons_toNat]
    rfl

/-- A call that has not had the lock and does not get it now resets the marshal that it brings. -/
theorem enters_release {sc : Scenes ω} {started next : Call μ} (enters : sc.Enters started next)
    (late : next.isLocking = false) : ∃ m, started = .release m ∧ next = .release m := by
  cases enters with
  | entry entry =>
    cases started with
    | release m => exact ⟨m, rfl, rfl⟩
    | _ => first | exact absurd late.symm Bool.false_ne_true | exact absurd entry Bool.false_ne_true
  | back m => exact absurd late.symm Bool.false_ne_true

theorem isLocking_of_fits {sc : Scenes ω} {call next : Call μ}
    (h : (Story.mk t call sc (.inl next)).Fits s) : next.isLocking = false := by
  cases next <;> first | rfl | exact absurd h id

/-- A thread has no step to take, or its call gets the lock for the first time, or resets a marshal
before that, or has had the lock. -/
theorem Kept.advance_cases (h : k.Kept s) (t : Thread) :
    k.move (.advance t : Custody.Move μ χ α) = k ∨
      ∃ p s', k.custody.calls.pending? t = some p ∧
        k.custody.calls.sessions[p.place]? = some s' ∧
        (p.next.isLocking = true ∧ k.stories.filter (Story.isOpen t) = [] ∧
            (k.scenes t).Enters p.started p.next ∨
          (∃ m, p.next = .release m ∧ p.started = .release m) ∧
            k.stories.filter (Story.isOpen t) = [] ∨
          p.next.isLocking = false ∧
            k.stories.filter (Story.isOpen t) = [⟨t, p.started, k.scenes t, .inl p.next⟩]) := by
  cases hp : k.custody.calls.pending? t with
  | none =>
    refine .inl ?_
    rw [move, note, hp]
    show { k with custody := k.custody.advance t } = k
    rw [Custody.advance_of_not_pending hp]
  | some p =>
    cases hs : k.custody.calls.sessions[p.place]? with
    | none =>
      refine .inl ?_
      rw [move]
      simp only [note, hp, hs]
      show { k with custody := k.custody.advance t } = k
      rw [Custody.advance_of_no_session hp hs]
    | some s' =>
      refine .inr ⟨p, s', rfl, hs, ?_⟩
      have hfollows := h.follows t
      rw [Follows, hp] at hfollows
      rcases hfollows with ⟨none, enters⟩ | own
      · cases hlocking : p.next.isLocking with
        | true => exact .inl ⟨rfl, none, enters⟩
        | false =>
          obtain ⟨m, hstarted, hnext⟩ := enters_release enters hlocking
          exact .inr (.inl ⟨⟨m, hnext, hstarted⟩, none⟩)
      · obtain ⟨s₀, -, hexplains⟩ := h.session
        have hmem : ⟨t, p.started, k.scenes t, .inl p.next⟩ ∈ k.stories := by
          refine List.mem_of_mem_filter (p := Story.isOpen t) ?_
          rw [own]
          exact List.mem_singleton_self _
        obtain ⟨s₁, hfits⟩ := hexplains.fits hmem
        exact .inr (.inr ⟨isLocking_of_fits hfits, own⟩)

/-- **Every step keeps a chronicle.** -/
theorem Kept.advance (h : k.Kept s) (t : Thread) :
    (k.move (.advance t : Custody.Move μ χ α)).Kept s := by
  rcases h.advance_cases (χ := χ) (α := α) t with
    hsame | ⟨p, s', hp, hs, ⟨locking, none, enters⟩ | ⟨⟨m, hnext, hstarted⟩, none⟩ | ⟨late, own⟩⟩
  · rw [hsame]
    exact h
  · exact h.locks hp hs locking none enters
  · exact h.resets hp hs hnext none hstarted
  · exact h.goesOn hp hs late own

/-- A call that begins has not had the lock. -/
theorem Kept.begins (h : k.Kept s) {st : Custody φ μ ω}
    (hbegins : Custody.Begins k.custody.calls st.calls) : { k with custody := st }.Kept s where
  one := hbegins.oneCallEach h.one
  session := by
    rw [hbegins.sessions_eq]
    exact h.session
  follows t := by
    have hfollows := h.follows t
    rw [Follows] at hfollows ⊢
    rcases hbegins.pending? t with hsame | ⟨hnone, place, call, entry, hcall⟩
    · rw [hsame]
      exact hfollows
    · rw [hnone] at hfollows
      rw [hcall]
      exact .inl ⟨hfollows, .entry entry⟩
  finished := by
    rw [hbegins.finished_eq]
    exact h.finished
  takenBack := by
    have hturned : st.calls.inCalls Call.isTurnedAway = k.custody.calls.inCalls Call.isTurnedAway :=
      hbegins.inCalls_eq fun call entry => by
        cases call <;> first | rfl | exact absurd entry Bool.false_ne_true
    rw [Custody.takenBack, hbegins.finished_eq, hturned]
    exact h.takenBack

theorem Kept.move (h : k.Kept s) (m : Custody.Move μ χ α) : (k.move m).Kept s := by
  rcases m.advance_or with ⟨t, rfl⟩ | hm
  · exact h.advance t
  · have hmove : k.move m = { k with custody := k.custody.move m } := by
      cases m with
      | advance t => exact absurd rfl (hm t)
      | _ => rfl
    rw [hmove]
    exact h.begins (Custody.arranged k.custody hm).begins

theorem kept_fresh (w : ω) (s : Session φ μ) : (fresh w s).Kept s where
  one := List.nodup_nil
  session := ⟨s, rfl, s.pool.outstanding, rfl⟩
  follows _ := rfl
  finished := .refl _
  takenBack := rfl

/-- **The stories of a run explain the session** all along the run. -/
theorem Kept.run (h : k.Kept s) (moves : List (Custody.Move μ χ α)) : (k.run moves).Kept s := by
  induction moves generalizing k with
  | nil => exact h
  | cons m moves ih => exact ih (h.move m)

end Chronicle

end SessionPool
