import Mathlib.Data.List.Nodup
import SessionPool.Proofs.Custody.Readiness
import SessionPool.Proofs.Session.Swept
import SessionPool.Proofs.Stress.Accounts

/-!
# What the workers leave behind

While workers go on, each marshal that was opened is idle or carried by one worker, and the session
counts as out what the workers have or are about to open:

    idle + carried = opened,   attempted + dialling = created,   wanted = outstanding.

When everybody rests nothing is carried, and so the marshals that were opened are collected.
-/

namespace SessionPool.Stress

variable {φ μ ω : Type}

/-! ### What a worker has -/

namespace Phase

/-- The open marshal that a worker has. -/
def carried? : Phase μ → Option μ
  | settling m true | holding m | resetting m | putting m => some m
  | _ => none

/-- The marshal that a worker is about to open. -/
def dialling? : Phase μ → Option μ
  | dialling m => some m
  | _ => none

/-- How often a worker has the open marshal with a number: once or not at all. -/
def carries (n : Nat) (phase : Phase (Numbered μ)) : Nat :=
  (phase.carried?.toList.map (·.number)).count n

/-- How often a worker is about to open the marshal with a number: once or not at all. -/
def dials (n : Nat) (phase : Phase (Numbered μ)) : Nat :=
  (phase.dialling?.toList.map (·.number)).count n

end Phase

theorem le_sum (f : Post μ → Nat) {posts : List (Post μ)} {post : Post μ} (h : post ∈ posts) :
    f post ≤ sum f posts := by
  induction posts with
  | nil => cases h
  | cons first rest ih =>
    rw [sum]
    rcases List.mem_cons.mp h with rfl | hrest
    · exact Nat.le_add_right ..
    · exact Nat.le_add_left_of_le (ih hrest)

/-- The session counts one marshal more or less as out when the worker wants one more or less. -/
theorem Turn.wanted_eq {pool pool' : Pool μ} {post post' : Post μ} {ok : Option Bool}
    (h : Turn pool post ok pool' post') (hpos : post.phase.wanted ≤ pool.outstanding) :
    pool'.outstanding + post.phase.wanted = pool.outstanding + post'.phase.wanted := by
  cases h with
  | refused => exact Nat.sub_add_cancel hpos
  | put =>
    rw [Pool.put_outstanding]
    exact Nat.sub_add_cancel hpos
  | _ => simp [Phase.wanted]

/-! ### Where a marshal is -/

variable [Marshal μ ω] [Source φ μ ω] {s : Session φ (Numbered μ)} {w w' : Watched μ ω}
  {post post' : Post (Numbered μ)} {ok : Option Bool} {pool' : Pool (Numbered μ)}

/-- The numbers that were given to marshals. -/
def issued (w : Watched μ ω) : List Nat := List.range' 1 w.created

namespace Course

theorem unclosed (h : Course s w post ok pool' w' post')
    (hseen : ∀ e ∈ w.seen, e.isClosing = false) : ∀ e ∈ w'.seen, e.isClosing = false := by
  have concat {e : Sighting μ} (he : e.isClosing = false) :
      ∀ e' ∈ w.seen ++ [e], e'.isClosing = false := by
    intro e' he'
    rcases List.mem_append.mp he' with hold | hnew
    · exact hseen e' hold
    · rwa [List.mem_singleton.mp hnew]
  cases h with
  | create => exact concat rfl
  | dial h =>
    subst h
    exact concat rfl
  | hit => exact concat rfl
  | opened => exact concat rfl
  | reset => exact concat rfl
  | _ => exact hseen

/-- A marshal that was opened stays idle or with a worker. -/
theorem carried_eq (h : Course s w post ok pool' w' post') (isOpen : s.pool.closed = false)
    (n : Nat) :
    (pool'.idle.map (·.number)).count n + post'.phase.carries n + w.opened.count n =
      (s.pool.idle.map (·.number)).count n + post.phase.carries n + w'.opened.count n := by
  cases h with
  | hit h => simp [h, Phase.carries, Phase.carried?, List.count_cons]
  | @dial _ _ _ m _ h =>
    subst h
    -- Only an attempt that succeeds gives the worker something to carry.
    cases hok : (Marshal.dial m s.domain.host s.domain.port w).1 with
    | true => simp [hok, Phase.carries, Phase.carried?]; omega
    | false => simp [hok, Phase.carries, Phase.carried?]
  | put => simp [isOpen, Phase.carries, Phase.carried?, List.count_cons]
  | _ => simp [Phase.carries, Phase.carried?, Pool.uncount, *]

/-- Somebody attempts to open a marshal once after it was created. -/
theorem dials_eq (h : Course s w post ok pool' w' post') (n : Nat) :
    w'.dialled.count n + post'.phase.dials n + (issued w).count n =
      w.dialled.count n + post.phase.dials n + (issued w').count n := by
  cases h with
  | create =>
    have hissued : issued (Source.create s.factory w).2 = issued w ++ [w.created + 1] := by
      rw [issued, Watched.created_create, List.range'_concat, issued]
      simp [Nat.add_comm]
    simp [hissued, Phase.dials, Phase.dialling?]
    omega
  | dial h =>
    subst h
    simp [issued, Phase.dials, Phase.dialling?]
  | _ => simp [issued, Phase.dials, Phase.dialling?, *]

/-- What a worker carries can be put into the pool, and so can what is idle already. -/
theorem takeable (h : Course s w post ok pool' w' post') (q : Standard μ ω)
    (hidle : ∀ m ∈ s.pool.idle, q.isTakeable m.marshal = true)
    (hpost : ∀ m ∈ post.phase.carried?, q.isTakeable m.marshal = true) :
    (∀ m ∈ pool'.idle, q.isTakeable m.marshal = true) ∧
      ∀ m ∈ post'.phase.carried?, q.isTakeable m.marshal = true := by
  have reset {m : Numbered μ} (hm : q.isTakeable m.marshal = true) :
      ∀ m' ∈ some (Marshal.reset m w).1, q.isTakeable m'.marshal = true := by
    rintro _ ⟨⟩
    exact q.isTakeable_of_isReady _ (q.isReady_reset m.marshal w.world hm)
  have nothing : ∀ m ∈ (none : Option (Numbered μ)), q.isTakeable m.marshal = true := by
    rintro _ ⟨⟩
  cases h with
  | hit h =>
    rw [h] at hidle
    refine ⟨?_, reset (hidle _ List.mem_cons_self)⟩
    rw [Pool.take_idle, h, List.tail_cons]
    exact fun m hm => hidle m (List.mem_cons_of_mem _ hm)
  | miss h =>
    refine ⟨?_, nothing⟩
    rw [Pool.take_idle, h]
    rintro _ ⟨⟩
  | @dial _ _ _ m _ h =>
    subst h
    refine ⟨hidle, ?_⟩
    cases hok : (Marshal.dial m s.domain.host s.domain.port w).1 with
    | true =>
      rintro _ ⟨⟩
      exact q.isTakeable_dial m.marshal _ _ w.world hok
    | false => exact nothing
  | opened => exact ⟨hidle, reset (hpost _ rfl)⟩
  | giveBack => exact ⟨hidle, hpost⟩
  | reset => exact ⟨hidle, reset (hpost _ rfl)⟩
  | @put _ _ _ m =>
    refine ⟨fun m' hm' => ?_, nothing⟩
    rw [Pool.put_idle] at hm'
    split at hm'
    · exact hidle m' hm'
    · rcases List.mem_cons.mp hm' with rfl | hold
      · exact hpost _ rfl
      · exact hidle m' hold
  | _ => exact ⟨hidle, nothing⟩

end Course

/-! ### Nothing gets lost -/

/-- What is true of the marshals while the workers are at some posts. -/
structure Tidy (q : Standard μ ω) (pool : Pool (Numbered μ)) (w : Watched μ ω)
    (posts : List (Post (Numbered μ))) : Prop where
  outstanding : pool.outstanding = sum (·.phase.wanted) posts
  unclosed : ∀ e ∈ w.seen, e.isClosing = false
  carried (n : Nat) : (pool.idle.map (·.number)).count n + sum (·.phase.carries n) posts =
    w.opened.count n
  dials (n : Nat) : w.dialled.count n + sum (·.phase.dials n) posts = (issued w).count n
  idle : ∀ m ∈ pool.idle, q.isTakeable m.marshal = true
  inHand : ∀ post ∈ posts, ∀ m ∈ post.phase.carried?, q.isTakeable m.marshal = true

omit [Source φ μ ω] in
theorem tidy_start (q : Standard μ ω) (w : ω) (workers rounds : Nat) :
    Tidy q ({} : Pool (Numbered μ)) ({ world := w } : Watched μ ω)
      (List.replicate workers { left := rounds }) := by
  constructor <;>
    simp [sum_replicate, Phase.wanted, Phase.carries, Phase.carried?, Phase.dials, Phase.dialling?,
      Watched.opened, Watched.dialled, issued]

/-- **Step**: a worker that goes on loses nothing. -/
theorem Tidy.course {q : Standard μ ω} {posts : List (Post (Numbered μ))} {k : Nat}
    (h : Tidy q s.pool w posts) (isOpen : s.pool.closed = false) (hk : posts[k]? = some post)
    (hcourse : Course s w post ok pool' w' post') : Tidy q pool' w' (posts.set k post') := by
  have hmem := List.mem_of_getElem? hk
  obtain ⟨hidle, hpost⟩ := hcourse.takeable q h.idle (h.inHand post hmem)
  refine ⟨?_, hcourse.unclosed h.unclosed, fun n => ?_, fun n => ?_, hidle, ?_⟩
  -- Each sum changes at `k` alone, by as much as the rest of its equation does.
  · have hwanted := sum_set (·.phase.wanted) hk post'
    have hbefore := h.outstanding
    have hle := le_sum (·.phase.wanted) hmem
    have hturn := hcourse.turn.wanted_eq (hbefore ▸ hle)
    omega
  · have hcarried := sum_set (·.phase.carries n) hk post'
    have hbefore := h.carried n
    have hturn := hcourse.carried_eq isOpen n
    omega
  · have hdials := sum_set (·.phase.dials n) hk post'
    have hbefore := h.dials n
    have hturn := hcourse.dials_eq n
    omega
  · intro other hother
    rcases List.mem_or_eq_of_mem_set hother with hold | rfl
    · exact h.inHand other hold
    · exact hpost

omit [Source φ μ ω] in
/-- Nobody attempts to open the same marshal twice. -/
theorem Tidy.once {q : Standard μ ω} {pool : Pool (Numbered μ)} {posts : List (Post (Numbered μ))}
    (h : Tidy q pool w posts) : w.opened.Nodup := by
  -- Every number was issued once, and what is still about to be opened was not dialled yet.
  refine List.Nodup.sublist w.opened_sublist (List.nodup_iff_count.mpr fun n => ?_)
  have hissued : (issued w).Nodup := List.nodup_range'
  have hissued := List.nodup_iff_count.mp hissued n
  have hdials := h.dials n
  omega

omit [Source φ μ ω] in
/-- When everybody rests, the marshals that were opened are idle. -/
theorem Tidy.collected {q : Standard μ ω} {posts : List (Post (Numbered μ))}
    (h : Tidy q s.pool w posts) (isOpen : s.pool.closed = false)
    (hrest : ∀ post ∈ posts, post.left = 0 ∧ post.phase = .resting) :
    s.Collected q.isTakeable w := by
  have nothing (f : Phase (Numbered μ) → Nat) (hf : f .resting = 0) :
      sum (fun post => f post.phase) posts = 0 :=
    sum_eq_zero fun post hpost => by rw [(hrest post hpost).2, hf]
  refine ⟨isOpen, ?_, h.unclosed, h.once, List.perm_iff_count.mpr fun n => ?_, h.idle⟩
  · rw [h.outstanding, nothing Phase.wanted rfl]
  · rw [← h.carried n, nothing (Phase.carries n) rfl, Nat.add_zero]

/-- In the end the session is closed. -/
theorem run_snd {schedule : Schedule} {load : Load} {s s' : Session φ (Numbered μ)}
    {w : Watched μ ω} {posts : List (Post (Numbered μ))} {r : Run φ (Numbered μ) (Watched μ ω)}
    (hr : (Run.start load.workers.toNat load.rounds.toNat s w).follow
      (schedule ++ inTurn load.workers.toNat load.rounds.toNat) = r) (h : r.Shows s' posts) :
    (run schedule load s w).2 = (s'.close r.calls.world).2 := by
  have hsession : r.calls.sessions.headD s = s' := by
    rw [h.sessions]
    rfl
  dsimp only [run]
  rw [hr, hsession]
  split <;> rfl

/-- **Run**: a stress run on a fresh session reports, and leaves nothing behind. -/
theorem swept_run (q : Standard μ ω) (schedule : Schedule) (load : Load) (localId : UInt64)
    (remoteId : UInt32) (domain : Domain) (factory : φ) (w : ω) :
    ∃ report s' w',
      run schedule load ({ localId, remoteId, domain, factory } : Session φ (Numbered μ))
        ({ world := w } : Watched μ ω) = (.ok report, s', w') ∧ s'.Swept q.isTakeable w' := by
  obtain ⟨pool, posts, hshows, ⟨hopen, htidy⟩, hsteps⟩ := Run.follow_keeps
    (s := { localId, remoteId, domain, factory })
    (P := fun pool w posts _ => pool.closed = false ∧ Tidy q pool w posts)
    (fun isOpen h hk hcourse =>
      ⟨hcourse.turn.closed_eq.trans isOpen, h.2.course isOpen hk hcourse⟩)
    (schedule ++ inTurn load.workers.toNat load.rounds.toNat) []
    (Run.shows_start load.workers.toNat load.rounds.toNat
      ({ localId, remoteId, domain, factory } : Session φ (Numbered μ))
      ({ world := w } : Watched μ ω)) rfl ⟨rfl, tidy_start q w _ _⟩
  have hcollected := Tidy.collected (s := { localId, remoteId, domain, factory, pool }) htidy hopen
    fun post hpost => rests_of_steps_le hsteps hpost
  have hclose := hcollected.swept
  rw [← run_snd rfl hshows] at hclose
  exact ⟨_, _, _, Prod.ext (run_eq_report hshows) rfl, hclose⟩

end SessionPool.Stress
