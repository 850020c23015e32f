import SessionPool.Proofs.Stress.Posts

/-!
# What a stress report says

Every round ends with an exchange or with an attempt to open a marshal that failed, and every
marshal that was opened is idle in the end:

    exchanges + unavailable = workers * rounds,   unavailable = failed,   pooled = opened.

There are never more marshals, idle or in a round, than there are workers. For a marshal is only
opened where none is idle, and then each belongs to the round of another worker.
-/

namespace SessionPool.Stress

variable {φ μ ω : Type}

/-! ### Sums over the workers -/

/-- What some workers have together of something that is counted. -/
def sum (f : Post μ → Nat) : List (Post μ) → Nat
  | [] => 0
  | post :: posts => f post + sum f posts

/-- If one worker changes, so does the sum. -/
theorem sum_set (f : Post μ → Nat) {posts : List (Post μ)} {k : Nat} {post : Post μ}
    (hk : posts[k]? = some post) (post' : Post μ) :
    sum f (posts.set k post') + f post = sum f posts + f post' := by
  induction posts generalizing k with
  | nil => simp at hk
  | cons first rest ih =>
    cases k with
    | zero =>
      obtain rfl : first = post := by simpa using hk
      simp only [List.set_cons_zero, sum]
      omega
    | succ k =>
      have hrest := ih (by simpa using hk)
      simp only [List.set_cons_succ, sum]
      omega

theorem sum_replicate (f : Post μ → Nat) (n : Nat) (post : Post μ) :
    sum f (List.replicate n post) = n * f post := by
  induction n with
  | zero => rw [List.replicate_zero, sum, Nat.zero_mul]
  | succ n ih => rw [List.replicate_succ, sum, ih, Nat.succ_mul, Nat.add_comm]

theorem sum_eq_zero {f : Post μ → Nat} {posts : List (Post μ)} (h : ∀ post ∈ posts, f post = 0) :
    sum f posts = 0 := by
  induction posts with
  | nil => rfl
  | cons post posts ih =>
    rw [sum, h post (by simp), ih fun post hpost => h post (by simp [hpost])]

theorem sum_le_length {f : Post μ → Nat} (posts : List (Post μ)) (h : ∀ post, f post ≤ 1) :
    sum f posts ≤ posts.length := by
  induction posts with
  | nil => exact Nat.le_refl 0
  | cons post posts ih =>
    have hpost := h post
    rw [sum, List.length_cons]
    omega

theorem total_workers (f : Worker μ → Nat) (posts : List (Post μ)) :
    Worker.total f (posts.map Post.worker) = sum (fun post => f post.worker) posts := by
  induction posts with
  | nil => rfl
  | cons post posts ih => rw [List.map_cons, Worker.total, ih, sum]

/-! ### What is counted -/

namespace Phase

/-- A round that is under way. -/
def rounds : Phase μ → Nat
  | resting => 0
  | _ => 1

/-- A marshal that is open and not idle. -/
def opened : Phase μ → Nat
  | settling _ ok => ok.toNat
  | holding _ | resetting _ | putting _ => 1
  | _ => 0

/-- A marshal that could not be opened and that the worker has not counted yet. -/
def failed : Phase μ → Nat
  | settling _ ok => (!ok).toNat
  | _ => 0

/-- A marshal that the pool has handed over, or has left to the worker to open. -/
def wanted : Phase μ → Nat
  | resting | taking => 0
  | _ => 1

theorem wanted_le (phase : Phase μ) : phase.wanted ≤ 1 := by
  cases phase <;> simp [wanted]

end Phase

namespace Turn

variable {pool pool' : Pool μ} {post post' : Post μ} {ok : Option Bool}

theorem closed_eq (h : Turn pool post ok pool' post') : pool'.closed = pool.closed := by
  cases h with
  | hit => exact pool.take_closed
  | miss => exact pool.take_closed
  | put => exact pool.put_closed _
  | _ => rfl

theorem rounds_eq (h : Turn pool post ok pool' post') :
    post'.left + post'.phase.rounds + post'.exchanges + post'.unavailable =
      post.left + post.phase.rounds + post.exchanges + post.unavailable := by
  cases h <;> simp only [Phase.rounds] <;> omega

theorem failed_eq (h : Turn pool post ok pool' post') :
    post'.unavailable + post'.phase.failed =
      post.unavailable + post.phase.failed + ok.toList.count false := by
  cases h with
  | @dial _ _ _ _ _ ok => cases ok <;> simp [Phase.failed]
  | _ => simp [Phase.failed]

variable (isOpen : pool.closed = false)

include isOpen

theorem opened_eq (h : Turn pool post ok pool' post') :
    pool'.idle.length + post'.phase.opened =
      pool.idle.length + post.phase.opened + ok.toList.count true := by
  cases h with
  | hit hidle => simp [Phase.opened, hidle]
  | @dial _ _ _ _ _ ok => cases ok <;> simp [Phase.opened]
  | put => simp [Phase.opened, isOpen]
  | _ => simp [Phase.opened, Pool.uncount, *]

/-- A marshal more is wanted only where none is idle. -/
theorem wanted_le (h : Turn pool post ok pool' post') :
    pool'.idle.length + post'.phase.wanted ≤ pool.idle.length + post.phase.wanted ∨
      pool'.idle = [] := by
  cases h with
  | hit hidle => simp [Phase.wanted, hidle]
  | miss hidle => simp [hidle]
  | put => simp [Phase.wanted, isOpen]
  | _ => simp [Phase.wanted, Pool.uncount]

theorem idle_le (h : Turn pool post ok pool' post') :
    pool'.idle.length + post.exchanges ≤ pool.idle.length + post'.exchanges := by
  cases h with
  | put => simp [isOpen]; omega
  | _ => simp [Pool.uncount]

omit isOpen in
/-- An exchange is over when an open marshal has been given back. -/
theorem exchanges_eq (h : Turn pool post ok pool' post') :
    post'.exchanges = post.exchanges ∨ post'.phase.opened < post.phase.opened := by
  cases h with
  | put => exact .inr Nat.one_pos
  | _ => exact .inl rfl

end Turn

/-! ### The books -/

/-- The books are right: `opens` are the outcomes of all attempts to open a marshal so far. -/
structure Balanced (workers rounds : Nat) (pool : Pool μ) (posts : List (Post μ))
    (opens : List Bool) : Prop where
  isOpen : pool.closed = false
  crew : posts.length = workers
  rounds : sum (·.left) posts + sum (·.phase.rounds) posts + sum (·.exchanges) posts +
    sum (·.unavailable) posts = workers * rounds
  failed : sum (·.unavailable) posts + sum (·.phase.failed) posts = opens.count false
  opened : pool.idle.length + sum (·.phase.opened) posts = opens.count true
  bounded : pool.idle.length + sum (·.phase.wanted) posts ≤ workers
  exchanged : pool.idle.length ≤ sum (·.exchanges) posts
  stocked : 0 < sum (·.exchanges) posts → 0 < opens.count true

theorem balanced_start (workers rounds : Nat) :
    Balanced workers rounds ({} : Pool μ) (List.replicate workers { left := rounds }) [] := by
  constructor <;>
    simp [sum_replicate, Phase.rounds, Phase.failed, Phase.opened, Phase.wanted]

/-- **Step**: a turn keeps the books right. -/
theorem Balanced.turn {workers rounds k : Nat} {pool pool' : Pool μ} {posts : List (Post μ)}
    {opens : List Bool} {post post' : Post μ} {ok : Option Bool}
    (h : Balanced workers rounds pool posts opens) (hk : posts[k]? = some post)
    (hturn : Turn pool post ok pool' post') :
    Balanced workers rounds pool' (posts.set k post') (opens ++ ok.toList) := by
  have hcrew : (posts.set k post').length = workers := by rw [List.length_set, h.crew]
  have hexchanges := sum_set (·.exchanges) hk post'
  have hunavailable := sum_set (·.unavailable) hk post'
  have hopened := sum_set (·.phase.opened) hk post'
  refine ⟨hturn.closed_eq.trans h.isOpen, hcrew, ?_, ?_, ?_, ?_, ?_, fun hpos => ?_⟩
  · have hleft := sum_set (·.left) hk post'
    have hrounds := sum_set (·.phase.rounds) hk post'
    have hturn := hturn.rounds_eq
    have hbefore := h.rounds
    omega
  · have hfailed := sum_set (·.phase.failed) hk post'
    have hturn := hturn.failed_eq
    have hbefore := h.failed
    rw [List.count_append]
    omega
  · have hturn := hturn.opened_eq h.isOpen
    have hbefore := h.opened
    rw [List.count_append]
    omega
  · have hwanted := sum_set (·.phase.wanted) hk post'
    rcases hturn.wanted_le h.isOpen with hturn | hempty
    · have hbefore := h.bounded
      omega
    · rw [hempty, List.length_nil, Nat.zero_add, ← hcrew]
      exact sum_le_length _ fun post => post.phase.wanted_le
  · have hturn := hturn.idle_le h.isOpen
    have hbefore := h.exchanged
    omega
  · rw [List.count_append]
    have hbefore := h.opened
    rcases hturn.exchanges_eq with hsame | hheld
    · have hstocked := h.stocked (by omega)
      omega
    · omega

/-! ### Everybody comes to an end -/

/-- How many steps the rest of a round has at most. -/
def Phase.steps : Phase μ → Nat
  | resting => 0
  | taking => 7
  | creating => 6
  | dialling _ => 5
  | settling _ _ => 4
  | holding _ => 3
  | resetting _ => 2
  | putting _ => 1

/-- How many steps a worker has left at most. -/
def Post.steps (post : Post μ) : Nat := 8 * post.left + post.phase.steps

theorem Turn.steps_le {pool pool' : Pool μ} {post post' : Post μ} {ok : Option Bool}
    (h : Turn pool post ok pool' post') : post'.steps ≤ post.steps - 1 := by
  cases h <;> simp only [Post.steps, Phase.steps] <;> omega

theorem Post.rests_of_steps_eq_zero {post : Post μ} (h : post.steps = 0) :
    post.left = 0 ∧ post.phase = .resting := by
  obtain ⟨left, phase, ex, un⟩ := post
  rw [steps] at h
  cases phase with
  | resting => exact ⟨by omega, rfl⟩
  | _ => simp [Phase.steps] at h

variable [Marshal μ ω] [Source φ μ ω]

/-- **Run**: what every worker keeps when it goes on is kept on every schedule, and a worker that
goes `n` times has `n` steps less to go. -/
theorem Run.follow_keeps {s : Session φ μ} {P : Pool μ → ω → List (Post μ) → List Bool → Prop}
    (step : ∀ {pool pool' w w' posts opens k post post' ok}, pool.closed = false →
      P pool w posts opens → posts[k]? = some post →
      Course { s with pool } w post ok pool' w' post' →
      P pool' w' (posts.set k post') (opens ++ ok.toList))
    (schedule : Schedule) (opens : List Bool) {r : Run φ μ ω} {pool : Pool μ}
    {posts : List (Post μ)} (hshows : r.Shows { s with pool } posts)
    (hopen : pool.closed = false) (h : P pool r.calls.world posts opens) :
    ∃ pool' posts', (r.follow schedule).Shows { s with pool := pool' } posts' ∧
      P pool' (r.follow schedule).calls.world posts' (opens ++ r.dials schedule) ∧
      ∀ k post', posts'[k]? = some post' → ∃ post, posts[k]? = some post ∧
        post'.steps ≤ post.steps - schedule.count k := by
  induction schedule generalizing r pool posts opens with
  | nil =>
    refine ⟨pool, posts, hshows, ?_, fun k post hk => ⟨post, hk, Nat.le_refl _⟩⟩
    rw [dials, List.append_nil]
    exact h
  | cons next schedule ih =>
    have hfollow : r.follow (next :: schedule) = (r.go next).follow schedule := rfl
    rw [hfollow, dials, ← List.append_assoc]
    cases hnext : posts[next]? with
    | none =>
      -- No worker has this number, and so nothing happens.
      have hdialled : r.dialled? next = none := by rw [hshows.dialled?_eq, hnext]; rfl
      rw [hshows.go_absent hnext, hdialled, Option.toList_none, List.append_nil]
      obtain ⟨pool, posts', hshows', h', hsteps⟩ := ih opens hshows hopen h
      refine ⟨pool, posts', hshows', h', fun k post' hk' => ?_⟩
      obtain ⟨post, hk, hle⟩ := hsteps k post' hk'
      have hne : next ≠ k := by
        rintro rfl
        rw [hnext] at hk
        cases hk
      exact ⟨post, hk, by rwa [List.count_cons_of_ne hne]⟩
    | some post =>
      obtain ⟨pool₁, w₁, post₁, hcourse, hgone, hworld⟩ := hshows.course hopen hnext
      have h₁ := step hopen h hnext hcourse
      rw [← hworld] at h₁
      obtain ⟨pool', posts', hshows', h', hsteps⟩ :=
        ih _ hgone (hcourse.turn.closed_eq.trans hopen) h₁
      refine ⟨pool', posts', hshows', h', fun k last hk' => ?_⟩
      obtain ⟨first, hk, hle⟩ := hsteps k last hk'
      -- The worker that has gone has a step less to go, all others have as many as before.
      by_cases hne : next = k
      · subst hne
        rw [List.getElem?_set_self (List.getElem?_eq_some_iff.mp hnext).1] at hk
        obtain rfl := Option.some.inj hk
        have hturn := hcourse.turn.steps_le
        refine ⟨post, hnext, ?_⟩
        rw [List.count_cons_self]
        omega
      · rw [List.getElem?_set_ne hne] at hk
        exact ⟨first, hk, by rwa [List.count_cons_of_ne hne]⟩

/-- On every schedule the books stay right. -/
theorem Run.follow_balanced {workers rounds : Nat} (schedule : Schedule) {r : Run φ μ ω}
    {s : Session φ μ} {posts : List (Post μ)} {opens : List Bool} (hshows : r.Shows s posts)
    (h : Balanced workers rounds s.pool posts opens) :
    ∃ pool posts', (r.follow schedule).Shows { s with pool } posts' ∧
      Balanced workers rounds pool posts' (opens ++ r.dials schedule) ∧
      ∀ k post', posts'[k]? = some post' → ∃ post, posts[k]? = some post ∧
        post'.steps ≤ post.steps - schedule.count k :=
  Run.follow_keeps (P := fun pool _ posts opens => Balanced workers rounds pool posts opens)
    (fun _ h hk hcourse => h.turn hk hcourse.turn) schedule opens hshows h.isOpen h

theorem count_inTurn (workers rounds k : Nat) :
    (inTurn workers rounds).count k = if k < workers then maxSteps * rounds else 0 := by
  induction workers with
  | zero => rfl
  | succ workers ih =>
    have hone : inTurn (workers + 1) rounds =
        inTurn workers rounds ++ List.replicate (maxSteps * rounds) workers := by
      rw [inTurn, List.range_succ, List.flatMap_append, List.flatMap_singleton, inTurn]
    rw [hone, List.count_append, ih, List.count_replicate]
    by_cases hk : workers = k
    · subst hk
      simp
    · have hlt : k < workers + 1 ↔ k < workers := by omega
      simp [hk, hlt]

/-- Taking turns is long enough for everybody. -/
theorem rests_of_steps_le {workers rounds : Nat} {schedule : Schedule} {posts : List (Post μ)}
    (h : ∀ k post, posts[k]? = some post →
      ∃ first : Post μ, (List.replicate workers { left := rounds })[k]? = some first ∧
        post.steps ≤ first.steps - (schedule ++ inTurn workers rounds).count k)
    {post : Post μ} (hpost : post ∈ posts) : post.left = 0 ∧ post.phase = .resting := by
  obtain ⟨k, hk⟩ := List.mem_iff_getElem?.mp hpost
  obtain ⟨first, hfirst, hle⟩ := h k post hk
  rw [List.getElem?_replicate] at hfirst
  split at hfirst
  · next hlt =>
    obtain rfl := Option.some.inj hfirst
    have hfirst : Post.steps ({ left := rounds } : Post μ) = 8 * rounds := rfl
    rw [List.count_append, count_inTurn, if_pos hlt, hfirst, maxSteps] at hle
    exact Post.rests_of_steps_eq_zero (by omega)
  · cases hfirst

/-! ### Reports -/

/-- What a report says about a run in which the attempts to open a marshal came out as `opens`. -/
structure AddsUp (load : Load) (opens : List Bool) (report : Report) : Prop where
  workers : report.workers = load.workers.toNat
  rounds : report.rounds = load.rounds.toNat
  total : report.exchanges + report.unavailable = load.workers.toNat * load.rounds.toNat
  unavailable : report.unavailable = opens.count false
  pooled : report.pooled = opens.count true
  bounded : report.pooled ≤ min load.workers.toNat report.exchanges
  stocked : 0 < report.exchanges → 0 < report.pooled
  allOpened : (∀ ok ∈ opens, ok = true) →
    report.unavailable = 0 ∧ report.exchanges = load.workers.toNat * load.rounds.toNat

/-- What is reported when the workers are at some posts. -/
def report (load : Load) (pool : Pool μ) (posts : List (Post μ)) : Report where
  workers := load.workers.toNat
  rounds := load.rounds.toNat
  exchanges := sum (·.exchanges) posts
  unavailable := sum (·.unavailable) posts
  pooled := pool.idle.length
  elapsedMs := 0

/-- When everybody rests, what the books say goes into the report. -/
theorem Balanced.addsUp {load : Load} {pool : Pool μ} {posts : List (Post μ)} {opens : List Bool}
    (h : Balanced load.workers.toNat load.rounds.toNat pool posts opens)
    (hrest : ∀ post ∈ posts, post.left = 0 ∧ post.phase = .resting) :
    AddsUp load opens (report load pool posts) := by
  have hphase (f : Phase μ → Nat) (hf : f .resting = 0) :
      sum (fun post => f post.phase) posts = 0 :=
    sum_eq_zero fun post hpost => by rw [(hrest post hpost).2, hf]
  have hleft : sum (·.left) posts = 0 := sum_eq_zero fun post hpost => (hrest post hpost).1
  have htotal := h.rounds
  rw [hleft, hphase Phase.rounds rfl, Nat.zero_add] at htotal
  have hunavailable := h.failed
  rw [hphase Phase.failed rfl, Nat.add_zero] at hunavailable
  have hpooled := h.opened
  rw [hphase Phase.opened rfl, Nat.add_zero] at hpooled
  have hbounded := h.bounded
  refine ⟨rfl, rfl, htotal, hunavailable, hpooled, ?_, fun hpos => ?_, fun hall => ?_⟩
  · exact Nat.le_min.mpr ⟨Nat.le_of_add_right_le hbounded, h.exchanged⟩
  · show 0 < pool.idle.length
    rw [hpooled]
    exact h.stocked hpos
  · have hnone : sum (·.unavailable) posts = 0 := by
      rw [hunavailable, List.count_eq_zero]
      exact fun hfalse => Bool.false_ne_true (hall false hfalse)
    rw [hnone, Nat.add_zero] at htotal
    exact ⟨hnone, htotal⟩

/-- The outcomes of all attempts to open a marshal under a load. -/
def opens (schedule : Schedule) (load : Load) (s : Session φ μ) (w : ω) : List Bool :=
  (Run.start load.workers.toNat load.rounds.toNat s w).dials
    (schedule ++ inTurn load.workers.toNat load.rounds.toNat)

theorem run_eq_report {schedule : Schedule} {load : Load} {s s' : Session φ μ} {w : ω}
    {posts : List (Post μ)}
    (h : ((Run.start load.workers.toNat load.rounds.toNat s w).follow
      (schedule ++ inTurn load.workers.toNat load.rounds.toNat)).Shows s' posts) :
    (run schedule load s w).1 = .ok (report load s'.pool posts) := by
  have hrefused : (posts.map Post.worker).any (·.refused) = false := by simp [Post.worker]
  dsimp only [run]
  rw [h.sessions, h.workers, hrefused, total_workers, total_workers]
  rfl

/-- On a fresh session there is a report on every schedule, and it adds up. -/
theorem run_addsUp (schedule : Schedule) (load : Load) (localId : UInt64) (remoteId : UInt32)
    (domain : Domain) (factory : φ) (w : ω) :
    ∃ report,
      (run schedule load ({ localId, remoteId, domain, factory } : Session φ μ) w).1 = .ok report ∧
      AddsUp load (opens schedule load ({ localId, remoteId, domain, factory } : Session φ μ) w)
        report := by
  obtain ⟨pool, posts, hshows, h, hsteps⟩ := Run.follow_balanced _
    (Run.shows_start load.workers.toNat load.rounds.toNat
      ({ localId, remoteId, domain, factory } : Session φ μ) w) (balanced_start _ _)
  rw [List.nil_append] at h
  refine ⟨_, run_eq_report hshows, h.addsUp fun post hpost => ?_⟩
  exact rests_of_steps_le hsteps hpost

end SessionPool.Stress
