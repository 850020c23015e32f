import SessionPool.Proofs.Linear.Chronicle

/-!
# Calls take effect one after the other

Threads that share a session get what they would get if their calls were made one after the other,
in the order in which the calls first had the lock:

    results of the rehearsal = results of the run,
    idle marshals after the rehearsal = idle marshals after the run,

and so for whether the session is closed. If the session is given back only what it handed out, it
also counts the same marshals as out. For that the rehearsal must not give back a marshal before one
was handed out, since the count goes no further down than to 0.
-/

namespace SessionPool

open Session (Call Result)
open Script (World Holder)

variable {φ μ ω χ α : Type}

namespace Story

/-- Whether the call has come back with a marshal. -/
def isHandOut (story : Story μ ω) : Bool := story.now.elim (fun _ => false) Result.isHandOut

/-- Whether every release comes after more hand-outs than releases; there were some before. -/
def Backed : Nat → List (Story μ ω) → Prop
  | _, [] => True
  | n, story :: stories =>
    (story.isRelease = true → 0 < n) ∧
      Backed (n + story.isHandOut.toNat - story.isRelease.toNat) stories

theorem Backed.mono {stories : List (Story μ ω)} {n n' : Nat} (h : Backed n stories)
    (hn : n ≤ n') : Backed n' stories := by
  induction stories generalizing n n' with
  | nil => trivial
  | cons story stories ih =>
    refine ⟨fun hrelease => ?_, ih h.2 (by omega)⟩
    have hpos := h.1 hrelease
    omega

theorem Backed.append {stories : List (Story μ ω)} {n : Nat} (h : Backed n stories)
    {story : Story μ ω}
    (hstory : story.isRelease = true →
      stories.countP isRelease < n + stories.countP isHandOut) :
    Backed n (stories ++ [story]) := by
  induction stories generalizing n with
  | nil =>
    refine ⟨fun hrelease => ?_, trivial⟩
    exact hstory hrelease
  | cons first stories ih =>
    refine ⟨h.1, ih h.2 fun hrelease => ?_⟩
    have hless := hstory hrelease
    -- The first release was backed, so nothing was cut off at 0.
    have hpos : first.isRelease.toNat ≤ n := by
      cases hr : first.isRelease with
      | false => exact Nat.zero_le n
      | true => exact h.1 hr
    rw [countP_cons_toNat, countP_cons_toNat] at hless
    omega

/-- A call that comes back later was not yet counted as a hand-out. -/
theorem Backed.goOn {before after : List (Story μ ω)} {n : Nat} {t : Thread} {call next : Call μ}
    {sc sc' : Scenes ω} {now : Call μ ⊕ Result μ}
    (h : Backed n (before ++ ⟨t, call, sc, .inl next⟩ :: after)) :
    Backed n (before ++ ⟨t, call, sc', now⟩ :: after) := by
  induction before generalizing n with
  | nil => exact ⟨h.1, h.2.mono (Nat.sub_le_sub_right (Nat.le_add_right n _) _)⟩
  | cons first before ih => exact ⟨h.1, ih h.2⟩

variable [Marshal μ ω] [Source φ μ ω]

/-- What a call that has come back, made alone, does to the count. -/
theorem Fits.outstanding {s : Session φ μ} {t : Thread} {call : Call μ} {sc : Scenes ω}
    {result : Result μ} (h : (Story.mk t call sc (.inr result)).Fits s)
    (hpos : (Story.mk t call sc (.inr result)).isRelease = true → 0 < s.pool.outstanding) :
    (s.serve sc call).2.pool.outstanding +
        (Story.mk t call sc (.inr result)).isRelease.toNat =
      s.pool.outstanding + (Story.mk t call sc (.inr result)).isHandOut.toNat := by
  -- What came back tells which branch the call took, and with it what happened to the count.
  have hserved := Session.served s sc call
  change (s.serve sc call).1 = some result at h
  generalize s.serve sc call = out at h hserved ⊢
  cases hserved with
  | hit hidle =>
    obtain rfl := Option.some.inj h
    exact s.pool.take_outstanding
  | opened hidle hok =>
    obtain rfl := Option.some.inj h
    exact s.pool.take_outstanding
  | refused hidle hok =>
    obtain rfl := Option.some.inj h
    show s.pool.take.2.outstanding - 1 + 0 = s.pool.outstanding + 0
    rw [Pool.take_outstanding]
    rfl
  | kept m hclosed =>
    obtain rfl := Option.some.inj h
    have hput := s.pool.put_outstanding (Marshal.reset m sc.reset).1
    have hless := hpos rfl
    show (s.pool.put _).2.outstanding + 1 = s.pool.outstanding + 0
    omega
  | turnedAway m hclosed =>
    obtain rfl := Option.some.inj h
    have hput := s.pool.put_outstanding (Marshal.reset m sc.reset).1
    have hless := hpos rfl
    show (s.pool.put _).2.outstanding + 1 = s.pool.outstanding + 0
    omega
  | close =>
    obtain rfl := Option.some.inj h
    exact s.pool.drain_outstanding
  | pooled =>
    obtain rfl := Option.some.inj h
    rfl
  | isClosed =>
    obtain rfl := Option.some.inj h
    rfl
  | inner hinner => exact absurd h (Option.some_ne_none _).symm

end Story

variable [Marshal μ ω] [Source φ μ ω]

/-- A rehearsal in which every release is backed counts every hand-out up and every release down. -/
theorem Session.Explains.outstanding {s s' : Session φ μ} {stories : List (Story μ ω)}
    (h : s.Explains stories s') (ended : ∀ story ∈ stories, story.now.isRight = true) {n : Nat}
    (backed : Story.Backed n stories) (hn : n ≤ s.pool.outstanding) :
    (s.rehearse stories).2.pool.outstanding + stories.countP Story.isRelease =
      s.pool.outstanding + stories.countP Story.isHandOut := by
  induction stories generalizing s n with
  | nil => rfl
  | cons story stories ih =>
    have hstory : (s.serve story.scenes story.call).2.pool.outstanding +
        story.isRelease.toNat = s.pool.outstanding + story.isHandOut.toNat := by
      obtain ⟨t, call, sc, now⟩ := story
      cases now with
      | inl next =>
        have hended := ended _ List.mem_cons_self
        exact absurd hended Bool.false_ne_true
      | inr result => exact Story.Fits.outstanding h.1 fun hr => Nat.lt_of_lt_of_le (backed.1 hr) hn
    have hrest := ih h.2 (fun story hstory => ended story (by simp [hstory])) backed.2 (by omega)
    rw [countP_cons_toNat, countP_cons_toNat]
    show ((s.serve story.scenes story.call).2.rehearse stories).2.pool.outstanding + _ = _
    omega

/-! ### Runs in which a session is given back what it handed out -/

namespace Chronicle

variable {s : Session φ μ} {k : Chronicle φ μ ω}

theorem Kept.handedOut (h : k.Kept s) : k.stories.countP Story.isHandOut = k.custody.handedOut := by
  rw [Custody.handedOut, ← h.finished.countP_eq, List.countP_filterMap]
  refine List.countP_congr fun story _ => ?_
  obtain ⟨t, call, sc, now⟩ := story
  cases now <;> rfl

/-- A chronicle of a run in which the count is exact, and every release is backed. -/
structure Loyal (s : Session φ μ) (k : Chronicle φ μ ω) : Prop where
  kept : k.Kept s
  exact : k.custody.Exact s.pool.outstanding
  backed : Story.Backed 0 k.stories

/-- A release that has not had the lock is coming back. -/
theorem isComingBack_of_enters {sc sc' : Scenes ω} {started next : Call μ}
    (enters : sc.Enters started next) {t : Thread} {now : Call μ ⊕ Result μ}
    (h : (Story.mk t started sc' now).isRelease = true) : next.isComingBack = true := by
  cases enters with
  | entry entry =>
    cases started with
    | release m => rfl
    | _ => exact absurd h Bool.false_ne_true
  | back m => rfl

/-- A release that gets the lock gives back one of the marshals that are checked out. -/
theorem Loyal.released_lt (h : k.Loyal s) {t : Thread} {p : Pending μ}
    (hp : k.custody.calls.pending? t = some p) (hback : p.next.isComingBack = true) :
    k.stories.countP Story.isRelease < k.stories.countP Story.isHandOut := by
  have hbalance := h.exact.balance
  have hcalls : 0 < k.custody.calls.inCalls Call.isComingBack :=
    List.countP_pos_iff.mpr ⟨(t, p), Interleaving.mem_pending hp, hback⟩
  have hout : k.custody.calls.inCalls Call.isComingBack ≤ k.custody.checkedOut :=
    Nat.le_add_left _ _
  rw [h.kept.handedOut, h.kept.takenBack]
  omega

variable [World ω χ] [Holder μ α]

theorem Loyal.advance (h : k.Loyal s) (t : Thread) :
    (k.move (.advance t : Custody.Move μ χ α)).Loyal s := by
  refine ⟨h.kept.advance t, h.exact.advance t, ?_⟩
  rcases h.kept.advance_cases (χ := χ) (α := α) t with
    hsame | ⟨p, s', hp, hs, ⟨locking, none, enters⟩ | ⟨⟨m, hnext, -⟩, none⟩ | ⟨late, own⟩⟩
  · rw [hsame]
    exact h.backed
  · rw [stories_advance hp hs, record_locks locking]
    refine h.backed.append fun hrelease => ?_
    rw [Nat.zero_add]
    exact h.released_lt hp (isComingBack_of_enters enters hrelease)
  · rw [stories_advance hp hs, record_resets hnext none]
    exact h.backed
  · obtain ⟨before, after, hsplit, -, -, hstories⟩ := record_goesOn late own s'
    have hbacked := h.backed
    rw [hsplit] at hbacked
    rw [stories_advance hp hs, hstories]
    exact hbacked.goOn

theorem Loyal.move (h : k.Loyal s) {m : Custody.Move μ χ α} (loyal : k.custody.isLoyal m = true) :
    (k.move m).Loyal s := by
  refine ⟨h.kept.move m, h.exact.move loyal, ?_⟩
  cases m with
  | advance t => exact (h.advance t).backed
  | _ => exact h.backed

theorem Loyal.run (h : k.Loyal s) {moves : List (Custody.Move μ χ α)}
    (loyal : k.custody.isLoyalRun moves = true) : (k.run moves).Loyal s := by
  induction moves generalizing k with
  | nil => exact h
  | cons m moves ih =>
    obtain ⟨hm, hmoves⟩ := Bool.and_eq_true_iff.mp loyal
    exact ih (h.move hm) hmoves

theorem loyal_fresh (w : ω) (s : Session φ μ) : (fresh w s).Loyal s :=
  ⟨kept_fresh w s, Custody.exact_fresh w s, trivial⟩

/-! ### The theorem -/

/-- The calls of some stories are the calls that have come back, and made one after the other they
come back with the same and leave the session with the same idle marshals, open or closed alike. -/
structure Linearizes (s : Session φ μ) (stories : List (Story μ ω)) (calls : Interleaving φ μ ω)
    (s' : Session φ μ) : Prop where
  ended : ∀ story ∈ stories, story.now.isRight = true
  finished : (stories.filterMap Story.finished?).Perm calls.finished
  results : (s.rehearse stories).1 = stories.map Story.result?
  idle : (s.rehearse stories).2.pool.idle = s'.pool.idle
  closed : (s.rehearse stories).2.isClosed = s'.isClosed

theorem Kept.ended (h : k.Kept s) (quiet : k.custody.calls.isQuiet = true) :
    ∀ story ∈ k.stories, story.now.isRight = true := by
  intro story hstory
  have hfollows := h.follows story.thread
  have hnone : k.custody.calls.pending? story.thread = none := by
    rw [Interleaving.pending?, List.isEmpty_iff.mp quiet]
    rfl
  rw [Follows, hnone] at hfollows
  have hclosed := List.filter_eq_nil_iff.mp hfollows story hstory
  obtain ⟨t, call, sc, now⟩ := story
  cases now with
  | inl next => simp [Story.isOpen] at hclosed
  | inr result => rfl

/-- **Calls take effect one after the other**, in the order in which they first had the lock, in
every run after which nobody is in a call. -/
theorem linearizable (w : ω) (s : Session φ μ) (moves : List (Custody.Move μ χ α))
    (quiet : ((Custody.fresh w [s]).run moves).calls.isQuiet = true) :
    ∃ s', ((Custody.fresh w [s]).run moves).calls.sessions = [s'] ∧
      Linearizes s ((fresh w s).run moves).stories ((Custody.fresh w [s]).run moves).calls s' ∧
      ((Custody.fresh w [s]).isLoyalRun moves = true →
        (s.rehearse ((fresh w s).run moves).stories).2.outstanding = s'.outstanding) := by
  have hcustody : ((fresh w s).run moves).custody = (Custody.fresh w [s]).run moves :=
    custody_run (fresh w s) moves
  have hkept := (kept_fresh w s).run moves
  rw [← hcustody] at quiet
  have hended := hkept.ended quiet
  obtain ⟨s', hsessions, hexplains⟩ := hkept.session
  obtain ⟨hresults, n, hsession⟩ := hexplains.rehearse hended
  refine ⟨s', hcustody ▸ hsessions, ⟨hended, hcustody ▸ hkept.finished, hresults, ?_, ?_⟩, ?_⟩
  · rw [hsession]
    rfl
  · rw [hsession]
    rfl
  -- Both counts are hand-outs less releases: the one of the rehearsal because every release is
  -- backed, the one of the run because it is exact.
  · intro loyal
    have hloyal := (loyal_fresh w s).run loyal
    have hrehearsed := hexplains.outstanding hended hloyal.backed (Nat.zero_le _)
    obtain ⟨s₀, hsessions₀, hout⟩ := hloyal.exact.counted
    obtain rfl : s₀ = s' := (List.cons.inj (hsessions₀.symm.trans hsessions)).1
    have hbalance := hloyal.exact.balance
    rw [hkept.handedOut, hkept.takenBack] at hrehearsed
    have hidle (f : Call μ → Bool) : ((fresh w s).run moves).custody.calls.inCalls f = 0 := by
      rw [Interleaving.inCalls, List.isEmpty_iff.mp quiet]
      rfl
    rw [Custody.tally_out, Custody.between, hidle] at hout
    show _ = s₀.pool.outstanding
    rw [Session.outstanding]
    omega

/-- Two threads open marshals at the same time. One gives its marshal back, and a third thread
closes the session while the other one is about to. -/
def overlapping : List MockMove :=
  [.request 0 0 .acquire, .advance 0, .advance 0,
    .request 1 0 .acquire, .advance 1, .advance 1, .advance 1, .advance 1,
    .release 1 0 0, .advance 1,
    .request 2 0 .close,
    .advance 0, .advance 0,
    .release 0 0 0, .advance 0,
    .advance 1, .advance 2, .advance 0, .advance 0]

/-- The session that they share. -/
def shared : Session Mock.Factory Mock.Marshal := { localId := 1, domain := {}, factory := ⟨0⟩ }

theorem linearizable_overlapping :
    ∃ s', ((Custody.fresh (⟨[{}]⟩ : Mock.Fleet) [shared]).run overlapping).calls.sessions = [s'] ∧
      Linearizes shared ((fresh (⟨[{}]⟩ : Mock.Fleet) shared).run overlapping).stories
        ((Custody.fresh (⟨[{}]⟩ : Mock.Fleet) [shared]).run overlapping).calls s' ∧
      (shared.rehearse
        ((fresh (⟨[{}]⟩ : Mock.Fleet) shared).run overlapping).stories).2.outstanding =
          s'.outstanding := by
  have quiet : ((Custody.fresh (⟨[{}]⟩ : Mock.Fleet) [shared]).run overlapping).calls.isQuiet =
    true := by decide
  have loyal : (Custody.fresh (⟨[{}]⟩ : Mock.Fleet) [shared]).isLoyalRun overlapping = true := by
    decide
  obtain ⟨s', hsessions, hlinearizes, houtstanding⟩ :=
    linearizable (⟨[{}]⟩ : Mock.Fleet) shared overlapping quiet
  exact ⟨s', hsessions, hlinearizes, houtstanding loyal⟩

end Chronicle

end SessionPool
