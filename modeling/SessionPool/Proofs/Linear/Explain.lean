import SessionPool.Proofs.Linear.Replay

/-!
# Stories that explain a session

Stories explain a session if each of them fits where the ones before it lead, and all of them lead
to the session, but for its count. A new story can only come last; an open one can go on wherever it
stands, since that does not change where it leads. When no story is open any more, the calls can be
rehearsed.
-/

namespace SessionPool

open Session (Call Result)

variable {φ μ ω : Type} [Marshal μ ω] [Source φ μ ω]

/-- Whether stories lead from one session to another, but for the count. -/
def Session.Explains (s : Session φ μ) : List (Story μ ω) → Session φ μ → Prop
  | [], s' => ∃ n, s' = s.recount n
  | story :: stories, s' =>
    story.Fits s ∧ (s.serve story.scenes story.call).2.Explains stories s'

namespace Session.Explains

variable {s s' : Session φ μ} {stories : List (Story μ ω)}

theorem recount_left (h : s.Explains stories s') (n : Nat) :
    (s.recount n).Explains stories s' := by
  induction stories generalizing s n with
  | nil =>
    obtain ⟨n', rfl⟩ := h
    exact ⟨n', rfl⟩
  | cons story stories ih =>
    obtain ⟨n', hserve⟩ := s.serve_recount story.scenes story.call n
    refine ⟨h.1.recount n, ?_⟩
    rw [hserve]
    exact ih h.2 n'

theorem recount_right (h : s.Explains stories s') (n : Nat) :
    s.Explains stories (s'.recount n) := by
  induction stories generalizing s with
  | nil =>
    obtain ⟨n', rfl⟩ := h
    exact ⟨n, rfl⟩
  | cons story stories ih => exact ⟨h.1, ih h.2⟩

theorem session (h : s.Explains stories s') : ∃ pool, s' = { s with pool } := by
  induction stories generalizing s with
  | nil =>
    obtain ⟨n, rfl⟩ := h
    exact ⟨_, rfl⟩
  | cons story stories ih =>
    obtain ⟨pool, hserve⟩ := (Session.served s story.scenes story.call).session
    obtain ⟨pool', rfl⟩ := ih h.2
    exact ⟨pool', by rw [hserve]⟩

theorem fits (h : s.Explains stories s') {story : Story μ ω} (hmem : story ∈ stories) :
    ∃ s₁ : Session φ μ, story.Fits s₁ := by
  induction stories generalizing s with
  | nil => exact absurd hmem List.not_mem_nil
  | cons first stories ih =>
    rcases List.mem_cons.mp hmem with rfl | hmem
    · exact ⟨s, h.1⟩
    · exact ih h.2 hmem

theorem append (h : s.Explains stories s') {story : Story μ ω} (hfits : story.Fits s') {n : Nat} :
    s.Explains (stories ++ [story])
      ((s'.serve story.scenes story.call).2.recount n) := by
  induction stories generalizing s with
  | nil =>
    obtain ⟨n₁, rfl⟩ := h
    obtain ⟨n₂, hserve⟩ := s.serve_recount story.scenes story.call n₁
    refine ⟨hfits.recount s.pool.outstanding, n, ?_⟩
    rw [hserve]
    rfl
  | cons first stories ih => exact ⟨h.1, ih h.2⟩

/-- An open story goes on where it stands. -/
theorem goOn {before after : List (Story μ ω)} {t : Thread} {call next : Call μ} {sc : Scenes ω}
    (h : s.Explains (before ++ ⟨t, call, sc, .inl next⟩ :: after) s')
    {s₁ : Session φ μ} (hs₁ : ∃ pool, s₁ = { s with pool }) (w : ω) :
    s.Explains (before ++ ⟨t, call, sc.note w next, (next.step s₁ w).1⟩ :: after) s' := by
  -- The induction is on the stories before it. They change nothing of the session that a later step
  -- looks at, and the stories after it are led on from the same session, but for the count.
  induction before generalizing s with
  | nil =>
    obtain ⟨pool, rfl⟩ := hs₁
    obtain ⟨hfits, n, hserve⟩ := Story.Fits.goOn h.1 pool w
    refine ⟨hfits, ?_⟩
    show (s.serve (sc.note w next) call).2.Explains after s'
    rw [hserve]
    exact h.2.recount_left n
  | cons first before ih =>
    refine ⟨h.1, ih h.2 ?_⟩
    obtain ⟨pool, hserve⟩ := (Session.served s first.scenes first.call).session
    obtain ⟨pool', rfl⟩ := hs₁
    exact ⟨pool', by rw [hserve]⟩

/-- **Calls that have all come back can be rehearsed**: made one after the other, they come back
with the same, and they lead to the same session, but for the count. -/
theorem rehearse (h : s.Explains stories s') (ended : ∀ story ∈ stories, story.now.isRight = true) :
    (s.rehearse stories).1 = stories.map Story.result? ∧
      ∃ n, s' = (s.rehearse stories).2.recount n := by
  induction stories generalizing s with
  | nil => exact ⟨rfl, h⟩
  | cons story stories ih =>
    obtain ⟨hresults, hsession⟩ := ih h.2 fun story hstory => ended story (by simp [hstory])
    have hresult : (s.serve story.scenes story.call).1 = story.result? := by
      obtain ⟨t, call, sc, now⟩ := story
      cases now with
      | inl next =>
        have hended := ended _ List.mem_cons_self
        exact absurd hended Bool.false_ne_true
      | inr result => exact h.1
    refine ⟨?_, hsession⟩
    rw [List.map_cons, ← hresults, ← hresult]
    rfl

end Session.Explains

end SessionPool
