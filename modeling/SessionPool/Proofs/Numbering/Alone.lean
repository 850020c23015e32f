import SessionPool.Proofs.Numbering.Orderly

/-!
# Requests without others in between

A request whose steps nobody interrupts does what the library does at once: the steps of `nextId`,
`build` and `create` are those that a thread takes.
-/

namespace SessionPool.Numbering

variable {φ μ ω : Type} {st : Numbering φ μ ω} {thread : Thread} {request : Request φ}

/-- A request has been answered, and nothing else is under way than before. -/
structure Served (st st' : Numbering φ μ ω) (thread : Thread) (request : Request φ)
    (reply : Reply) : Prop where
  waiting : st'.waiting = st.waiting
  answered : st'.answered = st.answered ++ [⟨thread, request, reply⟩]

theorem run_advance {w : Waiting φ} (waits : st.waiting thread = some w) (moves : List (Move φ)) :
    st.run (.advance thread :: moves) = (st.advance thread w).run moves := by
  rw [run, List.foldl_cons, move, waits]
  rfl

/-- Every request starts by drawing. -/
theorem run_draw {a : AllocatorRef} (free : st.waiting thread = none)
    (accepted : st.accepts request = true) (hsource : source? st.registries request = some a)
    (moves : List (Move φ)) :
    ∃ waiting, (∀ other, other ≠ thread → waiting other = st.waiting other) ∧
      st.run (.start thread request :: .advance thread :: moves) =
        (draw { st with waiting } thread request a).run moves := by
  refine ⟨_, fun other hother => st.setWaiting_of_ne hother (some { request }), ?_⟩
  have hstart : st.run (.start thread request :: .advance thread :: moves) =
      run { st with waiting := st.setWaiting thread (some { request }) }
        (.advance thread :: moves) := by
    rw [run, List.foldl_cons, move, free]
    simp only [accepted, if_true]
    rfl
  rw [hstart, run_advance (setWaiting_self ..)]
  simp only [advance, hsource]

/-- A thread that has its answer waits for nothing, as before. -/
theorem served_answer {st₀ : Numbering φ μ ω} {reply : Reply}
    (free : st₀.waiting thread = none)
    (hwaiting : ∀ other, other ≠ thread → st.waiting other = st₀.waiting other)
    (hanswered : st.answered = st₀.answered) :
    Served st₀ (st.answer thread request reply) thread request reply where
  waiting := by
    funext other
    by_cases hother : other = thread
    · rw [hother, free]
      exact setWaiting_self ..
    · exact (st.setWaiting_of_ne hother none).trans (hwaiting other hother)
  answered := by rw [answer, hanswered]

/-- An id that is asked for alone is the next one. -/
theorem run_next {a : AllocatorRef} (free : st.waiting thread = none)
    (accepted : st.accepts (.next a) = true) :
    let st' := st.run [.start thread (.next a), .advance thread, .advance thread]
    Served st st' thread (.next a) (.id (st.client.nextId a).1) ∧
      st'.client = (st.client.nextId a).2 ∧ st'.registries = st.registries := by
  obtain ⟨waiting, hwaiting, hdraw⟩ := run_draw free accepted rfl [.advance thread]
  rw [hdraw, run_advance (setWaiting_self ..)]
  refine ⟨served_answer free (fun other hother => ?_) rfl, rfl, rfl⟩
  exact (setWaiting_of_ne _ hother _).trans (hwaiting other hother)

/-- A session that is built alone is built as by one thread. -/
theorem run_build {b : Builder φ} (free : st.waiting thread = none)
    (accepted : st.accepts (.build b) = true) :
    let st' := st.run
      [.start thread (.build b), .advance thread, .advance thread, .advance thread]
    Served st st' thread (.build b) (.session (st.client.build b).1) ∧
      st'.client = (st.client.build b).2 ∧ st'.registries = st.registries := by
  obtain ⟨waiting, hwaiting, hdraw⟩ :=
    run_draw free accepted rfl [.advance thread, .advance thread]
  rw [hdraw, run_advance (setWaiting_self ..), run_advance (setWaiting_self ..)]
  refine ⟨served_answer free (fun other hother => ?_) rfl, rfl, rfl⟩
  exact (setWaiting_of_ne _ hother _).trans
    ((setWaiting_of_ne _ hother _).trans (hwaiting other hother))

/-- A session that is created alone is created as by one thread. -/
theorem run_create {r : RegistryRef} {registry : Registry φ} (domain : Domain)
    (free : st.waiting thread = none) (accepted : st.accepts (.create r domain) = true)
    (hr : st.registries[r]? = some registry) :
    let st' := st.run
      [.start thread (.create r domain), .advance thread, .advance thread, .advance thread]
    let created := registry.create domain st.client
    Served st st' thread (.create r domain) (.session created.1) ∧
      st'.client = created.2.2 ∧ st'.registries = st.registries.set r created.2.1 := by
  have hbuilder : builder? st.registries (.create r domain) = some (registry.builder domain) := by
    rw [builder?, hr]
    rfl
  have hsource : source? st.registries (.create r domain) =
      some (registry.allocator.getD Client.common) := by
    simp only [source?, hbuilder]
    rfl
  obtain ⟨waiting, hwaiting, hdraw⟩ :=
    run_draw free accepted hsource [.advance thread, .advance thread]
  rw [hdraw, run_advance (setWaiting_self ..)]
  simp only [advance]
  have hbuilder' : builder? (draw { st with waiting } thread (.create r domain)
      (registry.allocator.getD Client.common)).registries (.create r domain) =
        some (registry.builder domain) := hbuilder
  rw [hbuilder']
  dsimp only
  rw [run_advance (setWaiting_self ..)]
  refine ⟨served_answer free (fun other hother => ?_) rfl, rfl, ?_⟩
  · exact (setWaiting_of_ne _ hother _).trans
      ((setWaiting_of_ne _ hother _).trans (hwaiting other hother))
  · have : Inhabited (Registry φ) := ⟨registry⟩
    show st.registries.modify r _ = _
    rw [List.modify_eq_set, hr]
    rfl

end SessionPool.Numbering
