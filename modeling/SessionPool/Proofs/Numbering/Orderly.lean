import Mathlib.Data.List.Forall2
import SessionPool.Numbering
import SessionPool.Proofs.Numbering.Counting

/-!
# Ids never come twice

However the requests of several threads fall between one another, every allocator counts on from
where it was, by one for each request that draws from it and for nothing else. What a thread has in
the end are the ids that were granted to it, in the order in which it drew them:

    orderly_run : origin.Orderly (origin.run moves).

Allocators do not know of one another, so one statement for all places says as well that a request
with an allocator of its own leaves the others alone, the common one among them.
-/

namespace SessionPool.Numbering

variable {φ μ ω : Type}

/-! ### What was drawn, and by whom -/

/-- The ids that came from an allocator, in the order of its increments. -/
def drawnFrom (st : Numbering φ μ ω) (a : AllocatorRef) : List UInt64 :=
  (st.granted.filter (·.allocator = a)).map (·.id)

/-- What a thread has drawn, in this order. -/
def drawnBy (st : Numbering φ μ ω) (thread : Thread) : List (Grant φ) :=
  st.granted.filter (·.thread = thread)

/-- What a request under way has got so far. -/
def inHand : Option (Waiting φ) → List (Request φ × Reply)
  | some ⟨request, some reply⟩ => [(request, reply)]
  | _ => []

theorem inHand_none : inHand (none : Option (Waiting φ)) = [] := rfl

theorem inHand_of_none (request : Request φ) : inHand (some ⟨request, none⟩) = [] := rfl

/-- The requests of a thread that are over, and their replies. -/
def answeredTo (st : Numbering φ μ ω) (thread : Thread) : List (Request φ × Reply) :=
  (st.answered.filter (·.thread = thread)).map fun x => (x.request, x.reply)

/-- All that a thread has got, the id or the session of the request under way included. -/
def heldBy (st : Numbering φ μ ω) (thread : Thread) : List (Request φ × Reply) :=
  st.answeredTo thread ++ inHand (st.waiting thread)

/-- The reply is the id, or a session with that id. -/
def Reply.Shows (c : Client φ μ ω) : Reply → UInt64 → Prop
  | .id i, n => i = n
  | .session ref, n => ∃ s, c.session? ref = some s ∧ s.localId = n

/-- The reply is what the id was drawn for. -/
def Fits (c : Client φ μ ω) (held : Request φ × Reply) (g : Grant φ) : Prop :=
  held.1 = g.request ∧ held.2.Shows c g.id

/-- What has happened since `origin`: every allocator counts on, every id comes from the allocator
of the request that it was drawn for, and every thread has what was granted to it. -/
structure Accounted (origin st : Numbering φ μ ω) : Prop where
  counts : ∀ a, CountsOn (origin.client.lastId a) (st.drawnFrom a) (st.client.lastId a)
  sources : ∀ g ∈ st.granted, source? origin.registries g.request = some g.allocator
  holds : ∀ thread, List.Forall₂ (Fits st.client) (st.heldBy thread) (st.drawnBy thread)

/-- A thread sees its ids in the order in which they came from their allocator. -/
structure Orderly (origin st : Numbering φ μ ω) : Prop extends Accounted origin st where
  inTurn : ∀ thread a,
    (((st.drawnBy thread).filter (·.allocator = a)).map (·.id)).Sublist (st.drawnFrom a)

/-- A thread that has yet to draw can. -/
def Ready (st : Numbering φ μ ω) (w : Waiting φ) : Prop :=
  w.reply = none → ∃ a < st.client.allocators.length, source? st.registries w.request = some a

/-- What every step keeps. The registries make their sessions as at the beginning, or an id would
come from another allocator than the request had in mind. -/
structure Steady (origin st : Numbering φ μ ω) : Prop extends Accounted origin st where
  builders : ∀ request, builder? st.registries request = builder? origin.registries request
  ready : ∀ thread w, st.waiting thread = some w → st.Ready w

variable {origin st : Numbering φ μ ω} {thread : Thread} {request : Request φ}

/-! ### What stays -/

/-- The builder of a request decides where its id comes from. -/
theorem source?_congr {registries registries' : List (Registry φ)}
    (h : builder? registries request = builder? registries' request) :
    source? registries request = source? registries' request := by
  cases request with
  | next a => rfl
  | build b => rfl
  | create r domain => simp only [source?, h]

/-- A new session is no session that there was before. -/
theorem Fits.addSession {c : Client φ μ ω} {held : Request φ × Reply} {g : Grant φ} (n : UInt64)
    (b : Builder φ) (h : Fits c held g) : Fits (c.addSession n b).2 held g := by
  obtain ⟨request, reply⟩ := held
  refine ⟨h.1, ?_⟩
  cases reply with
  | id i => exact h.2
  | session ref =>
    obtain ⟨s, hs, hid⟩ := h.2
    have hlt : ref < c.sessions.length := (List.getElem?_eq_some_iff.mp hs).1
    exact ⟨s, (List.getElem?_append_left hlt).trans hs, hid⟩

/-- A session that is made with an id is what the id was drawn for. -/
theorem Fits.made {c : Client φ μ ω} {n : UInt64} {g : Grant φ} (b : Builder φ)
    (h : Fits c (request, .id n) g) :
    Fits (c.addSession n b).2 (request, .session (c.addSession n b).1) g := by
  refine ⟨h.1, _, List.getElem?_concat_length, ?_⟩
  exact h.2

/-- The last of two related lists is exchanged. -/
theorem forall₂_concat {α β : Type} {R S : α → β → Prop} {l : List α} {l' : List β} {a a' : α}
    (h : List.Forall₂ R (l ++ [a]) l') (hRS : ∀ x y, R x y → S x y)
    (ha : ∀ y, R a y → S a' y) : List.Forall₂ S (l ++ [a']) l' := by
  induction l generalizing l' with
  | nil =>
    cases h with
    | cons hy hnil =>
      cases hnil
      exact .cons (ha _ hy) .nil
  | cons x l ih =>
    cases h with
    | cons hx hrest => exact .cons (hRS _ _ hx) (ih hrest)

/-! ### Requests under way -/

@[simp] theorem setWaiting_self (st : Numbering φ μ ω) (thread : Thread) (w : Option (Waiting φ)) :
    st.setWaiting thread w thread = w := if_pos rfl

theorem setWaiting_of_ne (st : Numbering φ μ ω) {thread other : Thread} (h : other ≠ thread)
    (w : Option (Waiting φ)) : st.setWaiting thread w other = st.waiting other := if_neg h

/-- Whether the others can draw is as it was. -/
theorem Steady.ready_setWaiting (h : origin.Steady st) {w : Option (Waiting φ)}
    (hw : ∀ w', w = some w' → st.Ready w') :
    ∀ other w', st.setWaiting thread w other = some w' → st.Ready w' := by
  intro other w' hw'
  by_cases hother : other = thread
  · subst hother
    exact hw w' ((st.setWaiting_self other w).symm.trans hw')
  · exact h.ready other w' ((st.setWaiting_of_ne hother w).symm.trans hw')

/-- Drawing adds no allocator and takes none away. -/
theorem ready_draw {a : AllocatorRef} {w : Waiting φ} :
    (st.draw thread request a).Ready w ↔ st.Ready w := by
  have hlength : (st.draw thread request a).client.allocators.length =
      st.client.allocators.length := List.length_modify ..
  rw [Ready, Ready, hlength]
  rfl

/-- What a thread holds is what it has been answered and what it has in hand. -/
theorem heldBy_of_waiting {w : Option (Waiting φ)} (waits : st.waiting thread = w) :
    st.heldBy thread = st.answeredTo thread ++ inHand w := by
  rw [heldBy, waits]

/-! ### Steps -/

/-- A thread that waits for nothing starts to wait. -/
theorem Steady.start (h : origin.Steady st) (free : st.waiting thread = none)
    (accepted : st.accepts request = true) :
    origin.Steady { st with waiting := st.setWaiting thread (some { request }) } where
  counts := h.counts
  sources := h.sources
  builders := h.builders
  holds other := by
    by_cases hother : other = thread
    · subst hother
      rw [heldBy_of_waiting (st.setWaiting_self other _)]
      exact heldBy_of_waiting free ▸ h.holds other
    · rw [heldBy_of_waiting (st.setWaiting_of_ne hother _)]
      exact h.holds other
  ready := by
    apply h.ready_setWaiting
    rintro _ ⟨⟩ -
    rw [accepts, Option.any_eq_true] at accepted
    obtain ⟨a, hsource, ha⟩ := accepted
    exact ⟨a, of_decide_eq_true ha, hsource⟩

/-- An id is drawn: one more from its allocator, and one more for its thread. -/
theorem Steady.draw (h : origin.Steady st) (waits : st.waiting thread = some ⟨request, none⟩)
    {a : AllocatorRef} (hsource : source? st.registries request = some a)
    (ha : a < st.client.allocators.length) : origin.Steady (st.draw thread request a) where
  builders := h.builders
  counts b := by
    by_cases hb : b = a
    · subst hb
      have hdrawn : (st.draw thread request b).drawnFrom b =
          st.drawnFrom b ++ [st.client.lastId b + 1] := by
        simp [drawnFrom, Numbering.draw]
      have hlast : (st.draw thread request b).client.lastId b = st.client.lastId b + 1 :=
        st.client.lastId_nextId_self ha
      rw [hdrawn, hlast]
      exact (h.counts b).concat
    · have hdrawn : (st.draw thread request a).drawnFrom b = st.drawnFrom b := by
        simp [drawnFrom, Numbering.draw, Ne.symm hb]
      have hlast : (st.draw thread request a).client.lastId b = st.client.lastId b :=
        st.client.lastId_nextId_of_ne hb
      rw [hdrawn, hlast]
      exact h.counts b
  sources g hg := by
    rcases List.mem_append.mp hg with hold | hnew
    · exact h.sources g hold
    · obtain rfl := List.mem_singleton.mp hnew
      exact (source?_congr (h.builders request)).symm.trans hsource
  holds other := by
    by_cases hother : other = thread
    · subst hother
      have hdrawn : (st.draw other request a).drawnBy other =
          st.drawnBy other ++ [⟨other, request, a, st.client.lastId a + 1⟩] := by
        simp [drawnBy, Numbering.draw]
      have hold := h.holds other
      rw [heldBy_of_waiting waits, inHand_of_none, List.append_nil] at hold
      rw [hdrawn, heldBy_of_waiting (st.setWaiting_self other _)]
      exact List.rel_append hold (.cons ⟨rfl, rfl⟩ .nil)
    · have hdrawn : (st.draw thread request a).drawnBy other = st.drawnBy other := by
        simp [drawnBy, Numbering.draw, Ne.symm hother]
      rw [hdrawn, heldBy_of_waiting (st.setWaiting_of_ne hother _)]
      exact h.holds other
  ready other w hw :=
    ready_draw.mpr (h.ready_setWaiting (by rintro _ ⟨⟩ ⟨⟩) other w hw)

/-- A session is made with the id in hand, and is held in its place. -/
theorem Steady.make (h : origin.Steady st) {n : UInt64} {b : Builder φ}
    (waits : st.waiting thread = some ⟨request, some (.id n)⟩) :
    origin.Steady (st.make thread request n b) where
  builders := h.builders
  counts := h.counts
  sources := h.sources
  holds other := by
    by_cases hother : other = thread
    · -- Nothing is drawn: the session takes the place of the id in hand, which was drawn before.
      subst hother
      have hold := h.holds other
      rw [heldBy_of_waiting waits] at hold
      rw [heldBy_of_waiting (st.setWaiting_self other _)]
      exact forall₂_concat hold (fun _ _ => Fits.addSession n b) (fun _ => Fits.made b)
    · rw [heldBy_of_waiting (st.setWaiting_of_ne hother _)]
      exact (h.holds other).imp fun _ _ => Fits.addSession n b
  ready := h.ready_setWaiting (by rintro _ ⟨⟩ ⟨⟩)

/-- A reply in hand becomes an answer. -/
theorem Steady.answer (h : origin.Steady st) {reply : Reply}
    (waits : st.waiting thread = some ⟨request, some reply⟩) :
    origin.Steady (st.answer thread request reply) where
  builders := h.builders
  counts := h.counts
  sources := h.sources
  holds other := by
    by_cases hother : other = thread
    · subst hother
      have hanswered : (st.answer other request reply).answeredTo other =
          st.answeredTo other ++ [(request, reply)] := by
        simp [answeredTo, Numbering.answer]
      have hold := h.holds other
      rw [heldBy_of_waiting waits] at hold
      rw [heldBy_of_waiting (st.setWaiting_self other _), hanswered, inHand_none, List.append_nil]
      exact hold
    · have hanswered : (st.answer thread request reply).answeredTo other =
          st.answeredTo other := by
        simp [answeredTo, Numbering.answer, Ne.symm hother]
      rw [heldBy_of_waiting (st.setWaiting_of_ne hother _), hanswered]
      exact h.holds other
  ready := h.ready_setWaiting (by rintro _ ⟨⟩)

/-- Registering a session leaves the registry with its allocator. -/
theorem builder?_modify (registries : List (Registry φ)) (r : RegistryRef) (ref : SessionRef)
    (c : Client φ μ ω) (request : Request φ) :
    builder? (registries.modify r (·.register ref c)) request = builder? registries request := by
  cases request with
  | next a => rfl
  | build b => rfl
  | create r' domain =>
    have hbuilder (registry : Registry φ) :
        (registry.register ref c).builder domain = registry.builder domain := by
      unfold Registry.register
      split <;> rfl
    rw [builder?, builder?, List.getElem?_modify]
    cases registries[r']? with
    | none => rfl
    | some registry =>
      split
      · exact congrArg some (hbuilder registry)
      · rfl

theorem Steady.register (h : origin.Steady st) (ref : SessionRef) (request : Request φ) :
    origin.Steady (st.register ref request) := by
  cases request with
  | next a => exact h
  | build b => exact h
  | create r domain =>
    have hbuilder := builder?_modify st.registries r ref st.client
    refine ⟨⟨h.counts, h.sources, h.holds⟩, ?_, ?_⟩
    · exact fun request => (hbuilder request).trans (h.builders request)
    · intro other w hw hreply
      obtain ⟨a, ha, hsource⟩ := h.ready other w hw hreply
      exact ⟨a, ha, (source?_congr (hbuilder w.request)).trans hsource⟩

theorem register_waiting (st : Numbering φ μ ω) (ref : SessionRef) (request : Request φ) :
    (st.register ref request).waiting = st.waiting := by
  cases request <;> rfl

theorem Steady.advance (h : origin.Steady st) {w : Waiting φ} (waits : st.waiting thread = some w) :
    origin.Steady (st.advance thread w) := by
  obtain ⟨request, reply⟩ := w
  unfold Numbering.advance
  dsimp only
  split
  · obtain ⟨a, ha, hsource⟩ := h.ready _ _ waits rfl
    rw [hsource]
    exact h.draw waits hsource ha
  · split
    · exact h.answer waits
    · exact h.make waits
  · apply (h.register _ _).answer
    rwa [register_waiting]

theorem Steady.move (h : origin.Steady st) (m : Move φ) : origin.Steady (st.move m) := by
  cases m with
  | start thread request =>
    rw [Numbering.move]
    split
    · next free =>
      split
      · next accepted => exact h.start free accepted
      · exact h
    · exact h
  | advance thread =>
    rw [Numbering.move]
    split
    · exact h
    · next waits => exact h.advance waits

theorem Steady.run (h : origin.Steady st) (moves : List (Move φ)) :
    origin.Steady (st.run moves) := by
  induction moves generalizing st with
  | nil => exact h
  | cons m moves ih => exact ih (h.move m)

/-- Nothing has happened yet. -/
theorem steady_init (client : Client φ μ ω) (registries : List (Registry φ)) :
    Steady { client, registries } { client, registries } where
  counts a := .nil _
  sources := by simp
  holds thread := .nil
  builders _ := rfl
  ready := by simp

/-- Ids never come twice: whatever threads do with the allocators and the registries of a client,
and however their steps fall, every allocator counts on, and the ids go where they are asked for. -/
theorem orderly_run (client : Client φ μ ω) (registries : List (Registry φ))
    (moves : List (Move φ)) :
    Orderly { client, registries } (run { client, registries } moves) := by
  have h := (steady_init client registries).run moves
  refine ⟨h.toAccounted, fun thread a => ?_⟩
  rw [drawnBy, drawnFrom, List.filter_filter]
  exact (List.monotone_filter_right _ (by simp +contextual)).map _

/-- Two threads at the end of the words, with a third one in between that uses the common
allocator. -/
theorem orderly_run_wrapping :
    let client : Client Unit Unit Unit := ⟨(), [{}, ⟨0xFFFFFFFFFFFFFFFE⟩], []⟩
    let st := run ⟨client, [⟨(), some 1, []⟩], fun _ => none, [], []⟩
      [.start 0 (.create 0 {}), .start 1 (.next 1), .start 2 (.build ⟨{}, (), none⟩), .advance 1,
        .advance 2, .advance 0, .advance 2, .advance 0, .advance 0, .advance 1, .advance 2]
    st.drawnFrom 1 = [0xFFFFFFFFFFFFFFFF, 0] ∧ (st.drawnFrom 1).Nodup ∧
      st.client.lastId 0 = client.lastId 0 + 1 :=
  ⟨rfl, ((orderly_run _ _ _).counts 1).distinct (by decide), rfl⟩

end SessionPool.Numbering
