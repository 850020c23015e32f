import SessionPool.Proofs.Registry.History
import SessionPool.Proofs.Steps

/-!
# What goes on around a registry

Others hold the sessions of a client as well and make calls of them, sessions are made that nobody
registers, and the world goes on. All this, as well as closing sessions, leaves every session where
it is and changes nothing of it but its pool; and a session that is closed has no idle marshals,
whatever happens.
-/

namespace SessionPool

open Session (Call)

variable {φ μ ω : Type}

namespace Client

/-- What happens to a client besides the calls of a registry. -/
inductive Happening (φ μ ω : Type) where
  /-- A session is made that is not for the registry. -/
  | build (b : Builder φ)
  /-- A thread takes a step of a call of a session. -/
  | step (ref : SessionRef) (call : Call μ)
  /-- Something changes that is not about the sessions. -/
  | outside (world : ω) (allocators : List Allocator)

/-- The client after something has happened. -/
def undergo [Marshal μ ω] [Source φ μ ω] (c : Client φ μ ω) : Happening φ μ ω → Client φ μ ω
  | .build b => (c.build b).2
  | .step ref call =>
    match c.session? ref with
    | none => c
    | some s => c.update ref (call.step s c.world).2.1 (call.step s c.world).2.2
  | .outside world allocators => { c with world, allocators }

/-- Tells a session its remote id. -/
def tell (c : Client φ μ ω) (ref : SessionRef) (id : UInt32) : Client φ μ ω :=
  match c.session? ref with
  | none => c
  | some s => c.update ref (s.setRemoteId id) c.world

variable {c c' c'' : Client φ μ ω} {ref : SessionRef} {s s' : Session φ μ}

theorem tell_of_some (hs : c.session? ref = some s) (id : UInt32) :
    c.tell ref id = c.update ref (s.setRemoteId id) c.world := by
  rw [tell, hs]

theorem tell_of_none (hs : c.session? ref = none) (id : UInt32) : c.tell ref id = c := by
  rw [tell, hs]

theorem keeps_tell (c : Client φ μ ω) (ref : SessionRef) (id : UInt32) :
    c.Keeps (c.tell ref id) := by
  cases hs : c.session? ref with
  | none =>
    rw [tell_of_none hs]
    exact .refl c
  | some s =>
    rw [tell_of_some hs]
    have hid : (s.setRemoteId id).localId = s.localId := rfl
    exact keeps_update hs hid _

/-! ### Nothing but pools changes -/

/-- Every session is still there, and nothing of it has changed but its pool. -/
def Repooled (c c' : Client φ μ ω) : Prop :=
  ∀ ref s, c.session? ref = some s → ∃ pool, c'.session? ref = some { s with pool }

theorem Repooled.refl (c : Client φ μ ω) : c.Repooled c := fun _ s hs => ⟨s.pool, hs⟩

theorem Repooled.trans (h : c.Repooled c') (h' : c'.Repooled c'') : c.Repooled c'' := by
  intro ref s hs
  obtain ⟨pool, hs'⟩ := h ref s hs
  obtain ⟨pool', hs''⟩ := h' ref _ hs'
  exact ⟨pool', hs''⟩

theorem Repooled.keeps (h : c.Repooled c') : c.Keeps c' := by
  intro ref s hs
  obtain ⟨pool, hs'⟩ := h ref s hs
  exact ⟨_, hs', rfl⟩

theorem repooled_build (c : Client φ μ ω) (b : Builder φ) : c.Repooled (c.build b).2 :=
  fun _ s hs => ⟨s.pool, session?_build_of_some hs b⟩

theorem repooled_update (hs : c.session? ref = some s) (pool : Pool μ) (w : ω) :
    c.Repooled (c.update ref { s with pool } w) := by
  intro other t ht
  by_cases hother : other = ref
  · subst hother
    obtain rfl : s = t := Option.some.inj (hs.symm.trans ht)
    exact ⟨pool, session?_update_self hs _ w⟩
  · exact ⟨t.pool, (session?_update_of_ne hother _ w).trans ht⟩

section

variable [Marshal μ ω]

theorem repooled_close (c : Client φ μ ω) (ref : SessionRef) : c.Repooled (c.close ref).2 := by
  cases hs : c.session? ref with
  | none =>
    rw [close_of_none hs]
    exact .refl c
  | some s =>
    rw [close_of_some hs]
    exact repooled_update hs _ _

theorem repooled_undergo [Source φ μ ω] (c : Client φ μ ω) (h : Happening φ μ ω) :
    c.Repooled (c.undergo h) := by
  cases h with
  | build b => exact c.repooled_build b
  | step ref call =>
    rw [undergo]
    split
    · exact .refl c
    · next s hs =>
      obtain ⟨pool, hpool⟩ := (Session.stepped s c.world call).session
      rw [hpool]
      exact repooled_update hs pool _
  | outside world allocators => exact .refl c

end

/-! ### Closed sessions have no idle marshals -/

/-- No closed session has idle marshals. -/
def Drained (c : Client φ μ ω) : Prop := ∀ ref s, c.session? ref = some s → s.Drained

namespace Drained

theorem build (h : c.Drained) (b : Builder φ) : (c.build b).2.Drained := by
  intro ref s hs
  rcases session?_build_cases hs with hold | ⟨-, -, -, hidle⟩
  · exact h ref s hold
  · exact fun _ => hidle

theorem update (h : c.Drained) (hs : c.session? ref = some s) (hdrained : s'.Drained) (w : ω) :
    (c.update ref s' w).Drained := by
  intro other t ht
  by_cases hother : other = ref
  · subst hother
    rw [session?_update_self hs, Option.some.injEq] at ht
    exact ht ▸ hdrained
  · rw [session?_update_of_ne hother] at ht
    exact h other t ht

theorem tell (h : c.Drained) (ref : SessionRef) (id : UInt32) : (c.tell ref id).Drained := by
  cases hs : c.session? ref with
  | none => rwa [tell_of_none hs]
  | some s =>
    rw [tell_of_some hs]
    have hdrained : (s.setRemoteId id).Drained := h ref s hs
    exact h.update hs hdrained _

section

variable [Marshal μ ω]

theorem close (h : c.Drained) (ref : SessionRef) : (c.close ref).2.Drained := by
  cases hs : c.session? ref with
  | none => rwa [close_of_none hs]
  | some s =>
    rw [close_of_some hs]
    exact h.update hs (Session.Shut.of_close (h ref s hs) c.world).drained _

theorem undergo [Source φ μ ω] (h : c.Drained) (happening : Happening φ μ ω) :
    (c.undergo happening).Drained := by
  cases happening with
  | build b => exact h.build b
  | step ref call =>
    rw [Client.undergo]
    split
    · exact h
    · next s hs =>
      have hdrained := (Session.stepped s c.world call).idle_of_closed (h ref s hs)
      exact h.update hs hdrained _
  | outside world allocators => exact h

end

end Drained

end Client

end SessionPool
