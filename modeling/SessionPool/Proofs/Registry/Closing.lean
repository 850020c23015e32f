import Mathlib.Data.List.Induction
import Mathlib.Data.List.Infix
import SessionPool.Proofs.Registry.Steps
import SessionPool.Proofs.Registry.Surroundings

/-!
# Closing all sessions

When nobody comes in between, a registry closes exactly the sessions in its table, by ascending
local id. Of each of them it closes the idle marshals, the one put back last first,

    world = closeEach (registry.sessions.flatMap client.idleIn) (world before),

and leaves everything else as it is. This holds in every state that threads can bring about, with
their calls taken apart at the locks.
-/

namespace SessionPool

variable {φ μ ω : Type}

theorem closeEach_append [Marshal μ ω] (ms ms' : List μ) (w : ω) :
    closeEach (ms ++ ms') w = closeEach ms' (closeEach ms w) := List.foldl_append ..

/-! ### What closing does to daemons -/

namespace Mock

/-- What a daemon logs when marshals are closed one after the other. -/
def closings (place : Nat) (ms : List Marshal) : List Event :=
  (ms.filter fun m => m.place = place).map fun m => .closed m.id

/-- A daemon that has logged some events more. -/
def Daemon.recordAll (d : Daemon) (events : List Event) : Daemon :=
  { d with log := d.log ++ events.toArray }

/-- Closing marshals changes the logs of the daemons and nothing else. -/
theorem daemons_closeEach (ms : List Marshal) (w : Fleet) (place : Nat) :
    (closeEach ms w).daemons[place]? =
      w.daemons[place]?.map (·.recordAll (closings place ms)) := by
  induction ms generalizing w with
  | nil =>
    rw [closeEach_nil]
    cases w.daemons[place]? with
    | none => rfl
    | some d => simp [Daemon.recordAll, closings]
  | cons m ms ih =>
    have hclosed : (Marshal.close m w).2.daemons[place]? =
        w.daemons[place]?.map (·.recordAll (closings place [m])) := by
      show (w.daemons.modify m.place (·.record (.closed m.id)))[place]? = _
      rw [List.getElem?_modify]
      by_cases hplace : m.place = place
      · simp [hplace, closings, Daemon.recordAll, Daemon.record]
      · simp [hplace, closings, Daemon.recordAll]
    have hboth : closings place (m :: ms) = closings place [m] ++ closings place ms := by
      rw [closings, closings, closings, ← List.map_append, ← List.filter_append]
      rfl
    rw [closeEach_cons]
    show (closeEach ms (Marshal.close m w).2).daemons[place]? = _
    rw [ih, hclosed, Option.map_map, hboth]
    congr 1
    funext d
    simp [Daemon.recordAll, Array.append_assoc]

end Mock

/-! ### Closing one session -/

theorem Pool.idle_drain_suffix (p : Pool μ) : p.drain.2.idle <:+ p.idle := by
  rw [drain]
  split
  · exact List.suffix_rfl
  · exact List.nil_suffix

namespace Session

variable {s : Session φ μ} {w : ω}

/-- The session closed, without idle marshals. -/
def shutDown (s : Session φ μ) : Session φ μ :=
  { s with pool := { s.pool with idle := [], closed := true } }

theorem Drained.close_session [Marshal μ ω] (h : s.Drained) (w : ω) :
    (s.close w).2.1 = s.shutDown := by
  show { s with pool := s.pool.drain.2 } = s.shutDown
  obtain ⟨localId, remoteId, domain, factory, ⟨idle, outstanding, closed⟩⟩ := s
  cases closed with
  | false => rfl
  | true =>
    obtain rfl : idle = [] := h rfl
    rfl

/-- A step puts a marshal on the idle ones, or it takes some from the top. -/
theorem Stepped.idle [Marshal μ ω] [Source φ μ ω] {call : Call μ}
    {out : (Call μ ⊕ Result μ) × Session φ μ × ω} (h : Stepped s w call out) :
    out.2.1.pool.idle <:+ s.pool.idle ∨
      ∃ m, call = .put m ∧ out.2.1.pool.idle = m :: s.pool.idle := by
  cases h with
  | hit =>
    refine .inl ?_
    rw [Pool.take_idle]
    exact List.tail_suffix _
  | miss =>
    refine .inl ?_
    rw [Pool.take_idle]
    exact List.tail_suffix _
  | kept m h =>
    refine .inr ⟨m, rfl, ?_⟩
    rw [Pool.put_idle, h]
    rfl
  | turnedAway m h =>
    refine .inl ?_
    rw [Pool.put_idle, h]
    exact List.suffix_rfl
  | close => exact .inl s.pool.idle_drain_suffix
  | _ => exact .inl List.suffix_rfl

end Session

namespace Client

/-- The idle marshals of a session. -/
def idleIn (c : Client φ μ ω) (ref : SessionRef) : List μ :=
  ((c.session? ref).map (·.pool.idle)).getD []

variable {c : Client φ μ ω} {ref other : SessionRef} {s s' : Session φ μ}

theorem idleIn_of_some (hs : c.session? ref = some s) : c.idleIn ref = s.pool.idle := by
  rw [idleIn, hs]
  rfl

theorem idleIn_of_none (hs : c.session? ref = none) : c.idleIn ref = [] := by
  rw [idleIn, hs]
  rfl

/-- Only the session that is updated has other idle marshals. -/
theorem idleIn_update (hs : c.session? other = some s) (s' : Session φ μ) (w : ω) :
    (c.update other s' w).idleIn ref = if ref = other then s'.pool.idle else c.idleIn ref := by
  split
  · next heq => rw [heq, idleIn_of_some (session?_update_self hs s' w)]
  · next hne => rw [idleIn, session?_update_of_ne hne, idleIn]

theorem idleIn_build (c : Client φ μ ω) (b : Builder φ) (ref : SessionRef) :
    (c.build b).2.idleIn ref <:+ c.idleIn ref := by
  cases hs : (c.build b).2.session? ref with
  | none =>
    rw [idleIn_of_none hs]
    exact List.nil_suffix
  | some s =>
    rw [idleIn_of_some hs]
    rcases session?_build_cases hs with hold | ⟨-, -, -, hidle⟩
    · rw [idleIn_of_some hold]
    · rw [hidle]
      exact List.nil_suffix

theorem idleIn_tell (id : UInt32) : (c.tell other id).idleIn ref = c.idleIn ref := by
  cases hs : c.session? other with
  | none => rw [tell_of_none hs]
  | some s =>
    rw [tell_of_some hs, idleIn_update hs]
    split
    · next heq =>
      rw [heq, idleIn_of_some hs]
      rfl
    · rfl

variable [Marshal μ ω]

theorem idleIn_close : (c.close other).2.idleIn ref <:+ c.idleIn ref := by
  cases hs : c.session? other with
  | none => rw [close_of_none hs]
  | some s =>
    rw [close_of_some hs, idleIn_update hs]
    split
    · next heq =>
      rw [heq, idleIn_of_some hs]
      exact s.pool.idle_drain_suffix
    · exact List.suffix_rfl

theorem idleIn_undergo [Source φ μ ω] (c : Client φ μ ω) (happening : Happening φ μ ω)
    (ref : SessionRef) :
    (c.undergo happening).idleIn ref <:+ c.idleIn ref ∨
      ∃ m, happening = .step ref (.put m) ∧
        (c.undergo happening).idleIn ref = m :: c.idleIn ref := by
  cases happening with
  | build b => exact .inl (c.idleIn_build b ref)
  | outside world allocators => exact .inl List.suffix_rfl
  | step other call =>
    rw [undergo]
    split
    · exact .inl List.suffix_rfl
    · next s hs =>
      rw [idleIn_update hs]
      split
      · next heq =>
        rw [heq, idleIn_of_some hs]
        rcases (Session.stepped s c.world call).idle with hsuffix | ⟨m, rfl, hput⟩
        · exact .inl hsuffix
        · exact .inr ⟨m, rfl, hput⟩
      · exact .inl List.suffix_rfl

theorem Drained.close_eq (h : c.Drained) (hs : c.session? ref = some s) :
    (c.close ref).2 = c.update ref s.shutDown (closeEach s.pool.idle c.world) := by
  have hdrained := h ref s hs
  rw [close_of_some hs, hdrained.close_session, hdrained.close_world]

/-- Closing a session closes what is idle in it. -/
theorem Drained.close_world (h : c.Drained) (ref : SessionRef) :
    (c.close ref).2.world = closeEach (c.idleIn ref) c.world := by
  cases hs : c.session? ref with
  | none => rw [close_of_none hs, idleIn_of_none hs, closeEach_nil]
  | some s =>
    rw [h.close_eq hs, idleIn_of_some hs]
    rfl

theorem session?_close_of_ne (h : other ≠ ref) :
    (c.close ref).2.session? other = c.session? other := by
  cases hs : c.session? ref with
  | none => rw [close_of_none hs]
  | some s => rw [close_of_some hs, session?_update_of_ne h]

theorem allocators_close (c : Client φ μ ω) (ref : SessionRef) :
    (c.close ref).2.allocators = c.allocators := by
  rw [close]
  split <;> rfl

/-! ### Closing several sessions -/

/-- Closes sessions one after the other. -/
def closeSessions (c : Client φ μ ω) (refs : List SessionRef) : Client φ μ ω :=
  refs.foldl (fun c ref => (c.close ref).2) c

theorem closeSessions_cons (c : Client φ μ ω) (ref : SessionRef) (refs : List SessionRef) :
    c.closeSessions (ref :: refs) = (c.close ref).2.closeSessions refs := rfl

theorem allocators_closeSessions (c : Client φ μ ω) (refs : List SessionRef) :
    (c.closeSessions refs).allocators = c.allocators := by
  induction refs generalizing c with
  | nil => rfl
  | cons ref refs ih => rw [closeSessions_cons, ih, allocators_close]

theorem session?_closeSessions_of_notMem {refs : List SessionRef} (h : other ∉ refs) :
    (c.closeSessions refs).session? other = c.session? other := by
  induction refs generalizing c with
  | nil => rfl
  | cons ref refs ih =>
    have hne : other ≠ ref := fun heq => h (heq ▸ List.mem_cons_self)
    have hrest : other ∉ refs := fun hmem => h (List.mem_cons_of_mem _ hmem)
    rw [closeSessions_cons, ih hrest, session?_close_of_ne hne]

theorem Drained.session?_closeSessions (h : c.Drained) {refs : List SessionRef}
    (nodup : refs.Nodup) (href : ref ∈ refs) (hs : c.session? ref = some s) :
    (c.closeSessions refs).session? ref = some s.shutDown := by
  induction refs generalizing c with
  | nil => cases href
  | cons first refs ih =>
    obtain ⟨hfirst, hrest⟩ := List.nodup_cons.mp nodup
    rw [closeSessions_cons]
    rcases List.mem_cons.mp href with rfl | hlater
    · rw [session?_closeSessions_of_notMem hfirst, h.close_eq hs, session?_update_self hs]
    · have hne : ref ≠ first := fun heq => hfirst (heq ▸ hlater)
      exact ih (h.close first) hrest hlater ((session?_close_of_ne hne).trans hs)

/-- Closing sessions closes what is idle in them, session by session. -/
theorem Drained.closeSessions_world (h : c.Drained) {refs : List SessionRef} (nodup : refs.Nodup) :
    (c.closeSessions refs).world = closeEach (refs.flatMap c.idleIn) c.world := by
  induction refs generalizing c with
  | nil => rfl
  | cons ref refs ih =>
    obtain ⟨href, hrest⟩ := List.nodup_cons.mp nodup
    have hidle : refs.flatMap (c.close ref).2.idleIn = refs.flatMap c.idleIn := by
      refine List.flatMap_congr fun other hother => ?_
      have hne : other ≠ ref := fun heq => href (heq ▸ hother)
      rw [idleIn, session?_close_of_ne hne, idleIn]
    rw [closeSessions_cons, ih (h.close ref) hrest, hidle, h.close_world, List.flatMap_cons,
      closeEach_append]

end Client

namespace Registry

/-! ### Removing one session after the other -/

/-- The registered sessions, by ascending local id. -/
def sessions (r : Registry φ) : List SessionRef := r.ids.filterMap r.lookup?

section

variable [Marshal μ ω] {r : Registry φ} {c : Client φ μ ω}

/-- Removing ids one after the other closes the sessions that are found by them in that order. -/
theorem removeEach_sessions {ids : List UInt64} (nodup : ids.Nodup) :
    (removeEach ids r c).1 = (ids.filterMap r.lookup?).length ∧
      (removeEach ids r c).2.2 = c.closeSessions (ids.filterMap r.lookup?) := by
  induction ids generalizing r c with
  | nil => exact ⟨rfl, rfl⟩
  | cons id ids ih =>
    obtain ⟨hid, hrest⟩ := List.nodup_cons.mp nodup
    cases hget : r.lookup? id with
    | none =>
      rw [removeEach, remove_of_none c hget, List.filterMap_cons_none hget]
      exact ih hrest
    | some ref =>
      -- The other ids find what they found before.
      have hothers : ids.filterMap (r.erase id).lookup? = ids.filterMap r.lookup? := by
        refine List.filterMap_congr fun other hother => ?_
        exact lookup?_erase_of_ne r fun heq => hid (heq ▸ hother)
      obtain ⟨hcount, hclient⟩ := ih (r := r.erase id) (c := (c.close ref).2) hrest
      rw [hothers] at hcount hclient
      rw [removeEach, remove, hget, List.filterMap_cons_some hget]
      exact ⟨congrArg (· + 1) hcount, hclient⟩

theorem removeEach_registry (ids : List UInt64) (r : Registry φ) (c : Client φ μ ω) :
    (removeEach ids r c).2.1 = { r with table := (removeEach ids r c).2.1.table } := by
  induction ids generalizing r c with
  | nil => rfl
  | cons id ids ih =>
    rw [removeEach_cons, ih, remove_registry]
    rfl

theorem closeAll_registry (r : Registry φ) (c : Client φ μ ω) :
    (r.closeAll c).2.1 = { r with table := [] } := by
  rw [← closeAll_table c r]
  exact removeEach_registry r.ids r c

end

/-- All registered sessions are listed. -/
theorem perm_sessions {r : Registry φ} (h : r.keys.Nodup) : r.sessions.Perm r.refs := by
  have hkeys : r.keys.filterMap r.lookup? = r.refs := by
    rw [keys, refs, List.filterMap_map, ← List.filterMap_eq_map]
    exact List.filterMap_congr fun entry hentry => lookup_of_mem h hentry
  rw [← hkeys]
  exact (List.mergeSort_perm _ _).filterMap _

/-! ### States that threads bring about -/

/-- A registry and its client. -/
structure Scene (φ μ ω : Type) where
  registry : Registry φ
  client : Client φ μ ω

/-- What happens next. -/
inductive Move (φ μ ω : Type) where
  /-- A thread takes a step of a call of the registry. -/
  | step (call : Call)
  | replaceAllocator (a : AllocatorRef)
  | tell (ref : SessionRef) (id : UInt32)
  | happen (happening : Client.Happening φ μ ω)

/-- A thread has the lock of a session and puts a marshal back. -/
abbrev Move.put (ref : SessionRef) (m : μ) : Move φ μ ω := .happen (.step ref (.put m))

namespace Scene

variable [Marshal μ ω] [Source φ μ ω]

/-- The scene after a move. -/
def move (st : Scene φ μ ω) : Move φ μ ω → Scene φ μ ω
  | .step call =>
    let step := call.step st.registry st.client 0
    ⟨step.registry, step.client⟩
  | .replaceAllocator a => { st with registry := { st.registry with allocator := some a } }
  | .tell ref id => { st with client := st.client.tell ref id }
  | .happen happening => { st with client := st.client.undergo happening }

/-- Makes moves one after the other. -/
def run (st : Scene φ μ ω) (moves : List (Move φ μ ω)) : Scene φ μ ω := moves.foldl move st

theorem run_append (st : Scene φ μ ω) (moves later : List (Move φ μ ω)) :
    st.run (moves ++ later) = (st.run moves).run later := List.foldl_append ..

end Scene

/-! ### What every move keeps -/

/-- No id is in the table twice, every id is that of its session, and no closed session has idle
marshals. -/
structure WellKept (st : Scene φ μ ω) : Prop where
  nodup : st.registry.keys.Nodup
  keys : ∀ entry ∈ st.registry.table,
    ∃ s, st.client.session? entry.2 = some s ∧ s.localId = entry.1
  drained : st.client.Drained

namespace WellKept

variable {st : Scene φ μ ω}

/-- The registry stays, and the client goes on. -/
theorem of_keeps (h : WellKept st) {client : Client φ μ ω} (hkeeps : st.client.Keeps client)
    (hdrained : client.Drained) : WellKept { st with client } where
  nodup := h.nodup
  keys entry hentry := by
    obtain ⟨s, hs, hid⟩ := h.keys entry hentry
    obtain ⟨s', hs', hid'⟩ := hkeeps _ s hs
    exact ⟨s', hs', hid'.trans hid⟩
  drained := hdrained

variable [Marshal μ ω]

theorem step (h : WellKept st) {call : Call} {now : Nat} {out : Step φ μ ω}
    (hstep : Stepped st.registry st.client now call out) :
    WellKept ⟨out.registry, out.client⟩ where
  nodup := hstep.nodup_keys h.nodup
  keys entry hentry := by
    have hbefore : ∃ s, st.client.session? entry.2 = some s ∧ s.localId = entry.1 := by
      cases hstep with
      | insert ref =>
        simp only [register] at hentry
        split at hentry
        · exact h.keys entry hentry
        · next s hs =>
          rcases List.mem_append.mp hentry with hold | hnew
          · exact h.keys entry (List.mem_of_mem_filter hold)
          · rw [List.mem_singleton.mp hnew]
            exact ⟨s, hs, rfl⟩
      | remove => exact h.keys entry (List.mem_of_mem_filter hentry)
      | removeNext => exact h.keys entry (List.mem_of_mem_filter hentry)
      | _ => exact h.keys entry hentry
    obtain ⟨s, hs, hid⟩ := hbefore
    obtain ⟨s', hs', hid', -⟩ := hstep.continues _ s hs
    exact ⟨s', hs', hid'.trans hid⟩
  drained := by
    cases hstep with
    | @create domain _ _ _ build =>
      have hbuild := h.drained.build (st.registry.builder domain)
      rw [build] at hbuild
      exact hbuild
    | close ref => exact h.drained.close ref
    | closeNext ref => exact h.drained.close ref
    | _ => exact h.drained

variable [Source φ μ ω]

theorem move (h : WellKept st) (mv : Move φ μ ω) : WellKept (st.move mv) := by
  cases mv with
  | step call => exact h.step (stepped st.registry st.client 0 call)
  | replaceAllocator a => exact ⟨h.nodup, h.keys, h.drained⟩
  | tell ref id => exact h.of_keeps (st.client.keeps_tell ref id) (h.drained.tell ref id)
  | happen happening =>
    exact h.of_keeps (st.client.repooled_undergo happening).keeps (h.drained.undergo happening)

theorem run (h : WellKept st) (moves : List (Move φ μ ω)) : WellKept (st.run moves) := by
  induction moves generalizing st with
  | nil => exact h
  | cons mv moves ih => exact ih (h.move mv)

end WellKept

/-! ### What is idle, and since when -/

section

variable [Marshal μ ω] [Source φ μ ω] {start st : Scene φ μ ω} {moves : List (Move φ μ ω)}
  {ref : SessionRef} {m : μ} {older : List μ}

omit [Source φ μ ω] in
theorem Stepped.idle {call : Call} {now : Nat} {out : Step φ μ ω}
    (h : Stepped st.registry st.client now call out) :
    out.client.idleIn ref <:+ st.client.idleIn ref := by
  cases h with
  | @create domain _ _ _ build =>
    have hbuild := st.client.idleIn_build (st.registry.builder domain) ref
    rw [build] at hbuild
    exact hbuild
  | close other => exact Client.idleIn_close
  | closeNext other => exact Client.idleIn_close
  | _ => exact List.suffix_rfl

/-- A move puts a marshal on the idle ones of a session, or it takes some from the top. -/
theorem Scene.idle_move (st : Scene φ μ ω) (mv : Move φ μ ω) (ref : SessionRef) :
    (st.move mv).client.idleIn ref <:+ st.client.idleIn ref ∨
      ∃ m, mv = .put ref m ∧ (st.move mv).client.idleIn ref = m :: st.client.idleIn ref := by
  cases mv with
  | step call => exact .inl (stepped st.registry st.client 0 call).idle
  | replaceAllocator a => exact .inl List.suffix_rfl
  | tell other id =>
    refine .inl ?_
    show (st.client.tell other id).idleIn ref <:+ _
    rw [Client.idleIn_tell]
  | happen happening =>
    rcases st.client.idleIn_undergo happening ref with hsuffix | ⟨m, rfl, hput⟩
    · exact .inl hsuffix
    · exact .inr ⟨m, rfl, hput⟩

/-- A marshal was put back when just some others were idle, and it has been idle ever since, and so
have they. -/
def RestsOn (start : Scene φ μ ω) (moves : List (Move φ μ ω)) (ref : SessionRef) (m : μ)
    (older : List μ) : Prop :=
  ∃ before after, moves = before ++ .put ref m :: after ∧
    (start.run before).client.idleIn ref = older ∧
    ∀ later, later <+: after →
      m :: older <:+ (start.run (before ++ .put ref m :: later)).client.idleIn ref

/-- One move later. -/
theorem RestsOn.concat (h : RestsOn start moves ref m older) {mv : Move φ μ ω}
    (hidle : m :: older <:+ (start.run (moves ++ [mv])).client.idleIn ref) :
    RestsOn start (moves ++ [mv]) ref m older := by
  obtain ⟨before, after, rfl, holder, hsince⟩ := h
  refine ⟨before, after ++ [mv], by simp, holder, fun later hlater => ?_⟩
  rcases List.prefix_concat_iff.mp hlater with rfl | hearlier
  · rwa [List.append_assoc, List.cons_append] at hidle
  · exact hsince later hearlier

/-- Among the idle marshals of a session, the one that was put back last comes first. -/
def LastFirst (start : Scene φ μ ω) (moves : List (Move φ μ ω)) : Prop :=
  ∀ ref newer m older, (start.run moves).client.idleIn ref = newer ++ m :: older →
    RestsOn start moves ref m older

theorem lastFirst_run (hstart : ∀ ref, start.client.idleIn ref = []) (moves : List (Move φ μ ω)) :
    LastFirst start moves := by
  intro ref newer m older h
  induction moves using List.reverseRecOn generalizing newer with
  | nil =>
    have hnil : [] = newer ++ m :: older := (hstart ref).symm.trans h
    simp at hnil
  | append_singleton moves mv ih =>
    have hlast : start.run (moves ++ [mv]) = (start.run moves).move mv :=
      start.run_append moves [mv]
    have hidle : m :: older <:+ (start.run (moves ++ [mv])).client.idleIn ref := ⟨newer, h.symm⟩
    rw [hlast] at h
    rcases (start.run moves).idle_move mv ref with ⟨taken, htaken⟩ | ⟨m', rfl, hput⟩
    · rw [h, ← List.append_assoc] at htaken
      exact (ih _ htaken.symm).concat hidle
    · rw [hput] at h
      cases newer with
      | nil =>
        obtain ⟨rfl, holder⟩ := List.cons.inj h
        refine ⟨moves, [], rfl, holder, fun later hlater => ?_⟩
        rwa [List.prefix_nil.mp hlater]
      | cons first newer =>
        obtain ⟨rfl, hrest⟩ := List.cons.inj h
        exact (ih _ hrest).concat hidle

end

/-! ### Closing all -/

/-- Closing all sessions of a registry closes just these, by ascending local id, tells how many they
were, and leaves everything else alone. -/
structure ClosesAll [Marshal μ ω] (r : Registry φ) (c : Client φ μ ω) : Prop where
  count : (r.closeAll c).1 = r.size
  registry : (r.closeAll c).2.1 = { r with table := [] }
  listed : r.sessions.Perm r.refs
  ascending : r.sessions.Pairwise fun ref other => ∀ s t,
    c.session? ref = some s → c.session? other = some t → s.localId < t.localId
  world : (r.closeAll c).2.2.world = closeEach (r.sessions.flatMap c.idleIn) c.world
  registered : ∀ ref ∈ r.refs, ∃ s, c.session? ref = some s ∧
    (r.closeAll c).2.2.session? ref = some s.shutDown
  others : ∀ ref, ref ∉ r.refs → (r.closeAll c).2.2.session? ref = c.session? ref
  allocators : (r.closeAll c).2.2.allocators = c.allocators

/-- Every daemon logs the closings of its idle marshals when all sessions are closed. -/
def LogsClosings (r : Registry Mock.Factory)
    (c : Client Mock.Factory Mock.Marshal Mock.Fleet) : Prop :=
  ∀ place : Nat, (r.closeAll c).2.2.world.daemons[place]? =
    c.world.daemons[place]?.map
      (·.recordAll (Mock.closings place (r.sessions.flatMap c.idleIn)))

theorem ClosesAll.logsClosings {r : Registry Mock.Factory}
    {c : Client Mock.Factory Mock.Marshal Mock.Fleet} (h : ClosesAll r c) : LogsClosings r c := by
  intro place
  rw [h.world]
  exact Mock.daemons_closeEach _ _ place

namespace WellKept

variable {st : Scene φ μ ω}

theorem ascending (h : WellKept st) : st.registry.sessions.Pairwise fun ref other => ∀ s t,
    st.client.session? ref = some s → st.client.session? other = some t →
      s.localId < t.localId := by
  have hid {id : UInt64} {ref : SessionRef} {s : Session φ μ}
      (hget : st.registry.lookup? id = some ref) (hs : st.client.session? ref = some s) :
      s.localId = id := by
    obtain ⟨s', hs', hid⟩ := h.keys _ (SessionPool.mem_of_lookup hget)
    obtain rfl : s = s' := Option.some.inj (hs.symm.trans hs')
    exact hid
  refine List.pairwise_filterMap.mpr ((ascending_ids h.nodup).imp ?_)
  intro id id' hless ref hget other hget' s t hs ht
  rwa [hid hget hs, hid hget' ht]

/-- No session is in the table under two ids. -/
theorem nodup_sessions (h : WellKept st) : st.registry.sessions.Nodup := by
  refine h.ascending.imp_of_mem ?_
  rintro ref other href - hless rfl
  have hregistered : ref ∈ st.registry.refs := (perm_sessions h.nodup).mem_iff.mp href
  obtain ⟨entry, hentry, rfl⟩ := List.mem_map.mp hregistered
  obtain ⟨s, hs, -⟩ := h.keys entry hentry
  exact UInt64.lt_irrefl _ (hless s s hs hs)

variable [Marshal μ ω]

theorem closesAll (h : WellKept st) : ClosesAll st.registry st.client := by
  have hperm := perm_sessions h.nodup
  have hids : st.registry.ids.Nodup := (List.mergeSort_perm _ _).nodup_iff.mpr h.nodup
  obtain ⟨hcount, hclient⟩ := removeEach_sessions (r := st.registry) (c := st.client) hids
  have hclient : (st.registry.closeAll st.client).2.2 =
      st.client.closeSessions st.registry.sessions := hclient
  refine {
    count := ?count
    registry := closeAll_registry _ _
    listed := hperm
    ascending := h.ascending
    world := ?world
    registered := fun ref href => ?registered
    others := fun ref href => ?others
    allocators := ?allocators }
  case count =>
    have hlength : st.registry.refs.length = st.registry.size := List.length_map _
    exact hcount.trans (hperm.length_eq.trans hlength)
  case world =>
    rw [hclient]
    exact h.drained.closeSessions_world h.nodup_sessions
  case registered =>
    obtain ⟨entry, hentry, rfl⟩ := List.mem_map.mp href
    obtain ⟨s, hs, -⟩ := h.keys entry hentry
    rw [hclient]
    exact ⟨s, hs, h.drained.session?_closeSessions h.nodup_sessions (hperm.mem_iff.mpr href) hs⟩
  case others =>
    rw [hclient]
    exact Client.session?_closeSessions_of_notMem fun hmem => href (hperm.mem_iff.mp hmem)
  case allocators =>
    rw [hclient]
    exact st.client.allocators_closeSessions _

end WellKept

/-- A registry that nobody has used yet, whose client has made no sessions yet. -/
def Scene.fresh (factory : φ) (allocator : Option AllocatorRef) (world : ω) : Scene φ μ ω where
  registry := { factory, allocator }
  client := { world }

theorem WellKept.fresh (factory : φ) (allocator : Option AllocatorRef) (world : ω) :
    WellKept (.fresh factory allocator world : Scene φ μ ω) where
  nodup := List.nodup_nil
  keys entry hentry := by cases hentry
  drained ref s hs := by simp [Scene.fresh, Client.session?] at hs

/-- **Closing all sessions closes exactly the registered ones**, by ascending local id, in every
state that threads bring about, and of their idle marshals the one put back last first. Daemons log
the closings in this order and nothing else. -/
theorem closesAll_run :
    (∀ {φ μ ω : Type} [Marshal μ ω] [Source φ μ ω] (factory : φ) (allocator : Option AllocatorRef)
      (world : ω) (moves : List (Move φ μ ω)),
      let st := (Scene.fresh factory allocator world).run moves
      ClosesAll st.registry st.client ∧ LastFirst (.fresh factory allocator world) moves) ∧
    ∀ (factory : Mock.Factory) (allocator : Option AllocatorRef) (world : Mock.Fleet)
      (moves : List (Move Mock.Factory Mock.Marshal Mock.Fleet)),
      let st := (Scene.fresh factory allocator world).run moves
      LogsClosings st.registry st.client := by
  have hkept {φ μ ω : Type} [Marshal μ ω] [Source φ μ ω] (factory : φ)
      (allocator : Option AllocatorRef) (world : ω) (moves : List (Move φ μ ω)) :
      WellKept ((Scene.fresh factory allocator world).run moves) :=
    (WellKept.fresh factory allocator world).run moves
  constructor
  · intro φ μ ω _ _ factory allocator world moves
    exact ⟨(hkept factory allocator world moves).closesAll, lastFirst_run (fun _ => rfl) moves⟩
  · intro factory allocator world moves
    exact (hkept factory allocator world moves).closesAll.logsClosings

/-- The marshals 1 and 3 are put back to one session, and 2 to the other one in between. -/
def putBackInTurns : List (Move Mock.Factory Mock.Marshal Mock.Fleet) :=
  [.step (.create {}), .step (.create {}), .step (.insert 1), .step (.insert 0),
    .put 0 ⟨0, 1, true, false⟩, .put 1 ⟨0, 2, true, false⟩, .put 0 ⟨0, 3, true, false⟩]

theorem closesAll_run_putBackInTurns :
    let st := (Scene.fresh ⟨0⟩ none ⟨[{}]⟩).run putBackInTurns
    ClosesAll st.registry st.client ∧ LogsClosings st.registry st.client ∧
      (st.registry.closeAll st.client).1 = 2 ∧
      ((st.registry.closeAll st.client).2.2.world.daemon 0).closedIds = [3, 1, 2] := by
  intro st
  -- The table has them in the order in which they came in.
  have hids : st.registry.ids = [1, 2] := by
    have hsorted : [2, 1].mergeSort (fun a b : UInt64 => a ≤ b) = [1, 2] := by
      simp [List.mergeSort]
    exact hsorted
  refine ⟨(closesAll_run.1 _ _ _ _).1, closesAll_run.2 _ _ _ _, ?_, ?_⟩
  · rw [closeAll, hids]
    rfl
  · rw [closeAll, hids]
    rfl

end Registry

end SessionPool
