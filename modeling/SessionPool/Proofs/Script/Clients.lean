import SessionPool.Lease
import SessionPool.Registry
import SessionPool.Proofs.Custody.Closed
import SessionPool.Proofs.Script.Named

/-!
# What happens to the sessions of a client

A client never forgets a session: whatever is done with it, each session goes on under its number,
and one that is shut stays shut. So clients go on from one another,

    c.Onward c'  and  c'.Onward c''  ⟹  c.Onward c'',

and every function of the library takes a client onward.
-/

namespace SessionPool

variable {φ μ ω : Type}

/-! ### Sessions that are shut -/

namespace Session.Shut

variable [Marshal μ ω] {s : Session φ μ}

theorem pool_outstanding (shut : s.Shut) (outstanding : Nat) :
    { s with pool := { s.pool with outstanding } }.Shut := ⟨shut.closed, shut.empty⟩

theorem acquire [Source φ μ ω] (shut : s.Shut) (w : ω) : (s.acquire w).2.1.Shut := by
  simp only [Session.acquire, Pool.take_of_empty shut.empty]
  split
  · exact shut.pool_outstanding _
  · exact shut.pool_outstanding _

theorem release (shut : s.Shut) (m : μ) (w : ω) : (s.release m w).2.1.Shut := by
  have hput (m : μ) : s.pool.put m = (false, s.pool.uncount) := if_pos shut.closed
  simp only [Session.release, hput]
  exact shut.pool_outstanding _

/-- Closing a session shuts it, unless it is closed and not empty, which never happens. -/
theorem of_close (h : s.isClosed = true → s.pool.idle = []) (w : ω) : (s.close w).2.1.Shut := by
  refine ⟨s.pool.drain_closed, ?_⟩
  show s.pool.drain.2.idle = []
  rw [Pool.drain]
  split
  · next hclosed => exact h hclosed
  · rfl

end Session.Shut

/-! ### Sessions that are used -/

namespace Session

variable [Marshal μ ω] (s : Session φ μ)

/-- An acquisition takes the first idle marshal, if there is one. -/
theorem acquire_session [Source φ μ ω] (w : ω) : ∃ outstanding, (s.acquire w).2.1 =
    { s with pool := { s.pool with idle := s.pool.idle.tail, outstanding } } := by
  obtain ⟨localId, remoteId, domain, factory, ⟨idle, outstanding, closed⟩⟩ := s
  cases idle with
  | nil =>
    simp only [acquire, Pool.take]
    split
    · exact ⟨_, rfl⟩
    · exact ⟨_, rfl⟩
  | cons m rest => exact ⟨outstanding + 1, rfl⟩

/-- A release puts its marshal before the idle ones, unless the session is closed. -/
theorem release_session (m : μ) (w : ω) : ∃ outstanding, (s.release m w).2.1 =
    { s with pool := { s.pool with
        idle := if s.isClosed then s.pool.idle else (Marshal.reset m w).1 :: s.pool.idle
        outstanding } } := by
  obtain ⟨localId, remoteId, domain, factory, ⟨idle, outstanding, closed⟩⟩ := s
  cases closed with
  | false => exact ⟨outstanding - 1, rfl⟩
  | true => exact ⟨outstanding - 1, rfl⟩

theorem acquire_factory [Source φ μ ω] (w : ω) : (s.acquire w).2.1.factory = s.factory := by
  obtain ⟨outstanding, hs⟩ := s.acquire_session w
  rw [hs]

theorem release_factory (m : μ) (w : ω) : (s.release m w).2.1.factory = s.factory := by
  obtain ⟨outstanding, hs⟩ := s.release_session m w
  rw [hs]

/-- A session without idle marshals once it is closed. -/
def Drained (s : Session φ μ) : Prop := s.isClosed = true → s.pool.idle = []

variable {s}

omit [Marshal μ ω] in
theorem Shut.drained (shut : s.Shut) : s.Drained := fun _ => shut.empty

/-- Closing a session that is closed does nothing. -/
theorem close_of_closed (hclosed : s.isClosed = true) (w : ω) : s.close w = (0, s, w) := by
  have hdrain : s.pool.drain = ([], s.pool) := if_pos hclosed
  rw [close, hdrain]
  rfl

/-- Closing a session closes what is idle in it, and it does nothing else to the world. -/
theorem Drained.close_world (h : s.Drained) (w : ω) :
    (s.close w).2.2 = closeEach s.pool.idle w := by
  show closeEach s.pool.drain.1 w = _
  rw [Pool.drain]
  split
  · next hclosed => rw [h hclosed]
  · rfl

theorem Drained.acquire [Source φ μ ω] (h : s.Drained) (w : ω) : (s.acquire w).2.1.Drained := by
  obtain ⟨outstanding, hs⟩ := s.acquire_session w
  rw [hs]
  intro hclosed
  show s.pool.idle.tail = []
  rw [h hclosed, List.tail_nil]

theorem Drained.release (h : s.Drained) (m : μ) (w : ω) : (s.release m w).2.1.Drained := by
  obtain ⟨outstanding, hs⟩ := s.release_session m w
  rw [hs]
  intro hclosed
  show (if s.isClosed then s.pool.idle else _) = []
  rw [if_pos (show s.isClosed = true from hclosed), h hclosed]

end Session

/-! ### Clients that go on -/

namespace Client

/-- Every session of a client is still there, and it is shut if it was. -/
def Onward (c c' : Client φ μ ω) : Prop :=
  ∀ ref s, c.session? ref = some s → ∃ s', c'.session? ref = some s' ∧ (s.Shut → s'.Shut)

variable {c c' c'' : Client φ μ ω}

theorem Onward.refl (c : Client φ μ ω) : c.Onward c := fun _ s hs => ⟨s, hs, id⟩

theorem Onward.trans (h : c.Onward c') (h' : c'.Onward c'') : c.Onward c'' := by
  intro ref s hs
  obtain ⟨s', hs', hshut⟩ := h ref s hs
  obtain ⟨s'', hs'', hshut'⟩ := h' ref s' hs'
  exact ⟨s'', hs'', fun shut => hshut' (hshut shut)⟩

theorem Onward.isSome (h : c.Onward c') {ref : SessionRef} (hs : (c.session? ref).isSome = true) :
    (c'.session? ref).isSome = true := by
  obtain ⟨s, hs⟩ := Option.isSome_iff_exists.mp hs
  obtain ⟨s', hs', -⟩ := h ref s hs
  rw [hs']
  rfl

/-- What has the same sessions goes on from a client. -/
theorem onward_of_sessions_eq (h : c'.sessions = c.sessions) : c.Onward c' := by
  intro ref s hs
  refine ⟨s, ?_, id⟩
  rw [session?, h]
  exact hs

theorem session?_update_self {ref : SessionRef} {s : Session φ μ} (hs : c.session? ref = some s)
    (s' : Session φ μ) (w : ω) : (c.update ref s' w).session? ref = some s' :=
  List.getElem?_set_self (List.getElem?_eq_some_iff.mp hs).1

theorem session?_update_of_ne {ref other : SessionRef} (h : other ≠ ref) (s : Session φ μ) (w : ω) :
    (c.update ref s w).session? other = c.session? other :=
  List.getElem?_set_ne (Ne.symm h)

theorem onward_update {ref : SessionRef} {s s' : Session φ μ} (hs : c.session? ref = some s)
    (hshut : s.Shut → s'.Shut) (w : ω) : c.Onward (c.update ref s' w) := by
  intro other t ht
  by_cases hother : other = ref
  · subst hother
    obtain rfl : s = t := Option.some.inj (hs.symm.trans ht)
    exact ⟨s', session?_update_self hs s' w, hshut⟩
  · exact ⟨t, by rwa [session?_update_of_ne hother], id⟩

/-- The number that building gives to a session was not given before. -/
theorem session?_build_new (b : Builder φ) : c.session? (c.build b).1 = none :=
  List.getElem?_eq_none (Nat.le_refl _)

theorem session?_build_of_some {ref : SessionRef} {s : Session φ μ}
    (hs : c.session? ref = some s) (b : Builder φ) : (c.build b).2.session? ref = some s := by
  have hlt : ref < c.sessions.length := (List.getElem?_eq_some_iff.mp hs).1
  show (c.sessions ++ [_])[ref]? = some s
  rw [List.getElem?_append_left hlt]
  exact hs

theorem onward_build (b : Builder φ) : c.Onward (c.build b).2 :=
  fun _ s hs => ⟨s, session?_build_of_some hs b, id⟩

theorem session?_build (b : Builder φ) :
    (c.build b).2.session? (c.build b).1 =
      some { localId := (c.nextId (b.allocator.getD common)).1, domain := b.domain,
             factory := b.factory } := by
  show (c.sessions ++ [_])[c.sessions.length]? = some _
  rw [List.getElem?_concat_length]
  rfl

/-- Building adds one session, in which nothing is idle. -/
theorem sessions_build (c : Client φ μ ω) (b : Builder φ) :
    ∃ new : Session φ μ, (c.build b).2.sessions = c.sessions ++ [new] ∧ new.isClosed = false ∧
      new.pool.idle = [] ∧ new.factory = b.factory := ⟨_, rfl, rfl, rfl, rfl⟩

theorem session?_build_cases {b : Builder φ} {ref : SessionRef} {s : Session φ μ}
    (hs : (c.build b).2.session? ref = some s) :
    c.session? ref = some s ∨
      c.session? ref = none ∧ ref = (c.build b).1 ∧ s.isClosed = false ∧ s.pool.idle = [] := by
  obtain ⟨new, hnew, hclosed, hidle, -⟩ := c.sessions_build b
  rw [session?, hnew] at hs
  by_cases hlt : ref < c.sessions.length
  · rw [List.getElem?_append_left hlt] at hs
    exact .inl hs
  · have hge : c.sessions.length ≤ ref := Nat.le_of_not_lt hlt
    rw [List.getElem?_append_right hge, List.getElem?_singleton] at hs
    split at hs
    · next hsub =>
      obtain rfl := Option.some.inj hs
      have href : ref = c.sessions.length := Nat.le_antisymm (Nat.le_of_sub_eq_zero hsub) hge
      exact .inr ⟨List.getElem?_eq_none hge, href, hclosed, hidle⟩
    · cases hs

theorem close_of_none [Marshal μ ω] {ref : SessionRef} (hs : c.session? ref = none) :
    (c.close ref).2 = c := by
  rw [close, hs]

theorem close_of_some [Marshal μ ω] {ref : SessionRef} {s : Session φ μ}
    (hs : c.session? ref = some s) :
    (c.close ref).2 = c.update ref (s.close c.world).2.1 (s.close c.world).2.2 := by
  rw [close, hs]

/-- Closing a session again does nothing. -/
theorem close_close [Marshal μ ω] (c : Client φ μ ω) (ref : SessionRef) :
    ((c.close ref).2.close ref).2 = (c.close ref).2 := by
  cases hs : c.session? ref with
  | none => rw [close_of_none hs, close_of_none hs]
  | some s =>
    have hclosed : (s.close c.world).2.1.isClosed = true := s.pool.drain_closed
    rw [close_of_some hs, close_of_some (session?_update_self hs _ _),
      Session.close_of_closed hclosed, update, update]
    simp only [List.set_set]

theorem onward_close [Marshal μ ω] (ref : SessionRef) : c.Onward (c.close ref).2 := by
  rw [close]
  split
  · exact .refl c
  · next s hs => exact onward_update hs (fun shut => .of_close (fun _ => shut.empty) _) _

end Client

/-! ### Registries and leases -/

namespace Registry

section Tables

variable {r : Registry φ} {id : UInt64} {ref other : SessionRef}

theorem nodup_erase (h : (r.table.map (·.1)).Nodup) (id : UInt64) :
    ((r.erase id).table.map (·.1)).Nodup := h.sublist (List.filter_sublist.map _)

theorem nodup_insert (h : (r.table.map (·.1)).Nodup) (id : UInt64) (ref : SessionRef) :
    ((r.insert id ref).table.map (·.1)).Nodup := by
  rw [insert, List.map_append, List.nodup_append]
  refine ⟨nodup_erase h id, List.pairwise_singleton _ _, fun key hkey other hother => ?_⟩
  obtain ⟨entry, hentry, rfl⟩ := List.mem_map.mp hkey
  rw [List.mem_singleton.mp hother]
  exact bne_iff_ne.mp (List.mem_filter.mp hentry).2

theorem mem_of_lookup (hget : r.lookup? id = some ref) : ref ∈ r.table.map (·.2) :=
  List.mem_map.mpr ⟨_, SessionPool.mem_of_lookup hget, rfl⟩

/-- Every session of a registry is found by one of the ids in it. -/
theorem mem_listed (h : (r.table.map (·.1)).Nodup) (href : ref ∈ r.table.map (·.2)) :
    ref ∈ r.ids.filterMap r.lookup? := by
  obtain ⟨⟨id, ref⟩, hentry, rfl⟩ := List.mem_map.mp href
  refine List.mem_filterMap.mpr ⟨id, ?_, lookup_of_mem h hentry⟩
  rw [ids, List.mem_mergeSort]
  exact List.mem_map.mpr ⟨_, hentry, rfl⟩

theorem mem_erase (h : (r.table.map (·.1)).Nodup) (hget : r.lookup? id = some ref) :
    other ∈ r.table.map (·.2) ↔ other = ref ∨ other ∈ (r.erase id).table.map (·.2) := by
  rw [((perm_of_lookup h hget).map Prod.snd).mem_iff, List.map_cons, List.mem_cons]
  rfl

theorem mem_insert_self (r : Registry φ) (id : UInt64) (ref : SessionRef) :
    ref ∈ (r.insert id ref).table.map (·.2) := by
  simp [insert]

theorem erase_eq_self (h : r.lookup? id = none) : r.erase id = r := by
  rw [erase, filter_of_lookup_eq_none h]

/-- Registering a session displaces the one that is found by the same id. -/
theorem mem_insert (h : (r.table.map (·.1)).Nodup) :
    other ∈ (r.insert id ref).table.map (·.2) ∨ other ∈ (r.lookup? id).toList ↔
      other = ref ∨ other ∈ r.table.map (·.2) := by
  have hinsert : other ∈ (r.insert id ref).table.map (·.2) ↔
      other = ref ∨ other ∈ (r.erase id).table.map (·.2) := by
    rw [insert, List.map_append, List.mem_append, List.map_singleton, List.mem_singleton, or_comm]
  rw [hinsert]
  cases hget : r.lookup? id with
  | none =>
    rw [erase_eq_self hget]
    simp
  | some old =>
    rw [mem_erase h hget, Option.toList_some, List.mem_singleton]
    grind

end Tables

variable (r : Registry φ) (c : Client φ μ ω)

/-- A new session is registered under its local id. -/
theorem create_eq (domain : Domain) :
    r.create domain c =
      ((c.build (r.builder domain)).1,
        r.insert (c.nextId (r.allocator.getD Client.common)).1 (c.build (r.builder domain)).1,
        (c.build (r.builder domain)).2) := by
  rw [create]
  dsimp only
  rw [register, Client.session?_build]
  rfl

theorem onward_create (domain : Domain) : c.Onward (r.create domain c).2.2 :=
  Client.onward_build _

variable [Marshal μ ω]

theorem onward_remove (id : UInt64) : c.Onward (r.remove id c).2.2 := by
  rw [remove]
  split
  · exact .refl c
  · exact Client.onward_close _

theorem onward_removeEach (ids : List UInt64) : c.Onward (removeEach ids r c).2.2 := by
  induction ids generalizing r c with
  | nil => exact .refl c
  | cons id ids ih =>
    have hremove := r.onward_remove c id
    rw [removeEach]
    split
    · next hfailed =>
      rw [hfailed] at hremove
      exact hremove.trans (ih _ _)
    · next hremoved =>
      rw [hremoved] at hremove
      exact hremove.trans (ih _ _)

theorem onward_closeAll : c.Onward (r.closeAll c).2.2 := r.onward_removeEach c _

end Registry

namespace Lease

variable [Marshal μ ω]

/-- A lease with a marshal ends with a release. -/
theorem finish_of_some {c : Client φ μ ω} {ref : SessionRef} {s : Session φ μ}
    (hs : c.session? ref = some s) (m : μ) :
    finish ⟨ref, some m⟩ c =
      c.update ref (s.release m c.world).2.1 (s.release m c.world).2.2 := by
  rw [finish]
  dsimp only
  rw [hs]

theorem onward_finish (l : Lease μ) (c : Client φ μ ω) : c.Onward (l.finish c) := by
  rw [finish]
  split
  · next m s _ hs => exact Client.onward_update hs (fun shut => shut.release m c.world) _
  · exact .refl c

end Lease

end SessionPool
