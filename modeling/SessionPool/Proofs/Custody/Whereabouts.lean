import SessionPool.Proofs.Custody.Census

/-!
# Where the marshals are

A marshal is idle in a session at some position, or in a call, or in the hands of somebody, by
itself or inside a lease, or it is done with: refused, closed, or dropped by its holder. Whatever
threads do with any number of sessions over one daemon, every marshal of the daemon is in exactly
one of these places, so

    st.sitesOf k = [site]    for every k that the daemon has created,

and nobody can have a marshal that somebody else has or that is idle.
-/

namespace SessionPool

open Mock (Key)

/-- Where a marshal can be. -/
inductive Site where
  /-- At a position of the idle list of a session. -/
  | idle (place : Place) (position : Nat)
  /-- In the hands of a thread, by itself or inside a lease. -/
  | hands (owner : Thread) (leased : Bool)
  /-- Inside a call that a thread is in. -/
  | call (thread : Thread)
  | dropped
  | refused
  | closed
  deriving DecidableEq, Repr

namespace Custody

/-- The places of a marshal, each as often as the marshal is there. -/
def sitesOf (st : MockCustody) (k : Key) : List Site :=
  (st.calls.sessions.zipIdx.flatMap fun (s, place) =>
      (s.pool.idle.zipIdx.filter (·.1.key == k)).map fun (_, i) => .idle place i) ++
    (st.calls.pending.filter ((Tally.of k).call ·.2.next)).map (fun (t, _) => .call t) ++
    (st.holdings.filter (·.marshal.key == k)).map (fun h => .hands h.owner h.leased) ++
    (st.dropped.filter (·.marshal.key == k)).map (fun _ => .dropped) ++
    (st.daemon.refusedIds.filter fun id => (0, id) == k).map (fun _ => .refused) ++
    (st.daemon.closedIds.filter fun id => (0, id) == k).map (fun _ => .closed)

/-- Every created marshal is in one place, and no other marshal is anywhere. In particular, no two
hands have the same marshal, and none that is in somebody's hands is idle. -/
structure Located (st : MockCustody) : Prop where
  somewhere : ∀ k, st.daemon.hasCreated k = true → ∃ site, st.sitesOf k = [site]
  nowhere : ∀ k, st.daemon.hasCreated k = false → st.sitesOf k = []
  unshared : (st.holdings.map (·.marshal.key)).Nodup
  unpooled : ∀ h ∈ st.holdings, ∀ s ∈ st.calls.sessions, ∀ m ∈ s.pool.idle,
    m.key ≠ h.marshal.key

/-! ### Places and the census -/

theorem length_filter_zipIdx {α : Type} (l : List α) (f : α → Bool) :
    (l.zipIdx.filter (f ·.1)).length = l.countP f := by
  rw [← List.countP_eq_length_filter]
  have hmap := List.countP_map (p := f) (f := Prod.fst) (l := l.zipIdx)
  rw [List.zipIdx_map_fst] at hmap
  exact hmap.symm

theorem length_idle_sites (sessions : List (Session Mock.Factory Mock.Marshal))
    (f : Mock.Marshal → Bool) (n : Nat) :
    ((sessions.zipIdx n).flatMap fun (s, place) =>
        (s.pool.idle.zipIdx.filter (f ·.1)).map fun (_, i) => Site.idle place i).length =
      (sessions.flatMap (·.pool.idle)).countP f := by
  induction sessions generalizing n with
  | nil => rfl
  | cons s sessions ih =>
    rw [List.zipIdx_cons, List.flatMap_cons, List.length_append, List.length_map,
      length_filter_zipIdx, ih, List.flatMap_cons, List.countP_append]

theorem length_sitesOf (st : MockCustody) (k : Key) : (st.sitesOf k).length = st.census k := by
  have hidle := length_idle_sites st.calls.sessions (·.key == k) 0
  simp only [sitesOf, List.length_append, List.length_map, ← List.countP_eq_length_filter]
  rw [hidle, census, idle, tally, Mock.Daemon.spent, List.countP_append]
  show _ + st.calls.inCalls (Tally.of k).call + st.holdings.countP (Tally.of k).holding +
    st.dropped.countP (Tally.of k).holding + _ + _ = _
  omega

/-! ### The theorem -/

theorem Accounted.located {st : MockCustody} (h : st.Accounted) : st.Located where
  somewhere k hk := by
    refine List.length_eq_one_iff.mp ?_
    rw [length_sitesOf, h.census, hk]
    rfl
  nowhere k hk := by
    refine List.length_eq_zero_iff.mp ?_
    rw [length_sitesOf, h.census, hk]
    rfl
  unshared := by
    rw [List.nodup_iff_count]
    intro k
    -- Two holdings of one marshal would be counted twice.
    have hcensus := h.census k
    have hcreated := (st.daemon.hasCreated k).toNat_le
    rw [List.count, List.countP_map]
    rw [Custody.census, tally] at hcensus
    change _ + (_ + st.holdings.countP ((· == k) ∘ (·.marshal.key)) + _) + _ = _ at hcensus
    omega
  unpooled held hheld s hs m hm hkey := by
    have hcensus := h.census m.key
    have hcreated := (st.daemon.hasCreated m.key).toNat_le
    -- The marshal would be counted once in a pool and once in a hand.
    have hidle : 0 < st.idle.countP (·.key == m.key) :=
      List.countP_pos_iff.mpr ⟨m, List.mem_flatMap.mpr ⟨s, hs, hm⟩, beq_self_eq_true _⟩
    have hhands : 0 < st.holdings.countP (·.marshal.key == m.key) :=
      List.countP_pos_iff.mpr ⟨held, hheld, beq_iff_eq.mpr hkey.symm⟩
    rw [Custody.census, tally] at hcensus
    change _ + (_ + st.holdings.countP (·.marshal.key == m.key) + _) + _ = _ at hcensus
    omega

/-- **Every marshal is in exactly one place**, in every state that threads reach with sessions over
one daemon, as long as they leave opening and closing to the sessions. -/
theorem located_of_isGentle (accepting : Bool) (sessions : List (UInt64 × Domain))
    (moves : List MockMove) (gentle : ∀ m ∈ moves, m.isGentle = true) :
    ((overMock accepting sessions).run moves).Located :=
  (accounted_run accepting sessions gentle).located

/-- A marshal that one session handed out is released to another, which leases it to a second
thread. -/
def foreignRelease : List MockMove :=
  [.request 0 0 .acquire, .advance 0, .advance 0, .advance 0, .advance 0, .release 0 1 0,
    .advance 0, .advance 0, .request 1 1 .lease, .advance 1]

theorem located_foreignRelease :
    (∀ m ∈ foreignRelease, m.isGentle = true) ∧
      ((overMock true [(1, {}), (2, {})]).run foreignRelease).Located ∧
      ((overMock true [(1, {}), (2, {})]).run foreignRelease).sitesOf (0, 1) = [.hands 1 true] :=
  ⟨by decide, located_of_isGentle true [(1, {}), (2, {})] foreignRelease (by decide), by decide⟩

end Custody

end SessionPool
