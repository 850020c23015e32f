import SessionPool.Proofs.Script.Courses
import SessionPool.Proofs.Script.Holders

/-!
# What becomes of the marshals

An idle marshal stays in its session until it is acquired or closed. A marshal in a lease stays
there until it is released or taken out. Anything else that is done leaves both where they are:

    idle in ref, then an act that does not draw from ref  ⟹  idle in ref, or closed.
-/

namespace SessionPool

variable {φ μ ω : Type}

namespace Client

/-- All idle marshals of a client. -/
def idle (c : Client φ μ ω) : List μ := c.sessions.flatMap (·.pool.idle)

/-- The idle marshals of all sessions but one. -/
def idleBeside (c : Client φ μ ω) (ref : SessionRef) : List μ :=
  (c.sessions.take ref ++ c.sessions.drop (ref + 1)).flatMap (·.pool.idle)

variable {c : Client φ μ ω} {ref : SessionRef} {s : Session φ μ}

theorem idle_update_perm (hs : c.session? ref = some s) (s' : Session φ μ) (w : ω) :
    (c.update ref s' w).idle.Perm (s'.pool.idle ++ c.idleBeside ref) := by
  have hlt : ref < c.sessions.length := (List.getElem?_eq_some_iff.mp hs).1
  rw [idle, idleBeside, update, List.set_eq_take_append_cons_drop, if_pos hlt, List.flatMap_append,
    List.flatMap_append, List.flatMap_cons, ← List.append_assoc, ← List.append_assoc]
  exact List.perm_append_comm.append_right _

theorem idle_perm (hs : c.session? ref = some s) :
    c.idle.Perm (s.pool.idle ++ c.idleBeside ref) := by
  have hset : c.sessions.set ref s = c.sessions := by
    obtain ⟨hlt, rfl⟩ := List.getElem?_eq_some_iff.mp hs
    exact List.set_getElem_self hlt
  have hperm := c.idle_update_perm hs s c.world
  rwa [update, hset] at hperm

end Client

namespace Script

variable {χ α : Type} {x y : Moment φ μ ω} {tag : Tag φ χ α} {ref : SessionRef} {m : μ}

/-- All marshals that are somewhere. -/
def Moment.marshals (x : Moment φ μ ω) : List μ := x.inHand ++ x.state.client.idle

theorem State.idle_of_some {st : State φ μ ω} {s : Session φ μ}
    (hs : st.client.session? ref = some s) : st.idle ref = s.pool.idle := by
  rw [State.idle, hs]
  rfl

theorem State.mem_idle {st : State φ μ ω} (hm : m ∈ st.idle ref) :
    ∃ s, st.client.session? ref = some s ∧ m ∈ s.pool.idle := by
  obtain ⟨s, hs, heq⟩ := State.exists_of_idle (List.ne_nil_of_mem hm)
  exact ⟨s, hs, heq ▸ hm⟩

theorem State.idle_subset (st : State φ μ ω) (ref : SessionRef) :
    st.idle ref ⊆ st.client.idle := by
  intro m hm
  obtain ⟨s, hs, hm⟩ := State.mem_idle hm
  exact List.mem_flatMap.mpr ⟨s, List.mem_of_getElem? hs, hm⟩

/-- A marshal in a lease is outside the pools. -/
theorem State.mem_inHand_of_loan {st : State φ μ ω} (h : (ref, m) ∈ st.loans) : m ∈ st.inHand := by
  obtain ⟨lease, hlease, hloan⟩ := List.mem_filterMap.mp h
  refine List.mem_append_right _ (List.mem_filterMap.mpr ⟨lease, hlease, ?_⟩)
  obtain ⟨m', hm', heq⟩ := Option.map_eq_some_iff.mp hloan
  rw [hm', (Prod.mk.inj heq).2]

/-- A session that has lent a marshal is held. -/
theorem State.mem_holds_of_loan {st : State φ μ ω} (h : (ref, m) ∈ st.loans) : ref ∈ st.holds := by
  obtain ⟨lease, hlease, hloan⟩ := List.mem_filterMap.mp h
  obtain ⟨m', -, heq⟩ := Option.map_eq_some_iff.mp hloan
  refine State.mem_holds.mpr (.inr (.inl ?_))
  exact List.mem_map.mpr ⟨lease, hlease, (Prod.mk.inj heq).1⟩

theorem State.idle_congr {st st' : State φ μ ω} (h : st'.client.sessions = st.client.sessions)
    (ref : SessionRef) : st'.idle ref = st.idle ref := by
  rw [State.idle, State.idle, Client.session?, Client.session?, h]

/-! ### Idle marshals -/

/-- An idle marshal stays where it is when its session is used and loses no idle marshal. -/
theorem mem_idle_of_update {other : SessionRef} {s s' : Session φ μ} {w : ω}
    (hm : m ∈ x.state.idle ref) (hs : x.state.client.session? other = some s)
    (hclient : y.state.client = x.state.client.update other s' w)
    (hsub : other = ref → s.pool.idle ⊆ s'.pool.idle) : m ∈ y.state.idle ref := by
  obtain ⟨t, ht, hm⟩ := State.mem_idle hm
  by_cases hne : ref = other
  · subst hne
    obtain rfl : s = t := Option.some.inj (hs.symm.trans ht)
    rw [State.idle_of_some (hclient ▸ Client.session?_update_self hs s' w)]
    exact hsub rfl hm
  · have ht' : y.state.client.session? ref = some t := by
      rw [hclient, Client.session?_update_of_ne hne, ht]
    rwa [State.idle_of_some ht']

variable [Marshal μ ω]

/-- A marshal is still idle in its session, or it was closed. -/
def Stays (x y : Moment φ μ ω) (ref : SessionRef) (m : μ) : Prop :=
  m ∈ y.state.idle ref ∨
    ∃ ms, m ∈ ms ∧ y.state.client.world = closeEach ms x.state.client.world

theorem stays_of_close (htidy : Tidy x) {other : SessionRef} (hm : m ∈ x.state.idle ref)
    (hclient : y.state.client = (x.state.client.close other).2) : Stays x y ref m := by
  cases hs : x.state.client.session? other with
  | none =>
    rw [Client.close_of_none hs] at hclient
    exact .inl (State.idle_congr (congrArg Client.sessions hclient) ref ▸ hm)
  | some s =>
    rw [Client.close_of_some hs] at hclient
    by_cases hne : ref = other
    · subst hne
      refine .inr ⟨s.pool.idle, State.idle_of_some hs ▸ hm, ?_⟩
      rw [hclient]
      exact (htidy.drained ref s hs).close_world _
    · exact .inl (mem_idle_of_update hm hs hclient fun heq => absurd heq.symm hne)

variable [Source φ μ ω] [World ω χ] [Holder μ α]

/-- **An idle marshal stays where it is or is closed**, as long as none is acquired from its
session. -/
theorem Act.stays (htidy : Tidy x) (hact : Act tag x y) (hdraw : tag ≠ .draw ref)
    (hm : m ∈ x.state.idle ref) : Stays x y ref m := by
  cases hact with
  | rehold same sessions => exact .inl (State.idle_congr sessions ref ▸ hm)
  | letGo _ other =>
    by_cases hheld : x.state.isHeld other = true
    · rw [State.letGo_of_held hheld]
      exact .inl hm
    · have hclose : (x.state.letGo other).client = (x.state.client.close other).2 := by
        rw [State.letGo, if_neg hheld]
      exact stays_of_close htidy hm hclose
  | build _ b =>
    obtain ⟨s, hs, hm⟩ := State.mem_idle hm
    refine .inl ?_
    rwa [State.idle_of_some (Client.session?_build_of_some hs b)]
  | source _ as f => exact .inl hm
  | change _ c => exact .inl hm
  | create f known same sessions => exact .inl (State.idle_congr sessions ref ▸ hm)
  | deed d m' others same sessions => exact .inl (State.idle_congr sessions ref ▸ hm)
  | @draw _ _ other s same hs client =>
    refine .inl (mem_idle_of_update hm hs client fun heq => ?_)
    exact absurd (congrArg Tag.draw heq) hdraw
  | @giveBack _ _ other s m' same hs client =>
    obtain ⟨outstanding, hrelease⟩ := s.release_session m' x.state.client.world
    refine .inl (mem_idle_of_update hm hs client fun _ => ?_)
    rw [hrelease]
    show s.pool.idle ⊆ if s.isClosed then s.pool.idle else _
    split
    · exact List.Subset.refl _
    · exact List.subset_cons_self _ _
  | close _ other => exact stays_of_close htidy hm rfl
  | @relabel _ other s hs id =>
    exact .inl (mem_idle_of_update hm hs rfl fun _ => List.Subset.refl _)
  | free other same sessions => exact .inl (State.idle_congr sessions ref ▸ hm)

/-! ### Marshals in leases -/

/-- What becomes of a marshal in a lease when a session takes it back. -/
def TakenBack (x y : Moment φ μ ω) (ref : SessionRef) (m : μ) : Prop :=
  (Marshal.reset m x.state.client.world).1 ∈ y.state.idle ref ∨
    y.state.client.world = (Marshal.close (Marshal.reset m x.state.client.world).1
      (Marshal.reset m x.state.client.world).2).2

omit [Source φ μ ω] in
theorem takenBack_of_release {s : Session φ μ} (hs : x.state.client.session? ref = some s)
    (hclient : y.state.client = x.state.client.update ref (s.release m x.state.client.world).2.1
      (s.release m x.state.client.world).2.2) : TakenBack x y ref m := by
  obtain ⟨outstanding, hrelease⟩ := s.release_session m x.state.client.world
  cases hclosed : s.isClosed with
  | false =>
    have hs' := hclient ▸ Client.session?_update_self hs _ _
    refine .inl ?_
    rw [State.idle_of_some hs', hrelease]
    show _ ∈ if s.isClosed then s.pool.idle else _
    rw [hclosed]
    exact List.mem_cons_self ..
  | true =>
    have hput (m : μ) : s.pool.put m = (false, s.pool.uncount) := if_pos hclosed
    refine .inr ?_
    rw [hclient, Session.release]
    dsimp only
    rw [hput]
    rfl

/-- **A marshal stays in its lease or goes back to its session**, as long as it is not taken out. -/
theorem Act.loan (hact : Act tag x y) (hfree : tag ≠ .free ref) (hloan : (ref, m) ∈ x.state.loans) :
    (ref, m) ∈ y.state.loans ∨ TakenBack x y ref m ∨
      ∃ d, tag = .deed d ∧ (ref, (State.doDeed m x.state.client.world d).2.1) ∈ y.state.loans := by
  cases hact with
  | rehold same sessions world hands loans => exact .inl (loans hloan)
  | letGo _ other =>
    refine .inl ?_
    show (ref, m) ∈ (x.state.letGo other).loans
    rwa [State.loans, State.letGo_leases]
  | build _ b => exact .inl hloan
  | source _ as f => exact .inl hloan
  | change _ c => exact .inl hloan
  | create f known same sessions world hands loans => exact .inl (loans hloan)
  | deed d m' others same sessions world before after loans =>
    rcases loans ref m hloan with hstays | ⟨rfl, hdone⟩
    · exact .inl hstays
    · exact .inr (.inr ⟨d, rfl, hdone⟩)
  | draw same hs client hands loans => exact .inl (loans hloan)
  | giveBack same hs client hands loans =>
    rcases loans _ hloan with hstays | heq
    · exact .inl hstays
    · obtain ⟨rfl, rfl⟩ := Prod.mk.inj heq
      exact .inr (.inl (takenBack_of_release hs client))
  | close _ other => exact .inl hloan
  | relabel _ hs id => exact .inl hloan
  | free other same sessions world hands loans =>
    rcases loans _ hloan with hstays | heq
    · exact .inl hstays
    · exact absurd (congrArg Tag.free heq.symm) hfree

/-! ### Factories -/

omit [World ω χ] [Holder μ α] [Source φ μ ω] in
theorem factories_close (st : State φ μ ω) (other : SessionRef) :
    { st with client := (st.client.close other).2 }.factories ⊆ st.factories := by
  cases hs : st.client.session? other with
  | none =>
    rw [Client.close_of_none hs]
    exact List.Subset.refl _
  | some s =>
    have hfactory : (s.close st.client.world).2.1.factory = s.factory := rfl
    rw [Client.close_of_some hs]
    exact State.factories_update hs hfactory _

/-- Every factory was there before, but for the one that becomes known. -/
theorem Act.factories (hact : Act tag x y) {f : φ} (hf : f ∈ y.state.factories) :
    f ∈ x.state.factories ∨ tag = .source f := by
  cases hact with
  | rehold same => exact .inl (same.factories hf)
  | letGo _ other =>
    refine .inl ?_
    by_cases hheld : x.state.isHeld other = true
    · rwa [State.letGo_of_held hheld] at hf
    · rw [State.letGo, if_neg hheld] at hf
      exact factories_close x.state other hf
  | build _ b known =>
    refine .inl ?_
    obtain ⟨new, hnew, -, -, hfactory⟩ := x.state.client.sessions_build b
    rcases List.mem_append.mp hf with hf | hf
    · exact List.mem_append_left _ hf
    · rw [hnew, List.map_append, List.mem_append, List.map_singleton, List.mem_singleton] at hf
      rcases hf with hf | rfl
      · exact List.mem_append_right _ hf
      · rwa [hfactory]
  | source _ as g =>
    have hfewer := (x.state.sources.values_erase_sublist as).subset
    simp only [State.factories, Named.values_insert, List.mem_append, List.mem_cons] at hf ⊢
    rcases hf with (((rfl | hf) | hf) | hf) | hf
    · exact .inr rfl
    · exact .inl (.inl (.inl (.inl (hfewer hf))))
    · exact .inl (.inl (.inl (.inr hf)))
    · exact .inl (.inl (.inr hf))
    · exact .inl (.inr hf)
  | change _ c => exact .inl hf
  | create g known same => exact .inl (same.factories hf)
  | deed d m' others same => exact .inl (same.factories hf)
  | draw same => exact .inl (same.factories hf)
  | giveBack same => exact .inl (same.factories hf)
  | close _ other => exact .inl (factories_close x.state other hf)
  | @relabel _ other s hs id =>
    have hfactory : (s.setRemoteId id).factory = s.factory := rfl
    exact .inl (State.factories_update hs hfactory _ hf)
  | free other same => exact .inl (same.factories hf)

end Script

end SessionPool
