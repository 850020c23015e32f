import SessionPool.Proofs.Mock.Renaming
import SessionPool.Proofs.Script.Courses

/-!
# States that agree about one session

Two states agree about a session when it stands alike in both, up to the ids of its marshals, and so
do the handles to it, its leases and the marshals that came from it:

    st.Agree a ρ st'.

What is done to other sessions, and with what came from them, keeps states in agreement even if it
is done on one side only. What is done alike to the session on both sides keeps them in agreement,
under a renaming that has grown by the marshals that were created for it.
-/

namespace SessionPool

open Mock (Factory Fleet Key Renaming Matched SessionAlike minted)
open Script (Named Name MockAct FleetChange Deed)

/-- Leases from the same session, with marshals that are alike. -/
structure LeaseAlike (ρ : Renaming) (l l' : Lease Mock.Marshal) : Prop where
  session : l.session = l'.session
  marshal : Option.Rel (Mock.Marshal.Alike ρ) l.marshal l'.marshal

section Alike

variable {ρ σ : Renaming} {l l' : Lease Mock.Marshal}

theorem LeaseAlike.mono (hsub : ρ ⊆ σ) (h : LeaseAlike ρ l l') : LeaseAlike σ l l' :=
  ⟨h.session, Script.optionRel_imp h.marshal fun _ _ => Mock.Marshal.Alike.mono hsub⟩

theorem LeaseAlike.symm (h : LeaseAlike ρ l l') : LeaseAlike ρ.swap l' l :=
  ⟨h.session.symm, Script.optionRel_symm h.marshal fun _ _ => Mock.Marshal.Alike.symm⟩

end Alike

namespace Script.State

/-- Everything that goes by a name and belongs to nobody. -/
def tables {φ μ ω : Type} (st : State φ μ ω) :
    Named φ × Named Domain × Named AllocatorRef × Named (Builder φ) :=
  (st.sources, st.domains, st.allocators, st.builders)

/-- Tables without what has no name. -/
def namedOnly {φ : Type}
    (t : Named φ × Named Domain × Named AllocatorRef × Named (Builder φ)) :
    Named φ × Named Domain × Named AllocatorRef × Named (Builder φ) :=
  (t.1.erase none, t.2.1.erase none, t.2.2.1.erase none, t.2.2.2.erase none)

/-- Between two steps nothing at all is there without a name. -/
structure Cleared {φ μ ω : Type} (st : State φ μ ω) : Prop where
  settled : st.Settled
  marshals : st.marshals.get? none = none
  tables : namedOnly st.tables = st.tables

theorem Cleared.clearUnnamed {φ μ ω : Type} [Marshal μ ω] (st : State φ μ ω) :
    st.clearUnnamed.Cleared := by
  refine ⟨.clearUnnamed st, Named.get?_erase_self _ _, ?_⟩
  simp [namedOnly, State.tables, State.clearUnnamed, Named.erase_eq_self]

theorem Cleared.perform {φ μ ω χ α : Type} [Marshal μ ω] [Source φ μ ω] [World ω χ] [Holder μ α]
    {st : State φ μ ω} (h : st.Cleared) (command : Command φ χ α) :
    (st.perform command).2.Cleared := by
  cases hr : st.perform? command with
  | error kind => rwa [(perform_of_error hr).2]
  | ok o =>
    rw [(perform_of_ok hr).2]
    exact .clearUnnamed _

/-- What is idle in the other sessions, or came from them, is none of the marshals of a session. -/
structure Others (a : SessionRef) (keys : List Key) (st : State Factory Mock.Marshal Fleet) :
    Prop where
  idle (ref : SessionRef) (s : Session Factory Mock.Marshal) : ref ≠ a →
    st.client.session? ref = some s → ∀ m ∈ s.pool.idle, st.client.world.Foreign keys m
  leases : st.leases.All fun l => l.session ≠ a → ∀ m ∈ l.marshal, st.client.world.Foreign keys m
  marshals : st.marshals.All fun m => m.key ∉ keys → st.client.world.Foreign keys m
  handles_proper : st.handles.Proper
  leases_proper : st.leases.Proper

/-- Two states that agree about a session. -/
structure Agree (a : SessionRef) (ρ : Renaming) (st st' : State Factory Mock.Marshal Fleet) :
    Prop where
  world : Matched ρ st.client.world st'.client.world
  others : st.Others a ρ.keys
  others' : st'.Others a ρ.keys'
  session : Option.Rel (SessionAlike ρ) (st.client.session? a) (st'.client.session? a)
  count : st.client.sessions.length = st'.client.sessions.length
  allocators : st.client.allocators = st'.client.allocators
  handles : Named.RelIf (fun _ _ => True) (· == a) (· == a) st.handles st'.handles
  leases : Named.RelIf (LeaseAlike ρ) (·.session == a) (·.session == a) st.leases st'.leases
  marshals : Named.RelIf (Mock.Marshal.Alike ρ) (ρ.keys.contains ·.key) (ρ.keys'.contains ·.key)
    st.marshals st'.marshals
  registries : st.registries = st'.registries
  tables : st.tables = st'.tables

/-- What is done beside a session: nothing of it concerns the session. -/
structure Beside (a : SessionRef) (keys : List Key) (st st₂ : State Factory Mock.Marshal Fleet) :
    Prop where
  world : Fleet.Beside keys st.client.world st₂.client.world
  others : st₂.Others a keys
  session : st₂.client.session? a = st.client.session? a
  count : st₂.client.sessions.length = st.client.sessions.length
  allocators : st₂.client.allocators = st.client.allocators
  handles : Named.SameIf (· == a) st.handles st₂.handles
  leases : Named.SameIf (·.session == a) st.leases st₂.leases
  marshals : Named.SameIf (keys.contains ·.key) st.marshals st₂.marshals
  registries : st₂.registries = st.registries
  tables : st₂.tables = st.tables

variable {a ref : SessionRef} {ρ ρ₂ : Renaming} {keys : List Key}
  {st st' st₂ st₃ : State Factory Mock.Marshal Fleet} {name : Name}
  {s s' : Session Factory Mock.Marshal} {m m' : Mock.Marshal}
  {o o' : Outcome Factory Mock.Marshal Fleet}

/-! ### One side -/

namespace Beside

theorem refl (h : st.Others a keys) : Beside a keys st st where
  world := .refl _ _
  others := h
  session := rfl
  count := rfl
  allocators := rfl
  handles := .refl _ _
  leases := .refl _ _
  marshals := .refl _ _
  registries := rfl
  tables := rfl

theorem trans (h : Beside a keys st st₂) (h' : Beside a keys st₂ st₃) : Beside a keys st st₃ where
  world := h.world.trans h'.world
  others := h'.others
  session := h'.session.trans h.session
  count := h'.count.trans h.count
  allocators := h'.allocators.trans h.allocators
  handles name := (h'.handles name).trans (h.handles name)
  leases name := (h'.leases name).trans (h.leases name)
  marshals name := (h'.marshals name).trans (h.marshals name)
  registries := h'.registries.trans h.registries
  tables := h'.tables.trans h.tables

end Beside

namespace Others

/-- The world goes on, and what is idle in the other sessions is still none of the marshals of the
session. -/
theorem setClient (h : st.Others a keys) {c : Client Factory Mock.Marshal Fleet} {keys₂ : List Key}
    (world : Fleet.Grows keys keys₂ st.client.world c.world)
    (issued : st.marshals.All fun m => st.client.world.hasIssued m.key = true)
    (old : ∀ ref s, ref ≠ a → c.session? ref = some s →
      st.client.session? ref = some s ∨ s.pool.idle = []) :
    { st with client := c }.Others a keys₂ where
  idle ref s href hs m hm := by
    rcases old ref s href hs with hold | hempty
    · exact world.foreign (h.idle ref s href hold m hm)
    · rw [hempty] at hm
      cases hm
  leases := h.leases.imp fun _ hl hne m hm => world.foreign (hl hne m hm)
  marshals name m hget hother := by
    obtain ⟨-, hmem⟩ := world.old m.key (issued name m hget)
    exact world.foreign (h.marshals name m hget fun hold => hother (hmem.mpr hold))
  handles_proper := h.handles_proper
  leases_proper := h.leases_proper

theorem issued (h : st.Others a keys) (hsound : st.client.world.Sound keys) :
    st.marshals.All fun m => st.client.world.hasIssued m.key = true := by
  intro name m hget
  by_cases hm : m.key ∈ keys
  · exact hsound.issued _ hm
  · exact (h.marshals name m hget hm).issued

/-! ### Another session -/

theorem beside_update (h : st.Others a keys) (href : ref ≠ a) {w : Fleet}
    (hs : st.client.session? ref = some s)
    (world : Fleet.Beside keys st.client.world w)
    (idle : ∀ m ∈ s'.pool.idle, w.Foreign keys m) :
    Beside a keys st { st with client := st.client.update ref s' w } := by
  have hidle (other : SessionRef) (t : Session Factory Mock.Marshal) (hother : other ≠ a)
      (ht : (st.client.update ref s' w).session? other = some t) :
      ∀ m ∈ t.pool.idle, w.Foreign keys m := by
    intro m hm
    by_cases heq : other = ref
    · subst heq
      rw [Client.session?_update_self hs] at ht
      obtain rfl := Option.some.inj ht
      exact idle m hm
    · rw [Client.session?_update_of_ne heq] at ht
      exact world.foreign (h.idle other t hother ht m hm)
  exact { Beside.refl h with
    world := world
    others := { h with
      idle := hidle
      leases := h.leases.imp fun _ hl hne m hm => world.foreign (hl hne m hm)
      marshals := h.marshals.imp fun _ hm hother => world.foreign (hm hother) }
    session := Client.session?_update_of_ne (Ne.symm href) _ _
    count := List.length_set }

/-- The holder of a marshal that came from another session uses it. -/
theorem beside_world (h : st.Others a keys) {w : Fleet}
    (world : Fleet.Beside keys st.client.world w) :
    Beside a keys st { st with client := { st.client with world := w } } :=
  { Beside.refl h with
    world := world
    others := { h with
      idle := fun other t hother ht m hm => world.foreign (h.idle other t hother ht m hm)
      leases := h.leases.imp fun _ hl hne m hm => world.foreign (hl hne m hm)
      marshals := h.marshals.imp fun _ hm hother => world.foreign (hm hother) } }

theorem beside_close (h : st.Others a keys) (href : ref ≠ a) :
    Beside a keys st { st with client := (st.client.close ref).2 } := by
  cases hs : st.client.session? ref with
  | none =>
    rw [Client.close_of_none hs]
    exact .refl h
  | some s =>
    obtain ⟨world, idle⟩ := Fleet.Beside.closeSession (h.idle ref s href hs)
    rw [Client.close_of_some hs]
    exact h.beside_update href hs world idle

theorem beside_letGo (h : st.Others a keys) (href : ref ≠ a) : Beside a keys st (st.letGo ref) := by
  rw [State.letGo]
  split
  · exact .refl h
  · exact h.beside_close href

/-! ### Names -/

theorem beside_handles (h : st.Others a keys) {handles : Named SessionRef}
    (proper : handles.Proper) (same : Named.SameIf (· == a) st.handles handles) :
    Beside a keys st { st with handles } :=
  { Beside.refl h with
    others := { h with handles_proper := proper }
    handles := same }

theorem beside_leases (h : st.Others a keys) {leases : Named (Lease Mock.Marshal)}
    (proper : leases.Proper) (same : Named.SameIf (·.session == a) st.leases leases)
    (foreign : leases.All fun l => l.session ≠ a → ∀ m ∈ l.marshal,
      st.client.world.Foreign keys m) :
    Beside a keys st { st with leases } :=
  { Beside.refl h with
    others := { h with leases_proper := proper, leases := foreign }
    leases := same }

theorem beside_marshals (h : st.Others a keys) {marshals : Named Mock.Marshal}
    (same : Named.SameIf (keys.contains ·.key) st.marshals marshals)
    (foreign : marshals.All fun m => m.key ∉ keys → st.client.world.Foreign keys m) :
    Beside a keys st { st with marshals } :=
  { Beside.refl h with
    others := { h with marshals := foreign }
    marshals := same }

theorem beside_insertMarshal (h : st.Others a keys)
    (new : st.marshals.getIf (keys.contains ·.key) name = none)
    (hm : st.client.world.Foreign keys m) :
    Beside a keys st { st with marshals := st.marshals.insert name m } := by
  refine h.beside_marshals (.insert new ?_) (h.marshals.insert name fun _ => hm)
  simpa using hm.other

theorem beside_eraseMarshal (h : st.Others a keys)
    (new : st.marshals.getIf (keys.contains ·.key) name = none) :
    Beside a keys st { st with marshals := st.marshals.erase name } :=
  h.beside_marshals (.erase new) (h.marshals.erase name)

theorem beside_insertLease (h : st.Others a keys)
    (new : st.leases.getIf (·.session == a) name = none) {l : Lease Mock.Marshal}
    (hl : l.session ≠ a) (hm : ∀ m ∈ l.marshal, st.client.world.Foreign keys m) :
    Beside a keys st { st with leases := st.leases.insert name l } := by
  refine h.beside_leases (h.leases_proper.insert name l) (.insert new ?_)
    (h.leases.insert name fun _ => hm)
  simpa using hl

theorem beside_eraseLease (h : st.Others a keys)
    (new : st.leases.getIf (·.session == a) name = none) :
    Beside a keys st { st with leases := st.leases.erase name } :=
  h.beside_leases (h.leases_proper.erase name) (.erase new) (h.leases.erase name)

theorem beside_dropHandle (h : st.Others a keys)
    (other : st.handles.getIf (· == a) name = none) : Beside a keys st (st.dropHandle name) := by
  rw [State.dropHandle]
  cases hget : st.handles.get? name with
  | none => exact .refl h
  | some ref =>
    have herase := h.beside_handles (h.handles_proper.erase name) (.erase other)
    have href : ref ≠ a := by simpa using Named.eq_false_of_getIf other hget
    exact herase.trans (herase.others.beside_letGo href)

/-- The session that a handle was to before its name was given away. -/
theorem beside_displace (h : Others a keys { st with handles := st.handles.insert name ref })
    (other : st.handles.getIf (· == a) name = none) :
    Beside a keys { st with handles := st.handles.insert name ref } (st.putHandle name ref) := by
  simp only [State.putHandle]
  cases hget : st.handles.get? name with
  | none => exact .refl h
  | some old =>
    have hold : old ≠ a := by simpa using Named.eq_false_of_getIf other hget
    exact h.beside_letGo hold

theorem beside_putHandle (h : st.Others a keys)
    (other : st.handles.getIf (· == a) name = none) (href : ref ≠ a) :
    Beside a keys st (st.putHandle name ref) := by
  have hput := h.beside_handles (h.handles_proper.insert name ref)
    (.insert other (beq_false_of_ne href))
  exact hput.trans (hput.others.beside_displace other)

theorem beside_dropLease (h : st.Others a keys)
    (other : st.leases.getIf (·.session == a) name = none) :
    Beside a keys st (st.dropLease name) := by
  rw [State.dropLease]
  cases hget : st.leases.get? name with
  | none => exact .refl h
  | some l =>
    have hl : l.session ≠ a := by simpa using Named.eq_false_of_getIf other hget
    have herase := h.beside_eraseLease other
    have hfinish : Beside a keys { st with leases := st.leases.erase name }
        { st with leases := st.leases.erase name, client := l.finish st.client } := by
      rw [Lease.finish]
      split
      · next m s hm hs =>
        obtain ⟨world, idle⟩ := Fleet.Beside.release (h.leases name l hget hl m hm)
          (h.idle l.session s hl hs)
        exact herase.others.beside_update hl hs world idle
      · exact .refl herase.others
    exact herase.trans (hfinish.trans (hfinish.others.beside_letGo hl))

theorem beside_putLease (h : st.Others a keys)
    (other : st.leases.getIf (·.session == a) name = none) {l : Lease Mock.Marshal}
    (hl : l.session ≠ a) (hm : ∀ m ∈ l.marshal, st.client.world.Foreign keys m) :
    Beside a keys st (st.putLease name l) := by
  have hdrop := h.beside_dropLease other
  have hnew : (st.dropLease name).leases.getIf (·.session == a) name = none := by
    rw [dropLease_leases, Named.getIf_erase, if_pos rfl]
  refine hdrop.trans (hdrop.others.beside_insertLease hnew hl fun m hmem => ?_)
  exact hdrop.world.foreign (hm m hmem)

/-! ### The end of a step -/

theorem beside_reported (h : o.state.Others a keys)
    (about : ∀ ref ∈ o.session, ref ≠ a)
    (handles : o.state.handles.getIf (· == a) none = none)
    (leases : o.state.leases.getIf (·.session == a) none = none) :
    Beside a keys o.state (reported o) := by
  rw [reported]
  cases href : o.session with
  | none => exact h.beside_dropLease leases
  | some ref =>
    have hput := h.beside_putHandle handles (about ref href)
    refine hput.trans (hput.others.beside_dropLease ?_)
    rw [hput.leases]
    exact leases

theorem beside_clearUnnamed (h : st.Others a keys)
    (handles : st.handles.getIf (· == a) none = none)
    (leases : st.leases.getIf (·.session == a) none = none)
    (marshals : st.marshals.getIf (keys.contains ·.key) none = none)
    (registries : st.registries.get? none = none)
    (tables : namedOnly st.tables = st.tables) : Beside a keys st st.clearUnnamed := by
  have hlease := h.beside_dropLease leases
  have hhandle := hlease.trans
    (hlease.others.beside_dropHandle ((hlease.handles none).trans handles))
  have hmarshal := hhandle.trans
    (hhandle.others.beside_eraseMarshal ((hhandle.marshals none).trans marshals))
  have hregistry : ((st.dropLease none).dropHandle none).dropRegistry none =
      (st.dropLease none).dropHandle none := by
    apply dropRegistry_of_none
    rw [hhandle.registries, registries]
  have htables : namedOnly ((st.dropLease none).dropHandle none).tables = st.tables := by
    rw [hhandle.tables, tables]
  rw [State.clearUnnamed, hregistry]
  exact { hmarshal with
    others := { hmarshal.others with }
    tables := htables }

end Others

/-- Other sessions do not matter to the end of a step either. -/
theorem Beside.settle (h : Beside a keys st o.state) (cleared : st.Cleared)
    (about : ∀ ref ∈ o.session, ref ≠ a) :
    Beside a keys st (reported o).clearUnnamed := by
  have handles : st.handles.getIf (· == a) none = none :=
    Named.getIf_of_none cleared.settled.handles
  have leases : st.leases.getIf (·.session == a) none = none :=
    Named.getIf_of_none cleared.settled.leases
  have marshals : st.marshals.getIf (keys.contains ·.key) none = none :=
    Named.getIf_of_none cleared.marshals
  have hreported := h.trans (h.others.beside_reported about
    ((h.handles none).trans handles) ((h.leases none).trans leases))
  refine hreported.trans (hreported.others.beside_clearUnnamed ?_ ?_ ?_ ?_ ?_)
  · exact (hreported.handles none).trans handles
  · exact (hreported.leases none).trans leases
  · exact (hreported.marshals none).trans marshals
  · rw [hreported.registries, cleared.settled.registries]
  · rw [hreported.tables, cleared.tables]

/-! ### Two sides -/

namespace Agree

theorem symm (h : Agree a ρ st st') : Agree a ρ.swap st' st where
  world := h.world.symm
  others := ρ.keys_swap ▸ h.others'
  others' := ρ.keys'_swap ▸ h.others
  session := optionRel_symm h.session fun _ _ => SessionAlike.symm
  count := h.count.symm
  allocators := h.allocators.symm
  handles := h.handles.symm fun _ _ _ => trivial
  leases := h.leases.symm fun _ _ => LeaseAlike.symm
  marshals := by
    rw [ρ.keys_swap, ρ.keys'_swap]
    exact h.marshals.symm fun _ _ => Mock.Marshal.Alike.symm
  registries := h.registries.symm
  tables := h.tables.symm

theorem left (h : Agree a ρ st st') (hbeside : Beside a ρ.keys st st₂) : Agree a ρ st₂ st' where
  world := h.world.beside hbeside.world
  others := hbeside.others
  others' := h.others'
  session := by
    rw [hbeside.session]
    exact h.session
  count := hbeside.count.trans h.count
  allocators := hbeside.allocators.trans h.allocators
  handles := h.handles.left hbeside.handles
  leases := h.leases.left hbeside.leases
  marshals := h.marshals.left hbeside.marshals
  registries := hbeside.registries.trans h.registries
  tables := hbeside.tables.trans h.tables

theorem right (h : Agree a ρ st st') (hbeside : Beside a ρ.keys' st' st₂) : Agree a ρ st st₂ := by
  have hleft := h.symm.left (ρ.keys_swap.symm ▸ hbeside)
  have hright := hleft.symm
  rwa [ρ.swap_swap] at hright

/-! ### The client -/

/-- The session is used on both sides alike, and new marshals of it are paired. -/
theorem setClient (h : Agree a ρ st st') {c c' : Client Factory Mock.Marshal Fleet}
    (hsub : ρ ⊆ ρ₂) (grows : Fleet.Grows ρ.keys ρ₂.keys st.client.world c.world)
    (grows' : Fleet.Grows ρ.keys' ρ₂.keys' st'.client.world c'.world)
    (world : Matched ρ₂ c.world c'.world)
    (session : Option.Rel (SessionAlike ρ₂) (c.session? a) (c'.session? a))
    (count : c.sessions.length = c'.sessions.length) (allocators : c.allocators = c'.allocators)
    (old : ∀ ref s, ref ≠ a → c.session? ref = some s →
      st.client.session? ref = some s ∨ s.pool.idle = [])
    (old' : ∀ ref s, ref ≠ a → c'.session? ref = some s →
      st'.client.session? ref = some s ∨ s.pool.idle = []) :
    Agree a ρ₂ { st with client := c } { st' with client := c' } where
  world := world
  others := h.others.setClient grows (h.others.issued h.world.sound) old
  others' := h.others'.setClient grows' (h.others'.issued h.world.sound') old'
  session := session
  count := count
  allocators := allocators
  handles := h.handles
  leases := h.leases.imp fun _ _ => LeaseAlike.mono hsub
  marshals := by
    -- New keys are those of new marshals, so the old ones belong to whom they did before.
    refine (h.marshals.imp fun _ _ => Mock.Marshal.Alike.mono hsub).congr (fun name m hm => ?_)
      fun name m hm => ?_
    · simpa using (grows.old m.key (h.others.issued h.world.sound name m hm)).2
    · simpa using (grows'.old m.key (h.others'.issued h.world.sound' name m hm)).2
  registries := h.registries
  tables := h.tables

theorem update (h : Agree a ρ st st') (hs : st.client.session? a = some s)
    (hs' : st'.client.session? a = some s') {w w' : Fleet}
    {s₂ s₂' : Session Factory Mock.Marshal} (hsub : ρ ⊆ ρ₂)
    (grows : Fleet.Grows ρ.keys ρ₂.keys st.client.world w)
    (grows' : Fleet.Grows ρ.keys' ρ₂.keys' st'.client.world w')
    (world : Matched ρ₂ w w') (session : SessionAlike ρ₂ s₂ s₂') :
    Agree a ρ₂ { st with client := st.client.update a s₂ w }
      { st' with client := st'.client.update a s₂' w' } := by
  refine h.setClient hsub grows grows' world ?_ ?_ h.allocators ?_ ?_
  · rw [Client.session?_update_self hs, Client.session?_update_self hs']
    exact .some session
  · rw [Client.update, Client.update, List.length_set, List.length_set, h.count]
  · intro ref t href ht
    rw [Client.session?_update_of_ne href] at ht
    exact .inl ht
  · intro ref t href ht
    rw [Client.session?_update_of_ne href] at ht
    exact .inl ht

/-- The session is there on both sides, or on none. -/
theorem session_cases (h : Agree a ρ st st') :
    (st.client.session? a = none ∧ st'.client.session? a = none) ∨
    ∃ s s', st.client.session? a = some s ∧ st'.client.session? a = some s' ∧
      SessionAlike ρ s s' := by
  have hsession := h.session
  generalize st.client.session? a = x at hsession
  generalize st'.client.session? a = y at hsession
  cases hsession with
  | some hs => exact .inr ⟨_, _, rfl, rfl, hs⟩
  | none => exact .inl ⟨rfl, rfl⟩

theorem close (h : Agree a ρ st st') :
    (st.client.close a).1 = (st'.client.close a).1 ∧
      Agree a ρ { st with client := (st.client.close a).2 }
        { st' with client := (st'.client.close a).2 } := by
  rcases h.session_cases with ⟨hs, hs'⟩ | ⟨s, s', hs, hs', hsession⟩
  · rw [Client.close_of_none hs, Client.close_of_none hs', Client.close, Client.close, hs, hs']
    exact ⟨rfl, h⟩
  · obtain ⟨hcount, hclosed, world⟩ := h.world.closeSession hsession
    rw [Client.close_of_some hs, Client.close_of_some hs', Client.close, Client.close, hs, hs']
    exact ⟨hcount, h.update hs hs' (List.Subset.refl _) (.closeSession _ _ _)
      (.closeSession _ _ _) world hclosed⟩

/-- Any session is closed on both sides. -/
theorem closeAny (h : Agree a ρ st st') (ref : SessionRef) :
    Agree a ρ { st with client := (st.client.close ref).2 }
      { st' with client := (st'.client.close ref).2 } := by
  by_cases href : ref = a
  · subst href
    exact h.close.2
  · exact (h.left (h.others.beside_close href)).right (h.others'.beside_close href)

/-! ### Holders -/

theorem isHeld_of_left (h : Agree a ρ st st') (hheld : st.isHeld a = true) :
    st'.isHeld a = true := by
  rw [isHeld, List.contains_iff_mem, mem_holds] at hheld ⊢
  -- Handles and leases are only paired, and so what is theirs on one side is found on the other.
  rcases hheld with hhandle | hlease | hregistry
  · obtain ⟨ref, href, heq⟩ :=
      h.handles.exists_of_mem h.others.handles_proper hhandle (beq_self_eq_true a)
    rw [beq_iff_eq.mp heq] at href
    exact .inl href
  · obtain ⟨l, hl, hsession⟩ := List.mem_map.mp hlease
    obtain ⟨l', hl', heq⟩ :=
      h.leases.exists_of_mem h.others.leases_proper hl (beq_iff_eq.mpr hsession)
    exact .inr (.inl (List.mem_map.mpr ⟨l', hl', beq_iff_eq.mp heq⟩))
  · rw [h.registries] at hregistry
    exact .inr (.inr hregistry)

theorem isHeld_eq (h : Agree a ρ st st') : st.isHeld a = st'.isHeld a :=
  Bool.eq_iff_iff.mpr ⟨h.isHeld_of_left, h.symm.isHeld_of_left⟩

theorem letGo (h : Agree a ρ st st') (ref : SessionRef) :
    Agree a ρ (st.letGo ref) (st'.letGo ref) := by
  by_cases href : ref = a
  · subst href
    rw [State.letGo, State.letGo, h.isHeld_eq]
    split
    · exact h
    · exact h.close.2
  · exact (h.left (h.others.beside_letGo href)).right (h.others'.beside_letGo href)

theorem setHandles (h : Agree a ρ st st') {handles handles' : Named SessionRef}
    (proper : handles.Proper) (proper' : handles'.Proper)
    (rel : Named.RelIf (fun _ _ => True) (· == a) (· == a) handles handles') :
    Agree a ρ { st with handles := handles } { st' with handles := handles' } :=
  { h with
    others := { h.others with handles_proper := proper }
    others' := { h.others' with handles_proper := proper' }
    handles := rel }

theorem dropHandle (h : Agree a ρ st st') (name : Name) :
    Agree a ρ (st.dropHandle name) (st'.dropHandle name) := by
  cases hown : st.handles.getIf (· == a) name with
  | none =>
    have hown' := h.handles.none_of_left hown
    exact (h.left (h.others.beside_dropHandle hown)).right (h.others'.beside_dropHandle hown')
  | some ref =>
    obtain ⟨hget, href⟩ := Named.getIf_eq_some_iff.mp hown
    obtain ⟨ref', hget', href', -⟩ := h.handles.exists_of_left hget href
    have herase := h.setHandles (h.others.handles_proper.erase name)
      (h.others'.handles_proper.erase name) (h.handles.erase name)
    rw [State.dropHandle, State.dropHandle, hget, hget', beq_iff_eq.mp href, beq_iff_eq.mp href']
    exact herase.letGo a

theorem putHandle (h : Agree a ρ st st') (name : Name) (ref : SessionRef) :
    Agree a ρ (st.putHandle name ref) (st'.putHandle name ref) := by
  have hput : Agree a ρ { st with handles := st.handles.insert name ref }
      { st' with handles := st'.handles.insert name ref } := by
    refine h.setHandles (h.others.handles_proper.insert name ref)
      (h.others'.handles_proper.insert name ref) ?_
    by_cases href : ref = a
    · exact h.handles.insert name trivial (beq_iff_eq.mpr href) (beq_iff_eq.mpr href)
    · exact h.handles.insert_not name (beq_false_of_ne href) (beq_false_of_ne href)
  -- The handle that had the name before is to the session on both sides, or on none.
  cases hown : st.handles.getIf (· == a) name with
  | none =>
    have hown' := h.handles.none_of_left hown
    exact (hput.left (hput.others.beside_displace hown)).right
      (hput.others'.beside_displace hown')
  | some old =>
    obtain ⟨hget, hold⟩ := Named.getIf_eq_some_iff.mp hown
    obtain ⟨old', hget', hold', -⟩ := h.handles.exists_of_left hget hold
    rw [State.putHandle, State.putHandle, hget, hget', beq_iff_eq.mp hold, beq_iff_eq.mp hold']
    exact hput.letGo a

/-! ### Registries -/

theorem setRegistries (h : Agree a ρ st st') {registries registries' : Named (Registry Factory)}
    (same : registries = registries') :
    Agree a ρ { st with registries := registries } { st' with registries := registries' } :=
  { h with
    others := { h.others with }
    others' := { h.others' with }
    registries := same }

theorem letGoEach (h : Agree a ρ st st') (refs : List SessionRef) :
    Agree a ρ (refs.foldl State.letGo st) (refs.foldl State.letGo st') := by
  induction refs generalizing st st' with
  | nil => exact h
  | cons ref refs ih => exact ih (h.letGo ref)

theorem dropRegistry (h : Agree a ρ st st') (name : Name) :
    Agree a ρ (st.dropRegistry name) (st'.dropRegistry name) := by
  rw [State.dropRegistry, State.dropRegistry, ← h.registries]
  cases st.registries.get? name with
  | none => exact h
  | some r => exact (h.setRegistries rfl).letGoEach _

theorem putRegistry (h : Agree a ρ st st') (name : Name) (r : Registry Factory) :
    Agree a ρ (st.putRegistry name r) (st'.putRegistry name r) := by
  have hdrop := h.dropRegistry name
  exact hdrop.setRegistries (congrArg (·.insert name r) hdrop.registries)

/-! ### Leases -/

theorem setLeases (h : Agree a ρ st st') {leases leases' : Named (Lease Mock.Marshal)}
    (proper : leases.Proper) (proper' : leases'.Proper)
    (rel : Named.RelIf (LeaseAlike ρ) (·.session == a) (·.session == a) leases leases')
    (foreign : leases.All fun l => l.session ≠ a → ∀ m ∈ l.marshal,
      st.client.world.Foreign ρ.keys m)
    (foreign' : leases'.All fun l => l.session ≠ a → ∀ m ∈ l.marshal,
      st'.client.world.Foreign ρ.keys' m) :
    Agree a ρ { st with leases := leases } { st' with leases := leases' } :=
  { h with
    others := { h.others with leases_proper := proper, leases := foreign }
    others' := { h.others' with leases_proper := proper', leases := foreign' }
    leases := rel }

theorem eraseLease (h : Agree a ρ st st') (name : Name) :
    Agree a ρ { st with leases := st.leases.erase name }
      { st' with leases := st'.leases.erase name } :=
  h.setLeases (h.others.leases_proper.erase name) (h.others'.leases_proper.erase name)
    (h.leases.erase name) (h.others.leases.erase name) (h.others'.leases.erase name)

theorem insertLease (h : Agree a ρ st st') (name : Name) {l l' : Lease Mock.Marshal}
    (hl : LeaseAlike ρ l l') (hown : l.session = a) :
    Agree a ρ { st with leases := st.leases.insert name l }
      { st' with leases := st'.leases.insert name l' } := by
  have hown' : l'.session = a := hl.session.symm.trans hown
  exact h.setLeases (h.others.leases_proper.insert name l) (h.others'.leases_proper.insert name l')
    (h.leases.insert name hl (beq_iff_eq.mpr hown) (beq_iff_eq.mpr hown'))
    (h.others.leases.insert name fun hne => absurd hown hne)
    (h.others'.leases.insert name fun hne => absurd hown' hne)

/-- A lease from the session ends on both sides. -/
theorem finish (h : Agree a ρ st st') {l l' : Lease Mock.Marshal} (hl : LeaseAlike ρ l l')
    (hown : l.session = a) :
    Agree a ρ { st with client := l.finish st.client }
      { st' with client := l'.finish st'.client } := by
  obtain ⟨ref, m⟩ := l
  obtain ⟨ref', m'⟩ := l'
  obtain ⟨rfl, hm⟩ := hl
  obtain rfl : ref = a := hown
  rcases h.session_cases with ⟨hs, hs'⟩ | ⟨s, s', hs, hs', hsession⟩
  · cases hm with
    | none => exact h
    | some hm =>
      simp only [Lease.finish, hs, hs']
      exact h
  · cases hm with
    | none => exact h
    | some hm =>
      obtain ⟨-, hreleased, world⟩ := h.world.release hsession hm
      rw [Lease.finish_of_some hs, Lease.finish_of_some hs']
      exact h.update hs hs' (List.Subset.refl _) (.release _ _ _ _) (.release _ _ _ _) world
        hreleased

theorem dropLease (h : Agree a ρ st st') (name : Name) :
    Agree a ρ (st.dropLease name) (st'.dropLease name) := by
  cases hown : st.leases.getIf (·.session == a) name with
  | none =>
    have hown' := h.leases.none_of_left hown
    exact (h.left (h.others.beside_dropLease hown)).right (h.others'.beside_dropLease hown')
  | some l =>
    obtain ⟨hget, hl⟩ := Named.getIf_eq_some_iff.mp hown
    obtain ⟨l', hget', hl', hlease⟩ := h.leases.exists_of_left hget hl
    have hfinish := (h.eraseLease name).finish hlease (beq_iff_eq.mp hl)
    rw [State.dropLease, State.dropLease, hget, hget']
    simp only [beq_iff_eq.mp hl, beq_iff_eq.mp hl']
    exact hfinish.letGo a

theorem putLease (h : Agree a ρ st st') (name : Name) {l l' : Lease Mock.Marshal}
    (hl : LeaseAlike ρ l l') (hown : l.session = a) :
    Agree a ρ (st.putLease name l) (st'.putLease name l') :=
  (h.dropLease name).insertLease name hl hown

/-! ### Marshals -/

theorem eraseMarshal (h : Agree a ρ st st') (name : Name) :
    Agree a ρ { st with marshals := st.marshals.erase name }
      { st' with marshals := st'.marshals.erase name } :=
  { h with
    others := { h.others with marshals := h.others.marshals.erase name }
    others' := { h.others' with marshals := h.others'.marshals.erase name }
    marshals := h.marshals.erase name }

/-- Nobody owns the tables. -/
theorem setTables (h : Agree a ρ st st') {sources sources' : Named Factory}
    {domains domains' : Named Domain} {allocators allocators' : Named AllocatorRef}
    {builders builders' : Named (Builder Factory)}
    (same : (sources, domains, allocators, builders) =
      (sources', domains', allocators', builders')) :
    Agree a ρ { st with sources, domains, allocators, builders }
      { st' with
        sources := sources', domains := domains', allocators := allocators'
        builders := builders' } :=
  { h with
    others := { h.others with }
    others' := { h.others' with }
    tables := same }

theorem insertMarshal (h : Agree a ρ st st') (name : Name) (hm : m.Alike ρ m') :
    Agree a ρ { st with marshals := st.marshals.insert name m }
      { st' with marshals := st'.marshals.insert name m' } := by
  have hmem := Renaming.mem_keys hm.renamed
  have hmem' := Renaming.mem_keys' hm.renamed
  exact { h with
    others := { h.others with
      marshals := h.others.marshals.insert name fun hother => absurd hmem hother }
    others' := { h.others' with
      marshals := h.others'.marshals.insert name fun hother => absurd hmem' hother }
    marshals := h.marshals.insert name hm (List.contains_iff_mem.mpr hmem)
      (List.contains_iff_mem.mpr hmem') }

/-- A marshal that has nothing to do with the session gets a name on both sides. -/
theorem insertForeign (h : Agree a ρ st st') (name : Name)
    (hm : st.client.world.Foreign ρ.keys m) (hm' : st'.client.world.Foreign ρ.keys' m') :
    Agree a ρ { st with marshals := st.marshals.insert name m }
      { st' with marshals := st'.marshals.insert name m' } :=
  { h with
    others := { h.others with marshals := h.others.marshals.insert name fun _ => hm }
    others' := { h.others' with marshals := h.others'.marshals.insert name fun _ => hm' }
    marshals := h.marshals.insert_not name (by simpa using hm.other) (by simpa using hm'.other) }

/-- The holder of a marshal that came from the session uses it on both sides. -/
theorem setWorld (h : Agree a ρ st st') {w w' : Fleet} (world : Matched ρ w w')
    (grows : Fleet.Grows ρ.keys ρ.keys st.client.world w)
    (grows' : Fleet.Grows ρ.keys' ρ.keys' st'.client.world w') :
    Agree a ρ { st with client := { st.client with world := w } }
      { st' with client := { st'.client with world := w' } } :=
  h.setClient (List.Subset.refl _) grows grows' world h.session h.count h.allocators
    (fun _ _ _ hs => .inl hs) fun _ _ _ hs => .inl hs

theorem setAllocators (h : Agree a ρ st st') {allocators allocators' : List Allocator}
    (same : allocators = allocators') :
    Agree a ρ { st with client := { st.client with allocators } }
      { st' with client := { st'.client with allocators := allocators' } } :=
  h.setClient (List.Subset.refl _) (.refl _ _) (.refl _ _) h.world h.session h.count same
    (fun _ _ _ hs => .inl hs) fun _ _ _ hs => .inl hs

/-- A session is built on both sides. -/
theorem build (h : Agree a ρ st st') (b : Builder Factory) :
    (st.client.build b).1 = (st'.client.build b).1 ∧
      Agree a ρ { st with client := (st.client.build b).2 }
        { st' with client := (st'.client.build b).2 } := by
  have hold {c : Client Factory Mock.Marshal Fleet} (ref : SessionRef)
      (s : Session Factory Mock.Marshal) (hs : (c.build b).2.session? ref = some s) :
      c.session? ref = some s ∨ s.pool.idle = [] := by
    rcases Client.session?_build_cases hs with hold | ⟨-, -, -, hempty⟩
    · exact .inl hold
    · exact .inr hempty
  have hnew : (st.client.nextId (b.allocator.getD Client.common)).1 =
      (st'.client.nextId (b.allocator.getD Client.common)).1 := by
    rw [Client.nextId, Client.nextId, h.allocators]
  refine ⟨h.count, h.setClient (List.Subset.refl _) (.refl _ _) (.refl _ _) h.world ?_ ?_ ?_
    (fun ref s _ => hold ref s) fun ref s _ => hold ref s⟩
  · show Option.Rel _ (st.client.sessions ++ [_])[a]? (st'.client.sessions ++ [_])[a]?
    rcases Nat.lt_or_ge a st.client.sessions.length with hlt | hge
    · rw [List.getElem?_append_left hlt, List.getElem?_append_left (h.count ▸ hlt)]
      exact h.session
    · rw [List.getElem?_append_right hge, List.getElem?_append_right (h.count ▸ hge), h.count,
        List.getElem?_singleton, List.getElem?_singleton]
      split
      · exact .some ⟨hnew, rfl, rfl, rfl, .nil, rfl, rfl⟩
      · exact .none
  · show (st.client.sessions ++ [_]).length = (st'.client.sessions ++ [_]).length
    rw [List.length_append, List.length_append, h.count]
    rfl
  · show st.client.allocators.modify _ _ = st'.client.allocators.modify _ _
    rw [h.allocators]

/-! ### The end of a step -/

theorem clearUnnamed (h : Agree a ρ st st') : Agree a ρ st.clearUnnamed st'.clearUnnamed := by
  have hdropped := (((h.dropLease none).dropHandle none).dropRegistry none).eraseMarshal none
  exact hdropped.setTables (congrArg namedOnly hdropped.tables)

theorem reported (h : Agree a ρ o.state o'.state) (hsession : o.session = o'.session) :
    Agree a ρ (reported o) (reported o') := by
  rw [State.reported, State.reported, hsession]
  cases o'.session with
  | none => exact h.dropLease none
  | some ref => exact (h.putHandle none ref).dropLease none

end Agree

end Script.State

end SessionPool
