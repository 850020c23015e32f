import SessionPool.Proofs.Registry.Table
import SessionPool.Proofs.Script.Bystanders

/-!
# The same on both sides

A command about a session comes to the same on two sides that agree about the session. The replies
are alike, and the renaming of marshals grows by what the session creates:

    st.Agree a ρ st'  ⟹  (st.perform? command).reply  ~  (st'.perform? command).reply.

A command that makes sessions or is about none of them keeps the two sides in agreement. A search
for a session by its remote id is left aside: what it finds depends on what other sessions were told
about theirs.
-/

namespace SessionPool.Script

open Mock (Factory Fleet Key Renaming Matched SessionAlike minted)

/-! ### What is seen of a session -/

/-- Replies that are the same, but for the ids of the marshals in them. -/
inductive Reply.Alike (ρ : Renaming) :
    Reply Factory Mock.Marshal → Reply Factory Mock.Marshal → Prop
  | done : Alike ρ .done .done
  | failed (e : Error) : Alike ρ (.failed e) (.failed e)
  | id (id : UInt64) : Alike ρ (.id id) (.id id)
  | count (n : Nat) : Alike ρ (.count n) (.count n)
  | truth (b : Bool) : Alike ρ (.truth b) (.truth b)
  | noMarshal : Alike ρ .noMarshal .noMarshal
  | marshal {m m' : Mock.Marshal} (h : m.Alike ρ m') : Alike ρ (.marshal m) (.marshal m')
  | released : Alike ρ .released .released
  | deed (opened : Bool) {m m' after after' : Mock.Marshal} (h : m.Alike ρ m')
      (h' : after.Alike ρ after') : Alike ρ (.deed opened m after) (.deed opened m' after')
  | session {s s' : Session Factory Mock.Marshal} (h : SessionAlike ρ s s') :
      Alike ρ (.session s) (.session s')
  | lease {m m' : Mock.Marshal} {s s' : Session Factory Mock.Marshal} (hm : m.Alike ρ m')
      (hs : SessionAlike ρ s s') : Alike ρ (.lease m s) (.lease m' s')

namespace Reply.Alike

variable {ρ : Renaming}

theorem id_of_eq {id id' : UInt64} (h : id = id') : Alike ρ (.id id) (.id id') := by
  rw [h]
  exact .id id'

theorem count_of_eq {n n' : Nat} (h : n = n') : Alike ρ (.count n) (.count n') := by
  rw [h]
  exact .count n'

theorem deed_of_eq {opened opened' : Bool} (hopened : opened = opened')
    {m m' after after' : Mock.Marshal} (h : m.Alike ρ m') (h' : after.Alike ρ after') :
    Alike ρ (.deed opened m after) (.deed opened' m' after') := by
  rw [hopened]
  exact .deed opened' h h'

end Reply.Alike

/-- Reports with replies that are alike, between which a session stands the same. -/
structure Report.Alike (ρ : Renaming) (r r' : Report Factory Mock.Marshal) : Prop where
  reply : r.reply.Alike ρ r'.reply
  session : r.session = r'.session

/-- What is seen of a session in a step that is about it: the report, and how the session stands
afterwards. -/
structure Glimpse where
  report : Report Factory Mock.Marshal
  session : Option (Session Factory Mock.Marshal)

structure Glimpse.Alike (ρ : Renaming) (g g' : Glimpse) : Prop where
  report : g.report.Alike ρ g'.report
  session : Option.Rel (SessionAlike ρ) g.session g'.session

section Mono

variable {ρ σ : Renaming}

theorem Reply.Alike.mono (hsub : ρ ⊆ σ) {r r' : Reply Factory Mock.Marshal} (h : r.Alike ρ r') :
    r.Alike σ r' := by
  cases h with
  | done => exact .done
  | failed e => exact .failed e
  | id id => exact .id id
  | count n => exact .count n
  | truth b => exact .truth b
  | noMarshal => exact .noMarshal
  | marshal hm => exact .marshal (hm.mono hsub)
  | released => exact .released
  | deed opened hm hafter => exact .deed opened (hm.mono hsub) (hafter.mono hsub)
  | session hs => exact .session (hs.mono hsub)
  | lease hm hs => exact .lease (hm.mono hsub) (hs.mono hsub)

theorem Glimpse.Alike.mono (hsub : ρ ⊆ σ) {g g' : Glimpse} (h : g.Alike ρ g') : g.Alike σ g' :=
  ⟨⟨h.report.reply.mono hsub, h.report.session⟩,
    optionRel_imp h.session fun _ _ => SessionAlike.mono hsub⟩

end Mono

/-! ### One command about the session -/

namespace State

variable {a ref : SessionRef} {ρ : Renaming} {st st' : State Factory Mock.Marshal Fleet}
  {command : Command Factory FleetChange MockAct} {o o' : Outcome Factory Mock.Marshal Fleet}
  {name : Name} {s : Session Factory Mock.Marshal}

/-- Outcomes with replies that are alike, in states that agree, about the same session. -/
structure Together (a : SessionRef) (ρ : Renaming) (o o' : Outcome Factory Mock.Marshal Fleet) :
    Prop where
  reply : o.reply.Alike ρ o'.reply
  session : o.session = o'.session
  state : o.state.Agree a ρ o'.state

/-- Outcomes that are alike, and about no other session. -/
structure OutcomeAlike (a : SessionRef) (ρ : Renaming)
    (o o' : Outcome Factory Mock.Marshal Fleet) : Prop extends Together a ρ o o' where
  about : ∀ ref ∈ o.session, ref = a

/-- If one side comes to something, then so does the other, and what they come to is related. -/
def Follows (R : Outcome Factory Mock.Marshal Fleet → Outcome Factory Mock.Marshal Fleet → Prop)
    (r r' : Except Kind (Outcome Factory Mock.Marshal Fleet)) : Prop :=
  ∀ o, r = .ok o → ∃ o', r' = .ok o' ∧ R o o'

section Follows

variable {R : Outcome Factory Mock.Marshal Fleet → Outcome Factory Mock.Marshal Fleet → Prop}

theorem Follows.ok (h : R o o') : Follows R (.ok o) (.ok o') := by
  intro _ ho
  obtain rfl := Except.ok.inj ho
  exact ⟨o', rfl, h⟩

theorem Follows.bind {β β' : Type} {found : Except Kind β} {found' : Except Kind β'}
    {f : β → Except Kind (Outcome Factory Mock.Marshal Fleet)}
    {f' : β' → Except Kind (Outcome Factory Mock.Marshal Fleet)}
    (h : ∀ b, found = .ok b → ∃ b', found' = .ok b' ∧ Follows R (f b) (f' b')) :
    Follows R (found >>= f) (found' >>= f') := by
  cases found with
  | error kind =>
    intro o ho
    cases ho
  | ok b =>
    obtain ⟨b', rfl, hf⟩ := h b rfl
    exact hf

end Follows

/-- What comes of a command about the session: outcomes alike, under a renaming that has grown by
the marshals that the command created. -/
def Alongside (a : SessionRef) (ρ : Renaming) (created created' : List Key)
    (o o' : Outcome Factory Mock.Marshal Fleet) : Prop :=
  ∃ new : Renaming, new.keys = created ∧ new.keys' = created' ∧ OutcomeAlike a (ρ ++ new) o o'

theorem Together.alongside (h : Together a ρ o o') (about : ∀ ref ∈ o.session, ref = a) :
    Alongside a ρ [] [] o o' :=
  ⟨[], rfl, rfl, by
    rw [List.append_nil]
    exact ⟨h, about⟩⟩

theorem Together.kept (h : Together a ρ o o') :
    o.session = o'.session ∧ Agree a ρ o.state o'.state := ⟨h.session, h.state⟩

theorem lookup?_of_registered {r : Registry Factory} {id : UInt64}
    (hr : st.registries.get? name = some r) (h : (st.registered? name id == some a) = true) :
    r.lookup? id = some a := by
  rw [registered?, hr] at h
  exact beq_iff_eq.mp h

theorem eq_of_mem_some (href : ref = a) : ∀ other ∈ some ref, other = a := by
  rintro other ⟨⟩
  exact href

namespace Agree

variable (h : Agree a ρ st st')
include h

theorem hasHandle_eq (name : Name) : st.hasHandle a name = st'.hasHandle a name :=
  h.handles.isSome_eq name

theorem hasLease_eq (name : Name) : st.hasLease a name = st'.hasLease a name :=
  h.leases.isSome_eq name

theorem hasMarshal_eq (name : Name) :
    st.hasMarshal ρ.keys name = st'.hasMarshal ρ.keys' name := h.marshals.isSome_eq name

/-- A command is about the session on both sides, or on none. -/
theorem isAbout_eq (command : Command Factory FleetChange MockAct) :
    command.isAbout a ρ.keys st = command.isAbout a ρ.keys' st' := by
  cases command with
  | build | session | registryCreate => simp only [Command.isAbout, h.count]
  | cloneSession _ handle | dropSession handle | acquire _ handle | release handle _
  | lease _ handle | close handle | setRemoteId handle _ | inspect handle | same handle _ =>
    exact h.hasHandle_eq handle
  | leaseInfo name | leaseDeed name _ | detach _ name | dropLease name => exact h.hasLease_eq name
  | deed name _ | dropMarshal name => exact h.hasMarshal_eq name
  | registryGet | registryRemove => simp only [Command.isAbout, registered?, h.registries]
  | _ => rfl

theorem idOf_eq : st.idOf a = st'.idOf a := by
  rcases h.session_cases with ⟨hs, hs'⟩ | ⟨s, s', hs, hs', hsession⟩
  · rw [idOf, idOf, hs, hs']
  · rw [idOf, idOf, hs, hs']
    exact hsession.localId

theorem snapshot_eq : st.snapshot? a = st'.snapshot? a := by
  rcases h.session_cases with ⟨hs, hs'⟩ | ⟨s, s', hs, hs', hsession⟩
  · rw [snapshot?, snapshot?, hs, hs']
  · rw [snapshot?, snapshot?, hs, hs', Option.map_some, Option.map_some, Snapshot.of, Snapshot.of,
      hsession.localId, hsession.remoteId, Session.pooled, Session.pooled, hsession.idle.length_eq,
      Session.outstanding, Session.outstanding, hsession.outstanding, Session.isClosed,
      Session.isClosed, hsession.closed]

/-! ### Finding what belongs to the session -/

theorem session_of_left (hs : st.client.session? a = some s) :
    ∃ s', st'.client.session? a = some s' ∧ SessionAlike ρ s s' := by
  rcases h.session_cases with ⟨hnone, -⟩ | ⟨t, s', ht, hs', hsession⟩
  · rw [hnone] at hs
    cases hs
  · obtain rfl := Option.some.inj (hs.symm.trans ht)
    exact ⟨s', hs', hsession⟩

theorem findSession_alike (hown : st.hasHandle a name = true)
    (hfound : st.findSession name = .ok (ref, s)) :
    ref = a ∧ ∃ s', st'.findSession name = .ok (a, s') ∧ st.client.session? a = some s ∧
      st'.client.session? a = some s' ∧ SessionAlike ρ s s' := by
  obtain ⟨hhandle, hs⟩ := findSession_ok hfound
  have href := Named.eq_true_of_isSome hown hhandle
  obtain ⟨ref', hhandle', href', -⟩ := h.handles.exists_of_left hhandle href
  obtain rfl := beq_iff_eq.mp href
  obtain rfl := beq_iff_eq.mp href'
  obtain ⟨s', hs', hsession⟩ := h.session_of_left hs
  exact ⟨rfl, s', findSession_of_some hhandle' hs', hs, hs', hsession⟩

theorem lease_alike {l : Lease Mock.Marshal} (hown : st.hasLease a name = true)
    (hlease : st.leases.get? name = some l) :
    l.session = a ∧ ∃ l', st'.leases.get? name = some l' ∧ LeaseAlike ρ l l' := by
  have hl := Named.eq_true_of_isSome hown hlease
  obtain ⟨l', hlease', -, halike⟩ := h.leases.exists_of_left hlease hl
  exact ⟨beq_iff_eq.mp hl, l', hlease', halike⟩

theorem findLease_alike {l : Lease Mock.Marshal} {m : Mock.Marshal}
    (hown : st.hasLease a name = true) (hfound : st.findLease name = .ok (l, m, s)) :
    ∃ m' s', l = ⟨a, some m⟩ ∧ st'.findLease name = .ok (⟨a, some m'⟩, m', s') ∧
      m.Alike ρ m' ∧ SessionAlike ρ s s' := by
  obtain ⟨hlease, hm, hs⟩ := findLease_ok hfound
  obtain ⟨hsession, ⟨ref', marshal'⟩, hlease', hl⟩ := h.lease_alike hown hlease
  obtain ⟨ref, marshal⟩ := l
  obtain rfl : ref = a := hsession
  obtain rfl : marshal = some m := hm
  obtain ⟨rfl, hmarshal⟩ := hl
  obtain ⟨s', hs', hsession⟩ := h.session_of_left hs
  cases marshal' with
  | none => cases hmarshal
  | some m' =>
    cases hmarshal with
    | some hm => exact ⟨m', s', rfl, findLease_of_some hlease' hs', hm, hsession⟩

theorem findMarshal_alike {m : Mock.Marshal} (hown : st.hasMarshal ρ.keys name = true)
    (hfound : st.marshals.get? name = some m) :
    ∃ m', st'.marshals.get? name = some m' ∧ m.Alike ρ m' := by
  have hmem := Named.eq_true_of_isSome hown hfound
  obtain ⟨m', hfound', -, hm⟩ := h.marshals.exists_of_left hfound hmem
  exact ⟨m', hfound', hm⟩

section Follows

variable {R : Outcome Factory Mock.Marshal Fleet → Outcome Factory Mock.Marshal Fleet → Prop}

theorem follows_session (hown : st.hasHandle a name = true)
    {f f' : SessionRef × Session Factory Mock.Marshal →
      Except Kind (Outcome Factory Mock.Marshal Fleet)}
    (hf : ∀ s s', st.client.session? a = some s → st'.client.session? a = some s' →
      SessionAlike ρ s s' → Follows R (f (a, s)) (f' (a, s'))) :
    Follows R (st.findSession name >>= f) (st'.findSession name >>= f') := by
  refine .bind fun (ref, s) hfound => ?_
  obtain ⟨rfl, s', hfound', hs, hs', hsession⟩ := h.findSession_alike hown hfound
  exact ⟨_, hfound', hf s s' hs hs' hsession⟩

theorem follows_lease (hown : st.hasLease a name = true)
    {f f' : Lease Mock.Marshal × Mock.Marshal × Session Factory Mock.Marshal →
      Except Kind (Outcome Factory Mock.Marshal Fleet)}
    (hf : ∀ m m' s s', m.Alike ρ m' → SessionAlike ρ s s' →
      Follows R (f (⟨a, some m⟩, m, s)) (f' (⟨a, some m'⟩, m', s'))) :
    Follows R (st.findLease name >>= f) (st'.findLease name >>= f') := by
  refine .bind fun (l, m, s) hfound => ?_
  obtain ⟨m', s', rfl, hfound', hm, hsession⟩ := h.findLease_alike hown hfound
  exact ⟨_, hfound', hf m m' s s' hm hsession⟩

theorem follows_marshal (hown : st.hasMarshal ρ.keys name = true)
    {f f' : Mock.Marshal → Except Kind (Outcome Factory Mock.Marshal Fleet)}
    (hf : ∀ m m', m.Alike ρ m' → Follows R (f m) (f' m')) :
    Follows R (find .marshal st.marshals name >>= f) (find .marshal st'.marshals name >>= f') := by
  refine .bind fun m hfound => ?_
  obtain ⟨m', hfound', hm⟩ := h.findMarshal_alike hown (find_ok hfound)
  exact ⟨m', find_of_some hfound', hf m m' hm⟩

end Follows

/-! ### Finding what belongs to nobody -/

theorem sources_eq : st.sources = st'.sources := congrArg (·.1) h.tables

theorem domains_eq : st.domains = st'.domains := congrArg (·.2.1) h.tables

theorem allocators_eq : st.allocators = st'.allocators := congrArg (·.2.2.1) h.tables

theorem builders_eq : st.builders = st'.builders := congrArg (·.2.2.2) h.tables

theorem findAllocator_eq (allocator : Option Name) :
    st.findAllocator allocator = st'.findAllocator allocator := by
  cases allocator with
  | none => rfl
  | some name => rw [findAllocator, findAllocator, h.allocators_eq]

theorem findDomain_eq (domain : DomainArg) : st.findDomain domain = st'.findDomain domain := by
  cases domain with
  | given d => rfl
  | named name => rw [findDomain, findDomain, h.domains_eq]

theorem makeBuilder_eq (source : Name) (allocator : Option Name) (domain : DomainArg) :
    st.makeBuilder source allocator domain = st'.makeBuilder source allocator domain := by
  rw [makeBuilder, makeBuilder, h.sources_eq, h.findAllocator_eq, h.findDomain_eq]

/-- What a handle is to is found by the same handle on the other side. -/
theorem findSession_of_left (sub : Named.Within st.handles st'.handles)
    (hfound : st.findSession name = .ok (ref, s)) :
    ∃ s', st'.findSession name = .ok (ref, s') := by
  obtain ⟨hhandle, hs⟩ := findSession_ok hfound
  have hlt : ref < st'.client.sessions.length := h.count ▸ (List.getElem?_eq_some_iff.mp hs).1
  exact ⟨_, findSession_of_some (sub name ref hhandle) (List.getElem?_eq_getElem hlt)⟩

/-! ### What the session does -/

theorem answerSession (as : Name) {ref : SessionRef} (hid : st.idOf ref = st'.idOf ref) :
    Together a ρ (st.answerSession as ref) (st'.answerSession as ref) :=
  ⟨.id_of_eq hid, rfl, h.putHandle as ref⟩

/-- The local id that a new session gets. -/
theorem idOf_build (b : Builder Factory) :
    State.idOf { st with client := (st.client.build b).2 } (st.client.build b).1 =
      State.idOf { st' with client := (st'.client.build b).2 } (st'.client.build b).1 := by
  rw [idOf, idOf, Client.session?_build, Client.session?_build]
  show (st.client.nextId _).1 = (st'.client.nextId _).1
  rw [Client.nextId, Client.nextId, h.allocators]

theorem buildSession (as : Name) (b : Builder Factory) :
    Together a ρ (st.buildSession as b) (st'.buildSession as b) := by
  obtain ⟨href, hbuild⟩ := h.build b
  have hid := h.idOf_build b
  rw [← href] at hid
  have hanswer := hbuild.answerSession as hid
  show Together a ρ (State.answerSession _ as (st.client.build b).1)
    (State.answerSession _ as (st'.client.build b).1)
  rw [← href]
  exact hanswer

/-- The answer is about a session that has just been registered, maybe in place of another one. -/
theorem displace (as : Name) {ref : SessionRef} (hid : st.idOf ref = st'.idOf ref)
    (displaced : Option SessionRef) :
    Together a ρ
      (match displaced with
      | none => st.answerSession as ref
      | some displaced =>
        { st.answerSession as ref with
          state := (st.answerSession as ref).state.letGo displaced })
      (match displaced with
      | none => st'.answerSession as ref
      | some displaced =>
        { st'.answerSession as ref with
          state := (st'.answerSession as ref).state.letGo displaced }) := by
  have hanswer := h.answerSession as hid
  cases displaced with
  | none => exact hanswer
  | some old => exact { hanswer with state := hanswer.state.letGo old }

theorem register (as registry : Name) (r : Registry Factory) (domain : Domain) :
    Together a ρ (st.register as registry r domain) (st'.register as registry r domain) := by
  obtain ⟨href, hbuild⟩ := h.build (r.builder domain)
  have hnext : (st.client.nextId (r.allocator.getD Client.common)).1 =
      (st'.client.nextId (r.allocator.getD Client.common)).1 := by
    rw [Client.nextId, Client.nextId, h.allocators]
  have hid (side : State Factory Mock.Marshal Fleet) (registries : Named (Registry Factory)) :
      State.idOf { side with client := (side.client.build (r.builder domain)).2, registries }
        (side.client.build (r.builder domain)).1 =
        (side.client.nextId (r.allocator.getD Client.common)).1 := by
    rw [idOf, Client.session?_build]
    rfl
  rw [State.register, State.register, r.create_eq, r.create_eq]
  dsimp only
  rw [hid, hid, ← hnext, ← href, ← h.registries]
  refine displace (hbuild.setRegistries rfl) as ?_ _
  rw [hid, href, hid, hnext]

/-- The session acquires on both sides, and what it creates is paired. -/
theorem draw {s' : Session Factory Mock.Marshal} (hs : st.client.session? a = some s)
    (hs' : st'.client.session? a = some s') (hsession : SessionAlike ρ s s')
    (place : s.factory.place < st.client.world.daemons.length) :
    ∃ new : Renaming, new.keys = minted s st.client.world ∧
      new.keys' = minted s' st'.client.world ∧
      Option.Rel (Mock.Marshal.Alike (ρ ++ new)) (s.acquire st.client.world).1
        (s'.acquire st'.client.world).1 ∧
      Agree a (ρ ++ new)
        { st with
          client := st.client.update a (s.acquire st.client.world).2.1
            (s.acquire st.client.world).2.2 }
        { st' with
          client := st'.client.update a (s'.acquire st'.client.world).2.1
            (s'.acquire st'.client.world).2.2 } := by
  obtain ⟨new, hnew, hnew', hgot, hacquired, world⟩ := h.world.acquire hsession place
  have grows := Fleet.Grows.acquire ρ.keys st.client.world s
  have grows' := Fleet.Grows.acquire ρ.keys' st'.client.world s'
  rw [← hnew, ← Renaming.keys_append] at grows
  rw [← hnew', ← Renaming.keys'_append] at grows'
  exact ⟨new, hnew, hnew', hgot,
    h.update hs hs' (List.subset_append_left ρ new) grows grows' world hacquired⟩

theorem acquire (as : Name) {s' : Session Factory Mock.Marshal}
    (hs : st.client.session? a = some s) (hs' : st'.client.session? a = some s')
    (hsession : SessionAlike ρ s s') (place : s.factory.place < st.client.world.daemons.length) :
    Alongside a ρ (minted s st.client.world) (minted s' st'.client.world) (st.acquire as a s)
      (st'.acquire as a s') := by
  obtain ⟨new, hnew, hnew', hgot, hdraw⟩ := h.draw hs hs' hsession place
  refine ⟨new, hnew, hnew', ?_⟩
  rw [State.acquire, State.acquire]
  generalize s.acquire st.client.world = acquired at hgot hdraw
  generalize s'.acquire st'.client.world = acquired' at hgot hdraw
  obtain ⟨got, s₂, w⟩ := acquired
  obtain ⟨got', s₂', w'⟩ := acquired'
  cases hgot with
  | none => exact ⟨⟨.noMarshal, rfl, hdraw⟩, eq_of_mem_some rfl⟩
  | some hm => exact ⟨⟨.marshal hm, rfl, hdraw.insertMarshal as hm⟩, eq_of_mem_some rfl⟩

theorem lease (as : Name) {s' : Session Factory Mock.Marshal}
    (hs : st.client.session? a = some s) (hs' : st'.client.session? a = some s')
    (hsession : SessionAlike ρ s s') (place : s.factory.place < st.client.world.daemons.length) :
    Alongside a ρ (minted s st.client.world) (minted s' st'.client.world) (st.lease as a)
      (st'.lease as a) := by
  obtain ⟨new, hnew, hnew', hgot, hdraw⟩ := h.draw hs hs' hsession place
  refine ⟨new, hnew, hnew', ?_⟩
  rw [State.lease, State.lease, Lease.start, Lease.start, hs, hs']
  dsimp only
  generalize s.acquire st.client.world = acquired at hgot hdraw
  generalize s'.acquire st'.client.world = acquired' at hgot hdraw
  obtain ⟨got, s₂, w⟩ := acquired
  obtain ⟨got', s₂', w'⟩ := acquired'
  cases hgot with
  | none => exact ⟨⟨.noMarshal, rfl, hdraw⟩, eq_of_mem_some rfl⟩
  | some hm =>
    exact ⟨⟨.marshal hm, rfl, hdraw.putLease as ⟨rfl, .some hm⟩ rfl⟩, eq_of_mem_some rfl⟩

theorem release {s' : Session Factory Mock.Marshal} {m m' : Mock.Marshal}
    (hs : st.client.session? a = some s) (hs' : st'.client.session? a = some s')
    (hsession : SessionAlike ρ s s') (hm : m.Alike ρ m') (name : Name) :
    Together a ρ (st.release a s name m) (st'.release a s' name m') := by
  obtain ⟨hresult, hreleased, world⟩ := h.world.release hsession hm
  have hupdate := h.update hs hs' (List.Subset.refl _) (.release _ _ s m) (.release _ _ s' m') world
    hreleased
  refine ⟨?_, rfl, hupdate.eraseMarshal name⟩
  simp only [State.release, hresult]
  cases (s'.release m' st'.client.world).1 with
  | ok => exact .released
  | error e => exact .failed e

/-- What is left of a lease when its marshal was taken out. -/
theorem detach {m m' : Mock.Marshal} (hm : m.Alike ρ m') (as name : Name) :
    Agree a ρ
      (State.putLease { st with
        leases := st.leases.erase name, marshals := st.marshals.insert as m } none ⟨a, none⟩)
      (State.putLease { st' with
        leases := st'.leases.erase name, marshals := st'.marshals.insert as m' } none
        ⟨a, none⟩) :=
  ((h.eraseLease name).insertMarshal as hm).putLease none ⟨rfl, .none⟩ rfl

theorem setRemoteId {s' : Session Factory Mock.Marshal} (hs : st.client.session? a = some s)
    (hs' : st'.client.session? a = some s') (hsession : SessionAlike ρ s s') (id : UInt32) :
    Agree a ρ
      { st with client := st.client.update a (s.setRemoteId id) st.client.world }
      { st' with client := st'.client.update a (s'.setRemoteId id) st'.client.world } :=
  h.update hs hs' (List.Subset.refl _) (.refl _ _) (.refl _ _) h.world
    { hsession with remoteId := rfl }

/-- A command about the session does on one side what it does on the other. -/
theorem alongside_perform? (sub : Named.Within st.handles st'.handles)
    (places : ∀ f ∈ st.factories, f.place < st.client.world.daemons.length)
    (about : command.isAbout a ρ.keys st = true)
    (respects : command.respects a ρ.keys st = true) :
    Follows (Alongside a ρ (command.creates a st) (command.creates a st')) (st.perform? command)
      (st'.perform? command) := by
  have place {s : Session Factory Mock.Marshal} (hs : st.client.session? a = some s) :
      s.factory.place < st.client.world.daemons.length :=
    places _ (List.mem_append_right _ (List.mem_map_of_mem (List.mem_of_getElem? hs)))
  have aboutNone : ∀ ref ∈ (none : Option SessionRef), ref = a := by
    rintro ref ⟨⟩
  cases command with
  | build as builder =>
    refine .bind fun b hfound => ⟨b, h.builders_eq ▸ hfound, .ok ?_⟩
    exact (h.buildSession as b).alongside (eq_of_mem_some (beq_iff_eq.mp about))
  | session as source allocator domain =>
    refine .bind fun b hfound => ⟨b, h.makeBuilder_eq source allocator domain ▸ hfound, .ok ?_⟩
    exact (h.buildSession as b).alongside (eq_of_mem_some (beq_iff_eq.mp about))
  | registryCreate as registry domain =>
    refine .bind fun r hr => ⟨r, h.registries ▸ hr, .bind fun d hd =>
      ⟨d, h.findDomain_eq domain ▸ hd, .ok ((h.register as registry r d).alongside ?_)⟩⟩
    rw [register_session]
    exact eq_of_mem_some (beq_iff_eq.mp about)
  | cloneSession as handle =>
    refine h.follows_session about fun s s' hs hs' hsession => .ok ?_
    exact (h.answerSession as h.idOf_eq).alongside (eq_of_mem_some rfl)
  | dropSession handle =>
    refine h.follows_session about fun s s' hs hs' hsession => .ok ?_
    exact Together.alongside ⟨.done, rfl, h.dropHandle handle⟩ aboutNone
  | acquire as handle =>
    refine h.follows_session about fun s s' hs hs' hsession => .ok ?_
    rw [Command.creates, Command.creates, hs, hs']
    exact h.acquire as hs hs' hsession (place hs)
  | release handle name =>
    refine h.follows_session about fun s s' hs hs' hsession => ?_
    -- What is released to the session was created for it.
    have hown : st.hasMarshal ρ.keys name = true := by
      rw [← beq_iff_eq.mp respects]
      exact about
    refine h.follows_marshal hown fun m m' hm => .ok ?_
    exact (h.release hs hs' hsession hm name).alongside (eq_of_mem_some rfl)
  | lease as handle =>
    refine h.follows_session about fun s s' hs hs' hsession => .ok ?_
    rw [Command.creates, Command.creates, hs, hs']
    exact h.lease as hs hs' hsession (place hs)
  | leaseInfo name =>
    refine h.follows_lease about fun m m' s s' hm hsession => .ok ?_
    exact Together.alongside ⟨.lease hm hsession, rfl, h⟩ (eq_of_mem_some rfl)
  | leaseDeed name d =>
    refine h.follows_lease about fun m m' s s' hm hsession => .ok ?_
    obtain ⟨hopened, hafter, world⟩ := h.world.deed hm d
    have hafterLease : LeaseAlike ρ ⟨a, some (doDeed m st.client.world d).2.1⟩
        ⟨a, some (doDeed m' st'.client.world d).2.1⟩ := ⟨rfl, .some hafter⟩
    have hdone := (h.setWorld world (.deed _ m _ d) (.deed _ m' _ d)).insertLease name hafterLease
      rfl
    exact Together.alongside ⟨.deed_of_eq hopened hm hafter, rfl, hdone⟩ (eq_of_mem_some rfl)
  | detach as name =>
    refine h.follows_lease about fun m m' s s' hm hsession => .ok ?_
    exact Together.alongside ⟨.marshal hm, rfl, h.detach hm as name⟩ (eq_of_mem_some rfl)
  | dropLease name =>
    refine .bind fun l hfound => ?_
    obtain ⟨hown, l', hlease', hl⟩ := h.lease_alike about (find_ok hfound)
    have hdropped := h.dropLease name
    -- Whether the answer is about the session depends on whether something still holds it.
    refine ⟨l', find_of_some hlease', .ok (Together.alongside ⟨.done, ?_, hdropped⟩ ?_)⟩
    · rw [← hl.session, hown, hdropped.isHeld_eq]
    · intro ref href
      dsimp only at href
      split at href
      · exact (Option.some.inj href).symm.trans hown
      · cases href
  | deed name d =>
    refine h.follows_marshal about fun m m' hm => .ok ?_
    obtain ⟨hopened, hafter, world⟩ := h.world.deed hm d
    have hdone := (h.setWorld world (.deed _ m _ d) (.deed _ m' _ d)).insertMarshal name hafter
    exact Together.alongside ⟨.deed_of_eq hopened hm hafter, rfl, hdone⟩ aboutNone
  | dropMarshal name =>
    refine h.follows_marshal about fun m m' hm => .ok ?_
    exact Together.alongside ⟨.done, rfl, h.eraseMarshal name⟩ aboutNone
  | close handle =>
    refine h.follows_session about fun s s' hs hs' hsession => .ok ?_
    obtain ⟨hcount, hclosed⟩ := h.close
    exact Together.alongside ⟨.count_of_eq hcount, rfl, hclosed⟩ (eq_of_mem_some rfl)
  | setRemoteId handle id =>
    refine h.follows_session about fun s s' hs hs' hsession => .ok ?_
    have hdone := h.setRemoteId hs hs' hsession id
    exact Together.alongside ⟨.done, rfl, hdone⟩ (eq_of_mem_some rfl)
  | inspect handle =>
    refine h.follows_session about fun s s' hs hs' hsession => .ok ?_
    exact Together.alongside ⟨.session hsession, rfl, h⟩ (eq_of_mem_some rfl)
  | same handle other =>
    refine h.follows_session about fun s s' hs hs' hsession => .bind fun (ref, t) hother => ?_
    obtain ⟨t', hother'⟩ := h.findSession_of_left sub hother
    exact ⟨_, hother', .ok (Together.alongside ⟨.truth _, rfl, h⟩ aboutNone)⟩
  | registryGet as name id =>
    refine .bind fun r hr => ⟨r, h.registries ▸ hr, ?_⟩
    rw [Registry.get, lookup?_of_registered (find_ok hr) about]
    exact .ok ((h.answerSession as h.idOf_eq).alongside (eq_of_mem_some rfl))
  | registryRemove as name id =>
    refine .bind fun r hr => ⟨r, h.registries ▸ hr, ?_⟩
    rw [Registry.remove, Registry.remove, lookup?_of_registered (find_ok hr) about]
    have hremoved := h.close.2.setRegistries (congrArg (·.insert name (r.erase id)) h.registries)
    exact .ok ((hremoved.answerSession as hremoved.idOf_eq).alongside (eq_of_mem_some rfl))
  | _ => cases about

/-! ### One command about nobody -/

/-- The sessions with some ids are closed on both sides, and go from the table. -/
theorem removeEach (ids : List UInt64) (r : Registry Factory) :
    (r.removeEach ids st.client).2.1 = (r.removeEach ids st'.client).2.1 ∧
      Agree a ρ { st with client := (r.removeEach ids st.client).2.2 }
        { st' with client := (r.removeEach ids st'.client).2.2 } := by
  induction ids generalizing st st' r with
  | nil => exact ⟨rfl, h⟩
  | cons id ids ih =>
    rw [Registry.removeEach_cons, Registry.removeEach_cons, Registry.remove_registry,
      Registry.remove_registry]
    cases hid : r.lookup? id with
    | none =>
      rw [Registry.remove_of_none _ hid, Registry.remove_of_none _ hid]
      exact ih h (r.erase id)
    | some ref =>
      simp only [Registry.remove, hid]
      exact ih (h.closeAny ref) (r.erase id)

/-- A factory creates a marshal on both sides. -/
theorem create (as : Name) {f : Factory} (place : f.place < st.client.world.daemons.length) :
    Agree a ρ
      { st with
        client := { st.client with world := (f.create st.client.world).2 }
        marshals := st.marshals.insert as (f.create st.client.world).1 }
      { st' with
        client := { st'.client with world := (f.create st'.client.world).2 }
        marshals := st'.marshals.insert as (f.create st'.client.world).1 } := by
  have place' : f.place < st'.client.world.daemons.length := h.world.length ▸ place
  obtain ⟨world, hnew⟩ := Fleet.Beside.create h.world.sound place
  obtain ⟨world', hnew'⟩ := Fleet.Beside.create h.world.sound' place'
  have hcreated := (h.left (h.others.beside_world world)).right (h.others'.beside_world world')
  exact hcreated.insertForeign as hnew hnew'

/-- A command that is kept, and is not to a session, a lease or a marshal, does the same on both
sides. -/
theorem kept_perform? (sub : Named.Within st.handles st'.handles)
    (places : ∀ f ∈ st.factories, f.place < st.client.world.daemons.length)
    (outward : command.isInward = false) (respects : command.respects a ρ.keys st = true) :
    Follows (fun o o' => o.session = o'.session ∧ Agree a ρ o.state o'.state)
      (st.perform? command) (st'.perform? command) := by
  have hsources := h.sources_eq
  have hdomains := h.domains_eq
  have hallocators := h.allocators_eq
  have hbuilders := h.builders_eq
  cases command with
  | change c =>
    cases c with
    | start d =>
      have hd : d.log = #[] := by simpa [Command.respects] using respects
      exact .ok ⟨rfl, h.setWorld (h.world.start hd) (.start _ _ d) (.start _ _ d)⟩
    | setAccepting place on =>
      exact .ok ⟨rfl, h.setWorld (h.world.setAccepting place on) (.setAccepting _ _ place on)
        (.setAccepting _ _ place on)⟩
  | source as f => exact .ok ⟨rfl, h.setTables (by rw [hsources, hdomains, hallocators, hbuilders])⟩
  | domain as d => exact .ok ⟨rfl, h.setTables (by rw [hsources, hdomains, hallocators, hbuilders])⟩
  | setDomain name host port id =>
    refine .bind fun d hfound => ⟨d, hdomains ▸ hfound, .ok ⟨rfl, h.setTables ?_⟩⟩
    rw [hsources, hdomains, hallocators, hbuilders]
  | allocator as allocator =>
    have hplace : st.client.allocators.length = st'.client.allocators.length := by
      rw [h.allocators]
    have hadded : st.client.allocators ++ [allocator] = st'.client.allocators ++ [allocator] := by
      rw [h.allocators]
    refine .ok ⟨rfl, (h.setAllocators hadded).setTables ?_⟩
    show (st.sources, st.domains, st.allocators.insert as st.client.allocators.length, _) =
      (st'.sources, st'.domains, st'.allocators.insert as st'.client.allocators.length, _)
    rw [hplace, hsources, hdomains, hallocators, hbuilders]
  | nextId name =>
    have hnext (ref : AllocatorRef) :
        st.client.allocators.modify ref (·.next.2) =
          st'.client.allocators.modify ref (·.next.2) := by
      rw [h.allocators]
    exact .bind fun ref hfound =>
      ⟨ref, hallocators ▸ hfound, .ok ⟨rfl, h.setAllocators (hnext ref)⟩⟩
  | lastId name =>
    exact .bind fun ref hfound => ⟨ref, hallocators ▸ hfound, .ok ⟨rfl, h⟩⟩
  | builder as source allocator domain =>
    refine .bind fun b hfound => ⟨b, h.makeBuilder_eq source allocator domain ▸ hfound, .ok ?_⟩
    exact ⟨rfl, h.setTables (by rw [hsources, hdomains, hallocators, hbuilders])⟩
  | rebuilder as builder source allocator =>
    refine .bind fun b hb => ⟨b, hbuilders ▸ hb, .bind fun f hf => ⟨f, hsources ▸ hf,
      .bind fun other hother => ⟨other, h.findAllocator_eq allocator ▸ hother, .ok ?_⟩⟩⟩
    exact ⟨rfl, h.setTables (by rw [hsources, hdomains, hallocators, hbuilders])⟩
  | build as builder =>
    exact .bind fun b hfound => ⟨b, hbuilders ▸ hfound, .ok (h.buildSession as b).kept⟩
  | session as source allocator domain =>
    exact .bind fun b hfound =>
      ⟨b, h.makeBuilder_eq source allocator domain ▸ hfound, .ok (h.buildSession as b).kept⟩
  | cloneSession as handle =>
    refine .bind fun found hfound => ?_
    obtain ⟨s', hfound'⟩ := h.findSession_of_left sub hfound
    exact ⟨_, hfound', .ok ⟨rfl, h.putHandle as found.1⟩⟩
  | create as source =>
    refine .bind fun f hf => ⟨f, hsources ▸ hf, .ok ⟨rfl, h.create as (places f ?_)⟩⟩
    have hknown := Named.mem_values_of_get? (find_ok hf)
    exact List.mem_append_left _ (List.mem_append_left _ (List.mem_append_left _ hknown))
  | registry as source allocator =>
    exact .bind fun f hf => ⟨f, hsources ▸ hf, .bind fun other hother =>
      ⟨other, h.findAllocator_eq allocator ▸ hother, .ok ⟨rfl, h.putRegistry as _⟩⟩⟩
  | withAllocator registry allocator =>
    exact .bind fun r hr => ⟨r, h.registries ▸ hr, .bind fun ref href =>
      ⟨ref, hallocators ▸ href, .ok ⟨rfl, h.setRegistries (by rw [h.registries])⟩⟩⟩
  | registryCreate as registry domain =>
    exact .bind fun r hr => ⟨r, h.registries ▸ hr, .bind fun d hd =>
      ⟨d, h.findDomain_eq domain ▸ hd, .ok (h.register as registry r d).kept⟩⟩
  | registryGet as registry id =>
    refine .bind fun r hr => ⟨r, h.registries ▸ hr, ?_⟩
    cases r.get id with
    | error e => exact .ok ⟨rfl, h⟩
    | ok ref => exact .ok ⟨rfl, h.putHandle as ref⟩
  | registryRemove as registry id =>
    refine .bind fun r hr => ⟨r, h.registries ▸ hr, ?_⟩
    dsimp only [Registry.remove]
    cases r.lookup? id with
    | none => exact .ok ⟨rfl, h⟩
    | some ref =>
      exact .ok ⟨rfl, ((h.closeAny ref).setRegistries (by rw [h.registries])).putHandle as ref⟩
  | registryFind => cases respects
  | registryIds registry => exact .bind fun r hr => ⟨r, h.registries ▸ hr, .ok ⟨rfl, h⟩⟩
  | registryCloseAll registry =>
    refine .bind fun r hr => ⟨r, h.registries ▸ hr, .ok ⟨rfl, ?_⟩⟩
    obtain ⟨htable, hclosed⟩ := h.removeEach r.ids r
    exact hclosed.setRegistries (congrArg₂ (·.insert registry ·) h.registries htable)
  | dropRegistry registry =>
    exact .bind fun r hr => ⟨r, h.registries ▸ hr, .ok ⟨rfl, h.dropRegistry registry⟩⟩
  | _ => cases outward

end Agree

end State

end SessionPool.Script
