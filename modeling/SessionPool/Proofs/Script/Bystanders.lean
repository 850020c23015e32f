import SessionPool.Proofs.Script.Agreement
import SessionPool.Proofs.Script.Marshals
import SessionPool.Proofs.Script.Performed

/-!
# What is done with other sessions

A command is about a session when it is given to a handle to it, to a lease from it or to a marshal
that came from it, when it makes the session, or when it gets it from a registry by its id. What a
script does besides is done with other sessions. As long as it respects what belongs to the session,
nothing of it concerns the session:

    not about a  ⟹  st.Beside a keys (st.perform command).2.
-/

namespace SessionPool.Script

open Mock (Factory Fleet Key Renaming Matched SessionAlike minted)

namespace State

/-- Whether a name stands for a handle to a session. -/
def hasHandle {φ μ ω : Type} (st : State φ μ ω) (a : SessionRef) (name : Name) : Bool :=
  (st.handles.getIf (· == a) name).isSome

/-- Whether a name stands for a lease from a session. -/
def hasLease {φ μ ω : Type} (st : State φ μ ω) (a : SessionRef) (name : Name) : Bool :=
  (st.leases.getIf (·.session == a) name).isSome

/-- Whether a name stands for one of the marshals with the given keys. -/
def hasMarshal (st : State Factory Mock.Marshal Fleet) (keys : List Key) (name : Name) : Bool :=
  (st.marshals.getIf (keys.contains ·.key) name).isSome

/-- The session registered under an id in the registry of a name. -/
def registered? {φ μ ω : Type} (st : State φ μ ω) (name : Name) (id : UInt64) :
    Option SessionRef :=
  (st.registries.get? name).bind (·.lookup? id)

end State

namespace Command

/-- Whether a command is about a session. The keys are those of the marshals that were created for
the session. -/
def isAbout (a : SessionRef) (keys : List Key) (st : State Factory Mock.Marshal Fleet) :
    Command Factory FleetChange MockAct → Bool
  | .build _ _ | .session _ _ _ _ | .registryCreate _ _ _ => st.client.sessions.length == a
  | .cloneSession _ handle | .dropSession handle | .acquire _ handle | .release handle _
  | .lease _ handle | .close handle | .setRemoteId handle _ | .inspect handle | .same handle _ =>
    st.hasHandle a handle
  | .leaseInfo name | .leaseDeed name _ | .detach _ name | .dropLease name => st.hasLease a name
  | .deed name _ | .dropMarshal name => st.hasMarshal keys name
  | .registryGet _ name id | .registryRemove _ name id => st.registered? name id == some a
  | _ => false

/-- The marshals that a command creates if it is about a session. -/
def creates (a : SessionRef) (st : State Factory Mock.Marshal Fleet) :
    Command Factory FleetChange MockAct → List Key
  | .acquire _ _ | .lease _ _ =>
    match st.client.session? a with
    | some s => minted s st.client.world
    | none => []
  | _ => []

/-- Whether a command respects what belongs to a session: marshals that were created for it are
released to it, and no others are; and what other sessions hand out gets no name that a lease from
it or a marshal of it has. Daemons start with nothing in their logs, and factories are taken from
daemons that were started. Nobody looks for sessions by their remote ids. -/
def respects (a : SessionRef) (keys : List Key) (st : State Factory Mock.Marshal Fleet) :
    Command Factory FleetChange MockAct → Bool
  | .change (.start d) => d.log.isEmpty
  | .source _ f => f.place < st.client.world.daemons.length
  | .release handle name => st.hasHandle a handle == st.hasMarshal keys name
  | .acquire as handle => st.hasHandle a handle || !st.hasMarshal keys as
  | .lease as handle => st.hasHandle a handle || !st.hasLease a as
  | .detach as name => st.hasLease a name || !st.hasMarshal keys as
  | .registryFind _ _ _ _ => false
  | _ => true

/-- Whether a command is one to a session, a lease or a marshal, and makes no handle. -/
def isInward {φ χ α : Type} : Command φ χ α → Bool
  | .dropSession _ | .acquire _ _ | .release _ _ | .lease _ _ | .leaseInfo _ | .leaseDeed _ _
  | .detach _ _ | .dropLease _ | .deed _ _ | .dropMarshal _ | .close _ | .setRemoteId _ _
  | .inspect _ | .same _ _ => true
  | _ => false

end Command

namespace State

variable {a ref : SessionRef} {keys : List Key} {st : State Factory Mock.Marshal Fleet}
  {name : Name} {s : Session Factory Mock.Marshal} {m : Mock.Marshal}
  {command : Command Factory FleetChange MockAct}

/-! ### Whose things they are -/

theorem getIf_of_hasHandle (h : st.hasHandle a name = false) :
    st.handles.getIf (· == a) name = none := by
  simpa [hasHandle] using h

theorem getIf_of_hasLease (h : st.hasLease a name = false) :
    st.leases.getIf (·.session == a) name = none := by
  simpa [hasLease] using h

theorem getIf_of_hasMarshal (h : st.hasMarshal keys name = false) :
    st.marshals.getIf (keys.contains ·.key) name = none := by
  simpa [hasMarshal] using h

theorem ne_of_hasHandle (h : st.hasHandle a name = false) (hget : st.handles.get? name = some ref) :
    ref ≠ a := by
  simpa using Named.eq_false_of_getIf (getIf_of_hasHandle h) hget

theorem ne_of_hasLease (h : st.hasLease a name = false) {l : Lease Mock.Marshal}
    (hget : st.leases.get? name = some l) : l.session ≠ a := by
  simpa using Named.eq_false_of_getIf (getIf_of_hasLease h) hget

theorem not_mem_of_hasMarshal (h : st.hasMarshal keys name = false)
    (hget : st.marshals.get? name = some m) : m.key ∉ keys := by
  simpa using Named.eq_false_of_getIf (getIf_of_hasMarshal h) hget

theorem ne_of_mem_some (href : ref ≠ a) : ∀ other ∈ some ref, other ≠ a := by
  rintro other ⟨⟩
  exact href

/-! ### One command -/

/-- What comes of a command that is about another session. -/
def Elsewhere (a : SessionRef) (keys : List Key) (st : State Factory Mock.Marshal Fleet)
    (o : Outcome Factory Mock.Marshal Fleet) : Prop :=
  st.Beside a keys o.state ∧ ∀ ref ∈ o.session, ref ≠ a

namespace Others

variable (h : st.Others a keys)
include h

/-- Another session acquires. -/
theorem beside_draw (sound : st.client.world.Sound keys) (href : ref ≠ a)
    (hs : st.client.session? ref = some s)
    (place : s.factory.place < st.client.world.daemons.length) :
    Beside a keys st { st with
        client := st.client.update ref (s.acquire st.client.world).2.1
          (s.acquire st.client.world).2.2 } ∧
      ∀ m ∈ (s.acquire st.client.world).1, (s.acquire st.client.world).2.2.Foreign keys m := by
  obtain ⟨world, hgot, hidle⟩ := Fleet.Beside.acquire sound place (h.idle ref s href hs)
  exact ⟨h.beside_update href hs world hidle, hgot⟩

theorem elsewhere_acquire (sound : st.client.world.Sound keys) (href : ref ≠ a)
    (hs : st.client.session? ref = some s)
    (place : s.factory.place < st.client.world.daemons.length)
    (free : st.hasMarshal keys name = false) : Elsewhere a keys st (st.acquire name ref s) := by
  obtain ⟨hdraw, hgot⟩ := h.beside_draw sound href hs place
  rw [State.acquire]
  generalize s.acquire st.client.world = acquired at hdraw hgot
  obtain ⟨got, s', w⟩ := acquired
  cases got with
  | none => exact ⟨hdraw, ne_of_mem_some href⟩
  | some m =>
    have hinsert := hdraw.others.beside_insertMarshal (getIf_of_hasMarshal free) (hgot m rfl)
    exact ⟨hdraw.trans hinsert, ne_of_mem_some href⟩

theorem elsewhere_lease (sound : st.client.world.Sound keys) (href : ref ≠ a)
    (hs : st.client.session? ref = some s)
    (place : s.factory.place < st.client.world.daemons.length)
    (free : st.hasLease a name = false) : Elsewhere a keys st (st.lease name ref) := by
  obtain ⟨hdraw, hgot⟩ := h.beside_draw sound href hs place
  rw [State.lease, Lease.start, hs]
  dsimp only
  generalize s.acquire st.client.world = acquired at hdraw hgot
  obtain ⟨got, s', w⟩ := acquired
  cases got with
  | none => exact ⟨hdraw, ne_of_mem_some href⟩
  | some m =>
    have hput := hdraw.others.beside_putLease (l := ⟨ref, some m⟩) (getIf_of_hasLease free) href
      hgot
    exact ⟨hdraw.trans hput, ne_of_mem_some href⟩

theorem elsewhere_release (href : ref ≠ a) (hs : st.client.session? ref = some s)
    (hm : st.client.world.Foreign keys m) (free : st.hasMarshal keys name = false) :
    Elsewhere a keys st (st.release ref s name m) := by
  obtain ⟨world, hidle⟩ := Fleet.Beside.release hm (h.idle ref s href hs)
  have hupdate := h.beside_update href hs world hidle
  have herase := hupdate.others.beside_eraseMarshal (getIf_of_hasMarshal free)
  exact ⟨hupdate.trans herase, ne_of_mem_some href⟩

/-- What is left of a lease when its marshal was taken out. -/
theorem beside_detach {as : Name} (hl : ref ≠ a) (hm : st.client.world.Foreign keys m)
    (cleared : st.leases.get? none = none) (hlease : st.hasLease a name = false)
    (free : st.hasMarshal keys as = false) :
    Beside a keys st (State.putLease { st with
      leases := st.leases.erase name, marshals := st.marshals.insert as m } none ⟨ref, none⟩) := by
  have herase := h.beside_eraseLease (getIf_of_hasLease hlease)
  have hinsert := herase.trans (herase.others.beside_insertMarshal (getIf_of_hasMarshal free) hm)
  refine hinsert.trans (hinsert.others.beside_putLease ?_ hl ?_)
  · exact Named.getIf_of_none (Named.get?_erase_eq_none _ cleared _)
  · intro m hm
    cases hm

/-- Something is done to a marshal in a lease. -/
theorem beside_leaseDeed {l : Lease Mock.Marshal} (hl : l.session ≠ a)
    (hlease : st.hasLease a name = false) (hm : st.client.world.Foreign keys m)
    (d : Deed MockAct) :
    Beside a keys st { st with
      client := { st.client with world := (doDeed m st.client.world d).2.2 }
      leases := st.leases.insert name
        { l with marshal := some (doDeed m st.client.world d).2.1 } } := by
  obtain ⟨world, hafter⟩ := Fleet.Beside.deed hm d
  have hworld := h.beside_world world
  refine hworld.trans (hworld.others.beside_insertLease (getIf_of_hasLease hlease) hl ?_)
  rintro m ⟨⟩
  exact hafter

theorem beside_deed (hname : st.hasMarshal keys name = false)
    (hm : st.client.world.Foreign keys m) (d : Deed MockAct) :
    Beside a keys st { st with
      client := { st.client with world := (doDeed m st.client.world d).2.2 }
      marshals := st.marshals.insert name (doDeed m st.client.world d).2.1 } := by
  obtain ⟨world, hafter⟩ := Fleet.Beside.deed hm d
  have hworld := h.beside_world world
  exact hworld.trans (hworld.others.beside_insertMarshal (getIf_of_hasMarshal hname) hafter)

/-- What is done with other sessions does not concern the session. -/
theorem beside_perform? (sound : st.client.world.Sound keys) (cleared : st.Cleared)
    (places : ∀ f ∈ st.factories, f.place < st.client.world.daemons.length)
    (inward : command.isInward = true) (other : command.isAbout a keys st = false)
    (respects : command.respects a keys st = true) :
    Yields (Elsewhere a keys st) (st.perform? command) := by
  have place {ref : SessionRef} {s : Session Factory Mock.Marshal}
      (hs : st.client.session? ref = some s) :
      s.factory.place < st.client.world.daemons.length :=
    places _ (List.mem_append_right _ (List.mem_map_of_mem (List.mem_of_getElem? hs)))
  cases command with
  | dropSession handle =>
    refine .bind _ fun _ _ => .ok ⟨h.beside_dropHandle (getIf_of_hasHandle other), ?_⟩
    rintro ref ⟨⟩
  | acquire as handle =>
    refine .bind _ fun (ref, s) hfound => .ok ?_
    obtain ⟨hhandle, hs⟩ := findSession_ok hfound
    simp only [Command.isAbout] at other
    simp only [Command.respects, other, Bool.false_or, Bool.not_eq_true'] at respects
    exact h.elsewhere_acquire sound (ne_of_hasHandle other hhandle) hs (place hs) respects
  | release handle name =>
    refine .bind _ fun (ref, s) hfound => .bind _ fun m hm => .ok ?_
    obtain ⟨hhandle, hs⟩ := findSession_ok hfound
    simp only [Command.isAbout] at other
    simp only [Command.respects, other, beq_iff_eq] at respects
    -- Only the session itself is given its marshals back.
    have hother := not_mem_of_hasMarshal respects.symm (find_ok hm)
    exact h.elsewhere_release (ne_of_hasHandle other hhandle) hs
      (h.marshals name m (find_ok hm) hother) respects.symm
  | lease as handle =>
    refine .bind _ fun (ref, s) hfound => .ok ?_
    obtain ⟨hhandle, hs⟩ := findSession_ok hfound
    simp only [Command.isAbout] at other
    simp only [Command.respects, other, Bool.false_or, Bool.not_eq_true'] at respects
    exact h.elsewhere_lease sound (ne_of_hasHandle other hhandle) hs (place hs) respects
  | leaseInfo name =>
    refine .bind _ fun (l, m, s) hfound => .ok ⟨.refl h, ne_of_mem_some ?_⟩
    exact ne_of_hasLease other (findLease_ok hfound).1
  | leaseDeed name d =>
    refine .bind _ fun (l, m, s) hfound => .ok ?_
    obtain ⟨hlease, hm, -⟩ := findLease_ok hfound
    have hl := ne_of_hasLease other hlease
    exact ⟨h.beside_leaseDeed hl other (h.leases name l hlease hl m hm) d, ne_of_mem_some hl⟩
  | detach as name =>
    refine .bind _ fun (l, m, s) hfound => .ok ?_
    obtain ⟨hlease, hm, -⟩ := findLease_ok hfound
    have hl := ne_of_hasLease other hlease
    simp only [Command.isAbout] at other
    simp only [Command.respects, other, Bool.false_or, Bool.not_eq_true'] at respects
    exact ⟨h.beside_detach hl (h.leases name l hlease hl m hm) cleared.settled.leases other
      respects, ne_of_mem_some hl⟩
  | dropLease name =>
    refine .bind _ fun l hfound => .ok ⟨h.beside_dropLease (getIf_of_hasLease other), ?_⟩
    have hl := ne_of_hasLease other (find_ok hfound)
    intro ref href
    dsimp only at href
    split at href
    · exact ne_of_mem_some hl ref href
    · cases href
  | deed name d =>
    refine .bind _ fun m hm => .ok ?_
    have hother := not_mem_of_hasMarshal other (find_ok hm)
    refine ⟨h.beside_deed other (h.marshals name m (find_ok hm) hother) d, ?_⟩
    rintro ref ⟨⟩
  | dropMarshal name =>
    refine .bind _ fun m hm => .ok ⟨h.beside_eraseMarshal (getIf_of_hasMarshal other), ?_⟩
    rintro ref ⟨⟩
  | close handle =>
    refine .bind _ fun (ref, s) hfound => .ok ?_
    have href := ne_of_hasHandle other (findSession_ok hfound).1
    exact ⟨h.beside_close href, ne_of_mem_some href⟩
  | setRemoteId handle id =>
    refine .bind _ fun (ref, s) hfound => .ok ?_
    obtain ⟨hhandle, hs⟩ := findSession_ok hfound
    have href := ne_of_hasHandle other hhandle
    exact ⟨h.beside_update href hs (.refl _ _) (h.idle ref s href hs), ne_of_mem_some href⟩
  | inspect handle =>
    refine .bind _ fun (ref, s) hfound => .ok ⟨.refl h, ne_of_mem_some ?_⟩
    exact ne_of_hasHandle other (findSession_ok hfound).1
  | same handle other =>
    refine .bind _ fun _ _ => .bind _ fun _ _ => .ok ⟨.refl h, ?_⟩
    rintro ref ⟨⟩
  | _ => cases inward

/-- Nor does it when the step is over. -/
theorem beside_perform (sound : st.client.world.Sound keys) (cleared : st.Cleared)
    (places : ∀ f ∈ st.factories, f.place < st.client.world.daemons.length)
    (inward : command.isInward = true) (other : command.isAbout a keys st = false)
    (respects : command.respects a keys st = true) : Beside a keys st (st.perform command).2 := by
  have hyields := h.beside_perform? sound cleared places inward other respects
  cases hr : st.perform? command with
  | error kind =>
    rw [(perform_of_error hr).2]
    exact .refl h
  | ok o =>
    obtain ⟨hbeside, habout⟩ := hyields o hr
    rw [(perform_of_ok hr).2]
    exact hbeside.settle cleared habout

end Others

end State

/-! ### Factories -/

section Places

variable {x y : Moment Factory Mock.Marshal Fleet} {tag : Tag Factory FleetChange MockAct}
  {command : Command Factory FleetChange MockAct}
  {st : State Factory Mock.Marshal Fleet}

theorem length_close (st : State Factory Mock.Marshal Fleet) (ref : SessionRef) :
    st.client.world.daemons.length ≤ (st.client.close ref).2.world.daemons.length := by
  cases hs : st.client.session? ref with
  | none => exact Nat.le_of_eq (by rw [Client.close_of_none hs])
  | some s =>
    rw [Client.close_of_some hs]
    exact (Fleet.Grows.closeSession [] st.client.world s).length

/-- No daemon ever goes. -/
theorem Act.length (hact : Act tag x y) :
    x.state.client.world.daemons.length ≤ y.state.client.world.daemons.length := by
  cases hact with
  | rehold _ _ world => exact Nat.le_of_eq (by rw [world])
  | letGo _ ref =>
    rw [State.letGo]
    split
    · exact Nat.le_refl _
    · exact length_close x.state ref
  | build _ b => exact Nat.le_refl _
  | source _ as f => exact Nat.le_refl _
  | change _ c =>
    cases c with
    | start d => exact (Fleet.Grows.start [] _ d).length
    | setAccepting place on => exact (Fleet.Grows.setAccepting [] _ place on).length
  | create f _ _ _ world =>
    rw [world]
    exact (Fleet.Grows.create [] f _).length
  | deed d m _ _ _ world =>
    rw [world]
    exact (Fleet.Grows.deed [] m _ d).length
  | draw _ hs client =>
    rw [client]
    exact (Fleet.Grows.acquire [] _ _).length
  | giveBack _ hs client =>
    rw [client]
    exact (Fleet.Grows.release [] _ _ _).length
  | close _ ref => exact length_close x.state ref
  | relabel => exact Nat.le_refl _
  | free _ _ _ world => exact Nat.le_of_eq (by rw [world])

/-- A state between two steps, in which all factories are taken from daemons that were started. -/
structure State.Grounded (st : State Factory Mock.Marshal Fleet) : Prop where
  cleared : st.Cleared
  order : st.InOrder
  places : ∀ f ∈ st.factories, f.place < st.client.world.daemons.length

theorem State.Grounded.perform (h : st.Grounded) {a : SessionRef} {keys : List Key}
    (respects : command.respects a keys st = true) : (st.perform command).2.Grounded := by
  obtain ⟨horder, hacts⟩ := st.perform_course h.cleared.settled h.order command
  refine ⟨h.cleared.perform command, horder, ?_⟩
  -- By induction on what the command does: a factory that is new is one that it was checked for.
  have hplaces (x : Moment Factory Mock.Marshal Fleet)
      (hacts : Acts (command.allows st) ⟨[], [], st⟩ x) :
      st.client.world.daemons.length ≤ x.state.client.world.daemons.length ∧
        ∀ f ∈ x.state.factories, f.place < x.state.client.world.daemons.length := by
    induction hacts with
    | refl => exact ⟨Nat.le_refl _, h.places⟩
    | tail _ hact ih =>
      obtain ⟨tag, hallows, hact⟩ := hact
      obtain ⟨hlength, hold⟩ := ih
      have hlater := hact.length
      refine ⟨Nat.le_trans hlength hlater, fun f hf => ?_⟩
      rcases hact.factories hf with hknown | rfl
      · exact Nat.lt_of_lt_of_le (hold f hknown) hlater
      · obtain ⟨as, rfl⟩ := hallows
        have hnew : f.place < st.client.world.daemons.length := of_decide_eq_true respects
        omega
  exact (hplaces _ hacts).2

end Places

end SessionPool.Script
