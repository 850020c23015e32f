import SessionPool.Script.Perform
import SessionPool.Proofs.Script.Clients
import SessionPool.Proofs.Script.Named

/-!
# Scripts without leases

A lease can be replaced by its parts: the marshal is acquired, used under the name of the lease, and
released at the end to the session that it is from. For that a script has to be one that a borrow
checker would let pass. A lease borrows its session through a handle, and as long as it lasts nobody
drops that handle or gives its name away; the name of a lease is no marshal's, and the other way
round.

    lease l s ↦ acquire l s      drop l ↦ release s l      detach l ↦ (keep l)

A script and its replacement then go through the same states, but for where the marshals are that
are on loan. Here this is shown for the commands that have nothing to do with marshals.
-/

namespace SessionPool.Script

variable {φ μ ω χ α : Type}

/-! ### Checking and replacing -/

/-- What a name stands for: a lease from the session of a handle, or a marshal. -/
inductive Owned where
  | loan (handle : Name)
  | marshal
  deriving DecidableEq, Repr

/-- The names of leases and marshals. -/
abbrev Names := Named Owned

namespace Names

/-- Whether a name is that of a lease. -/
def isLoan (names : Names) (name : Name) : Bool :=
  match names.get? name with
  | some (.loan _) => true
  | _ => false

/-- Whether a session is on loan through a handle. -/
def lends (names : Names) (handle : Name) : Bool := names.values.contains (.loan handle)

/-- The handle through which a lease borrows its session. -/
def lender (names : Names) (name : Name) : Name :=
  match names.get? name with
  | some (.loan handle) => handle
  | _ => none

end Names

namespace Command

/-- Whether a borrow checker lets a command pass. -/
def passes (names : Names) : Command φ χ α → Bool
  | .lease as handle => as.isSome && handle.isSome && (names.get? as).isNone
  | .leaseInfo name | .leaseDeed name _ | .dropLease name => names.isLoan name
  | .detach as name => as == name && names.isLoan name
  | .acquire as _ | .create as _ => !names.isLoan as
  | .release _ name | .deed name _ | .dropMarshal name => !names.isLoan name
  | .build as _ | .session as _ _ _ | .cloneSession as _ | .registryCreate as _ _
  | .registryGet as _ _ | .registryRemove as _ _ | .registryFind as _ _ _ => !names.lends as
  | .dropSession handle => !names.lends handle
  | _ => true

/-- The names after a command. -/
def names (names : Names) : Command φ χ α → Names
  | .lease as handle => names.insert as (.loan handle)
  | .acquire as _ | .create as _ | .detach as _ => names.insert as .marshal
  | .dropLease name => names.erase name
  | _ => names

/-- A command that does the same without leases. -/
def unleased (names : Names) : Command φ χ α → Command φ χ α
  | .lease as handle => .acquire as handle
  | .leaseInfo name => .deed name .look
  | .leaseDeed name d => .deed name d
  | .detach _ name => .deed name .look
  | .dropLease name => .release (names.lender name) name
  | command => command

/-- Whether a command has to do with leases or marshals. -/
def handlesMarshals : Command φ χ α → Bool
  | .acquire _ _ | .release _ _ | .lease _ _ | .leaseInfo _ | .leaseDeed _ _ | .detach _ _
  | .dropLease _ | .create _ _ | .deed _ _ | .dropMarshal _ => true
  | _ => false

end Command

/-- Whether a borrow checker lets a script pass. -/
def passes : Names → List (Command φ χ α) → Bool
  | _, [] => true
  | names, command :: commands =>
    command.passes names && passes (command.names names) commands

/-- A script that does the same without leases. -/
def unleased : Names → List (Command φ χ α) → List (Command φ χ α)
  | _, [] => []
  | names, command :: commands =>
    command.unleased names :: unleased (command.names names) commands

theorem Names.lends_of_loan {names : Names} {name handle : Name}
    (h : names.get? name = some (.loan handle)) : names.lends handle = true :=
  List.contains_iff_mem.mpr (Named.mem_values_of_get? h)

namespace State

/-! ### States without leases -/

/-- A state in which all marshals that are held are held by themselves. -/
def unleased (st : State φ μ ω) (marshals : Named μ) : State φ μ ω :=
  { st with leases := {}, marshals }

@[simp] theorem unleased_client (st : State φ μ ω) (marshals : Named μ) :
    (st.unleased marshals).client = st.client := rfl

@[simp] theorem unleased_handles (st : State φ μ ω) (marshals : Named μ) :
    (st.unleased marshals).handles = st.handles := rfl

/-- A lease as it should be while it lasts: it has its marshal, and the handle through which it
borrows its session is still there. -/
structure IsLoan (names : Names) (st : State φ μ ω) (name : Name) (lease : Lease μ) : Prop where
  named : name ≠ none
  full : lease.marshal.isSome = true
  borrowed : ∃ handle, handle ≠ none ∧ names.get? name = some (.loan handle) ∧
    st.handles.get? handle = some lease.session
  there : (st.client.session? lease.session).isSome = true

/-- A state, and its marshals when there are no leases: those under the names of marshals, and those
under the names of leases. -/
structure Lent (names : Names) (st : State φ μ ω) (marshals : Named μ) : Prop where
  marshals_eq : ∀ name, marshals.get? name =
    ((st.leases.get? name).bind (·.marshal)).or (st.marshals.get? name)
  loans : ∀ name lease, st.leases.get? name = some lease → st.IsLoan names name lease
  owned : ∀ name m, st.marshals.get? name = some m → names.get? name = some .marshal
  proper : st.leases.Proper

/-- A state, and the same without leases. -/
structure Twin (names : Names) (marshals : Named μ) (st st' : State φ μ ω) : Prop where
  eq : st' = st.unleased marshals
  lent : st.Lent names marshals

/-- Outcomes about the same session, with replies that are related, whose states differ in nothing
but the leases. -/
structure TwinOutcome (R : Reply φ μ → Reply φ μ → Prop) (names : Names) (marshals : Named μ)
    (o o' : Outcome φ μ ω) : Prop where
  reply : R o.reply o'.reply
  session : o.session = o'.session
  state : Twin names marshals o.state o'.state

variable {names : Names} {marshals : Named μ} {st st' : State φ μ ω}

namespace Lent

theorem not_none (h : st.Lent names marshals) : st.leases.get? none = none := by
  cases hlease : st.leases.get? none with
  | none => rfl
  | some lease => exact absurd rfl (h.loans none lease hlease).named

/-- The sessions of all leases are held by handles. -/
theorem covered (h : st.Lent names marshals) {ref : SessionRef}
    (href : ref ∈ st.leases.values.map (·.session)) : ref ∈ st.handles.values := by
  obtain ⟨lease, hlease, rfl⟩ := List.mem_map.mp href
  obtain ⟨name, hname⟩ := h.proper.mem_values_iff.mp hlease
  obtain ⟨handle, -, -, hhandle⟩ := (h.loans name lease hname).borrowed
  exact Named.mem_values_of_get? hhandle

theorem isHeld_unleased (h : st.Lent names marshals) (ref : SessionRef) :
    (st.unleased marshals).isHeld ref = st.isHeld ref := by
  rw [Bool.eq_iff_iff, isHeld, isHeld, List.contains_iff_mem, List.contains_iff_mem]
  show ref ∈ st.handles.values ++ [] ++ _ ↔ ref ∈ st.handles.values ++ _ ++ _
  rw [List.append_nil, List.mem_append, List.mem_append, List.mem_append, or_assoc]
  constructor
  · rintro (hhandle | hregistry)
    · exact .inl hhandle
    · exact .inr (.inr hregistry)
  · rintro (hhandle | hlease | hregistry)
    · exact .inl hhandle
    · exact .inl (h.covered hlease)
    · exact .inr hregistry

/-- It does not matter what else a state has. -/
theorem congr (h : st.Lent names marshals) (hclient : st'.client = st.client)
    (hhandles : st'.handles = st.handles) (hleases : st'.leases = st.leases)
    (hmarshals : st'.marshals = st.marshals) : st'.Lent names marshals where
  marshals_eq := by
    rw [hleases, hmarshals]
    exact h.marshals_eq
  loans name lease hlease := by
    have loan := h.loans name lease (hleases ▸ hlease)
    exact ⟨loan.named, loan.full, hhandles ▸ loan.borrowed, hclient ▸ loan.there⟩
  owned := hmarshals ▸ h.owned
  proper := hleases ▸ h.proper

theorem setClient (h : st.Lent names marshals) {client : Client φ μ ω}
    (onward : st.client.Onward client) : { st with client }.Lent names marshals where
  marshals_eq := h.marshals_eq
  loans name lease hlease :=
    let loan := h.loans name lease hlease
    ⟨loan.named, loan.full, loan.borrowed, onward.isSome loan.there⟩
  owned := h.owned
  proper := h.proper

theorem setHandles (h : st.Lent names marshals) {handles : Named SessionRef}
    (kept : ∀ handle, names.lends handle = true → handles.get? handle = st.handles.get? handle) :
    { st with handles }.Lent names marshals where
  marshals_eq := h.marshals_eq
  loans name lease hlease := by
    have loan := h.loans name lease hlease
    obtain ⟨handle, hname, hloan, hhandle⟩ := loan.borrowed
    refine ⟨loan.named, loan.full, ⟨handle, hname, hloan, ?_⟩, loan.there⟩
    exact (kept handle (Names.lends_of_loan hloan)).trans hhandle
  owned := h.owned
  proper := h.proper

end Lent

namespace Twin

theorem client_eq (h : Twin names marshals st st') : st'.client = st.client := by rw [h.eq]; rfl

theorem setClient (h : Twin names marshals st st') {client : Client φ μ ω}
    (onward : st.client.Onward client) :
    Twin names marshals { st with client } { st' with client } :=
  ⟨by rw [h.eq]; rfl, h.lent.setClient onward⟩

variable [Marshal μ ω]

theorem letGo (h : Twin names marshals st st') (ref : SessionRef) :
    Twin names marshals (st.letGo ref) (st'.letGo ref) := by
  obtain ⟨rfl, hlent⟩ := h
  rw [State.letGo, State.letGo, hlent.isHeld_unleased]
  split
  · exact ⟨rfl, hlent⟩
  · exact setClient ⟨rfl, hlent⟩ (Client.onward_close ref)

theorem dropHandle (h : Twin names marshals st st') {name : Name}
    (free : names.lends name = false) :
    Twin names marshals (st.dropHandle name) (st'.dropHandle name) := by
  obtain ⟨rfl, hlent⟩ := h
  rw [State.dropHandle, State.dropHandle, unleased_handles]
  cases st.handles.get? name with
  | none => exact ⟨rfl, hlent⟩
  | some ref =>
    refine letGo ⟨rfl, hlent.setHandles fun handle hlends => ?_⟩ ref
    refine st.handles.get?_erase_of_ne ?_
    rintro rfl
    rw [free] at hlends
    cases hlends

theorem putHandle (h : Twin names marshals st st') {name : Name}
    (free : names.lends name = false) (ref : SessionRef) :
    Twin names marshals (st.putHandle name ref) (st'.putHandle name ref) := by
  obtain ⟨rfl, hlent⟩ := h
  have hput : { st with handles := st.handles.insert name ref }.Lent names marshals := by
    refine hlent.setHandles fun handle hlends => ?_
    refine st.handles.get?_insert_of_ne ref ?_
    rintro rfl
    rw [free] at hlends
    cases hlends
  rw [State.putHandle, State.putHandle, unleased_handles]
  cases st.handles.get? name with
  | none => exact ⟨rfl, hput⟩
  | some other => exact letGo ⟨rfl, hput⟩ other

theorem letGoEach (h : Twin names marshals st st') (refs : List SessionRef) :
    Twin names marshals (refs.foldl State.letGo st) (refs.foldl State.letGo st') := by
  induction refs generalizing st st' with
  | nil => exact h
  | cons ref refs ih => exact ih (h.letGo ref)

omit [Marshal μ ω] in
theorem setRegistries (h : Twin names marshals st st') (registries : Named (Registry φ)) :
    Twin names marshals { st with registries } { st' with registries } :=
  ⟨by rw [h.eq]; rfl, h.lent.congr rfl rfl rfl rfl⟩

theorem dropRegistry (h : Twin names marshals st st') (name : Name) :
    Twin names marshals (st.dropRegistry name) (st'.dropRegistry name) := by
  have hregistries : st'.registries = st.registries := by rw [h.eq]; rfl
  rw [State.dropRegistry, State.dropRegistry, hregistries]
  cases st.registries.get? name with
  | none => exact h
  | some r => exact letGoEach (h.setRegistries (st.registries.erase name)) _

theorem putRegistry (h : Twin names marshals st st') (name : Name) (r : Registry φ) :
    Twin names marshals (st.putRegistry name r) (st'.putRegistry name r) := by
  have hdrop := h.dropRegistry name
  have hregistries : (st'.dropRegistry name).registries = (st.dropRegistry name).registries := by
    rw [hdrop.eq]
    rfl
  rw [State.putRegistry, State.putRegistry, hregistries]
  exact hdrop.setRegistries _

/-- Without a lease of no name there is none to drop. -/
theorem dropLease_none (h : Twin names marshals st st') :
    Twin names marshals (st.dropLease none) (st'.dropLease none) := by
  have hnone := h.lent.not_none
  obtain ⟨rfl, hlent⟩ := h
  have hleft : st.dropLease none = st := by rw [State.dropLease, hnone]
  have hright : (st.unleased marshals).dropLease none = st.unleased marshals := rfl
  rw [hleft, hright]
  exact ⟨rfl, hlent⟩

/-! ### Outcomes -/

theorem answerSession (h : Twin names marshals st st') {as : Name} (free : names.lends as = false)
    (ref : SessionRef) :
    TwinOutcome Eq names marshals (st.answerSession as ref) (st'.answerSession as ref) := by
  refine ⟨?_, rfl, h.putHandle free ref⟩
  rw [State.answerSession, State.answerSession, State.idOf, State.idOf, h.client_eq]

theorem buildSession (h : Twin names marshals st st') {as : Name} (free : names.lends as = false)
    (b : Builder φ) :
    TwinOutcome Eq names marshals (st.buildSession as b) (st'.buildSession as b) := by
  rw [State.buildSession, State.buildSession, h.client_eq]
  exact answerSession (h.setClient (Client.onward_build b)) free _

theorem register (h : Twin names marshals st st') {as : Name} (free : names.lends as = false)
    (registry : Name) (r : Registry φ) (domain : Domain) :
    TwinOutcome Eq names marshals (st.register as registry r domain)
      (st'.register as registry r domain) := by
  have hregistries : st'.registries = st.registries := by rw [h.eq]; rfl
  have hmade := (h.setClient (r.onward_create st.client domain)).setRegistries
    (st.registries.insert registry (r.create domain st.client).2.1)
  have hanswer := hmade.answerSession free (r.create domain st.client).1
  rw [State.register, State.register, h.client_eq, hregistries]
  dsimp only
  rw [State.idOf, State.idOf]
  dsimp only
  split
  · exact hanswer
  · next displaced _ => exact { hanswer with state := hanswer.state.letGo displaced }

end Twin

/-! ### Commands that have nothing to do with marshals -/

/-- Two results that are the same complaint, or outcomes that are alike. -/
inductive Both (R : Outcome φ μ ω → Outcome φ μ ω → Prop) :
    Except Kind (Outcome φ μ ω) → Except Kind (Outcome φ μ ω) → Prop
  | error (kind : Kind) : Both R (.error kind) (.error kind)
  | ok {o o' : Outcome φ μ ω} (h : R o o') : Both R (.ok o) (.ok o')

/-- What goes on alike from anything that was found is alike. -/
theorem Both.bind {β : Type} {R : Outcome φ μ ω → Outcome φ μ ω → Prop} (found : Except Kind β)
    {f g : β → Except Kind (Outcome φ μ ω)} (h : ∀ b, found = .ok b → Both R (f b) (g b)) :
    Both R (found >>= f) (found >>= g) := by
  cases found with
  | error kind => exact .error kind
  | ok b => exact h b rfl

theorem findSession_ok {name : Name} {ref : SessionRef} {s : Session φ μ}
    (h : st.findSession name = .ok (ref, s)) :
    st.handles.get? name = some ref ∧ st.client.session? ref = some s := by
  cases hhandle : st.handles.get? name with
  | none =>
    rw [findSession, find, hhandle] at h
    cases h
  | some found =>
    simp only [findSession, find, hhandle, bind, Except.bind] at h
    cases hsession : st.client.session? found with
    | none =>
      rw [hsession] at h
      cases h
    | some s' =>
      rw [hsession] at h
      obtain ⟨rfl, rfl⟩ := Prod.mk.inj (Except.ok.inj h)
      exact ⟨rfl, hsession⟩

variable [Marshal μ ω] [Source φ μ ω] [World ω χ] [Holder μ α]

theorem Twin.perform? (h : Twin names marshals st st') {command : Command φ χ α}
    (plain : command.handlesMarshals = false) (passes : command.passes names = true) :
    Both (TwinOutcome Eq names marshals) (st.perform? command) (st'.perform? command) := by
  have free {name : Name} (hname : (!names.lends name) = true) : names.lends name = false := by
    simpa using hname
  obtain ⟨rfl, hlent⟩ := h
  have h : Twin names marshals st (st.unleased marshals) := ⟨rfl, hlent⟩
  cases command with
  | change c => exact .ok ⟨rfl, rfl, h.setClient (Client.onward_of_sessions_eq rfl)⟩
  | source as f => exact .ok ⟨rfl, rfl, rfl, hlent.congr rfl rfl rfl rfl⟩
  | domain as d => exact .ok ⟨rfl, rfl, rfl, hlent.congr rfl rfl rfl rfl⟩
  | setDomain domain host port id =>
    refine Both.bind (find .domain st.domains domain) fun d _ => ?_
    exact .ok ⟨rfl, rfl, rfl, hlent.congr rfl rfl rfl rfl⟩
  | allocator as a =>
    have hadded : st.client.Onward (st.client.addAllocator a).2 :=
      Client.onward_of_sessions_eq rfl
    exact .ok ⟨rfl, rfl, rfl, (hlent.setClient hadded).congr rfl rfl rfl rfl⟩
  | nextId allocator =>
    refine Both.bind (find .allocator st.allocators allocator) fun ref _ => ?_
    exact .ok ⟨rfl, rfl, h.setClient (Client.onward_of_sessions_eq rfl)⟩
  | lastId allocator =>
    refine Both.bind (find .allocator st.allocators allocator) fun ref _ => ?_
    exact .ok ⟨rfl, rfl, h⟩
  | builder as source allocator domain =>
    refine Both.bind (st.makeBuilder source allocator domain) fun b _ => ?_
    exact .ok ⟨rfl, rfl, rfl, hlent.congr rfl rfl rfl rfl⟩
  | rebuilder as builder source allocator =>
    refine Both.bind (find .builder st.builders builder) fun b _ => ?_
    refine Both.bind (find .source st.sources source) fun factory _ => ?_
    refine Both.bind (st.findAllocator allocator) fun other _ => ?_
    exact .ok ⟨rfl, rfl, rfl, hlent.congr rfl rfl rfl rfl⟩
  | build as builder =>
    refine Both.bind (find .builder st.builders builder) fun b _ => ?_
    exact .ok (h.buildSession (free passes) b)
  | session as source allocator domain =>
    refine Both.bind (st.makeBuilder source allocator domain) fun b _ => ?_
    exact .ok (h.buildSession (free passes) b)
  | cloneSession as session =>
    refine Both.bind (st.findSession session) fun (ref, _) _ => ?_
    exact .ok (h.answerSession (free passes) ref)
  | dropSession session =>
    refine Both.bind (st.findSession session) fun _ _ => ?_
    exact .ok ⟨rfl, rfl, h.dropHandle (free passes)⟩
  | close session =>
    refine Both.bind (st.findSession session) fun (ref, _) _ => ?_
    exact .ok ⟨rfl, rfl, h.setClient (Client.onward_close ref)⟩
  | setRemoteId session id =>
    refine Both.bind (st.findSession session) fun (ref, s) hfound => ?_
    have hshut : s.Shut → (s.setRemoteId id).Shut := fun shut => ⟨shut.closed, shut.empty⟩
    have hupdated := Client.onward_update (findSession_ok hfound).2 hshut st.client.world
    exact .ok ⟨rfl, rfl, h.setClient hupdated⟩
  | inspect session =>
    refine Both.bind (st.findSession session) fun (ref, s) _ => ?_
    exact .ok ⟨rfl, rfl, h⟩
  | same session other =>
    refine Both.bind (st.findSession session) fun (ref, _) _ => ?_
    refine Both.bind (st.findSession other) fun (ref', _) _ => ?_
    exact .ok ⟨rfl, rfl, h⟩
  | registry as source allocator =>
    refine Both.bind (find .source st.sources source) fun factory _ => ?_
    refine Both.bind (st.findAllocator allocator) fun allocator _ => ?_
    exact .ok ⟨rfl, rfl, h.putRegistry as _⟩
  | withAllocator registry allocator =>
    refine Both.bind (find .registry st.registries registry) fun r _ => ?_
    refine Both.bind (find .allocator st.allocators allocator) fun ref _ => ?_
    exact .ok ⟨rfl, rfl, h.setRegistries _⟩
  | registryCreate as registry domain =>
    refine Both.bind (find .registry st.registries registry) fun r _ => ?_
    refine Both.bind (st.findDomain domain) fun d _ => ?_
    exact .ok (h.register (free passes) registry r d)
  | registryGet as registry id =>
    refine Both.bind (find .registry st.registries registry) fun r _ => ?_
    cases r.get id with
    | error e => exact .ok ⟨rfl, rfl, h⟩
    | ok ref => exact .ok (h.answerSession (free passes) ref)
  | registryRemove as registry id =>
    refine Both.bind (find .registry st.registries registry) fun r _ => ?_
    have hremoved := r.onward_remove st.client id
    rw [unleased_client]
    generalize r.remove id st.client = removed at hremoved
    obtain ⟨result, r, client⟩ := removed
    cases result with
    | error e => exact .ok ⟨rfl, rfl, h⟩
    | ok ref =>
      exact .ok (((h.setClient hremoved).setRegistries _).answerSession (free passes) ref)
  | registryFind as registry domainId remoteId =>
    refine Both.bind (find .registry st.registries registry) fun r _ => ?_
    rw [unleased_client]
    split
    · exact .ok ⟨rfl, rfl, h⟩
    · next ref _ => exact .ok (h.answerSession (free passes) ref)
    · exact .ok ⟨rfl, rfl, h⟩
  | registryIds registry =>
    refine Both.bind (find .registry st.registries registry) fun r _ => ?_
    exact .ok ⟨rfl, rfl, h⟩
  | registryCloseAll registry =>
    refine Both.bind (find .registry st.registries registry) fun r _ => ?_
    exact .ok ⟨rfl, rfl, (h.setClient (r.onward_closeAll st.client)).setRegistries _⟩
  | dropRegistry registry =>
    refine Both.bind (find .registry st.registries registry) fun r _ => ?_
    exact .ok ⟨rfl, rfl, h.dropRegistry registry⟩
  | _ => cases plain

end State

end SessionPool.Script
