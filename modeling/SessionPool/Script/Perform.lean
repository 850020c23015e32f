import SessionPool.Script.State
import SessionPool.Script.World

/-!
# Performing a script

`perform` carries out one command. It reports the reply and, if the command was about a session,
how that session stands right after it. A handle that the command made and nobody keeps is dropped
only then.
-/

namespace SessionPool.Script

variable {φ μ ω χ α : Type}

/-- A reply, the session that it is about, and the state after it. -/
structure Outcome (φ μ ω : Type) where
  reply : Reply φ μ
  session : Option SessionRef := none
  state : State φ μ ω

namespace State

/-- A thing of some kind, or the complaint that there is none. -/
def find {β : Type} (kind : Kind) (things : Named β) (name : Name) : Except Kind β :=
  match things.get? name with
  | some b => .ok b
  | none => .error kind

/-- A session by the name of a handle. -/
def findSession (st : State φ μ ω) (name : Name) : Except Kind (SessionRef × Session φ μ) := do
  let ref ← find .session st.handles name
  match st.client.session? ref with
  | some s => return (ref, s)
  | none => throw .session

/-- A lease, and the session that it is from. -/
def findLease (st : State φ μ ω) (name : Name) :
    Except Kind (Lease μ × μ × Session φ μ) := do
  let lease ← find .lease st.leases name
  match lease.marshal, st.client.session? lease.session with
  | some m, some s => return (lease, m, s)
  | _, _ => throw .lease

def findDomain (st : State φ μ ω) : DomainArg → Except Kind Domain
  | .given d => .ok d
  | .named name => find .domain st.domains name

def findAllocator (st : State φ μ ω) : Option Name → Except Kind (Option AllocatorRef)
  | none => .ok none
  | some name => (find .allocator st.allocators name).map some

/-- What a new session is to be made from. -/
def makeBuilder (st : State φ μ ω) (source : Name) (allocator : Option Name)
    (domain : DomainArg) : Except Kind (Builder φ) := do
  let factory ← find .source st.sources source
  let allocator ← st.findAllocator allocator
  let domain ← st.findDomain domain
  return { domain, factory, allocator }

/-- The local id of a session. -/
def idOf (st : State φ μ ω) (ref : SessionRef) : UInt64 :=
  ((st.client.session? ref).map (·.localId)).getD 0

variable [Marshal μ ω]

/-- Does something to a marshal. Opening it tells whether it is usable now. -/
def doDeed [Holder μ α] (m : μ) (w : ω) : Deed α → Bool × μ × ω
  | .look => (false, m, w)
  | .dial host port => Marshal.dial m host port w
  | .reset => (false, Marshal.reset m w)
  | .close => (false, Marshal.close m w)
  | .act a => (false, Holder.act a m, w)

/-- Answers with a session to which a handle is given. -/
def answerSession (st : State φ μ ω) (as : Name) (ref : SessionRef) : Outcome φ μ ω :=
  { reply := .id (st.idOf ref), session := some ref, state := st.putHandle as ref }

/-- Builds a session and gives a handle to it. -/
def buildSession (st : State φ μ ω) (as : Name) (b : Builder φ) : Outcome φ μ ω :=
  let (ref, client) := st.client.build b
  { st with client }.answerSession as ref

/-- Registers a new session. The one that it displaces is let go. -/
def register (st : State φ μ ω) (as registry : Name) (r : Registry φ) (domain : Domain) :
    Outcome φ μ ω :=
  let (ref, r', client) := r.create domain st.client
  let st := { st with client, registries := st.registries.insert registry r' }
  let outcome := st.answerSession as ref
  match r.lookup? (st.idOf ref) with
  | none => outcome
  | some displaced => { outcome with state := outcome.state.letGo displaced }

variable [Source φ μ ω]

/-- Acquires a marshal. -/
def acquire (st : State φ μ ω) (as : Name) (ref : SessionRef) (s : Session φ μ) :
    Outcome φ μ ω :=
  match s.acquire st.client.world with
  | (none, s, w) =>
    { reply := .noMarshal, session := some ref,
      state := { st with client := st.client.update ref s w } }
  | (some m, s, w) =>
    { reply := .marshal m, session := some ref,
      state := { st with
        client := st.client.update ref s w
        marshals := st.marshals.insert as m } }

/-- Releases a marshal. -/
def release (st : State φ μ ω) (ref : SessionRef) (s : Session φ μ) (marshal : Name) (m : μ) :
    Outcome φ μ ω :=
  let (result, s, w) := s.release m st.client.world
  { reply := match result with
      | .ok () => .released
      | .error e => .failed e
    session := some ref
    state := { st with
      client := st.client.update ref s w
      marshals := st.marshals.erase marshal } }

/-- Takes out a lease. -/
def lease (st : State φ μ ω) (as : Name) (ref : SessionRef) : Outcome φ μ ω :=
  match Lease.start st.client ref with
  | (some lease, client) =>
    { reply := match lease.marshal with
        | some m => .marshal m
        | none => .noMarshal
      session := some ref
      state := { st with client }.putLease as lease }
  | (none, client) =>
    { reply := .noMarshal, session := some ref, state := { st with client } }

/-- Carries out a command, or tells what kind of thing it names in vain. -/
def perform? [World ω χ] [Holder μ α] (st : State φ μ ω) :
    Command φ χ α → Except Kind (Outcome φ μ ω)
  | .change c =>
    return { reply := .done
             state := { st with client := { st.client with
               world := World.change c st.client.world } } }
  | .source as f =>
    return { reply := .done, state := { st with sources := st.sources.insert as f } }
  | .domain as d =>
    return { reply := .done, state := { st with domains := st.domains.insert as d } }
  | .setDomain domain host port id => do
    let d ← find .domain st.domains domain
    let d := {
      host := host.getD d.host
      port := port.getD d.port
      remoteDomainId := id.getD d.remoteDomainId }
    return { reply := .domain d, state := { st with domains := st.domains.insert domain d } }
  | .allocator as a =>
    let (ref, client) := st.client.addAllocator a
    return { reply := .done
             state := { st with client, allocators := st.allocators.insert as ref } }
  | .nextId allocator => do
    let ref ← find .allocator st.allocators allocator
    let (id, client) := st.client.nextId ref
    return { reply := .id id, state := { st with client } }
  | .lastId allocator => do
    let ref ← find .allocator st.allocators allocator
    return { reply := .id (st.client.lastId ref), state := st }
  | .builder as source allocator domain => do
    let b ← st.makeBuilder source allocator domain
    return { reply := .done, state := { st with builders := st.builders.insert as b } }
  | .rebuilder as builder source allocator => do
    let b ← find .builder st.builders builder
    let factory ← find .source st.sources source
    let other ← st.findAllocator allocator
    let b := { b with factory, allocator := other.or b.allocator }
    return { reply := .done, state := { st with builders := st.builders.insert as b } }
  | .build as builder => do
    let b ← find .builder st.builders builder
    return st.buildSession as b
  | .session as source allocator domain => do
    let b ← st.makeBuilder source allocator domain
    return st.buildSession as b
  | .cloneSession as session => do
    let (ref, _) ← st.findSession session
    return st.answerSession as ref
  | .dropSession session => do
    let _ ← st.findSession session
    return { reply := .done, state := st.dropHandle session }
  | .acquire as session => do
    let (ref, s) ← st.findSession session
    return st.acquire as ref s
  | .release session marshal => do
    let (ref, s) ← st.findSession session
    let m ← find .marshal st.marshals marshal
    return st.release ref s marshal m
  | .lease as session => do
    let (ref, _) ← st.findSession session
    return st.lease as ref
  | .leaseInfo lease => do
    let (lease, m, s) ← st.findLease lease
    return { reply := .lease m s, session := some lease.session, state := st }
  | .leaseDeed name deed => do
    let (lease, before, _) ← st.findLease name
    let (opened, after, world) := doDeed before st.client.world deed
    return { reply := .deed opened before after
             session := some lease.session
             state := { st with
               client := { st.client with world }
               leases := st.leases.insert name { lease with marshal := some after } } }
  | .detach as name => do
    let (lease, m, _) ← st.findLease name
    let st := { st with
      leases := st.leases.erase name
      marshals := st.marshals.insert as m }
    return { reply := .marshal m
             session := some lease.session
             state := st.putLease none lease.detach.2 }
  | .dropLease name => do
    let lease ← find .lease st.leases name
    let st := st.dropLease name
    return { reply := .done
             session := if st.isHeld lease.session then some lease.session else none
             state := st }
  | .create as source => do
    let f ← find .source st.sources source
    let (m, world) := Source.create f st.client.world
    return { reply := .done
             state := { st with
               client := { st.client with world }
               marshals := st.marshals.insert as m } }
  | .deed marshal deed => do
    let before ← find .marshal st.marshals marshal
    let (opened, after, world) := doDeed before st.client.world deed
    return { reply := .deed opened before after
             state := { st with
               client := { st.client with world }
               marshals := st.marshals.insert marshal after } }
  | .dropMarshal marshal => do
    let _ ← find .marshal st.marshals marshal
    return { reply := .done, state := { st with marshals := st.marshals.erase marshal } }
  | .close session => do
    let (ref, _) ← st.findSession session
    let (count, client) := st.client.close ref
    return { reply := .count count, session := some ref, state := { st with client } }
  | .setRemoteId session id => do
    let (ref, s) ← st.findSession session
    return { reply := .done
             session := some ref
             state := { st with
               client := st.client.update ref (s.setRemoteId id) st.client.world } }
  | .inspect session => do
    let (ref, s) ← st.findSession session
    return { reply := .session s, session := some ref, state := st }
  | .same session other => do
    let (ref, _) ← st.findSession session
    let (ref', _) ← st.findSession other
    return { reply := .truth (ref == ref'), state := st }
  | .registry as source allocator => do
    let factory ← find .source st.sources source
    let allocator ← st.findAllocator allocator
    return { reply := .done, state := st.putRegistry as { factory, allocator } }
  | .withAllocator registry allocator => do
    let r ← find .registry st.registries registry
    let ref ← find .allocator st.allocators allocator
    return { reply := .done
             state := { st with
               registries := st.registries.insert registry { r with allocator := some ref } } }
  | .registryCreate as registry domain => do
    let r ← find .registry st.registries registry
    let d ← st.findDomain domain
    return st.register as registry r d
  | .registryGet as registry id => do
    let r ← find .registry st.registries registry
    match r.get id with
    | .error e => return { reply := .failed e, state := st }
    | .ok ref => return st.answerSession as ref
  | .registryRemove as registry id => do
    let r ← find .registry st.registries registry
    match r.remove id st.client with
    | (.error e, _, _) => return { reply := .failed e, state := st }
    | (.ok ref, r, client) =>
      return { st with
        client
        registries := st.registries.insert registry r }.answerSession as ref
  | .registryFind as registry domainId remoteId => do
    let r ← find .registry st.registries registry
    match r.allRemote st.client domainId remoteId with
    | [] => return { reply := .noSession, state := st }
    | [ref] => return st.answerSession as ref
    | refs => return { reply := .several (refs.map st.idOf), state := st }
  | .registryIds registry => do
    let r ← find .registry st.registries registry
    return { reply := .ids r.ids r.size r.isEmpty, state := st }
  | .registryCloseAll registry => do
    let r ← find .registry st.registries registry
    let (count, r, client) := r.closeAll st.client
    let st' := { st with client, registries := st.registries.insert registry r }
    return { reply := .count count, state := st' }
  | .dropRegistry registry => do
    let _ ← find .registry st.registries registry
    return { reply := .done, state := st.dropRegistry registry }

/-- The session that a command names first, if it names one in the first place. -/
def subject? (st : State φ μ ω) : Command φ χ α → Option SessionRef
  | .release session _ => st.handles.get? session
  | _ => none

/-- How a session stands. -/
def snapshot? (st : State φ μ ω) (ref : SessionRef) : Option Snapshot :=
  (st.client.session? ref).map Snapshot.of

/-- The state in which the report about an outcome is made: a lease that nobody keeps has ended,
but the session that the report is about is still held. -/
def reported (outcome : Outcome φ μ ω) : State φ μ ω :=
  match outcome.session with
  | none => outcome.state.dropLease none
  | some ref => (outcome.state.putHandle none ref).dropLease none

/-- Carries out a command. What nobody keeps is dropped after the report is made. -/
def perform [World ω χ] [Holder μ α] (st : State φ μ ω) (command : Command φ χ α) :
    Report φ μ × State φ μ ω :=
  match st.perform? command with
  | .error kind => (⟨.missing kind, (st.subject? command).bind st.snapshot?⟩, st)
  | .ok outcome =>
    let st := reported outcome
    (⟨outcome.reply, outcome.session.bind st.snapshot?⟩, st.clearUnnamed)

/-- Carries out commands one after the other. -/
def run [World ω χ] [Holder μ α] (st : State φ μ ω) :
    List (Command φ χ α) → List (Report φ μ) × State φ μ ω
  | [] => ([], st)
  | command :: commands =>
    let (report, st) := st.perform command
    let (reports, st) := st.run commands
    (report :: reports, st)

end State

end SessionPool.Script
