import SessionPool.Script.Command

/-!
# What a script works on

The state of a script is a client and the names for its things. Three kinds of things hold a
session: a handle, a registration and a lease. A session that nothing holds any more is closed.
-/

namespace SessionPool.Script

/-- A client and the things that go by names. -/
structure State (φ μ ω : Type) where
  client : Client φ μ ω
  sources : Named φ := {}
  domains : Named Domain := {}
  allocators : Named AllocatorRef := {}
  builders : Named (Builder φ) := {}
  handles : Named SessionRef := {}
  marshals : Named μ := {}
  leases : Named (Lease μ) := {}
  registries : Named (Registry φ) := {}

namespace State

variable {φ μ ω : Type} [Marshal μ ω]

/-- Everything that holds a session, as the session that it holds. -/
def holds (st : State φ μ ω) : List SessionRef :=
  st.handles.values ++ st.leases.values.map (·.session) ++
    st.registries.values.flatMap fun r => r.table.map (·.2)

def isHeld (st : State φ μ ω) (ref : SessionRef) : Bool := st.holds.contains ref

/-- Closes a session that nothing holds. -/
def letGo (st : State φ μ ω) (ref : SessionRef) : State φ μ ω :=
  if st.isHeld ref then st else { st with client := (st.client.close ref).2 }

/-- Drops a handle. -/
def dropHandle (st : State φ μ ω) (name : Name) : State φ μ ω :=
  match st.handles.get? name with
  | none => st
  | some ref => { st with handles := st.handles.erase name }.letGo ref

/-- Names a handle. Another one of that name is dropped. -/
def putHandle (st : State φ μ ω) (name : Name) (ref : SessionRef) : State φ μ ω :=
  let st' := { st with handles := st.handles.insert name ref }
  match st.handles.get? name with
  | none => st'
  | some other => st'.letGo other

/-- Ends a lease. -/
def dropLease (st : State φ μ ω) (name : Name) : State φ μ ω :=
  match st.leases.get? name with
  | none => st
  | some lease =>
    { st with
      leases := st.leases.erase name
      client := lease.finish st.client }.letGo lease.session

/-- Names a lease. Another one of that name ends. -/
def putLease (st : State φ μ ω) (name : Name) (lease : Lease μ) : State φ μ ω :=
  let st := st.dropLease name
  { st with leases := st.leases.insert name lease }

/-- Drops a registry; its sessions are let go by ascending local id. -/
def dropRegistry (st : State φ μ ω) (name : Name) : State φ μ ω :=
  match st.registries.get? name with
  | none => st
  | some r =>
    (r.ids.filterMap r.lookup?).foldl letGo { st with registries := st.registries.erase name }

/-- Names a registry. Another one of that name is dropped. -/
def putRegistry (st : State φ μ ω) (name : Name) (r : Registry φ) : State φ μ ω :=
  let st := st.dropRegistry name
  { st with registries := st.registries.insert name r }

/-- Empties the places of the results that have no name. -/
def clearUnnamed (st : State φ μ ω) : State φ μ ω :=
  let st := ((st.dropLease none).dropHandle none).dropRegistry none
  { st with
    sources := st.sources.erase none
    domains := st.domains.erase none
    allocators := st.allocators.erase none
    builders := st.builders.erase none
    marshals := st.marshals.erase none }

end State

end SessionPool.Script
