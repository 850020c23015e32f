import SessionPool.Lease
import SessionPool.Registry
import SessionPool.Script.Named

/-!
# Commands and replies

A script is a list of commands to a client. Commands refer to the things of the script by name.
What can be done to the outside world and to a marshal beyond opening and closing it depends on the
kind of marshal; both come as parameters.
-/

namespace SessionPool.Script

/-- What is done to a marshal that somebody holds. -/
inductive Deed (α : Type) where
  | look
  | dial (host : String) (port : UInt16)
  | reset
  | close
  | act (a : α)
  deriving DecidableEq, Repr

/-- A domain, spelled out or by name. -/
inductive DomainArg where
  | given (d : Domain)
  | named (name : Name)
  deriving DecidableEq, Repr

/-- One step of a script. `as` is the name for the result. -/
inductive Command (φ χ α : Type) where
  | change (c : χ)
  | source (as : Name) (f : φ)
  | domain (as : Name) (d : Domain)
  | setDomain (domain : Name) (host : Option String) (port : Option UInt16) (id : Option UInt32)
  | allocator (as : Name) (a : Allocator)
  | nextId (allocator : Name)
  | lastId (allocator : Name)
  | builder (as source : Name) (allocator : Option Name) (domain : DomainArg)
  | rebuilder (as builder source : Name) (allocator : Option Name)
  | build (as builder : Name)
  | session (as source : Name) (allocator : Option Name) (domain : DomainArg)
  | cloneSession (as session : Name)
  | dropSession (session : Name)
  | acquire (as session : Name)
  | release (session marshal : Name)
  | lease (as session : Name)
  | leaseInfo (lease : Name)
  | leaseDeed (lease : Name) (deed : Deed α)
  | detach (as lease : Name)
  | dropLease (lease : Name)
  | create (as source : Name)
  | deed (marshal : Name) (deed : Deed α)
  | dropMarshal (marshal : Name)
  | close (session : Name)
  | setRemoteId (session : Name) (id : UInt32)
  | inspect (session : Name)
  | same (session other : Name)
  | registry (as source : Name) (allocator : Option Name)
  | withAllocator (registry allocator : Name)
  | registryCreate (as registry : Name) (domain : DomainArg)
  | registryGet (as registry : Name) (id : UInt64)
  | registryRemove (as registry : Name) (id : UInt64)
  | registryFind (as registry : Name) (domainId remoteId : UInt32)
  | registryIds (registry : Name)
  | registryCloseAll (registry : Name)
  | dropRegistry (registry : Name)

/-- The kinds of things that have names. -/
inductive Kind where
  | source
  | domain
  | allocator
  | builder
  | session
  | marshal
  | lease
  | registry
  deriving DecidableEq, Repr

/-- What a command comes back with. -/
inductive Reply (φ μ : Type) where
  | done
  /-- A thing that the command names does not exist. -/
  | missing (kind : Kind)
  | failed (e : Error)
  | domain (d : Domain)
  | id (id : UInt64)
  | count (n : Nat)
  | truth (b : Bool)
  | noMarshal
  | marshal (m : μ)
  | released
  /-- A marshal before and after a deed; the flag is the outcome of opening it. -/
  | deed (opened : Bool) (before after : μ)
  | session (s : Session φ μ)
  | lease (m : μ) (s : Session φ μ)
  | noSession
  | several (ids : List UInt64)
  | ids (ids : List UInt64) (size : Nat) (isEmpty : Bool)

/-- What is seen of a session between two steps. -/
structure Snapshot where
  localId : UInt64
  remoteId : UInt32
  pooled : Nat
  outstanding : Nat
  closed : Bool
  deriving DecidableEq, Repr

def Snapshot.of {φ μ : Type} (s : Session φ μ) : Snapshot :=
  ⟨s.localId, s.remoteId, s.pooled, s.outstanding, s.isClosed⟩

/-- The reply to a command and, if it was about a session, how the session stands after it. -/
structure Report (φ μ : Type) where
  reply : Reply φ μ
  session : Option Snapshot

end SessionPool.Script
