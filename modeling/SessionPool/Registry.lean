import SessionPool.Client

/-!
# Registries

A registry makes sessions and finds them again, by their local id or by what the daemon knows them
as. Removing a session from it closes the session.
-/

namespace SessionPool

/-- An entry: a local id and the session registered under it. -/
abbrev Registration := UInt64 × SessionRef

/-- A registry. No local id occurs twice in its table. -/
structure Registry (φ : Type) where
  factory : φ
  allocator : Option AllocatorRef := none
  table : List Registration := []
  deriving DecidableEq, Repr

namespace Registry

variable {φ μ ω : Type}

/-- The session registered under an id. -/
def lookup? (r : Registry φ) (id : UInt64) : Option SessionRef := r.table.lookup id

/-- The registry without the entry of an id. -/
def erase (r : Registry φ) (id : UInt64) : Registry φ :=
  { r with table := r.table.filter fun entry => entry.1 != id }

/-- Registers a session under an id, in place of any other. -/
def insert (r : Registry φ) (id : UInt64) (ref : SessionRef) : Registry φ :=
  { r.erase id with table := (r.erase id).table ++ [(id, ref)] }

/-- The registered ids, ascending. -/
def ids (r : Registry φ) : List UInt64 := (r.table.map (·.1)).mergeSort fun a b => a ≤ b

def size (r : Registry φ) : Nat := r.table.length

def isEmpty (r : Registry φ) : Bool := r.table.isEmpty

/-- What the sessions of a registry are made from. -/
def builder (r : Registry φ) (domain : Domain) : Builder φ := ⟨domain, r.factory, r.allocator⟩

/-- Registers a session under its local id. -/
def register (r : Registry φ) (ref : SessionRef) (c : Client φ μ ω) : Registry φ :=
  match c.session? ref with
  | none => r
  | some s => r.insert s.localId ref

/-- Makes a session and registers it. -/
def create (r : Registry φ) (domain : Domain) (c : Client φ μ ω) :
    SessionRef × Registry φ × Client φ μ ω :=
  let (ref, c) := c.build (r.builder domain)
  (ref, r.register ref c, c)

/-- The session registered under an id. -/
def get (r : Registry φ) (id : UInt64) : Except Error SessionRef :=
  match r.lookup? id with
  | some ref => .ok ref
  | none => .error (.sessionNotFound id)

/-- Takes a session out of the registry and closes it. -/
def remove [Marshal μ ω] (r : Registry φ) (id : UInt64) (c : Client φ μ ω) :
    Except Error SessionRef × Registry φ × Client φ μ ω :=
  match r.lookup? id with
  | none => (.error (.sessionNotFound id), r, c)
  | some ref => (.ok ref, r.erase id, (c.close ref).2)

/-- Whether a session belongs to a domain of the daemon and is known there by a remote id. -/
def isRemote (c : Client φ μ ω) (domainId remoteId : UInt32) (ref : SessionRef) : Bool :=
  (c.session? ref).any fun s => s.domain.remoteDomainId = domainId && s.remoteId = remoteId

/-- The first session in a listing of the table that the daemon knows by a remote id. -/
def findRemote? (listing : List Registration) (c : Client φ μ ω) (domainId remoteId : UInt32) :
    Option SessionRef :=
  (listing.find? fun entry => isRemote c domainId remoteId entry.2).map (·.2)

/-- All registered sessions that the daemon knows by a remote id, by ascending local id. -/
def allRemote (r : Registry φ) (c : Client φ μ ω) (domainId remoteId : UInt32) :
    List SessionRef :=
  (r.ids.filterMap r.lookup?).filter (isRemote c domainId remoteId)

/-- Removes the given ids one after the other, and tells how many were there. -/
def removeEach [Marshal μ ω] :
    List UInt64 → Registry φ → Client φ μ ω → Nat × Registry φ × Client φ μ ω
  | [], r, c => (0, r, c)
  | id :: ids, r, c =>
    match r.remove id c with
    | (.error _, r, c) => removeEach ids r c
    | (.ok _, r, c) =>
      let (count, r, c) := removeEach ids r c
      (count + 1, r, c)

/-- Removes every session, by ascending local id, and tells how many there were. -/
def closeAll [Marshal μ ω] (r : Registry φ) (c : Client φ μ ω) :
    Nat × Registry φ × Client φ μ ω :=
  removeEach r.ids r c

end Registry

end SessionPool
