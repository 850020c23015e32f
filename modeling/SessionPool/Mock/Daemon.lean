import SessionPool.Marshal

/-!
# Mock daemons

A mock daemon accepts or refuses connections as it is told, numbers the marshals that it creates
from 1, and keeps a log of what happens to them. The world of mock marshals is a fleet of such
daemons, each known by its place in the fleet.
-/

namespace SessionPool.Mock

/-- Something that happened to the marshal with a given id. -/
inductive Event where
  | dialled (id : Nat) (host : String) (port : UInt16) (ok : Bool)
  | reset (id : Nat)
  | closed (id : Nat)
  deriving DecidableEq, Repr

/-- The marshal that an event is about. -/
def Event.id : Event → Nat
  | .dialled id _ _ _ => id
  | .reset id => id
  | .closed id => id

/-- A daemon: the id of its next marshal, whether it accepts connections, and its log, oldest event
first. -/
structure Daemon where
  nextId : Nat := 1
  accepting : Bool := true
  log : Array Event := #[]
  deriving DecidableEq, Repr, Inhabited

namespace Daemon

def record (d : Daemon) (e : Event) : Daemon := { d with log := d.log.push e }

/-- Every endpoint that a marshal was connected to, successfully or not. -/
def dials (d : Daemon) : List (String × UInt16) :=
  d.log.toList.filterMap fun
    | .dialled _ host port _ => some (host, port)
    | _ => none

/-- The ids of the marshals that were closed, as often as they were. -/
def closedIds (d : Daemon) : List Nat :=
  d.log.toList.filterMap fun
    | .closed id => some id
    | _ => none

/-- How often a marshal was reset. -/
def resetCount (d : Daemon) (id : Nat) : Nat := d.log.toList.count (.reset id)

end Daemon

/-- Mock daemons side by side. -/
structure Fleet where
  daemons : List Daemon := []
  deriving DecidableEq, Repr, Inhabited

namespace Fleet

/-- The daemon at a place. -/
def daemon (w : Fleet) (place : Nat) : Daemon := w.daemons.getD place {}

/-- Changes the daemon at a place. -/
def modify (w : Fleet) (place : Nat) (f : Daemon → Daemon) : Fleet :=
  ⟨w.daemons.modify place f⟩

/-- A further daemon, and its place. -/
def start (w : Fleet) (d : Daemon) : Nat × Fleet := (w.daemons.length, ⟨w.daemons ++ [d]⟩)

def record (w : Fleet) (place : Nat) (e : Event) : Fleet := w.modify place (·.record e)

/-- Tells a daemon whether to accept connections. -/
def setAccepting (w : Fleet) (place : Nat) (on : Bool) : Fleet :=
  w.modify place fun d => { d with accepting := on }

end Fleet

/-- A mock marshal: its daemon's place, its id there, whether it is open, and whether an exchange
has left anything behind. -/
structure Marshal where
  place : Nat
  id : Nat
  isOpen : Bool := false
  isDirty : Bool := false
  deriving DecidableEq, Repr, Inhabited

/-- A factory of mock marshals is a daemon's place in the fleet. -/
structure Factory where
  place : Nat
  deriving DecidableEq, Repr, Inhabited

namespace Marshal

/-- Leaves something behind, as an exchange would. -/
def markDirty (m : Marshal) : Marshal := { m with isDirty := true }

/-- A daemon decides whether it accepts when a marshal connects. -/
def dial (m : Marshal) (host : String) (port : UInt16) (w : Fleet) : Bool × Marshal × Fleet :=
  let ok := (w.daemon m.place).accepting
  (ok, { m with isOpen := ok }, w.record m.place (.dialled m.id host port ok))

def reset (m : Marshal) (w : Fleet) : Marshal × Fleet :=
  ({ m with isDirty := false }, w.record m.place (.reset m.id))

def close (m : Marshal) (w : Fleet) : Marshal × Fleet :=
  ({ m with isOpen := false }, w.record m.place (.closed m.id))

end Marshal

instance : SessionPool.Marshal Marshal Fleet where
  dial := Marshal.dial
  reset := Marshal.reset
  close := Marshal.close

namespace Factory

/-- A new marshal takes the next id of its daemon. -/
def create (f : Factory) (w : Fleet) : Marshal × Fleet :=
  ({ place := f.place, id := (w.daemon f.place).nextId },
    w.modify f.place fun d => { d with nextId := d.nextId + 1 })

end Factory

instance : Source Factory Marshal Fleet where
  create := Factory.create

end SessionPool.Mock
