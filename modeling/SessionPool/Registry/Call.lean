import SessionPool.Registry

/-!
# Calls of a registry taken apart

Threads share a registry. Looking an id up, entering a session and taking an entry out are single
steps on its table, and so is closing a session. Between them a call of the registry leaves room for
other threads. A listing of the ids is not one step: it goes through the table while others change
it, and what it brings is only bound by what was there all the time and what was there at some time.
-/

namespace SessionPool.Registry

/-- What a thread asks of a registry. -/
inductive Request where
  | create (domain : Domain)
  | get (id : UInt64)
  | remove (id : UInt64)
  | closeAll
  deriving DecidableEq, Repr

/-- A call under way, by what it does next. -/
inductive Call where
  /-- Makes a session. -/
  | create (domain : Domain)
  /-- Enters the session that it has made. -/
  | insert (ref : SessionRef)
  /-- Looks an id up. -/
  | get (id : UInt64)
  /-- Takes out the entry of an id. -/
  | remove (id : UInt64)
  /-- Closes the session that it has taken out. -/
  | close (ref : SessionRef)
  /-- Begins to list the ids. -/
  | closeAll
  /-- Is listing the ids since a moment. -/
  | list (since : Nat)
  /-- Takes out the entry of the first of some ids; so many sessions are closed by now. -/
  | removeNext (ids : List UInt64) (count : Nat)
  /-- Closes the session that it has taken out, before it goes on with the other ids. -/
  | closeNext (ref : SessionRef) (ids : List UInt64) (count : Nat)
  deriving DecidableEq, Repr

/-- What a call comes back with. -/
inductive Result where
  | created (ref : SessionRef)
  | got (result : Except Error SessionRef)
  | removed (result : Except Error SessionRef)
  | closedAll (count : Nat)

namespace Result

/-- A session was made. -/
def isCreation : Result → Bool
  | created _ => true
  | _ => false

/-- A session was removed. -/
def isRemoval : Result → Bool
  | removed (.ok _) => true
  | _ => false

/-- How many sessions were closed with all others. -/
def closings : Result → Nat
  | closedAll count => count
  | _ => 0

end Result

/-- How a call begins. -/
def Request.call : Request → Call
  | create domain => .create domain
  | get id => .get id
  | remove id => .remove id
  | closeAll => .closeAll

variable {φ μ ω : Type}

/-- The ids in the order of the table. -/
def keys (r : Registry φ) : List UInt64 := r.table.map (·.1)

/-- What comes of a step: what the call does next or comes back with, the registry and its client,
and which session was made in the step or taken out of the table. -/
structure Step (φ μ ω : Type) where
  next : Call ⊕ Result
  registry : Registry φ
  client : Client φ μ ω
  made : Option Registration := none
  took : Option SessionRef := none

/-- The next step of a call, at some moment. A call that is listing the ids waits for what the
listing brings. -/
def Call.step [Marshal μ ω] (r : Registry φ) (c : Client φ μ ω) (now : Nat) :
    Call → Step φ μ ω
  | .create domain =>
    let (ref, client) := c.build (r.builder domain)
    { next := .inl (.insert ref), registry := r, client
      made := (client.session? ref).map fun s => (s.localId, ref) }
  | .insert ref => { next := .inr (.created ref), registry := r.register ref c, client := c }
  | .get id => { next := .inr (.got (r.get id)), registry := r, client := c }
  | .remove id =>
    match r.lookup? id with
    | none =>
      { next := .inr (.removed (.error (.sessionNotFound id))), registry := r, client := c }
    | some ref => { next := .inl (.close ref), registry := r.erase id, client := c, took := ref }
  | .close ref => { next := .inr (.removed (.ok ref)), registry := r, client := (c.close ref).2 }
  | .closeAll => { next := .inl (.list now), registry := r, client := c }
  | .list since => { next := .inl (.list since), registry := r, client := c }
  | .removeNext [] count => { next := .inr (.closedAll count), registry := r, client := c }
  | .removeNext (id :: ids) count =>
    match r.lookup? id with
    | none => { next := .inl (.removeNext ids count), registry := r, client := c }
    | some ref =>
      { next := .inl (.closeNext ref ids count), registry := r.erase id, client := c, took := ref }
  | .closeNext ref ids count =>
    { next := .inl (.removeNext ids (count + 1)), registry := r, client := (c.close ref).2 }

/-- A listing is ascending. It may bring every id that was seen at some time, and it has to bring
those that were seen all the time. -/
def isListing (seen : List (List UInt64)) (listing : List UInt64) : Bool :=
  decide (listing.Pairwise (· ≤ ·)) && listing.all (fun id => seen.any (·.contains id)) &&
    (seen.headD []).all fun id => !seen.all (·.contains id) || listing.contains id

end SessionPool.Registry
