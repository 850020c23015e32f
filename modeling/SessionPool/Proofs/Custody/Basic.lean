import SessionPool.Interleaving
import SessionPool.Script.Perform

/-!
# Custody of marshals

An interleaving says what threads do inside their calls. Here is the rest of the story: what the
threads do with marshals between two calls. A marshal that a session hands out is then in somebody's
hands, by itself or inside a lease, and from there it goes back to a session (that one or another),
comes out of its lease, passes to another thread, is used, or is dropped. As nobody can copy a
marshal, giving one back takes it out of the hands of whoever had it.

    a call ends with a marshal ──▶ holdings ──release, end of a lease──▶ a call carries it
                                      │
                                      └──dropped by its holder──▶ dropped

A list of moves is a run. Every run of threads over shared sessions is one: a move that cannot be
made where it stands changes nothing.
-/

namespace SessionPool

open Session (Call Result)
open Script (World Holder Deed)

/-- A marshal in the hands of a thread, by itself or inside a lease. -/
structure Holding (μ : Type) where
  owner : Thread
  marshal : μ
  /-- The session that handed the marshal out. One that came from elsewhere has none. -/
  origin : Option Place := none
  leased : Bool := false
  deriving DecidableEq, Repr

/-- Threads in their calls, and the marshals that are in no call and in no pool. `leasing` are the
threads whose call is to end in a lease, and `gone` are the sessions that were dropped. -/
structure Custody (φ μ ω : Type) where
  calls : Interleaving φ μ ω
  leasing : List Thread := []
  holdings : List (Holding μ) := []
  dropped : List (Holding μ) := []
  gone : List Place := []

namespace Custody

/-- A call that needs no marshal. -/
inductive Request where
  | acquire
  | lease
  | close
  | pooled
  | isClosed
  deriving DecidableEq, Repr

/-- How a request begins. A lease is an acquisition whose marshal is wrapped when it is there. -/
def Request.call {μ : Type} : Request → Call μ
  | .acquire | .lease => .acquire
  | .close => .close
  | .pooled => .pooled
  | .isClosed => .isClosed

/-- What happens next. Holdings are referred to by their position. -/
inductive Move (μ χ α : Type) where
  /-- A thread begins a call that needs no marshal. -/
  | request (thread : Thread) (place : Place) (request : Request)
  /-- A thread gives a marshal to a session, wherever the marshal came from. -/
  | release (thread : Thread) (place : Place) (index : Nat)
  /-- A lease ends: its marshal goes back to the session that the lease is from. -/
  | endLease (thread : Thread) (index : Nat)
  /-- A marshal is taken out of its lease. -/
  | detach (thread : Thread) (index : Nat)
  /-- A marshal is dropped by its holder and never seen again. -/
  | drop (thread : Thread) (index : Nat)
  /-- A marshal or a lease passes to another thread. -/
  | pass (thread : Thread) (index : Nat) (receiver : Thread)
  /-- A marshal that no session handed out comes into the hands of a thread. -/
  | adopt (thread : Thread) (marshal : μ)
  /-- A holder does something to a marshal. -/
  | deed (thread : Thread) (index : Nat) (deed : Deed α)
  /-- The world outside changes. -/
  | change (c : χ)
  /-- A session that nobody calls or has a lease from is dropped, which closes it. -/
  | dropSession (thread : Thread) (place : Place)
  /-- A thread takes the next step of its call. -/
  | advance (thread : Thread)

variable {φ μ ω χ α : Type}

/-- Before the first call. -/
def fresh (w : ω) (sessions : List (Session φ μ)) : Custody φ μ ω where
  calls := { world := w, sessions }

/-- A thread can begin a call when it is in none and the session is there. -/
def canCall (st : Custody φ μ ω) (thread : Thread) (place : Place) : Bool :=
  (st.calls.pending? thread).isNone && st.calls.sessions[place]?.isSome && !st.gone.contains place

/-- What a thread that is in no call has in its hands. -/
def inHand? (st : Custody φ μ ω) (thread : Thread) (index : Nat) : Option (Holding μ) :=
  if (st.calls.pending? thread).isNone then
    st.holdings[index]?.filter (·.owner == thread)
  else none

/-- Whether anybody is in a call to a session or has a lease from it. -/
def isBorrowed (st : Custody φ μ ω) (place : Place) : Bool :=
  st.calls.pending.any (·.2.place == place) ||
    st.holdings.any fun h => h.leased && h.origin == some place

/-- The world outside is another. -/
def withWorld (st : Custody φ μ ω) (w : ω) : Custody φ μ ω :=
  { st with calls := { st.calls with world := w } }

/-- A call has come back: its thread has the marshal that it came back with. -/
def receive (st : Custody φ μ ω) (back : Finished μ) : Custody φ μ ω :=
  { st with
    leasing := st.leasing.filter (· != back.thread)
    holdings := match back.result with
      | .acquired (some m) => {
          owner := back.thread
          marshal := m
          origin := some back.place
          leased := st.leasing.contains back.thread } :: st.holdings
      | _ => st.holdings }

variable [Marshal μ ω] [Source φ μ ω]

/-- A thread begins a call. -/
def start (st : Custody φ μ ω) (thread : Thread) (place : Place) (call : Call μ) :
    Custody φ μ ω :=
  { st with calls := st.calls.move (.start thread place call) }

/-- A thread begins to give a marshal to a session. -/
def giveBack (st : Custody φ μ ω) (thread : Thread) (place : Place) (index : Nat)
    (h : Holding μ) : Custody φ μ ω :=
  { st.start thread place (.release h.marshal) with holdings := st.holdings.eraseIdx index }

/-- A thread takes the next step of its call. -/
def advance (st : Custody φ μ ω) (thread : Thread) : Custody φ μ ω :=
  match st.calls.pending? thread with
  | none => st
  | some _ =>
    let st := { st with calls := st.calls.move (.advance thread) }
    match st.calls.pending? thread, st.calls.finished.head? with
    | none, some back => st.receive back
    | _, _ => st

variable [World ω χ] [Holder μ α]

/-- Makes a move. One that cannot be made changes nothing. -/
def move (st : Custody φ μ ω) : Move μ χ α → Custody φ μ ω
  | .request thread place request =>
    if st.canCall thread place then
      { st.start thread place request.call with
        leasing := if request = .lease then thread :: st.leasing else st.leasing }
    else st
  | .release thread place index =>
    match st.inHand? thread index with
    | some h =>
      if !h.leased && st.canCall thread place then st.giveBack thread place index h else st
    | none => st
  | .endLease thread index =>
    match st.inHand? thread index with
    | some h =>
      match h.origin with
      | some place =>
        if h.leased && st.canCall thread place then st.giveBack thread place index h else st
      | none => st
    | none => st
  | .detach thread index =>
    match st.inHand? thread index with
    | some h => { st with holdings := st.holdings.set index { h with leased := false } }
    | none => st
  | .drop thread index =>
    match st.inHand? thread index with
    | some h =>
      if h.leased then st
      else { st with holdings := st.holdings.eraseIdx index, dropped := h :: st.dropped }
    | none => st
  | .pass thread index receiver =>
    match st.inHand? thread index with
    | some h => { st with holdings := st.holdings.set index { h with owner := receiver } }
    | none => st
  | .adopt thread marshal => { st with holdings := { owner := thread, marshal } :: st.holdings }
  | .deed thread index deed =>
    match st.inHand? thread index with
    | some h =>
      let (_, marshal, w) := Script.State.doDeed h.marshal st.calls.world deed
      { st.withWorld w with holdings := st.holdings.set index { h with marshal } }
    | none => st
  | .change c => st.withWorld (World.change c st.calls.world)
  | .dropSession thread place =>
    if st.canCall thread place && !st.isBorrowed place then
      { st.start thread place .close with gone := place :: st.gone }
    else st
  | .advance thread => st.advance thread

/-- Makes moves one after the other. -/
def run (st : Custody φ μ ω) (moves : List (Move μ χ α)) : Custody φ μ ω :=
  moves.foldl move st

/-! ### What the threads promise -/

/-- Whether every move of a run is permitted where it is made. -/
def permits (ok : Custody φ μ ω → Move μ χ α → Bool) (st : Custody φ μ ω) :
    List (Move μ χ α) → Bool
  | [] => true
  | m :: moves => ok st m && (st.move m).permits ok moves

/-- Whether a move gives a session only what that session has handed out. -/
def isLoyal (st : Custody φ μ ω) : Move μ χ α → Bool
  | .release thread place index =>
    (st.inHand? thread index).all (·.origin == some place)
  | _ => true

/-- Whether every marshal that a session is given in a run was handed out by that session. -/
def isLoyalRun (st : Custody φ μ ω) (moves : List (Move μ χ α)) : Bool := st.permits isLoyal moves

/-- Whether what a holder does to a marshal neither opens nor closes it. -/
def isGentleDeed : Script.Deed α → Bool
  | .dial _ _ | .close => false
  | _ => true

/-- Whether a move leaves it to the sessions to open and to close marshals, and brings none in
from elsewhere. -/
def Move.isGentle : Move μ χ α → Bool
  | .adopt _ _ => false
  | .deed _ _ d => isGentleDeed d
  | _ => true

end Custody

/-! ### Sessions over one mock daemon -/

abbrev MockCustody := Custody Mock.Factory Mock.Marshal Mock.Fleet

abbrev MockMove := Custody.Move Mock.Marshal Script.FleetChange Script.MockAct

namespace Custody

/-- New sessions that share a new daemon, each with a local id and an endpoint. -/
def overMock (accepting : Bool) (sessions : List (UInt64 × Domain)) : MockCustody :=
  fresh ⟨[{ accepting }]⟩
    (sessions.map fun (localId, domain) => { localId, domain, factory := ⟨0⟩ })

/-- The daemon that all sessions share. -/
def daemon (st : MockCustody) : Mock.Daemon := st.calls.world.daemon 0

end Custody

end SessionPool
