import Mathlib.Logic.Relation
import Mathlib.Data.List.Perm.Subperm
import SessionPool.Script.Perform
import SessionPool.Proofs.Script.Clients

/-!
# What a command consists of

Whatever a command is, to the sessions and their marshals it does a few things only, one after the
other: holders come and go, a session without holders is closed, a session is built or used, a
marshal is made, used, taken out of a lease or forgotten. In between some sessions may have lost
their last holder and wait for being let go; these are loose. So every session is minded,

    held or loose,

and a session that is neither is shut.
-/

namespace SessionPool.Script

variable {φ μ ω χ α : Type}

namespace State

/-- The marshals outside the pools, with names and in leases. -/
def inHand (st : State φ μ ω) : List μ :=
  st.marshals.values ++ st.leases.values.filterMap (·.marshal)

/-- The marshals in leases, and the sessions that they are from. -/
def loans (st : State φ μ ω) : List (SessionRef × μ) :=
  st.leases.values.filterMap fun lease => lease.marshal.map fun m => (lease.session, m)

/-- Where the marshals of the sessions come from, of those that there are and of those to be. -/
def factories (st : State φ μ ω) : List φ :=
  st.sources.values ++ st.builders.values.map (·.factory) ++
    st.registries.values.map (·.factory) ++ st.client.sessions.map (·.factory)

end State

/-- A state in the middle of a command. The sessions that are loose may have lost their last
holder, and a marshal that was acquired may still be on its way to its name. -/
structure Moment (φ μ ω : Type) where
  loose : List SessionRef
  coming : List μ := []
  state : State φ μ ω

namespace Moment

/-- Whether a session is held or loose. -/
def Minds (x : Moment φ μ ω) (ref : SessionRef) : Prop := ref ∈ x.state.holds ∨ ref ∈ x.loose

/-- Between two commands nothing is loose. -/
theorem minds_iff_held {coming : List μ} {st : State φ μ ω} {ref : SessionRef} :
    Minds ⟨[], coming, st⟩ ref ↔ ref ∈ st.holds := by
  simp [Minds]

/-- The marshals outside the pools. -/
def inHand (x : Moment φ μ ω) : List μ := x.coming ++ x.state.inHand

/-- Two moments with the same sessions to mind, and no factory that is new. -/
structure Same (x y : Moment φ μ ω) : Prop where
  minds (ref : SessionRef) : y.Minds ref ↔ x.Minds ref
  factories : y.state.factories ⊆ x.state.factories

end Moment

/-- The kinds of acts, with what matters of them later. -/
inductive Tag (φ χ α : Type) where
  /-- Holders come and go. -/
  | shift
  | source (f : φ)
  | change (c : χ)
  | deed (d : Deed α)
  /-- A session is used, but nothing is acquired. -/
  | use
  /-- A marshal is acquired from a session. -/
  | draw (ref : SessionRef)
  /-- A marshal is taken out of a lease from a session. -/
  | free (ref : SessionRef)

variable [Marshal μ ω] [Source φ μ ω] [World ω χ] [Holder μ α]

/-- One of the things that a command does. -/
inductive Act : Tag φ χ α → Moment φ μ ω → Moment φ μ ω → Prop
  | rehold {x y : Moment φ μ ω} (same : x.Same y)
      (sessions : y.state.client.sessions = x.state.client.sessions)
      (world : y.state.client.world = x.state.client.world)
      (hands : y.inHand.Subperm x.inHand)
      (loans : x.state.loans ⊆ y.state.loans) : Act .shift x y
  | letGo (x : Moment φ μ ω) (ref : SessionRef) :
      Act .shift x { x with loose := x.loose.filter (· != ref), state := x.state.letGo ref }
  | build (x : Moment φ μ ω) (b : Builder φ) (known : b.factory ∈ x.state.factories) :
      Act .shift x { x with
        loose := (x.state.client.build b).1 :: x.loose
        state := { x.state with client := (x.state.client.build b).2 } }
  | source (x : Moment φ μ ω) (as : Name) (f : φ) :
      Act (.source f) x
        { x with state := { x.state with sources := x.state.sources.insert as f } }
  | change (x : Moment φ μ ω) (c : χ) :
      Act (.change c) x { x with state := { x.state with
        client := { x.state.client with world := World.change c x.state.client.world } } }
  | create {x y : Moment φ μ ω} (f : φ) (known : f ∈ x.state.factories) (same : x.Same y)
      (sessions : y.state.client.sessions = x.state.client.sessions)
      (world : y.state.client.world = (Source.create f x.state.client.world).2)
      (hands : y.inHand.Subperm
        ((Source.create f x.state.client.world).1 :: x.inHand))
      (loans : x.state.loans ⊆ y.state.loans) : Act .use x y
  | deed {x y : Moment φ μ ω} (d : Deed α) (m : μ) (others : List μ) (same : x.Same y)
      (sessions : y.state.client.sessions = x.state.client.sessions)
      (world : y.state.client.world = (State.doDeed m x.state.client.world d).2.2)
      (before : x.inHand.Perm (m :: others))
      (after : y.inHand.Perm ((State.doDeed m x.state.client.world d).2.1 :: others))
      (loans : ∀ ref m', (ref, m') ∈ x.state.loans → (ref, m') ∈ y.state.loans ∨
        m' = m ∧ (ref, (State.doDeed m x.state.client.world d).2.1) ∈ y.state.loans) :
      Act (.deed d) x y
  | draw {x y : Moment φ μ ω} {ref : SessionRef} {s : Session φ μ} (same : x.Same y)
      (hs : x.state.client.session? ref = some s)
      (client : y.state.client = x.state.client.update ref (s.acquire x.state.client.world).2.1
        (s.acquire x.state.client.world).2.2)
      (hands : y.inHand.Subperm
        ((s.acquire x.state.client.world).1.toList ++ x.inHand))
      (loans : x.state.loans ⊆ y.state.loans) : Act (.draw ref) x y
  | giveBack {x y : Moment φ μ ω} {ref : SessionRef} {s : Session φ μ} {m : μ} (same : x.Same y)
      (hs : x.state.client.session? ref = some s)
      (client : y.state.client = x.state.client.update ref (s.release m x.state.client.world).2.1
        (s.release m x.state.client.world).2.2)
      (hands : (m :: y.inHand).Subperm x.inHand)
      (loans : ∀ loan ∈ x.state.loans, loan ∈ y.state.loans ∨ loan = (ref, m)) : Act .use x y
  | close (x : Moment φ μ ω) (ref : SessionRef) :
      Act .use x { x with state := { x.state with client := (x.state.client.close ref).2 } }
  | relabel (x : Moment φ μ ω) {ref : SessionRef} {s : Session φ μ}
      (hs : x.state.client.session? ref = some s) (id : UInt32) :
      Act .use x { x with state := { x.state with
        client := x.state.client.update ref (s.setRemoteId id) x.state.client.world } }
  | free {x y : Moment φ μ ω} (ref : SessionRef) (same : x.Same y)
      (sessions : y.state.client.sessions = x.state.client.sessions)
      (world : y.state.client.world = x.state.client.world)
      (hands : y.inHand.Subperm x.inHand)
      (loans : ∀ loan ∈ x.state.loans, loan ∈ y.state.loans ∨ loan.1 = ref) : Act (.free ref) x y

/-- Acts of some kinds, one after the other. -/
def Acts (P : Tag φ χ α → Prop) : Moment φ μ ω → Moment φ μ ω → Prop :=
  Relation.ReflTransGen fun x y => ∃ tag, P tag ∧ Act tag x y

end SessionPool.Script
