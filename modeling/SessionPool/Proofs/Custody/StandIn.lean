import SessionPool.Proofs.Custody.Alike
import SessionPool.Proofs.Mock.Log

/-!
# Mock marshals stand in for marshals over TCP

Sessions are tried out with mock marshals, and in earnest they run over TCP. A mock marshal has a
number and two flags and leaves its mark in a log; a marshal over TCP has a stream, a buffer and a
counter. What the two have in common is all that a session can tell:

    mock marshal n ~ n-th marshal over TCP,  open ~ has a stream,  clean ⟹ empty buffer, counter 0.

A marshal over TCP does not know its number. It is given one here, which changes nothing else.
-/

namespace SessionPool

open Session (Call Result)
open Script (World Holder FleetChange MockAct TcpAct Deed)

/-! ### Numbers -/

/-- A marshal with its number in the order of creation. -/
structure Numbered (μ : Type) where
  number : Nat
  marshal : μ

/-- A world, and how many marshals were created in it. -/
structure Counted (ω : Type) where
  world : ω
  created : Nat := 0

section Numbers

variable {φ μ ω χ α : Type}

instance [Marshal μ ω] : Marshal (Numbered μ) (Counted ω) where
  dial m host port w :=
    let (ok, marshal, world) := Marshal.dial m.marshal host port w.world
    (ok, { m with marshal }, { w with world })
  reset m w :=
    let (marshal, world) := Marshal.reset m.marshal w.world
    ({ m with marshal }, { w with world })
  close m w :=
    let (marshal, world) := Marshal.close m.marshal w.world
    ({ m with marshal }, { w with world })

instance [Source φ μ ω] : Source φ (Numbered μ) (Counted ω) where
  create f w :=
    let (marshal, world) := Source.create f w.world
    (⟨w.created + 1, marshal⟩, ⟨world, w.created + 1⟩)

instance [World ω χ] : World (Counted ω) χ where
  change c w := { w with world := World.change c w.world }

instance [Holder μ α] : Holder (Numbered μ) α where
  act a m := { m with marshal := Holder.act a m.marshal }

/-- A move with numbered marshals. One that comes from elsewhere has the number 0. -/
def Custody.Move.numbered : Move μ χ α → Move (Numbered μ) χ α
  | .request t place r => .request t place r
  | .release t place i => .release t place i
  | .endLease t i => .endLease t i
  | .detach t i => .detach t i
  | .drop t i => .drop t i
  | .pass t i receiver => .pass t i receiver
  | .adopt t m => .adopt t ⟨0, m⟩
  | .deed t i d => .deed t i d
  | .change c => .change c
  | .dropSession t place => .dropSession t place
  | .advance t => .advance t

variable [Marshal μ ω] [Source φ μ ω] [World ω χ] [Holder μ α]

/-- Numbered marshals are like the same ones without their numbers. -/
def Likeness.forgetting :
    Likeness φ (Numbered μ) (Counted ω) χ α φ μ ω χ α where
  factory f f' := f = f'
  marshal t m := t.marshal = m
  world w w' := w.world = w'
  change c c' := c = c'
  act a a' := a = a'
  create := by
    rintro f _ w _ rfl rfl
    exact ⟨rfl, rfl⟩
  dial := by
    rintro m _ w _ rfl rfl host port -
    exact ⟨rfl, rfl⟩
  reset := by
    rintro m _ w _ rfl rfl
    exact ⟨rfl, rfl⟩
  close := by
    rintro m _ w _ rfl rfl
    exact ⟨rfl, rfl⟩
  changed := by
    rintro c _ w _ rfl rfl
    rfl
  acted := by
    rintro a _ m _ rfl rfl
    rfl

theorem Likeness.forgetting_isExact :
    (Likeness.forgetting : Likeness φ (Numbered μ) (Counted ω) χ α φ μ ω χ α).IsExact := by
  rintro m _ w _ host port rfl rfl
  rfl

end Numbers

/-! ### Mock marshals and marshals over TCP -/

section StandIn

variable {ω ε χ : Type} [Tcp.Network ω ε] [World ω χ]

/-- A mock marshal is like the marshal over TCP with its number: both are open or none is, and what
is clean at the mock marshal is clean over TCP. A holder may do whatever it likes over TCP where it
marks the mock marshal as dirty. -/
structure MockAlike (m : Mock.Marshal) (t : Numbered Tcp.Marshal) : Prop where
  place : m.place = 0
  number : m.id = t.number
  isOpen : m.isOpen = t.marshal.isOpen
  clean : m.isDirty = false → t.marshal.scratch = [] ∧ t.marshal.nextId = 0

/-- The first daemon has created as many marshals as there are. -/
structure FleetAlike (w : Mock.Fleet) (w' : Counted ω) : Prop where
  running : 0 < w.daemons.length
  created : (w.daemon 0).nextId = w'.created + 1

omit [Tcp.Network ω ε] [World ω χ] in
theorem FleetAlike.record {w : Mock.Fleet} {w' : Counted ω} (h : FleetAlike w w') (place : Place)
    (e : Mock.Event) (world : ω) : FleetAlike (w.record place e) { w' with world } where
  running := (Mock.Fleet.length_modify ..).symm ▸ h.running
  created := (Mock.Fleet.nextId_record h.running place e).trans h.created

omit [Tcp.Network ω ε] [World ω χ] in
theorem FleetAlike.change {w : Mock.Fleet} {w' : Counted ω} (h : FleetAlike w w')
    (c : FleetChange) (world : ω) : FleetAlike (World.change c w) { w' with world } := by
  cases c with
  | start d =>
    refine ⟨?_, ?_⟩
    · show 0 < (w.daemons ++ [d]).length
      rw [List.length_append]
      exact Nat.add_pos_left h.running _
    · exact (congrArg Mock.Daemon.nextId (Mock.Fleet.daemon_start h.running d)).trans h.created
  | setAccepting place on =>
    have hsame := Mock.Fleet.sameLives_modify h.running place fun d => d.sameLives_accepting on
    exact ⟨(Mock.Fleet.length_modify ..).symm ▸ h.running, hsame.nextId.trans h.created⟩

omit [World ω χ] in
/-- Whether a marshal over TCP is open after an attempt is how the attempt has ended, and nothing of
what an exchange has left behind changes. -/
theorem Tcp.Marshal.dial_eq (m : Tcp.Marshal) (host : String) (port : UInt16) (w : ω) :
    (m.dial host port w).2.1.isOpen = (m.dial host port w).1 ∧
      (m.dial host port w).2.1.scratch = m.scratch ∧
      (m.dial host port w).2.1.nextId = m.nextId := by
  unfold dial
  split <;> exact ⟨rfl, rfl, rfl⟩

/-- What an exchange does to a marshal over TCP leaves it open or not open. -/
theorem Tcp.Marshal.isOpen_act (a : TcpAct) (m : Tcp.Marshal) :
    (Holder.act a m : Tcp.Marshal).isOpen = m.isOpen := by
  have counted (n : Nat) (m : Tcp.Marshal) : (m.nextMessageIds n).2.isOpen = m.isOpen := by
    induction n generalizing m with
    | zero => rfl
    | succ n ih => exact ih m.nextMessageId.2
  cases a with
  | write bytes => rfl
  | takeMessageIds n => exact counted n m

/-- Mock marshals are like numbered marshals over TCP. -/
def Likeness.standIn :
    Likeness Mock.Factory Mock.Marshal Mock.Fleet FleetChange MockAct
      Tcp.Factory (Numbered Tcp.Marshal) (Counted ω) χ TcpAct where
  factory f _ := f.place = 0
  marshal := MockAlike
  world := FleetAlike
  change _ _ := True
  act _ _ := True
  create := by
    intro f f' w w' hf hw
    have hcreate : (f.create w).1 = { place := 0, id := (w.daemon 0).nextId } := by
      rw [Mock.Factory.create, hf]
    have hnext : ((f.create w).2.daemon 0).nextId = (w.daemon 0).nextId + 1 := by
      rw [Mock.Factory.create, hf, Mock.Fleet.daemon_modify hw.running]
    refine ⟨?_, (Mock.Fleet.length_modify ..).symm ▸ hw.running, ?_⟩
    · show MockAlike (f.create w).1 _
      rw [hcreate]
      exact ⟨rfl, hw.created, rfl, fun _ => ⟨rfl, rfl⟩⟩
    · exact hnext.trans (congrArg (· + 1) hw.created)
  dial := by
    intro m t w w' hm hw host port same
    obtain ⟨hopen, hscratch, hnext⟩ := t.marshal.dial_eq host port w'.world
    refine ⟨⟨hm.place, hm.number, ?_, fun hclean => ?_⟩, hw.record ..⟩
    · exact Eq.trans same hopen.symm
    · obtain ⟨hempty, hzero⟩ := hm.clean hclean
      exact ⟨hscratch.trans hempty, hnext.trans hzero⟩
  reset := by
    intro m t w w' hm hw
    exact ⟨⟨hm.place, hm.number, hm.isOpen, fun _ => ⟨rfl, rfl⟩⟩, hw.record ..⟩
  close := by
    intro m t w w' hm hw
    exact ⟨⟨hm.place, hm.number, rfl, fun hclean => ⟨rfl, (hm.clean hclean).2⟩⟩, hw.record ..⟩
  changed := by
    intro c c' w w' _ hw
    exact hw.change c _
  acted := by
    intro a a' m t _ hm
    cases a
    refine ⟨hm.place, hm.number, ?_, fun hclean => absurd hclean.symm Bool.false_ne_true⟩
    exact hm.isOpen.trans (t.marshal.isOpen_act a').symm

end StandIn

/-! ### The theorem -/

namespace Custody

/-- New sessions over TCP, each with a local id, an endpoint, and what makes its marshals. -/
def overTcp {μ υ : Type} (w : υ) (sessions : List (UInt64 × Domain × Tcp.Factory)) :
    Custody Tcp.Factory μ υ :=
  fresh w (sessions.map fun (localId, domain, factory) => { localId, domain, factory })

/-- The same sessions, with numbers for their marshals. -/
def overNumberedTcp {υ : Type} (w : υ) (sessions : List (UInt64 × Domain × Tcp.Factory)) :
    Custody Tcp.Factory (Numbered Tcp.Marshal) (Counted υ) :=
  overTcp ⟨w, 0⟩ sessions

/-- The same sessions over a mock daemon. -/
def mocked (accepting : Bool) (sessions : List (UInt64 × Domain × Tcp.Factory)) : MockCustody :=
  overMock accepting (sessions.map fun (localId, domain, _) => (localId, domain))

/-- The same moves, but for changes of the world and for what holders do to their marshals. -/
abbrev Move.Parallel {χ : Type} : MockMove → Move Tcp.Marshal χ TcpAct → Prop :=
  Move.Alike (fun _ _ => True) fun _ _ => True

theorem Move.Alike.numbered {χ : Type} {m : MockMove} {m' : Move Tcp.Marshal χ TcpAct}
    (h : m.Parallel m') :
    Move.Alike (fun _ _ => True) (fun _ _ => True) m m'.numbered ∧
      Move.Alike Eq Eq m'.numbered m' := by
  cases h with
  | deed t i hd =>
    refine ⟨.deed t i hd, .deed t i ?_⟩
    cases hd with
    | look => exact .look
    | reset => exact .reset
    | close => exact .close
    | act ha => exact .act rfl
  | change hc => exact ⟨.change hc, .change rfl⟩
  | _ => constructor <;> constructor

theorem forall₂_numbered {χ : Type} {moves : List MockMove}
    {moves' : List (Move Tcp.Marshal χ TcpAct)} (h : List.Forall₂ Move.Parallel moves moves') :
    List.Forall₂ (Move.Alike (fun _ _ => True) fun _ _ => True) moves
        (moves'.map Move.numbered) ∧
      List.Forall₂ (Move.Alike Eq Eq) (moves'.map Move.numbered) moves' := by
  induction h with
  | nil => exact ⟨.nil, .nil⟩
  | cons hm hms ih => exact ⟨.cons hm.numbered.1 ih.1, .cons hm.numbered.2 ih.2⟩

variable {ω ε χ : Type} [Tcp.Network ω ε] [World ω χ]

theorem standIn_fresh (accepting : Bool) (w : ω)
    (sessions : List (UInt64 × Domain × Tcp.Factory)) :
    Likeness.standIn.Alike (mocked accepting sessions) (overNumberedTcp w sessions) := by
  refine ⟨⟨⟨Nat.zero_lt_one, rfl⟩, ?_, .nil, .nil⟩, rfl, .nil, .nil, rfl⟩
  show List.Forall₂ _ (List.map _ (List.map _ sessions)) (List.map _ sessions)
  rw [List.map_map, List.forall₂_map_left_iff, List.forall₂_map_right_iff, List.forall₂_same]
  exact fun _ _ => ⟨rfl, rfl, rfl, rfl, .nil, rfl, rfl⟩

theorem forgetting_fresh (w : ω) (sessions : List (UInt64 × Domain × Tcp.Factory)) :
    Likeness.forgetting.Alike (overNumberedTcp w sessions)
      (overTcp w sessions : Custody Tcp.Factory Tcp.Marshal ω) := by
  refine ⟨⟨rfl, ?_, .nil, .nil⟩, rfl, .nil, .nil, rfl⟩
  show List.Forall₂ _ (List.map _ sessions) (List.map _ sessions)
  rw [List.forall₂_map_left_iff, List.forall₂_map_right_iff, List.forall₂_same]
  exact fun _ _ => ⟨rfl, rfl, rfl, rfl, .nil, rfl, rfl⟩

/-- What a run over a mock daemon and a run over TCP have in common: every turn is the same, and so
is every state after a number of moves. For that the marshals over TCP are numbered, which makes no
difference to them. -/
structure StandsIn (accepting : Bool) (w : ω) (sessions : List (UInt64 × Domain × Tcp.Factory))
    (moves : List MockMove) (moves' : List (Move Tcp.Marshal χ TcpAct)) : Prop where
  turns : List.Forall₂ Likeness.standIn.TurnAlike ((mocked accepting sessions).turns moves)
    ((overNumberedTcp w sessions).turns (moves'.map Move.numbered))
  states (n : Nat) : Likeness.standIn.Alike ((mocked accepting sessions).run (moves.take n))
    ((overNumberedTcp w sessions).run ((moves'.map Move.numbered).take n))
  forgets (n : Nat) : Likeness.forgetting.Alike
    ((overNumberedTcp w sessions).run ((moves'.map Move.numbered).take n))
    ((overTcp w sessions).run (moves'.take n))

/-- **Mock marshals stand in for marshals over TCP**, whenever threads do the same with sessions
over a mock daemon and over TCP, whatever holders and the world outside do, as long as the attempts
to open marshals end alike. -/
theorem mock_standsIn (accepting : Bool) (w : ω) (sessions : List (UInt64 × Domain × Tcp.Factory))
    (moves : List MockMove) (moves' : List (Move Tcp.Marshal χ TcpAct))
    (parallel : List.Forall₂ Move.Parallel moves moves')
    (same : Turn.dials ((mocked accepting sessions).turns moves) =
      Turn.dials ((overTcp w sessions).turns moves')) :
    StandsIn accepting w sessions moves moves' := by
  obtain ⟨hstandIn, hforgetting⟩ := forall₂_numbered parallel
  have hnumbers := Likeness.forgetting_isExact.dials_eq hforgetting (forgetting_fresh w sessions)
  obtain ⟨-, hforget⟩ := (forgetting_fresh w sessions).run hforgetting hnumbers
  obtain ⟨hturns, hstates⟩ :=
    (standIn_fresh accepting w sessions).run hstandIn (same.trans hnumbers.symm)
  exact ⟨hturns, hstates, hforget⟩

/-- A leased marshal is used, comes back and is handed out again. Then nothing can be opened any
more, the session is closed, and the marshal is turned away. -/
def usedAndTurnedAway {μ χ α : Type} (use : α) (refuse : χ) : List (Move μ χ α) :=
  [.request 0 0 .lease, .advance 0, .advance 0, .advance 0, .advance 0,
    .deed 0 0 (.act use), .endLease 0 0, .advance 0, .advance 0,
    .request 1 0 .acquire, .advance 1, .deed 1 0 (.act use),
    .change refuse, .request 0 0 .acquire, .advance 0, .advance 0, .advance 0, .advance 0,
    .request 2 0 .close, .advance 2, .release 1 0 0, .advance 1, .advance 1, .advance 1]

/-- A machine on which somebody listens. -/
def oneListener : Tcp.Loopback := { listeners := [{}] }

/-- A session with the first listener of a machine. -/
def atLoopback : List (UInt64 × Domain × Tcp.Factory) :=
  [(1, { host := Tcp.Loopback.host, port := Tcp.Loopback.port 0 }, {})]

theorem mock_standsIn_usedAndTurnedAway :
    Turn.dials ((mocked true atLoopback).turns
        (usedAndTurnedAway MockAct.markDirty (FleetChange.setAccepting 0 false))) =
        [true, false] ∧
      Turn.dials ((overTcp oneListener atLoopback : Custody Tcp.Factory Tcp.Marshal _).turns
        (usedAndTurnedAway (TcpAct.write [7]) (Script.LoopbackChange.setListening 0 false))) =
        [true, false] ∧
      StandsIn true oneListener atLoopback
        (usedAndTurnedAway .markDirty (.setAccepting 0 false))
        (usedAndTurnedAway (.write [7]) (.setListening 0 false)) := by
  have hmock : Turn.dials ((mocked true atLoopback).turns
      (usedAndTurnedAway MockAct.markDirty (FleetChange.setAccepting 0 false))) =
      [true, false] := by decide +kernel
  have htcp : Turn.dials ((overTcp oneListener atLoopback :
      Custody Tcp.Factory Tcp.Marshal _).turns
        (usedAndTurnedAway (TcpAct.write [7]) (Script.LoopbackChange.setListening 0 false))) =
      [true, false] := by decide +kernel
  exact ⟨hmock, htcp, mock_standsIn true _ atLoopback _ _ (by repeat constructor)
    (hmock.trans htcp.symm)⟩

end Custody

end SessionPool
