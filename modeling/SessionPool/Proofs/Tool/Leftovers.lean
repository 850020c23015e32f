import SessionPool.Tool
import SessionPool.Proofs.Stress.Alike
import SessionPool.Proofs.Stress.Collected
import SessionPool.Proofs.Tcp.Connections

/-!
# The tool leaves no connection behind

Whatever a command finds, it reports, and every connection that was made for it has been ended by
then. This is seen by watching the marshals of its session and the network that they use, which
changes nothing for the command.
-/

namespace SessionPool

open Script (World Holder)

variable {φ μ ω : Type} [Marshal μ ω] [Source φ μ ω]

/-! ### Probes -/

namespace Probe

theorem report_alike {φ' μ' : Type} {F : φ → φ' → Prop} {R : μ → μ' → Prop} {s : Session φ μ}
    {s' : Session φ' μ'} (h : Session.Alike F R s s') (connected : Bool) (peer : Option String) :
    report s connected peer = report s' connected peer := by
  rw [report, report, h.localId, h.domain]

/-- What a probe reports is right: there was one attempt to open a marshal, at the endpoint of the
session, and the report says how it ended. -/
structure Tells (domain : Domain) (seen : List (Sighting μ)) (found : Report) : Prop where
  attempts : seen.filterMap Sighting.attempt? = [(domain.host, domain.port, found.connected)]
  peer : found.peer.isSome = true → found.connected = true
  host : found.host = domain.host
  port : found.port = domain.port
  remoteDomainId : found.remoteDomainId = domain.remoteDomainId

variable {s : Session φ (Numbered μ)} {w : ω} {made m : Numbered μ} {w₁ : Watched μ ω}

/-- After an attempt that has failed there is nothing to collect. -/
theorem collected_missed (q : Standard μ ω) (fresh : s.pool = {})
    (h : s.Opening ({ world := w } : Watched μ ω) made m false w₁) :
    s.Collected q.isTakeable w₁ := by
  have hopened : w₁.opened = [] := by
    rw [Watched.opened, h.seen]
    rfl
  refine {
    notClosed := by rw [fresh]
    outstanding := by rw [fresh]
    unclosed := by simp [h.seen, Sighting.isClosing]
    once := hopened ▸ List.nodup_nil
    idle := ?idle
    ready := ?ready }
  case idle =>
    rw [hopened, fresh]
    exact List.Perm.refl _
  case ready =>
    rw [fresh]
    rintro _ ⟨⟩

/-- The marshal that was opened is idle when it has been given back. -/
theorem collected_released (q : Standard μ ω)
    (h : s.Opening ({ world := w } : Watched μ ω) made m true w₁) {m' : Numbered μ}
    {w' : Watched μ ω}
    (hreset : Marshal.reset (Marshal.reset m w₁).1 (Marshal.reset m w₁).2 = (m', w')) :
    Session.Collected q.isTakeable { s with pool := { idle := [m'] } } w' := by
  have hnumber : m'.number = made.number := (congrArg (·.1.number) hreset.symm).trans h.number
  have hseen : w'.seen = w₁.seen ++ [.reset m] ++ [.reset (Marshal.reset m w₁).1] :=
    congrArg (·.2.seen) hreset.symm
  have hopened : w'.opened = [m'.number] := by
    rw [Watched.opened, hseen, h.seen, hnumber]
    rfl
  refine {
    notClosed := rfl
    outstanding := rfl
    unclosed := by simp [hseen, h.seen, Sighting.isClosing]
    once := hopened ▸ List.nodup_singleton m'.number
    idle := hopened ▸ List.Perm.refl [m'.number]
    ready := ?_ }
  intro other hother
  obtain rfl := List.mem_singleton.mp hother
  -- The marshal could be opened, and two resets leave it open.
  obtain ⟨w₀, hdialled⟩ := h.dialled
  have htaken := q.isTakeable_dial made.marshal s.domain.host s.domain.port w₀ (by rw [hdialled])
  rw [hdialled] at htaken
  have hmarshal : other.marshal =
      (Marshal.reset (Marshal.reset m.marshal w₁.world).1 (Marshal.reset m w₁).2.world).1 :=
    congrArg (·.1.marshal) hreset.symm
  rw [hmarshal]
  have hagain {m : μ} (hm : q.isTakeable m = true) (w : ω) :
      q.isTakeable (Marshal.reset m w).1 = true :=
    q.isTakeable_of_isReady _ (q.isReady_reset m w hm)
  exact hagain (hagain htaken _) _

/-- A probe on a fresh session reports what it has done, and leaves nothing behind. -/
theorem swept_run (q : Standard μ ω) (peer? : Numbered μ → Option String) (fresh : s.pool = {})
    (w : ω) :
    ∃ found s' w', run peer? s ({ world := w } : Watched μ ω) = (.ok found, s', w') ∧
      s'.Swept q.isTakeable w' ∧ Tells s.domain w'.seen found := by
  obtain ⟨made, m, ok, w₁, h⟩ :=
    Session.exists_opening (by rw [fresh]) ({ world := w } : Watched μ ω)
  have hacquire := h.acquire
  cases ok with
  | false =>
    rw [if_neg Bool.false_ne_true] at hacquire
    -- Nobody is counted any longer, so the session is as before the attempt.
    have hsame : { s with pool := s.pool.take.2.uncount } = s := by
      obtain ⟨localId, remoteId, domain, factory, pool⟩ := s
      obtain rfl : pool = {} := fresh
      rfl
    rw [hsame] at hacquire
    refine ⟨report s false none, (s.close w₁).2.1, (s.close w₁).2.2, ?_,
      (collected_missed q fresh h).swept, ?_⟩
    · rw [run, hacquire]
      rfl
    · have hseen : (s.close w₁).2.2.seen = w₁.seen := by
        rw [Session.close, Pool.drain, fresh]
        rfl
      refine ⟨?_, fun hpeer => hpeer, rfl, rfl, rfl⟩
      rw [hseen, h.seen]
      rfl
  | true =>
    rw [if_pos rfl] at hacquire
    obtain ⟨⟨m', w'⟩, hreset⟩ : ∃ out,
      Marshal.reset (Marshal.reset m w₁).1 (Marshal.reset m w₁).2 = out := ⟨_, rfl⟩
    have hrelease : Session.release { s with pool := s.pool.take.2 } (Marshal.reset m w₁).1
        (Marshal.reset m w₁).2 = (.ok (), { s with pool := { idle := [m'] } }, w') := by
      rw [Session.release, hreset, fresh]
      rfl
    refine ⟨report s true (peer? (Marshal.reset m w₁).1), _, _, ?_,
      (collected_released q h hreset).swept, ?_⟩
    · rw [run, hacquire]
      dsimp only
      rw [hrelease]
      rfl
    · have hseen : w'.seen = w₁.seen ++ [.reset m] ++ [.reset (Marshal.reset m w₁).1] :=
        congrArg (·.2.seen) hreset.symm
      refine ⟨?_, fun _ => rfl, rfl, rfl, rfl⟩
      show (closeEach [m'] w').seen.filterMap Sighting.attempt? = _
      rw [Watched.seen_closeEach, hseen, h.seen]
      rfl

end Probe

/-- Under a likeness of marshals, as long as attempts to open them end alike and the same is known
of their peers, what is reported after probes that are alike is the same. -/
theorem Likeness.probe {χ α φ' μ' ω' χ' α' : Type} [World ω χ] [Holder μ α] [Marshal μ' ω']
    [Source φ' μ' ω'] [World ω' χ'] [Holder μ' α'] {L : Likeness φ μ ω χ α φ' μ' ω' χ' α'}
    (exact : L.IsExact) (peer? : μ → Option String) (peer?' : μ' → Option String)
    (known : ∀ m m', L.marshal m m' → peer? m = peer?' m') {s : Session φ μ} {s' : Session φ' μ'}
    (hs : Session.Alike L.factory L.marshal s s') {w : ω} {w' : ω'} (hw : L.world w w') :
    (Probe.run peer? s w).1 = (Probe.run peer?' s' w').1 ∧
      L.Alongside (Probe.run peer? s w).2 (Probe.run peer?' s' w').2 := by
  obtain ⟨hm, hs₁, hw₁⟩ := alongside_acquire exact hs hw
  rw [Probe.run, Probe.run]
  generalize s.acquire w = out at hm hs₁ hw₁ ⊢
  generalize s'.acquire w' = out' at hm hs₁ hw₁ ⊢
  obtain ⟨m, s₁, w₁⟩ := out
  obtain ⟨m', s₁', w₁'⟩ := out'
  cases hm with
  | none =>
    obtain ⟨-, hs₂, hw₂⟩ := alongside_close hs₁ hw₁
    exact ⟨congrArg Except.ok (Probe.report_alike hs₂ false none), hs₂, hw₂⟩
  | some hm =>
    obtain ⟨hreleased, hs₂, hw₂⟩ := alongside_release hs₁ hw₁ hm
    obtain ⟨-, hs₃, hw₃⟩ := alongside_close hs₂ hw₂
    refine ⟨?_, hs₃, hw₃⟩
    dsimp only at hreleased ⊢
    rw [hreleased, known _ _ hm, Probe.report_alike hs₃]

/-! ### The tool -/

namespace Tool

variable {ε : Type} [Tcp.Network ω ε]

/-- The session of a command, with its marshals watched. -/
def watchedSession (ids : Allocator) (c : Config) : Session Tcp.Factory (Numbered Tcp.Marshal) where
  localId := ids.next.1
  domain := c.domain
  factory := c.marshalFactory

/-- A command has reported what it `found`, and it has left nothing behind: neither has the session
that it used, nor has what was seen of the same command with its marshals and its network watched.
Every marshal that was opened has been closed once, and closing it has ended its connection, so that
as many connections were ended as were made. -/
structure LeavesNothing {ρ : Type} (ran : Except Error ρ × Session Tcp.Factory Tcp.Marshal × ω)
    (watched : Except Error ρ × Session Tcp.Factory (Numbered Tcp.Marshal) ×
      Watched Tcp.Marshal (Tcp.Observed ω))
    (found : ρ) : Prop where
  reported : ran.1 = .ok found
  pool : ran.2.1.pool = { idle := [], outstanding := 0, closed := true }
  watching : ran = (watched.1, watched.2.1.unwatched, watched.2.2.world.world)
  swept : watched.2.1.Swept Tcp.Marshal.isOpen watched.2.2
  ended : watched.2.2.world.ended = watched.2.2.seen.filterMap Tcp.ended?
  connections : watched.2.2.world.ended.length = watched.2.2.world.made.length

omit [Tcp.Network ω ε] in
theorem LeavesNothing.of_swept {ρ : Type}
    {ran : Except Error ρ × Session Tcp.Factory Tcp.Marshal × ω}
    {watched : Except Error ρ × Session Tcp.Factory (Numbered Tcp.Marshal) ×
      Watched Tcp.Marshal (Tcp.Observed ω)}
    {found : ρ} (watching : ran = (watched.1, watched.2.1.unwatched, watched.2.2.world.world))
    (reported : watched.1 = .ok found) (swept : watched.2.1.Swept Tcp.Marshal.isOpen watched.2.2)
    (accounted : Tcp.Accounted watched.2.2) : LeavesNothing ran watched found := by
  refine ⟨by rw [watching, reported], ?_, watching, swept, accounted.ended,
    swept.length_ended accounted⟩
  rw [watching]
  show ({ idle := _, outstanding := _, closed := _ } : Pool Tcp.Marshal) = _
  rw [swept.empty, swept.outstanding, swept.closed, List.map_nil]

/-- A world in which nothing was seen yet. -/
def unseen (w : ω) : Watched Tcp.Marshal (Tcp.Observed ω) := { world := { world := w } }

/-- A command does the same whether or not anybody watches, and what is seen accounts for the
connections. -/
theorem watching_of_alike [World ω Empty] {ρ : Type}
    {ran : Except Error ρ × Session Tcp.Factory Tcp.Marshal × ω}
    {watched : Except Error ρ × Session Tcp.Factory (Numbered Tcp.Marshal) ×
      Watched Tcp.Marshal (Tcp.Observed ω)}
    (h : watched.1 = ran.1 ∧ Likeness.overNetwork.Alongside watched.2 ran.2) :
    ran = (watched.1, watched.2.1.unwatched, watched.2.2.world.world) ∧
      Tcp.Accounted watched.2.2 := by
  obtain ⟨hreport, hsession, hworld, haccounted⟩ := h
  exact ⟨Prod.ext hreport.symm (Prod.ext hsession.eq_unwatched hworld.symm), haccounted⟩

theorem alike_watchedSession (ids : Allocator) (c : Config) :
    Session.Alike (fun f f' : Tcp.Factory => f = f') (fun m m' => m.marshal = m')
      (watchedSession ids c) (session ids c) :=
  ⟨rfl, rfl, rfl, rfl, .nil, rfl, rfl⟩

/-- **The tool leaves no connection behind**, with any configuration, on any network, whatever is
known of the peers of its marshals, and for a stress run with any load and on any schedule. What a
probe tells is what it has seen. -/
theorem leavesNothing (peer? : Tcp.Marshal → Option String) (ids : Allocator) (c : Config) (w : ω) :
    (∃ found,
      LeavesNothing (Probe.run peer? (session ids c) w)
        (Probe.run (fun m => peer? m.marshal) (watchedSession ids c) (unseen w)) found ∧
      Probe.Tells c.domain
        (Probe.run (fun m => peer? m.marshal) (watchedSession ids c) (unseen w)).2.2.seen found) ∧
    ∀ schedule load, ∃ found,
      LeavesNothing (Stress.run schedule load (session ids c) w)
        (Stress.run schedule load (watchedSession ids c) (unseen w)) found := by
  -- Nothing is done to the world but by the command.
  let _ : World ω Empty := ⟨nofun⟩
  have hsession := alike_watchedSession ids c
  have hworld : (unseen w).world.world = w ∧ Tcp.Accounted (unseen w) := ⟨rfl, .init w⟩
  refine ⟨?_, fun schedule load => ?_⟩
  · obtain ⟨hwatching, haccounted⟩ := watching_of_alike <|
      Likeness.probe Likeness.overNetwork_isExact (fun m => peer? m.marshal) peer?
        (fun _ _ h => congrArg peer? h) hsession hworld
    obtain ⟨found, s', w', hrun, hswept, htells⟩ := Probe.swept_run (s := watchedSession ids c)
      Tcp.Marshal.openness (fun m => peer? m.marshal) rfl ({ world := w } : Tcp.Observed ω)
    have hrun : Probe.run (fun m => peer? m.marshal) (watchedSession ids c) (unseen w) =
      (.ok found, s', w') := hrun
    rw [hrun] at hwatching haccounted ⊢
    exact ⟨found, .of_swept hwatching rfl hswept haccounted, htells⟩
  · obtain ⟨hwatching, haccounted⟩ := watching_of_alike <|
      Likeness.stress Likeness.overNetwork_isExact hsession hworld schedule load
    obtain ⟨found, s', w', hrun, hswept⟩ := Stress.swept_run Tcp.Marshal.openness schedule load
      ids.next.1 0 c.domain c.marshalFactory ({ world := w } : Tcp.Observed ω)
    have hrun : Stress.run schedule load (watchedSession ids c) (unseen w) =
      (.ok found, s', w') := hrun
    rw [hrun] at hwatching haccounted ⊢
    exact ⟨found, .of_swept hwatching rfl hswept haccounted⟩

end Tool

end SessionPool
