import SessionPool.Proofs.Session.Swept
import SessionPool.Proofs.Tcp.Sockets

/-!
# Connections that are made and ended

Marshals over TCP are watched, and so is the network that they use. Then what is seen of marshals
accounts for the connections: each marshal that was opened has made one, and what was ended is what
marshals had when they were closed,

    made.length = opened.length,   ended = seen.filterMap ended?.

So a session that leaves no marshal open leaves no connection behind.
-/

namespace SessionPool

open Script (World Holder TcpAct)

namespace Tcp

variable {ω ε χ : Type}

/-- The world outside changes whether or not anybody watches the network. -/
instance [World ω χ] : World (Observed ω) χ where
  change c w := { w with world := World.change c w.world }

/-- The connection of the marshal, if this is the closing of one that has a connection. -/
def ended? : Sighting Marshal → Option Stream
  | .closed m => m.marshal.stream
  | _ => none

/-- What was seen of marshals accounts for what was seen of connections. -/
structure Accounted (w : Watched Marshal (Observed ω)) : Prop where
  made : w.world.made.length = w.opened.length
  ended : w.world.ended = w.seen.filterMap ended?

namespace Accounted

variable {w : Watched Marshal (Observed ω)}

theorem init (w : ω) : Accounted ({ world := { world := w } } : Watched Marshal (Observed ω)) :=
  ⟨rfl, rfl⟩

theorem change [World ω χ] (h : Accounted w) (c : χ) : Accounted (World.change c w) :=
  ⟨h.made, h.ended⟩

/-- What one more sighting adds to the connections that were ended. -/
theorem ended_snoc (h : Accounted w) (e : Sighting Marshal) :
    w.world.ended ++ (ended? e).toList = (w.seen ++ [e]).filterMap ended? := by
  rw [List.filterMap_append, h.ended, List.filterMap_cons]
  cases ended? e <;> rfl

variable [Network ω ε]

theorem create (h : Accounted w) (f : Factory) : Accounted (Source.create f w).2 where
  made := h.made.trans (congrArg List.length (w.opened_create f).symm)
  ended := (List.append_nil _).symm.trans (h.ended_snoc (.created (Source.create f w).1))

theorem dial (h : Accounted w) (m : Numbered Marshal) (host : String) (port : UInt16) :
    Accounted (SessionPool.Marshal.dial m host port w).2.2 where
  made := by
    refine (m.marshal.made_dial host port w.world).trans ?_
    rw [Watched.opened_dial, List.length_append, h.made]
    congr 1
    show _ = (if (m.marshal.dial host port w.world).1 = true then [m.number] else []).length
    cases (m.marshal.dial host port w.world).1 <;> rfl
  ended := by
    refine (m.marshal.ended_dial host port w.world).trans ((List.append_nil _).symm.trans ?_)
    exact h.ended_snoc (.dialled m host port (SessionPool.Marshal.dial m host port w).1)

theorem reset (h : Accounted w) (m : Numbered Marshal) :
    Accounted (SessionPool.Marshal.reset m w).2 where
  made := h.made.trans (congrArg List.length (w.opened_reset m).symm)
  ended := (List.append_nil _).symm.trans (h.ended_snoc (.reset m))

theorem close (h : Accounted w) (m : Numbered Marshal) :
    Accounted (SessionPool.Marshal.close m w).2 where
  made := by
    rw [Watched.opened_close]
    exact (congrArg List.length (m.marshal.made_close w.world)).trans h.made
  ended := (m.marshal.ended_close w.world).trans (h.ended_snoc (.closed m))

end Accounted

end Tcp

variable {ω ε χ : Type} [Tcp.Network ω ε] [World ω χ]

/-- Marshals over TCP do the same when they are watched together with their network, and what is
seen accounts for the connections all the time. -/
def Likeness.overNetwork :
    Likeness Tcp.Factory (Numbered Tcp.Marshal) (Watched Tcp.Marshal (Tcp.Observed ω)) χ TcpAct
      Tcp.Factory Tcp.Marshal ω χ TcpAct where
  factory f f' := f = f'
  marshal t m := t.marshal = m
  world w w' := w.world.world = w' ∧ Tcp.Accounted w
  change c c' := c = c'
  act a a' := a = a'
  create := by
    rintro f _ w _ rfl ⟨rfl, haccounted⟩
    exact ⟨rfl, rfl, haccounted.create f⟩
  dial := by
    rintro m _ w _ rfl ⟨rfl, haccounted⟩ host port -
    obtain ⟨-, hmarshal, hworld⟩ := m.marshal.dial_observed host port w.world
    exact ⟨hmarshal, hworld, haccounted.dial m host port⟩
  reset := by
    rintro m _ w _ rfl ⟨rfl, haccounted⟩
    exact ⟨rfl, rfl, haccounted.reset m⟩
  close := by
    rintro m _ w _ rfl ⟨rfl, haccounted⟩
    exact ⟨rfl, m.marshal.close_observed w.world, haccounted.close m⟩
  changed := by
    rintro c _ w _ rfl ⟨rfl, haccounted⟩
    exact ⟨rfl, haccounted.change c⟩
  acted := Numbered.acted

theorem Likeness.overNetwork_isExact : (Likeness.overNetwork (ω := ω)).IsExact := by
  rintro m _ w _ host port rfl ⟨rfl, -⟩
  exact (m.marshal.dial_observed host port w.world).1

omit [Tcp.Network ω ε] [World ω χ] in
/-- After the sweep as many connections were ended as were made. -/
theorem Session.Swept.length_ended {s : Session Tcp.Factory (Numbered Tcp.Marshal)}
    {w : Watched Tcp.Marshal (Tcp.Observed ω)} (h : s.Swept Tcp.Marshal.isOpen w)
    (accounted : Tcp.Accounted w) : w.world.ended.length = w.world.made.length := by
  obtain ⟨before, last, hseen, hunclosed, -, hperm, hopen⟩ := h.sweep
  have hbefore : before.filterMap Tcp.ended? = [] := by
    refine List.filterMap_eq_nil_iff.mpr fun e he => ?_
    have hnone := hunclosed e he
    cases e with
    | closed m => cases hnone
    | _ => rfl
  -- Every marshal that is closed has a connection to end.
  have hlast : ((last.map .closed).filterMap Tcp.ended?).length = last.length := by
    have hall : ∀ e ∈ last.map Sighting.closed, (Tcp.ended? e).isSome = true :=
      List.forall_mem_map.mpr hopen
    rw [List.length_filterMap_eq_countP, List.countP_eq_length.mpr hall, List.length_map]
  have hnone : (last.map .closed).filterMap (Sighting.opened? (μ := Tcp.Marshal)) = [] := by
    simp [Sighting.opened?]
  rw [accounted.ended, accounted.made, Watched.opened, hseen, List.filterMap_append,
    List.filterMap_append, hbefore, hnone, List.nil_append, List.append_nil, hlast,
    ← hperm.length_eq, List.length_map]

end SessionPool
