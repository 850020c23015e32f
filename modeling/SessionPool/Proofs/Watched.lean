import SessionPool.Proofs.Custody.StandIn

/-!
# Marshals that are watched

Marshals over TCP keep no log, and neither do marshals in general. A watched world writes down what
every marshal is told to do, each by its number in the order of creation. Nobody notices:

    s.unwatched.acquire w.world = (the same, s'.unwatched, w'.world)   if s.acquire w = (_, s', w').

So what is seen in a watched world happens in every world.
-/

namespace SessionPool

open Session (Call)
open Script (World Holder)

/-- Something that a marshal was seen to be told, with the marshal as it was right before. -/
inductive Sighting (μ : Type) where
  | created (m : Numbered μ)
  | dialled (m : Numbered μ) (host : String) (port : UInt16) (ok : Bool)
  | reset (m : Numbered μ)
  | closed (m : Numbered μ)

/-- A world, how many marshals were created in it, and what was seen of marshals so far. -/
structure Watched (μ ω : Type) where
  world : ω
  created : Nat := 0
  seen : List (Sighting μ) := []

variable {φ μ ω χ α : Type}

/-! ### Watching changes nothing -/

section Instances

instance [Marshal μ ω] : Marshal (Numbered μ) (Watched μ ω) where
  dial m host port w :=
    let (ok, marshal, world) := Marshal.dial m.marshal host port w.world
    (ok, { m with marshal }, { w with world, seen := w.seen ++ [.dialled m host port ok] })
  reset m w :=
    let (marshal, world) := Marshal.reset m.marshal w.world
    ({ m with marshal }, { w with world, seen := w.seen ++ [.reset m] })
  close m w :=
    let (marshal, world) := Marshal.close m.marshal w.world
    ({ m with marshal }, { w with world, seen := w.seen ++ [.closed m] })

instance [Source φ μ ω] : Source φ (Numbered μ) (Watched μ ω) where
  create f w :=
    let (marshal, world) := Source.create f w.world
    let m : Numbered μ := ⟨w.created + 1, marshal⟩
    (m, { world, created := w.created + 1, seen := w.seen ++ [.created m] })

instance [World ω χ] : World (Watched μ ω) χ where
  change c w := { w with world := World.change c w.world }

end Instances

/-- What a holder does to a marshal has nothing to do with its number. -/
theorem Numbered.acted [Holder μ α] {a a' : α} {m : Numbered μ} {m' : μ} (ha : a = a')
    (hm : m.marshal = m') : (Holder.act a m).marshal = Holder.act a' m' := by
  rw [← ha, ← hm]
  rfl

/-- Watched marshals are like the same ones that nobody watches. -/
def Likeness.watching [Marshal μ ω] [Source φ μ ω] [World ω χ] [Holder μ α] :
    Likeness φ (Numbered μ) (Watched μ ω) χ α φ μ ω χ α where
  factory f f' := f = f'
  marshal t m := t.marshal = m
  world w w' := w.world = w'
  change c c' := c = c'
  act a a' := a = a'
  create := by
    rintro f _ w _ rfl rfl
    exact ⟨rfl, rfl⟩
  dial := by
    rintro m _ w _ rfl rfl host port -
    exact ⟨rfl, rfl⟩
  reset := by
    rintro m _ w _ rfl rfl
    exact ⟨rfl, rfl⟩
  close := by
    rintro m _ w _ rfl rfl
    exact ⟨rfl, rfl⟩
  changed := by
    rintro c _ w _ rfl rfl
    rfl
  acted := @Numbered.acted μ α _

theorem Likeness.watching_isExact [Marshal μ ω] [Source φ μ ω] [World ω χ] [Holder μ α] :
    (Likeness.watching : Likeness φ (Numbered μ) (Watched μ ω) χ α φ μ ω χ α).IsExact := by
  rintro m _ w _ host port rfl rfl
  rfl

/-- A session whose marshals nobody watches any more. -/
def Session.unwatched (s : Session φ (Numbered μ)) : Session φ μ where
  localId := s.localId
  remoteId := s.remoteId
  domain := s.domain
  factory := s.factory
  pool := {
    idle := s.pool.idle.map (·.marshal)
    outstanding := s.pool.outstanding
    closed := s.pool.closed }

/-- Only one session is like a watched one. -/
theorem Session.Alike.eq_unwatched {s : Session φ (Numbered μ)} {s' : Session φ μ}
    (h : Session.Alike (fun f f' : φ => f = f') (fun m m' => m.marshal = m') s s') :
    s' = s.unwatched := by
  obtain ⟨localId, remoteId, domain, factory, ⟨idle, outstanding, closed⟩⟩ := s
  obtain ⟨localId', remoteId', domain', factory', ⟨idle', outstanding', closed'⟩⟩ := s'
  obtain ⟨rfl, rfl, rfl, rfl, hidle, rfl, rfl⟩ := h
  have hmap : idle.map (·.marshal) = idle' :=
    List.forall₂_eq_eq_eq ▸ List.forall₂_map_left_iff.mpr hidle
  rw [← hmap]
  rfl

namespace Watched

variable [Marshal μ ω]

/-! ### What is seen -/

section Seen

variable (m : Numbered μ) (w : Watched μ ω)

@[simp] theorem number_dial (host : String) (port : UInt16) :
    (Marshal.dial m host port w).2.1.number = m.number := rfl

@[simp] theorem created_dial (host : String) (port : UInt16) :
    (Marshal.dial m host port w).2.2.created = w.created := rfl

@[simp] theorem seen_dial (host : String) (port : UInt16) :
    (Marshal.dial m host port w).2.2.seen =
      w.seen ++ [.dialled m host port (Marshal.dial m host port w).1] := rfl

@[simp] theorem number_reset : (Marshal.reset m w).1.number = m.number := rfl

@[simp] theorem created_reset : (Marshal.reset m w).2.created = w.created := rfl

@[simp] theorem seen_reset : (Marshal.reset m w).2.seen = w.seen ++ [.reset m] := rfl

@[simp] theorem seen_close : (Marshal.close m w).2.seen = w.seen ++ [.closed m] := rfl

/-- Marshals are seen to be closed in the order in which they are. -/
theorem seen_closeEach (ms : List (Numbered μ)) (w : Watched μ ω) :
    (closeEach ms w).seen = w.seen ++ ms.map .closed := by
  induction ms generalizing w with
  | nil => rw [closeEach_nil, List.map_nil, List.append_nil]
  | cons m ms ih =>
    rw [closeEach_cons, ih, seen_close, List.map_cons, List.append_assoc, List.singleton_append]

omit [Marshal μ ω]

variable [Source φ μ ω] (f : φ)

@[simp] theorem number_create : (Source.create f w).1.number = w.created + 1 := rfl

@[simp] theorem created_create : (Source.create f w).2.created = w.created + 1 := rfl

@[simp] theorem seen_create :
    (Source.create f w).2.seen = w.seen ++ [.created (Source.create f w).1] := rfl

end Seen

end Watched

/-! ### A marshal is opened -/

/-- An acquisition that creates the marshal `made` and attempts to open it. The marshal is `m` after
that, and `w₁` the world. -/
structure Session.Opening [Marshal μ ω] [Source φ μ ω] (s : Session φ (Numbered μ))
    (w : Watched μ ω) (made m : Numbered μ) (ok : Bool) (w₁ : Watched μ ω) : Prop where
  new : made.number = w.created + 1
  number : m.number = made.number
  created : w₁.created = w.created + 1
  seen : w₁.seen = w.seen ++ [.created made, .dialled made s.domain.host s.domain.port ok]
  dialled : ∃ w₀, Marshal.dial made.marshal s.domain.host s.domain.port w₀ =
    (ok, m.marshal, w₁.world)
  acquire : s.acquire w =
    if ok then
      (some (Marshal.reset m w₁).1, { s with pool := s.pool.take.2 }, (Marshal.reset m w₁).2)
    else (none, { s with pool := s.pool.take.2.uncount }, w₁)

/-- When no marshal is idle, an acquisition attempts to open a new one. -/
theorem Session.exists_opening [Marshal μ ω] [Source φ μ ω] {s : Session φ (Numbered μ)}
    (hempty : s.pool.idle = []) (w : Watched μ ω) :
    ∃ made m ok w₁, s.Opening w made m ok w₁ := by
  obtain ⟨⟨ok, m, w₁⟩, hdialled⟩ : ∃ out, Marshal.dial (Source.create s.factory w).1 s.domain.host
    s.domain.port (Source.create s.factory w).2 = out := ⟨_, rfl⟩
  have hseen := Watched.seen_dial (Source.create s.factory w).1 (Source.create s.factory w).2
    s.domain.host s.domain.port
  rw [hdialled, Watched.seen_create, List.append_assoc] at hseen
  exact ⟨(Source.create s.factory w).1, m, ok, w₁, {
    new := rfl
    number := congrArg (·.2.1.number) hdialled.symm
    created := congrArg (·.2.2.created) hdialled.symm
    seen := hseen
    dialled := ⟨_, congrArg (fun out => (out.1, out.2.1.marshal, out.2.2.world)) hdialled⟩
    acquire := by simp only [Session.acquire, Pool.take_of_empty hempty, hdialled] }⟩

/-! ### Sessions -/

/-- A watched session is like the same one that nobody watches. -/
theorem Session.alike_unwatched (s : Session φ (Numbered μ)) :
    Session.Alike (fun f f' : φ => f = f') (fun m m' => m.marshal = m') s s.unwatched :=
  ⟨rfl, rfl, rfl, rfl, List.forall₂_map_right_iff.mpr (List.forall₂_same.mpr fun _ _ => rfl), rfl,
    rfl⟩

namespace Watched

variable [Marshal μ ω] [Source φ μ ω] (s : Session φ (Numbered μ)) (w : Watched μ ω)

theorem unwatched_acquire :
    s.unwatched.acquire w.world =
      ((s.acquire w).1.map (·.marshal), (s.acquire w).2.1.unwatched, (s.acquire w).2.2.world) := by
  -- Nothing is done to the world or to marshals but by the session.
  let _ : World ω Empty := ⟨nofun⟩
  let _ : Holder μ Empty := ⟨nofun⟩
  obtain ⟨hm, hs, hw⟩ := Likeness.alongside_acquire Likeness.watching_isExact s.alike_unwatched
    (show Likeness.watching.world w w.world from rfl)
  refine Prod.ext ?_ (Prod.ext hs.eq_unwatched hw.symm)
  generalize (s.acquire w).1 = m at hm ⊢
  generalize (s.unwatched.acquire w.world).1 = m' at hm ⊢
  cases hm with
  | none => rfl
  | some hm => exact congrArg some hm.symm

theorem unwatched_release (m : Numbered μ) :
    s.unwatched.release m.marshal w.world =
      ((s.release m w).1, (s.release m w).2.1.unwatched, (s.release m w).2.2.world) := by
  let _ : World ω Empty := ⟨nofun⟩
  let _ : Holder μ Empty := ⟨nofun⟩
  obtain ⟨hreleased, hs, hw⟩ := Likeness.alongside_release s.alike_unwatched
    (show Likeness.watching.world w w.world from rfl) (rfl : m.marshal = m.marshal)
  exact Prod.ext hreleased.symm (Prod.ext hs.eq_unwatched hw.symm)

end Watched

end SessionPool
