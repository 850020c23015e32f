import SessionPool.Proofs.Custody.Alike
import SessionPool.Proofs.Mock.Ledger

/-!
# The same marshals under other ids

Some of the marshals of a fleet belong to one party, the rest to others. In a second fleet, where
the others have done something else, the marshals of that party have other ids. A renaming pairs the
ids, and under it the log of each daemon tells of the same events of these marshals in the same
order:

    w.eventsOf ρ.keys place  ~  w'.eventsOf ρ.keys' place.

What others do with their marshals, on either side, leaves this as it is. What the party does alike
on both sides keeps it, and a renaming grows by a pair whenever the party has a marshal created.
-/

namespace SessionPool.Mock

open Script (MockAct Deed State)

/-- The keys of marshals in two fleets side by side, in the order in which the marshals were
created. -/
abbrev Renaming := List (Key × Key)

namespace Renaming

/-- The keys in the first fleet. -/
def keys (ρ : Renaming) : List Key := ρ.map (·.1)

/-- The keys in the second fleet. -/
def keys' (ρ : Renaming) : List Key := ρ.map (·.2)

/-- The other way round. -/
def swap (ρ : Renaming) : Renaming := ρ.map Prod.swap

variable (ρ σ : Renaming)

@[simp] theorem keys_append : Renaming.keys (ρ ++ σ) = ρ.keys ++ σ.keys := List.map_append

@[simp] theorem keys'_append : Renaming.keys' (ρ ++ σ) = ρ.keys' ++ σ.keys' := List.map_append

@[simp] theorem keys_swap : ρ.swap.keys = ρ.keys' := by simp [swap, keys, keys']

@[simp] theorem keys'_swap : ρ.swap.keys' = ρ.keys := by simp [swap, keys, keys']

@[simp] theorem swap_swap : ρ.swap.swap = ρ := by simp [swap]

variable {ρ} {k k' : Key}

theorem mem_swap (h : (k, k') ∈ ρ) : (k', k) ∈ ρ.swap := List.mem_map.mpr ⟨_, h, rfl⟩

theorem mem_keys (h : (k, k') ∈ ρ) : k ∈ ρ.keys := List.mem_map.mpr ⟨_, h, rfl⟩

theorem mem_keys' (h : (k, k') ∈ ρ) : k' ∈ ρ.keys' := List.mem_map.mpr ⟨_, h, rfl⟩

end Renaming

/-- Events that are the same, but for the ids of the marshals, which a renaming pairs. -/
inductive Event.Alike (ρ : Renaming) (place : Nat) : Event → Event → Prop
  | dialled {id id' : Nat} (renamed : ((place, id), (place, id')) ∈ ρ) (host : String)
      (port : UInt16) (ok : Bool) :
      Alike ρ place (.dialled id host port ok) (.dialled id' host port ok)
  | reset {id id' : Nat} (renamed : ((place, id), (place, id')) ∈ ρ) :
      Alike ρ place (.reset id) (.reset id')
  | closed {id id' : Nat} (renamed : ((place, id), (place, id')) ∈ ρ) :
      Alike ρ place (.closed id) (.closed id')

/-- Marshals that are the same, but for their ids, which a renaming pairs. -/
structure Marshal.Alike (ρ : Renaming) (m m' : Marshal) : Prop where
  renamed : (m.key, m'.key) ∈ ρ
  place : m.place = m'.place
  isOpen : m.isOpen = m'.isOpen
  isDirty : m.isDirty = m'.isDirty

/-- Sessions that are the same, but for the ids of their marshals. -/
abbrev SessionAlike (ρ : Renaming) (s s' : Session Factory Marshal) : Prop :=
  s.Alike Eq (Marshal.Alike ρ) s'

section Alike

variable {ρ σ : Renaming} {place : Nat} {e e' : Event} {m m' : Marshal}
  {s s' : Session Factory Marshal}

theorem Event.Alike.renamed (h : e.Alike ρ place e') : ((place, e.id), (place, e'.id)) ∈ ρ := by
  cases h with
  | dialled renamed => exact renamed
  | reset renamed => exact renamed
  | closed renamed => exact renamed

theorem Event.Alike.mono (hsub : ρ ⊆ σ) (h : e.Alike ρ place e') : e.Alike σ place e' := by
  cases h with
  | dialled renamed host port ok => exact .dialled (hsub renamed) host port ok
  | reset renamed => exact .reset (hsub renamed)
  | closed renamed => exact .closed (hsub renamed)

theorem Event.Alike.symm (h : e.Alike ρ place e') : e'.Alike ρ.swap place e := by
  cases h with
  | dialled renamed host port ok => exact .dialled (Renaming.mem_swap renamed) host port ok
  | reset renamed => exact .reset (Renaming.mem_swap renamed)
  | closed renamed => exact .closed (Renaming.mem_swap renamed)

theorem Marshal.Alike.mono (hsub : ρ ⊆ σ) (h : m.Alike ρ m') : m.Alike σ m' :=
  { h with renamed := hsub h.renamed }

theorem Marshal.Alike.symm (h : m.Alike ρ m') : m'.Alike ρ.swap m :=
  ⟨Renaming.mem_swap h.renamed, h.place.symm, h.isOpen.symm, h.isDirty.symm⟩

theorem SessionAlike.mono (hsub : ρ ⊆ σ) (h : SessionAlike ρ s s') : SessionAlike σ s s' :=
  { h with idle := h.idle.imp fun _ _ => Marshal.Alike.mono hsub }

theorem SessionAlike.symm (h : SessionAlike ρ s s') : SessionAlike ρ.swap s' s where
  localId := h.localId.symm
  remoteId := h.remoteId.symm
  domain := h.domain.symm
  factory := h.factory.symm
  idle := (h.idle.imp fun _ _ => Marshal.Alike.symm).flip
  outstanding := h.outstanding.symm
  closed := h.closed.symm

end Alike

/-! ### One fleet -/

namespace Fleet

/-- What the log of a daemon tells about some of its marshals. -/
def eventsOf (w : Fleet) (keys : List Key) (place : Nat) : List Event :=
  (w.daemon place).log.toList.filter fun e => keys.contains (place, e.id)

/-- Only marshals that were created have left something in a log, and only such ones are among
those with the given keys. -/
structure Sound (w : Fleet) (keys : List Key) : Prop where
  logged (place : Nat) : ∀ e ∈ (w.daemon place).log.toList, e.id < (w.daemon place).nextId
  issued : ∀ k ∈ keys, w.hasIssued k = true

/-- A marshal that is none of those with the given keys. -/
structure Foreign (w : Fleet) (keys : List Key) (m : Marshal) : Prop where
  issued : w.hasIssued m.key = true
  other : m.key ∉ keys

variable {w : Fleet} {keys : List Key} {place : Nat} {k : Key}

theorem hasIssued_iff :
    w.hasIssued k = true ↔ k.1 < w.daemons.length ∧ k.2 < (w.daemon k.1).nextId := by
  simp [hasIssued]

theorem eventsOf_record (w : Fleet) (keys : List Key) (place : Nat) (e : Event) (other : Nat) :
    (w.record place e).eventsOf keys other = w.eventsOf keys other ++
      if other = place ∧ place < w.daemons.length ∧ (place, e.id) ∈ keys then [e] else [] := by
  rw [eventsOf, eventsOf, record, daemon_modify_eq]
  by_cases hplace : other = place ∧ place < w.daemons.length
  · obtain ⟨rfl, hlt⟩ := hplace
    rw [if_pos ⟨rfl, hlt⟩, Daemon.record, Array.toList_push, List.filter_append]
    simp [hlt, List.filter_cons]
  · rw [if_neg hplace, if_neg (fun h => hplace ⟨h.1, h.2.1⟩), List.append_nil]

theorem daemon_of_ge (h : w.daemons.length ≤ place) : w.daemon place = {} := by
  simp [daemon, List.getD_eq_getElem?_getD, h]

/-- After the daemons of a fleet comes the one that was started last. -/
theorem daemon_start_of_ge (h : w.daemons.length ≤ place) (d : Daemon) :
    (w.start d).2.daemon place = if place = w.daemons.length then d else {} := by
  rw [daemon, start, List.getD_eq_getElem?_getD, List.getElem?_append_right h,
    List.getElem?_singleton]
  split
  · next hzero => rw [if_pos (Nat.le_antisymm (Nat.le_of_sub_eq_zero hzero) h), Option.getD_some]
  · next hpos => rw [if_neg fun heq => hpos (by rw [heq, Nat.sub_self]), Option.getD_none]

theorem log_start {d : Daemon} (hd : d.log = #[]) (w : Fleet) (place : Nat) :
    ((w.start d).2.daemon place).log = (w.daemon place).log := by
  rcases Nat.lt_or_ge place w.daemons.length with hlt | hge
  · rw [daemon_start hlt]
  · rw [daemon_start_of_ge hge, daemon_of_ge hge]
    split
    · exact hd
    · rfl

theorem nextId_modify (place other : Nat) {f : Daemon → Daemon}
    (h : ∀ d, (f d).nextId = d.nextId) :
    ((w.modify place f).daemon other).nextId = (w.daemon other).nextId := by
  rw [daemon_modify_eq]
  split
  · next hplace => rw [h, hplace.1]
  · rfl

theorem nextId_setAccepting (w : Fleet) (place : Nat) (on : Bool) (other : Nat) :
    ((w.setAccepting place on).daemon other).nextId = (w.daemon other).nextId :=
  nextId_modify place other fun _ => rfl

theorem nextId_daemon_record (w : Fleet) (place : Nat) (e : Event) (other : Nat) :
    ((w.record place e).daemon other).nextId = (w.daemon other).nextId :=
  nextId_modify place other fun _ => rfl

theorem accepting_record (w : Fleet) (place : Nat) (e : Event) (other : Nat) :
    ((w.record place e).daemon other).accepting = (w.daemon other).accepting := by
  rw [record, daemon_modify_eq]
  split
  · next h => rw [h.1]; rfl
  · rfl

@[simp] theorem hasIssued_record (w : Fleet) (place : Nat) (e : Event) (k : Key) :
    (w.record place e).hasIssued k = w.hasIssued k := by
  rw [hasIssued, hasIssued, nextId_daemon_record, record, length_modify]

theorem Sound.record (h : w.Sound keys) {e : Event} (he : w.hasIssued (place, e.id) = true) :
    (w.record place e).Sound keys where
  logged other event hevent := by
    rw [nextId_daemon_record]
    rw [Fleet.record, daemon_modify_eq] at hevent
    split at hevent
    · next hplace =>
      rw [Daemon.record, Array.toList_push, List.mem_append, List.mem_singleton] at hevent
      rw [hplace.1]
      rcases hevent with hevent | rfl
      · exact h.logged place event hevent
      · exact (hasIssued_iff.mp he).2
    · exact h.logged other event hevent
  issued k hk := by rw [hasIssued_record, h.issued k hk]

end Fleet

theorem Factory.daemon_create (f : Factory) (w : Fleet) (other : Nat) :
    (f.create w).2.daemon other =
      if other = f.place ∧ f.place < w.daemons.length
      then { w.daemon f.place with nextId := (w.daemon f.place).nextId + 1 }
      else w.daemon other := w.daemon_modify_eq f.place _ other

section Create

variable (f : Factory) (w : Fleet) (other : Nat)

theorem Factory.log_create : ((f.create w).2.daemon other).log = (w.daemon other).log := by
  rw [daemon_create]
  split
  · next h => rw [h.1]
  · rfl

theorem Factory.accepting_create :
    ((f.create w).2.daemon other).accepting = (w.daemon other).accepting := by
  rw [daemon_create]
  split
  · next h => rw [h.1]
  · rfl

theorem Factory.nextId_create :
    (w.daemon other).nextId ≤ ((f.create w).2.daemon other).nextId := by
  rw [daemon_create]
  split
  · next h =>
    rw [h.1]
    exact Nat.le_succ _
  · exact Nat.le_refl _

theorem Factory.length_create : (f.create w).2.daemons.length = w.daemons.length :=
  w.length_modify _ _

variable {f w}

theorem Factory.hasIssued_create (hplace : f.place < w.daemons.length) :
    (f.create w).2.hasIssued (f.create w).1.key = true := by
  rw [Fleet.hasIssued_iff, length_create]
  refine ⟨hplace, ?_⟩
  show (w.daemon f.place).nextId < ((f.create w).2.daemon f.place).nextId
  rw [daemon_create, if_pos ⟨rfl, hplace⟩]
  exact Nat.lt_succ_self _

/-- The key of a new marshal has not been given before. -/
theorem Factory.not_hasIssued_create : w.hasIssued (f.create w).1.key ≠ true := by
  intro h
  exact Nat.lt_irrefl _ (Fleet.hasIssued_iff.mp h).2

end Create

namespace Fleet

/-! ### What others do -/

/-- What others do to a fleet. Nothing of it is about the marshals with the given keys. -/
structure Beside (keys : List Key) (w w₂ : Fleet) : Prop where
  length : w₂.daemons.length = w.daemons.length
  accepting (place : Nat) : (w₂.daemon place).accepting = (w.daemon place).accepting
  nextId (place : Nat) : (w.daemon place).nextId ≤ (w₂.daemon place).nextId
  events (place : Nat) : w₂.eventsOf keys place = w.eventsOf keys place
  sound : w.Sound keys → w₂.Sound keys

namespace Beside

variable {keys : List Key} {w w₂ w₃ : Fleet} {m : Marshal}

theorem refl (keys : List Key) (w : Fleet) : Beside keys w w :=
  ⟨rfl, fun _ => rfl, fun _ => Nat.le_refl _, fun _ => rfl, id⟩

theorem trans (h : Beside keys w w₂) (h' : Beside keys w₂ w₃) : Beside keys w w₃ where
  length := h'.length.trans h.length
  accepting place := (h'.accepting place).trans (h.accepting place)
  nextId place := Nat.le_trans (h.nextId place) (h'.nextId place)
  events place := (h'.events place).trans (h.events place)
  sound hsound := h'.sound (h.sound hsound)

theorem hasIssued (h : Beside keys w w₂) {k : Key} (hk : w.hasIssued k = true) :
    w₂.hasIssued k = true := by
  rw [hasIssued_iff, h.length]
  obtain ⟨hplace, hid⟩ := hasIssued_iff.mp hk
  exact ⟨hplace, Nat.lt_of_lt_of_le hid (h.nextId k.1)⟩

theorem foreign (h : Beside keys w w₂) (hm : w.Foreign keys m) : w₂.Foreign keys m :=
  ⟨h.hasIssued hm.issued, hm.other⟩

theorem record (hm : w.Foreign keys m) {e : Event} (he : e.id = m.id) :
    Beside keys w (w.record m.place e) where
  length := w.length_modify _ _
  accepting := w.accepting_record _ _
  nextId place := Nat.le_of_eq (w.nextId_daemon_record _ _ place).symm
  events place := by
    have hother : (m.place, e.id) ∉ keys := by
      rw [he]
      exact hm.other
    rw [eventsOf_record, if_neg (fun h => hother h.2.2), List.append_nil]
  sound hsound := by
    apply hsound.record
    rw [he]
    exact hm.issued

theorem reset (hm : w.Foreign keys m) :
    Beside keys w (m.reset w).2 ∧ (m.reset w).2.Foreign keys (m.reset w).1 :=
  have hbeside : Beside keys w (m.reset w).2 := record hm rfl
  ⟨hbeside, hbeside.hasIssued hm.issued, hm.other⟩

theorem dial (hm : w.Foreign keys m) (host : String) (port : UInt16) :
    Beside keys w (m.dial host port w).2.2 ∧
      (m.dial host port w).2.2.Foreign keys (m.dial host port w).2.1 :=
  have hbeside : Beside keys w (m.dial host port w).2.2 := record hm rfl
  ⟨hbeside, hbeside.hasIssued hm.issued, hm.other⟩

theorem close (hm : w.Foreign keys m) :
    Beside keys w (m.close w).2 ∧ (m.close w).2.Foreign keys (m.close w).1 :=
  have hbeside : Beside keys w (m.close w).2 := record hm rfl
  ⟨hbeside, hbeside.hasIssued hm.issued, hm.other⟩

theorem deed (hm : w.Foreign keys m) (d : Deed MockAct) :
    Beside keys w (State.doDeed m w d).2.2 ∧
      (State.doDeed m w d).2.2.Foreign keys (State.doDeed m w d).2.1 := by
  cases d with
  | look => exact ⟨refl keys w, hm⟩
  | dial host port => exact dial hm host port
  | reset => exact reset hm
  | close => exact close hm
  | act a =>
    cases a with
    | markDirty => exact ⟨refl keys w, hm.issued, hm.other⟩

theorem create {f : Factory} (hsound : w.Sound keys) (hplace : f.place < w.daemons.length) :
    Beside keys w (f.create w).2 ∧ (f.create w).2.Foreign keys (f.create w).1 := by
  have hnext (k : Key) (hk : w.hasIssued k = true) : (f.create w).2.hasIssued k = true := by
    rw [hasIssued_iff] at hk ⊢
    exact ⟨by rw [f.length_create]; exact hk.1, Nat.lt_of_lt_of_le hk.2 (f.nextId_create w k.1)⟩
  refine ⟨⟨f.length_create w, f.accepting_create w, f.nextId_create w, fun place => ?_,
    fun hsound => ⟨fun place e he => ?_, fun k hk => hnext k (hsound.issued k hk)⟩⟩,
    Factory.hasIssued_create hplace, fun hmem => ?_⟩
  · rw [eventsOf, eventsOf, f.log_create]
  · rw [f.log_create] at he
    exact Nat.lt_of_lt_of_le (hsound.logged place e he) (f.nextId_create w place)
  · exact Factory.not_hasIssued_create (hsound.issued _ hmem)

theorem closeEach {ms : List Marshal} (hms : ∀ m ∈ ms, w.Foreign keys m) :
    Beside keys w (closeEach ms w) := by
  induction ms generalizing w with
  | nil => exact refl keys w
  | cons m ms ih =>
    have hclose := (close (hms m (List.mem_cons_self ..))).1
    refine hclose.trans (ih fun other hother => ?_)
    exact hclose.foreign (hms other (List.mem_cons_of_mem m hother))

/-! ### What the sessions of others do -/

variable {s : Session Factory Marshal}

theorem acquire (hsound : w.Sound keys) (hplace : s.factory.place < w.daemons.length)
    (hidle : ∀ m ∈ s.pool.idle, w.Foreign keys m) :
    Beside keys w (s.acquire w).2.2 ∧
      (∀ m ∈ (s.acquire w).1, (s.acquire w).2.2.Foreign keys m) ∧
      ∀ m ∈ (s.acquire w).2.1.pool.idle, (s.acquire w).2.2.Foreign keys m := by
  obtain ⟨localId, remoteId, domain, factory, ⟨idle, outstanding, closed⟩⟩ := s
  cases idle with
  | cons first rest =>
    obtain ⟨hbeside, hfirst⟩ := reset (hidle first (List.mem_cons_self ..))
    refine ⟨hbeside, fun m hm => ?_, fun m hm => ?_⟩
    · obtain rfl := Option.some.inj hm
      exact hfirst
    · exact hbeside.foreign (hidle m (List.mem_cons_of_mem first hm))
  | nil =>
    obtain ⟨hcreate, hnew⟩ := create (f := factory) hsound hplace
    obtain ⟨hdial, hdialled⟩ := dial hnew domain.host domain.port
    simp only [Session.acquire, Pool.take]
    split
    · obtain ⟨hreset, hgot⟩ := reset hdialled
      refine ⟨hcreate.trans (hdial.trans hreset), fun m hm => ?_, fun m hm => ?_⟩
      · obtain rfl := Option.some.inj hm
        exact hgot
      · cases hm
    · refine ⟨hcreate.trans hdial, fun m hm => ?_, fun m hm => ?_⟩
      · cases hm
      · cases hm

theorem release (hm : w.Foreign keys m) (hidle : ∀ m ∈ s.pool.idle, w.Foreign keys m) :
    Beside keys w (s.release m w).2.2 ∧
      ∀ other ∈ (s.release m w).2.1.pool.idle, (s.release m w).2.2.Foreign keys other := by
  obtain ⟨hreset, hback⟩ := reset hm
  obtain ⟨localId, remoteId, domain, factory, ⟨idle, outstanding, closed⟩⟩ := s
  cases closed with
  | false =>
    refine ⟨hreset, fun other hother => ?_⟩
    rcases List.mem_cons.mp hother with rfl | hold
    · exact hback
    · exact hreset.foreign (hidle other hold)
  | true =>
    have hbeside := hreset.trans (close hback).1
    exact ⟨hbeside, fun other hother => hbeside.foreign (hidle other hother)⟩

theorem closeSession (hidle : ∀ m ∈ s.pool.idle, w.Foreign keys m) :
    Beside keys w (s.close w).2.2 ∧
      ∀ m ∈ (s.close w).2.1.pool.idle, (s.close w).2.2.Foreign keys m := by
  obtain ⟨localId, remoteId, domain, factory, ⟨idle, outstanding, closed⟩⟩ := s
  cases closed with
  | false =>
    refine ⟨closeEach hidle, fun m hm => ?_⟩
    cases hm
  | true => exact ⟨refl keys w, hidle⟩

end Beside

/-! ### A new marshal of the party -/

section Create

variable {w : Fleet} {keys : List Key} {f : Factory}

theorem Sound.create (h : w.Sound keys) (hplace : f.place < w.daemons.length) :
    (f.create w).2.Sound (keys ++ [(f.create w).1.key]) := by
  have hold : (f.create w).2.Sound keys := (Beside.create h hplace).1.sound h
  refine ⟨hold.logged, fun k hk => ?_⟩
  rcases List.mem_append.mp hk with hk | hk
  · exact hold.issued k hk
  · rw [List.mem_singleton.mp hk]
    exact Factory.hasIssued_create hplace

theorem Sound.nodup_create (h : w.Sound keys) (hnodup : keys.Nodup) :
    (keys ++ [(f.create w).1.key]).Nodup := by
  refine List.nodup_append.mpr ⟨hnodup, List.pairwise_singleton _ _, fun k hk new hnew => ?_⟩
  rintro rfl
  rw [List.mem_singleton.mp hnew] at hk
  exact Factory.not_hasIssued_create (h.issued _ hk)

/-- No event tells of a new marshal yet. -/
theorem Sound.eventsOf_create (h : w.Sound keys) (place : Nat) :
    (f.create w).2.eventsOf (keys ++ [(f.create w).1.key]) place = w.eventsOf keys place := by
  rw [eventsOf, eventsOf, f.log_create]
  apply List.filter_congr
  intro e he
  have hnew : (place, e.id) ≠ (f.create w).1.key := by
    intro heq
    obtain ⟨rfl, hid⟩ := Prod.mk.inj heq
    have hlt := h.logged f.place e he
    rw [hid] at hlt
    exact Nat.lt_irrefl _ hlt
  simp [hnew]

end Create

end Fleet

/-! ### Marshals that come -/

/-- A fleet goes on, and what has become one of the marshals with the given keys is new. -/
structure Fleet.Grows (keys keys₂ : List Key) (w w₂ : Fleet) : Prop where
  length : w.daemons.length ≤ w₂.daemons.length
  old (k : Key) : w.hasIssued k = true → w₂.hasIssued k = true ∧ (k ∈ keys₂ ↔ k ∈ keys)

/-- The marshal that an acquisition creates, unless one is idle. -/
def minted (s : Session Factory Marshal) (w : Fleet) : List Key :=
  if s.pool.idle.isEmpty then [(s.factory.create w).1.key] else []

namespace Fleet.Grows

variable {keys keys₂ keys₃ : List Key} {w w₂ w₃ : Fleet}

theorem refl (keys : List Key) (w : Fleet) : Grows keys keys w w :=
  ⟨Nat.le_refl _, fun _ hk => ⟨hk, .rfl⟩⟩

theorem trans (h : Grows keys keys₂ w w₂) (h' : Grows keys₂ keys₃ w₂ w₃) :
    Grows keys keys₃ w w₃ where
  length := Nat.le_trans h.length h'.length
  old k hk := by
    obtain ⟨hk₂, hmem⟩ := h.old k hk
    obtain ⟨hk₃, hmem'⟩ := h'.old k hk₂
    exact ⟨hk₃, hmem'.trans hmem⟩

theorem foreign (h : Grows keys keys₂ w w₂) {m : Marshal} (hm : w.Foreign keys m) :
    w₂.Foreign keys₂ m := by
  obtain ⟨hissued, hmem⟩ := h.old m.key hm.issued
  exact ⟨hissued, fun hnew => hm.other (hmem.mp hnew)⟩

theorem record (keys : List Key) (w : Fleet) (place : Nat) (e : Event) :
    Grows keys keys w (w.record place e) := by
  refine ⟨Nat.le_of_eq (w.length_modify place _).symm, fun k hk => ⟨?_, .rfl⟩⟩
  rw [hasIssued_record, hk]

theorem deed (keys : List Key) (m : Marshal) (w : Fleet) (d : Deed MockAct) :
    Grows keys keys w (State.doDeed m w d).2.2 := by
  cases d with
  | look => exact refl keys w
  | act a => exact refl keys w
  | _ => exact record keys w m.place _

theorem start (keys : List Key) (w : Fleet) (d : Daemon) : Grows keys keys w (w.start d).2 := by
  have hlength : (w.start d).2.daemons.length = w.daemons.length + 1 := List.length_append
  refine ⟨by omega, fun k hk => ⟨?_, .rfl⟩⟩
  rw [hasIssued_iff] at hk ⊢
  rw [daemon_start hk.1]
  exact ⟨by omega, hk.2⟩

theorem setAccepting (keys : List Key) (w : Fleet) (place : Nat) (on : Bool) :
    Grows keys keys w (w.setAccepting place on) := by
  refine ⟨Nat.le_of_eq (w.length_modify place _).symm, fun k hk => ⟨?_, .rfl⟩⟩
  rw [hasIssued_iff] at hk ⊢
  rw [nextId_setAccepting, Fleet.setAccepting, length_modify]
  exact hk

theorem closeEach (keys : List Key) (ms : List Marshal) (w : Fleet) :
    Grows keys keys w (closeEach ms w) := by
  induction ms generalizing w with
  | nil => exact refl keys w
  | cons m ms ih => exact (record keys w m.place _).trans (ih (m.close w).2)

theorem create (keys : List Key) (f : Factory) (w : Fleet) :
    Grows keys (keys ++ [(f.create w).1.key]) w (f.create w).2 := by
  refine ⟨Nat.le_of_eq (f.length_create w).symm, fun k hk => ⟨?_, ?_⟩⟩
  · rw [hasIssued_iff] at hk ⊢
    rw [f.length_create]
    exact ⟨hk.1, Nat.lt_of_lt_of_le hk.2 (f.nextId_create w k.1)⟩
  · have hnew : k ≠ (f.create w).1.key := by
      rintro rfl
      exact Factory.not_hasIssued_create hk
    simp [hnew]

variable (keys) (s : Session Factory Marshal) (w)

theorem acquire : Grows keys (keys ++ minted s w) w (s.acquire w).2.2 := by
  obtain ⟨localId, remoteId, domain, factory, ⟨idle, outstanding, closed⟩⟩ := s
  cases idle with
  | cons first rest =>
    show Grows keys (keys ++ []) w (first.reset w).2
    rw [List.append_nil]
    exact record keys w first.place _
  | nil =>
    have hcreate := create keys factory w
    simp only [Session.acquire, Pool.take]
    split
    · exact hcreate.trans ((record _ _ _ _).trans (record _ _ _ _))
    · exact hcreate.trans (record _ _ _ _)

theorem release (m : Marshal) : Grows keys keys w (s.release m w).2.2 := by
  have hreset : Grows keys keys w (m.reset w).2 := record keys w m.place _
  obtain ⟨localId, remoteId, domain, factory, ⟨idle, outstanding, closed⟩⟩ := s
  cases closed with
  | false => exact hreset
  | true => exact hreset.trans (record keys _ m.place _)

theorem closeSession : Grows keys keys w (s.close w).2.2 := by
  obtain ⟨localId, remoteId, domain, factory, ⟨idle, outstanding, closed⟩⟩ := s
  cases closed with
  | false => exact closeEach keys idle w
  | true => exact refl keys w

end Fleet.Grows

/-! ### Two fleets -/

/-- Two fleets in which marshals of one party are the same under a renaming: the logs of the daemons
tell of them the same in the same order. -/
structure Matched (ρ : Renaming) (w w' : Fleet) : Prop where
  sound : w.Sound ρ.keys
  sound' : w'.Sound ρ.keys'
  nodup : ρ.keys.Nodup
  nodup' : ρ.keys'.Nodup
  length : w.daemons.length = w'.daemons.length
  accepting (place : Nat) : (w.daemon place).accepting = (w'.daemon place).accepting
  events (place : Nat) :
    List.Forall₂ (Event.Alike ρ place) (w.eventsOf ρ.keys place) (w'.eventsOf ρ.keys' place)

namespace Matched

variable {ρ : Renaming} {w w' w₂ : Fleet} {m m' : Marshal} {s s' : Session Factory Marshal}

theorem symm (h : Matched ρ w w') : Matched ρ.swap w' w where
  sound := ρ.keys_swap ▸ h.sound'
  sound' := ρ.keys'_swap ▸ h.sound
  nodup := ρ.keys_swap ▸ h.nodup'
  nodup' := ρ.keys'_swap ▸ h.nodup
  length := h.length.symm
  accepting place := (h.accepting place).symm
  events place := by
    rw [ρ.keys_swap, ρ.keys'_swap]
    exact ((h.events place).imp fun _ _ => Event.Alike.symm).flip

theorem beside (h : Matched ρ w w') (hbeside : Fleet.Beside ρ.keys w w₂) : Matched ρ w₂ w' where
  sound := hbeside.sound h.sound
  sound' := h.sound'
  nodup := h.nodup
  nodup' := h.nodup'
  length := hbeside.length.trans h.length
  accepting place := (hbeside.accepting place).trans (h.accepting place)
  events place := by
    rw [hbeside.events]
    exact h.events place

/-! ### What happens to the daemons -/

theorem start (h : Matched ρ w w') {d : Daemon} (hd : d.log = #[]) :
    Matched ρ (w.start d).2 (w'.start d).2 := by
  have hsound {v : Fleet} {keys : List Key} (hv : v.Sound keys) : (v.start d).2.Sound keys := by
    refine ⟨fun place e he => ?_, fun k hk => ?_⟩
    · rw [Fleet.log_start hd] at he
      rcases Nat.lt_or_ge place v.daemons.length with hlt | hge
      · rw [Fleet.daemon_start hlt]
        exact hv.logged place e he
      · rw [Fleet.daemon_of_ge hge] at he
        cases he
    · exact ((Fleet.Grows.start keys v d).old k (hv.issued k hk)).1
  have hlength (v : Fleet) : (v.start d).2.daemons.length = v.daemons.length + 1 :=
    List.length_append
  refine ⟨hsound h.sound, hsound h.sound', h.nodup, h.nodup', ?_, fun place => ?_, fun place => ?_⟩
  · rw [hlength, hlength, h.length]
  · rcases Nat.lt_or_ge place w.daemons.length with hlt | hge
    · rw [Fleet.daemon_start hlt, Fleet.daemon_start (h.length ▸ hlt), h.accepting]
    · rw [Fleet.daemon_start_of_ge hge, Fleet.daemon_start_of_ge (h.length ▸ hge), h.length]
  · rw [Fleet.eventsOf, Fleet.eventsOf, Fleet.log_start hd, Fleet.log_start hd]
    exact h.events place

theorem setAccepting (h : Matched ρ w w') (place : Nat) (on : Bool) :
    Matched ρ (w.setAccepting place on) (w'.setAccepting place on) := by
  have hlog (v : Fleet) (other : Nat) :
      ((v.setAccepting place on).daemon other).log = (v.daemon other).log := by
    rw [Fleet.setAccepting, Fleet.daemon_modify_eq]
    split
    · next hplace => rw [hplace.1]
    · rfl
  have hsound {v : Fleet} {keys : List Key} (hv : v.Sound keys) :
      (v.setAccepting place on).Sound keys := by
    refine ⟨fun other e he => ?_, fun k hk => ?_⟩
    · rw [hlog] at he
      rw [Fleet.nextId_setAccepting]
      exact hv.logged other e he
    · exact ((Fleet.Grows.setAccepting keys v place on).old k (hv.issued k hk)).1
  refine ⟨hsound h.sound, hsound h.sound', h.nodup, h.nodup', ?_, fun other => ?_, fun other => ?_⟩
  · rw [Fleet.setAccepting, Fleet.setAccepting, Fleet.length_modify, Fleet.length_modify, h.length]
  · rw [Fleet.setAccepting, Fleet.setAccepting, Fleet.daemon_modify_eq, Fleet.daemon_modify_eq,
      h.length]
    split
    · rfl
    · exact h.accepting other
  · rw [Fleet.eventsOf, Fleet.eventsOf, hlog, hlog]
    exact h.events other

/-! ### What the party does -/

theorem record (h : Matched ρ w w') {place : Nat} {e e' : Event} (he : e.Alike ρ place e') :
    Matched ρ (w.record place e) (w'.record place e') := by
  have hmem := Renaming.mem_keys he.renamed
  have hmem' := Renaming.mem_keys' he.renamed
  have hissued := h.sound.issued _ hmem
  have hissued' := h.sound'.issued _ hmem'
  refine ⟨h.sound.record hissued, h.sound'.record hissued', h.nodup, h.nodup', ?_, fun other => ?_,
    fun other => ?_⟩
  · rw [Fleet.record, Fleet.record, Fleet.length_modify, Fleet.length_modify, h.length]
  · rw [Fleet.accepting_record, Fleet.accepting_record, h.accepting]
  · rw [Fleet.eventsOf_record, Fleet.eventsOf_record]
    by_cases hplace : other = place
    · subst hplace
      -- Both logs end with the event now, as its marshal is one of the party's.
      rw [if_pos ⟨rfl, (Fleet.hasIssued_iff.mp hissued).1, hmem⟩,
        if_pos ⟨rfl, (Fleet.hasIssued_iff.mp hissued').1, hmem'⟩]
      exact List.rel_append (h.events other) (.cons he .nil)
    · rw [if_neg (fun hand => hplace hand.1), if_neg (fun hand => hplace hand.1), List.append_nil,
        List.append_nil]
      exact h.events other

theorem reset (h : Matched ρ w w') (hm : m.Alike ρ m') :
    (m.reset w).1.Alike ρ (m'.reset w').1 ∧ Matched ρ (m.reset w).2 (m'.reset w').2 := by
  refine ⟨{ hm with isDirty := rfl }, ?_⟩
  have hrenamed := hm.renamed
  show Matched ρ (w.record m.place _) (w'.record m'.place _)
  simp only [Marshal.key, hm.place] at hrenamed ⊢
  exact h.record (.reset hrenamed)

theorem close (h : Matched ρ w w') (hm : m.Alike ρ m') :
    (m.close w).1.Alike ρ (m'.close w').1 ∧ Matched ρ (m.close w).2 (m'.close w').2 := by
  refine ⟨{ hm with isOpen := rfl }, ?_⟩
  have hrenamed := hm.renamed
  show Matched ρ (w.record m.place _) (w'.record m'.place _)
  simp only [Marshal.key, hm.place] at hrenamed ⊢
  exact h.record (.closed hrenamed)

theorem dial (h : Matched ρ w w') (hm : m.Alike ρ m') (host : String) (port : UInt16) :
    (m.dial host port w).1 = (m'.dial host port w').1 ∧
      (m.dial host port w).2.1.Alike ρ (m'.dial host port w').2.1 ∧
      Matched ρ (m.dial host port w).2.2 (m'.dial host port w').2.2 := by
  have haccepting : (w.daemon m.place).accepting = (w'.daemon m'.place).accepting := by
    rw [hm.place, h.accepting]
  refine ⟨haccepting, { hm with isOpen := haccepting }, ?_⟩
  have hrenamed := hm.renamed
  show Matched ρ (w.record m.place (.dialled _ _ _ _)) (w'.record m'.place (.dialled _ _ _ _))
  rw [haccepting]
  simp only [Marshal.key, hm.place] at hrenamed ⊢
  exact h.record (.dialled hrenamed host port _)

theorem deed (h : Matched ρ w w') (hm : m.Alike ρ m') (d : Deed MockAct) :
    (State.doDeed m w d).1 = (State.doDeed m' w' d).1 ∧
      (State.doDeed m w d).2.1.Alike ρ (State.doDeed m' w' d).2.1 ∧
      Matched ρ (State.doDeed m w d).2.2 (State.doDeed m' w' d).2.2 := by
  cases d with
  | look => exact ⟨rfl, hm, h⟩
  | dial host port => exact h.dial hm host port
  | reset => exact ⟨rfl, h.reset hm⟩
  | close => exact ⟨rfl, h.close hm⟩
  | act a =>
    cases a with
    | markDirty => exact ⟨rfl, { hm with isDirty := rfl }, h⟩

theorem closeEach (h : Matched ρ w w') {ms ms' : List Marshal}
    (hms : List.Forall₂ (Marshal.Alike ρ) ms ms') :
    Matched ρ (closeEach ms w) (closeEach ms' w') := by
  induction hms generalizing w w' with
  | nil => exact h
  | cons hm _ ih => exact ih (h.close hm).2

/-- Both sides create a marshal, and the two are paired from now on. -/
theorem create (h : Matched ρ w w') {f : Factory} (hplace : f.place < w.daemons.length) :
    let ρ₂ := ρ ++ [((f.create w).1.key, (f.create w').1.key)]
    (f.create w).1.Alike ρ₂ (f.create w').1 ∧ Matched ρ₂ (f.create w).2 (f.create w').2 := by
  intro ρ₂
  have hplace' : f.place < w'.daemons.length := h.length ▸ hplace
  have hkeys : ρ₂.keys = ρ.keys ++ [(f.create w).1.key] := Renaming.keys_append ρ _
  have hkeys' : ρ₂.keys' = ρ.keys' ++ [(f.create w').1.key] := Renaming.keys'_append ρ _
  refine ⟨⟨?_, rfl, rfl, rfl⟩, ⟨?_, ?_, ?_, ?_, ?_, fun place => ?_, fun place => ?_⟩⟩
  · exact List.mem_append_right ρ (List.mem_singleton_self _)
  · rw [hkeys]
    exact h.sound.create hplace
  · rw [hkeys']
    exact h.sound'.create hplace'
  · rw [hkeys]
    exact h.sound.nodup_create h.nodup
  · rw [hkeys']
    exact h.sound'.nodup_create h.nodup'
  · rw [f.length_create, f.length_create, h.length]
  · rw [f.accepting_create, f.accepting_create, h.accepting]
  · -- Nothing in the logs is about a marshal that has just been created.
    rw [hkeys, hkeys', h.sound.eventsOf_create, h.sound'.eventsOf_create]
    exact (h.events place).imp fun _ _ => Event.Alike.mono (List.subset_append_left ρ _)

/-! ### What the sessions of the party do -/

theorem release (h : Matched ρ w w') (hs : SessionAlike ρ s s') (hm : m.Alike ρ m') :
    (s.release m w).1 = (s'.release m' w').1 ∧
      SessionAlike ρ (s.release m w).2.1 (s'.release m' w').2.1 ∧
      Matched ρ (s.release m w).2.2 (s'.release m' w').2.2 := by
  obtain ⟨hback, hreset⟩ := h.reset hm
  obtain ⟨localId, remoteId, domain, factory, ⟨idle, outstanding, closed⟩⟩ := s
  obtain ⟨localId', remoteId', domain', factory', ⟨idle', outstanding', closed'⟩⟩ := s'
  obtain ⟨rfl, rfl, rfl, rfl, hidle, rfl, rfl⟩ := hs
  cases closed with
  | false => exact ⟨rfl, ⟨rfl, rfl, rfl, rfl, .cons hback hidle, rfl, rfl⟩, hreset⟩
  | true => exact ⟨rfl, ⟨rfl, rfl, rfl, rfl, hidle, rfl, rfl⟩, (hreset.close hback).2⟩

theorem closeSession (h : Matched ρ w w') (hs : SessionAlike ρ s s') :
    (s.close w).1 = (s'.close w').1 ∧ SessionAlike ρ (s.close w).2.1 (s'.close w').2.1 ∧
      Matched ρ (s.close w).2.2 (s'.close w').2.2 := by
  obtain ⟨localId, remoteId, domain, factory, ⟨idle, outstanding, closed⟩⟩ := s
  obtain ⟨localId', remoteId', domain', factory', ⟨idle', outstanding', closed'⟩⟩ := s'
  obtain ⟨rfl, rfl, rfl, rfl, hidle, rfl, rfl⟩ := hs
  cases closed with
  | false =>
    exact ⟨hidle.length_eq, ⟨rfl, rfl, rfl, rfl, .nil, rfl, rfl⟩, h.closeEach hidle⟩
  | true => exact ⟨rfl, ⟨rfl, rfl, rfl, rfl, hidle, rfl, rfl⟩, h⟩

end Matched

/-- What comes of two acquisitions that are alike: the marshals that they create are paired. -/
structure Acquired (ρ : Renaming) (got got' : Option Marshal × Session Factory Marshal × Fleet) :
    Prop where
  marshal : Option.Rel (Marshal.Alike ρ) got.1 got'.1
  session : SessionAlike ρ got.2.1 got'.2.1
  world : Matched ρ got.2.2 got'.2.2

theorem Matched.acquire {ρ : Renaming} {w w' : Fleet} {s s' : Session Factory Marshal}
    (h : Matched ρ w w') (hs : SessionAlike ρ s s')
    (hplace : s.factory.place < w.daemons.length) :
    ∃ new : Renaming, new.keys = minted s w ∧ new.keys' = minted s' w' ∧
      Acquired (ρ ++ new) (s.acquire w) (s'.acquire w') := by
  obtain ⟨localId, remoteId, domain, factory, ⟨idle, outstanding, closed⟩⟩ := s
  obtain ⟨localId', remoteId', domain', factory', ⟨idle', outstanding', closed'⟩⟩ := s'
  obtain ⟨rfl, rfl, rfl, rfl, hidle, rfl, rfl⟩ := hs
  cases hidle with
  | cons hfirst hrest =>
    obtain ⟨hgot, hreset⟩ := h.reset hfirst
    refine ⟨[], rfl, rfl, ?_⟩
    rw [List.append_nil]
    exact ⟨.some hgot, ⟨rfl, rfl, rfl, rfl, hrest, rfl, rfl⟩, hreset⟩
  | nil =>
    obtain ⟨hnew, hcreate⟩ := h.create hplace
    have hdial := hcreate.dial hnew domain.host domain.port
    refine ⟨[((factory.create w).1.key, (factory.create w').1.key)], rfl, rfl, ?_⟩
    simp only [Session.acquire, Pool.take, Source.create, SessionPool.Marshal.dial]
    generalize (factory.create w).1.dial domain.host domain.port (factory.create w).2 = dialled
      at hdial
    generalize (factory.create w').1.dial domain.host domain.port (factory.create w').2 = dialled'
      at hdial
    obtain ⟨ok, m, w₂⟩ := dialled
    obtain ⟨ok', m', w₂'⟩ := dialled'
    -- Both attempts to open the new marshal end alike.
    obtain ⟨rfl, hm, hworld⟩ := hdial
    cases ok with
    | true =>
      obtain ⟨hgot, hreset⟩ := hworld.reset hm
      exact ⟨.some hgot, ⟨rfl, rfl, rfl, rfl, .nil, rfl, rfl⟩, hreset⟩
    | false => exact ⟨.none, ⟨rfl, rfl, rfl, rfl, .nil, rfl, rfl⟩, hworld⟩

end SessionPool.Mock
