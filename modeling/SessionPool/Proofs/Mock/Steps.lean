import SessionPool.Proofs.Mock.Log
import SessionPool.Proofs.Steps

/-!
# What a step of a call does to the daemon

All sessions here share the daemon at place 0. A step creates a marshal, or it does something to one
that the daemon notes: it opens one, is refused one, resets one, closes one, or closes what is idle.
Which of these it does can be read off the call and the pool,

    log afterwards = log ++ notes s accepting c,

and from there what the lists of the daemon notice.
-/

namespace SessionPool.Mock

open Session (Call Result)

/-- The marshal that a call is still going to do something with. One that the daemon refused to
open is done with. -/
def carried? : Call Marshal → Option Marshal
  | .dial m | .settle m true | .release m | .put m | .discard m => some m
  | _ => none

/-- Whether a call creates a marshal next. -/
def creates : Call Marshal → Bool
  | .create => true
  | _ => false

/-- What a call opens next. -/
def opens (accepting : Bool) : Call Marshal → List Nat
  | .dial m => if accepting then [m.id] else []
  | _ => []

/-- What a call is refused next. -/
def refuses (accepting : Bool) : Call Marshal → List Nat
  | .dial m => if accepting then [] else [m.id]
  | _ => []

/-- What a call closes next. -/
def closes (p : Pool Marshal) : Call Marshal → List Nat
  | .discard m => [m.id]
  | .close => p.drain.1.map (·.id)
  | _ => []

/-- A state of the daemon after another one, when a step was taken from there. -/
structure Step (p : Pool Marshal) (c : Call Marshal) (d d' : Daemon) : Prop where
  nextId : d'.nextId = d.nextId + (creates c).toNat
  opened : d'.openedIds = d.openedIds ++ opens d.accepting c
  refused : d'.refusedIds = d.refusedIds ++ refuses d.accepting c
  closed : d'.closedIds = d.closedIds ++ closes p c

/-- What the daemon notes in a step. -/
def notes (s : Session Factory Marshal) (accepting : Bool) : Call Marshal → List Event
  | .acquire => s.pool.idle.head?.toList.map (.reset ·.id)
  | .dial m => [.dialled m.id s.domain.host s.domain.port accepting]
  | .settle m true | .release m => [.reset m.id]
  | .discard m => [.closed m.id]
  | .close => s.pool.drain.1.map (.closed ·.id)
  | _ => []

/-! ### What a note tells -/

variable (s : Session Factory Marshal) (accepting : Bool) (c : Call Marshal)

theorem filterMap_opened?_notes :
    (notes s accepting c).filterMap Event.opened? = opens accepting c := by
  cases c with
  | acquire => cases h : s.pool.idle.head? <;> simp [notes, opens, h, Event.opened?]
  | dial m => cases accepting <;> rfl
  | settle m ok => cases ok <;> rfl
  | close => simp [notes, opens, List.filterMap_map, Event.opened?]
  | _ => rfl

theorem filterMap_refused?_notes :
    (notes s accepting c).filterMap Event.refused? = refuses accepting c := by
  cases c with
  | acquire => cases h : s.pool.idle.head? <;> simp [notes, refuses, h, Event.refused?]
  | dial m => cases accepting <;> rfl
  | settle m ok => cases ok <;> rfl
  | close => simp [notes, refuses, List.filterMap_map, Event.refused?]
  | _ => rfl

theorem filterMap_closed?_notes :
    (notes s accepting c).filterMap Event.closed? = closes s.pool c := by
  cases c with
  | acquire => cases h : s.pool.idle.head? <;> simp [notes, closes, h, Event.closed?]
  | settle m ok => cases ok <;> rfl
  | close =>
    rw [notes, closes, List.filterMap_map]
    exact congrFun (List.filterMap_eq_map (f := Marshal.id)) _
  | _ => rfl

/-! ### Notes are taken -/

theorem daemon_record {w : Fleet} (hw : 0 < w.daemons.length) {place : Nat} (hplace : place = 0)
    (e : Event) :
    ((w.record place e).daemon 0).nextId = (w.daemon 0).nextId ∧
      ((w.record place e).daemon 0).log.toList = (w.daemon 0).log.toList ++ [e] := by
  rw [hplace, Fleet.daemon_record hw]
  exact ⟨rfl, Array.toList_push ..⟩

/-- Closing marshals one after the other is noted in that order. -/
theorem daemon_closeEach (ms : List Marshal) {w : Fleet} (hw : 0 < w.daemons.length)
    (hms : ∀ m ∈ ms, m.place = 0) :
    ((closeEach ms w).daemon 0).nextId = (w.daemon 0).nextId ∧
      ((closeEach ms w).daemon 0).log.toList =
        (w.daemon 0).log.toList ++ ms.map (.closed ·.id) := by
  induction ms generalizing w with
  | nil => exact ⟨rfl, (List.append_nil _).symm⟩
  | cons m ms ih =>
    have hw' : 0 < (m.close w).2.daemons.length := (Fleet.length_modify ..).symm ▸ hw
    obtain ⟨hnext, hlog⟩ := daemon_record hw (hms m (by simp)) (.closed m.id)
    obtain ⟨hnext', hlog'⟩ := ih hw' fun m' hm' => hms m' (by simp [hm'])
    refine ⟨hnext'.trans hnext, hlog'.trans ?_⟩
    show ((m.close w).2.daemon 0).log.toList ++ _ = _
    rw [Marshal.close, hlog, List.append_assoc]
    rfl

theorem length_closeEach (ms : List Marshal) (w : Fleet) :
    (closeEach ms w).daemons.length = w.daemons.length := by
  induction ms generalizing w with
  | nil => rfl
  | cons m ms ih =>
    rw [closeEach_cons, ih]
    exact Fleet.length_modify _ _ _

/-! ### One step -/

variable {s accepting c} {w : Fleet}
  {out : (Call Marshal ⊕ Result Marshal) × Session Factory Marshal × Fleet}

theorem length_of_stepped (h : Session.Stepped s w c out) :
    out.2.2.daemons.length = w.daemons.length := by
  cases h with
  | close => exact length_closeEach _ _
  | _ => first | rfl | exact Fleet.length_modify _ _ _

/-- What is drained from a pool was idle in it. -/
theorem mem_idle_of_mem_drain {μ : Type} {p : Pool μ} {m : μ} (h : m ∈ p.drain.1) : m ∈ p.idle := by
  rw [Pool.drain] at h
  split at h
  · simp at h
  · exact h

theorem daemon_of_stepped (h : Session.Stepped s w c out) (hw : 0 < w.daemons.length)
    (hs : s.factory.place = 0) (hcarried : ∀ m, carried? c = some m → m.place = 0)
    (hidle : ∀ m ∈ s.pool.idle, m.place = 0) :
    (out.2.2.daemon 0).nextId = (w.daemon 0).nextId + (creates c).toNat ∧
      (out.2.2.daemon 0).log.toList =
        (w.daemon 0).log.toList ++ notes s (w.daemon 0).accepting c := by
  cases h with
  | @hit m rest h =>
    rw [notes, h]
    exact daemon_record hw (hidle m (by simp [h])) _
  | miss h =>
    rw [notes, h]
    exact ⟨rfl, (List.append_nil _).symm⟩
  | create =>
    have hcreate : (s.factory.create w).2.daemon 0 =
        { w.daemon 0 with nextId := (w.daemon 0).nextId + 1 } := by
      rw [Factory.create, hs, Fleet.daemon_modify hw]
    show ((s.factory.create w).2.daemon 0).nextId = _ ∧
      ((s.factory.create w).2.daemon 0).log.toList = _
    rw [hcreate]
    exact ⟨rfl, (List.append_nil _).symm⟩
  | dial m =>
    have hm : m.place = 0 := hcarried m rfl
    have hrecord := daemon_record hw hm
      (.dialled m.id s.domain.host s.domain.port (w.daemon m.place).accepting)
    rw [hm] at hrecord
    show ((m.dial s.domain.host s.domain.port w).2.2.daemon 0).nextId = _ ∧
      ((m.dial s.domain.host s.domain.port w).2.2.daemon 0).log.toList = _
    rw [Marshal.dial, hm]
    exact hrecord
  | opened m => exact daemon_record hw (hcarried m rfl) _
  | release m => exact daemon_record hw (hcarried m rfl) _
  | discard m => exact daemon_record hw (hcarried m rfl) _
  | close => exact daemon_closeEach _ hw fun m hm => hidle m (mem_idle_of_mem_drain hm)
  -- The other steps leave the daemon alone.
  | _ => exact ⟨rfl, (List.append_nil _).symm⟩

/-- **A step does to the daemon what its call says.** -/
theorem step_of_stepped (h : Session.Stepped s w c out) (hw : 0 < w.daemons.length)
    (hs : s.factory.place = 0) (hcarried : ∀ m, carried? c = some m → m.place = 0)
    (hidle : ∀ m ∈ s.pool.idle, m.place = 0) :
    Step s.pool c (w.daemon 0) (out.2.2.daemon 0) := by
  obtain ⟨hnext, hlog⟩ := daemon_of_stepped h hw hs hcarried hidle
  refine ⟨hnext, ?_, ?_, ?_⟩
  · rw [Daemon.openedIds, hlog, List.filterMap_append, filterMap_opened?_notes]
    rfl
  · rw [Daemon.refusedIds, hlog, List.filterMap_append, filterMap_refused?_notes]
    rfl
  · rw [Daemon.closedIds_eq, Daemon.closedIds_eq, hlog, List.filterMap_append,
      filterMap_closed?_notes]

end SessionPool.Mock
