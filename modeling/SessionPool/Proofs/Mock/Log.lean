import SessionPool.Mock.Daemon

/-!
# What the log of a daemon tells

From its log a daemon knows which of its marshals were opened, which were refused and which were
closed. Each event adds at most one id to one of these lists, and a reset adds none.
-/

namespace SessionPool.Mock

namespace Event

/-- The marshal that an event opens. -/
def opened? : Event → Option Nat
  | .dialled id _ _ true => some id
  | _ => none

/-- The marshal that an event refuses to open. -/
def refused? : Event → Option Nat
  | .dialled id _ _ false => some id
  | _ => none

/-- The marshal that an event closes. -/
def closed? : Event → Option Nat
  | .closed id => some id
  | _ => none

end Event

namespace Daemon

/-- The ids of the marshals that were opened, as often as they were. -/
def openedIds (d : Daemon) : List Nat := d.log.toList.filterMap Event.opened?

/-- The ids of the marshals whose opening was refused, as often as it was. -/
def refusedIds (d : Daemon) : List Nat := d.log.toList.filterMap Event.refused?

theorem closedIds_eq (d : Daemon) : d.closedIds = d.log.toList.filterMap Event.closed? := by
  rw [closedIds]
  congr 1

theorem filterMap_log_record (d : Daemon) (e : Event) (f : Event → Option Nat) :
    (d.record e).log.toList.filterMap f = d.log.toList.filterMap f ++ (f e).toList := by
  rw [record, Array.toList_push, List.filterMap_append]
  cases h : f e <;> simp [h]

@[simp] theorem openedIds_record (d : Daemon) (e : Event) :
    (d.record e).openedIds = d.openedIds ++ e.opened?.toList := d.filterMap_log_record e _

@[simp] theorem refusedIds_record (d : Daemon) (e : Event) :
    (d.record e).refusedIds = d.refusedIds ++ e.refused?.toList := d.filterMap_log_record e _

@[simp] theorem closedIds_record (d : Daemon) (e : Event) :
    (d.record e).closedIds = d.closedIds ++ e.closed?.toList := by
  rw [closedIds_eq, closedIds_eq, filterMap_log_record]

/-- Two states of a daemon between which no marshal was created, opened, refused or closed. -/
structure SameLives (d d' : Daemon) : Prop where
  nextId : d'.nextId = d.nextId
  opened : d'.openedIds = d.openedIds
  refused : d'.refusedIds = d.refusedIds
  closed : d'.closedIds = d.closedIds

theorem SameLives.refl (d : Daemon) : d.SameLives d := ⟨rfl, rfl, rfl, rfl⟩

theorem sameLives_reset (d : Daemon) (id : Nat) : d.SameLives (d.record (.reset id)) where
  nextId := rfl
  opened := by simp [Event.opened?]
  refused := by simp [Event.refused?]
  closed := by simp [Event.closed?]

theorem sameLives_accepting (d : Daemon) (on : Bool) : d.SameLives { d with accepting := on } :=
  ⟨rfl, rfl, rfl, rfl⟩

end Daemon

/-! ### Daemons in a fleet -/

namespace Fleet

@[simp] theorem length_modify (w : Fleet) (place : Nat) (f : Daemon → Daemon) :
    (w.modify place f).daemons.length = w.daemons.length := List.length_modify ..

theorem daemon_modify {w : Fleet} {place : Nat} (h : place < w.daemons.length)
    (f : Daemon → Daemon) : (w.modify place f).daemon place = f (w.daemon place) := by
  simp [daemon, modify, List.getD_eq_getElem?_getD, h]

theorem daemon_modify_of_ne {w : Fleet} {place other : Nat} (h : other ≠ place)
    (f : Daemon → Daemon) : (w.modify place f).daemon other = w.daemon other := by
  simp [daemon, modify, List.getD_eq_getElem?_getD, h.symm]

theorem daemon_start {w : Fleet} {place : Nat} (h : place < w.daemons.length) (d : Daemon) :
    (w.start d).2.daemon place = w.daemon place := by
  simp [daemon, start, List.getD_eq_getElem?_getD, List.getElem?_append_left h]

/-- A change that lets no marshal come or go in any daemon lets none come or go in the first. -/
theorem sameLives_modify {w : Fleet} (hw : 0 < w.daemons.length) (place : Nat)
    {f : Daemon → Daemon} (h : ∀ d : Daemon, d.SameLives (f d)) :
    (w.daemon 0).SameLives ((w.modify place f).daemon 0) := by
  by_cases hplace : place = 0
  · rw [hplace, daemon_modify hw]
    exact h _
  · rw [daemon_modify_of_ne (Ne.symm hplace)]
    exact .refl _

theorem daemon_record {w : Fleet} {place : Nat} (h : place < w.daemons.length) (e : Event) :
    (w.record place e).daemon place = (w.daemon place).record e := daemon_modify h _

/-- What is noted of a marshal creates none. -/
theorem nextId_record {w : Fleet} (hw : 0 < w.daemons.length) (place : Nat) (e : Event) :
    ((w.record place e).daemon 0).nextId = (w.daemon 0).nextId := by
  by_cases hplace : place = 0
  · rw [hplace, daemon_record hw]
    rfl
  · rw [record, daemon_modify_of_ne (Ne.symm hplace)]

end Fleet

/-! ### Marshals -/

/-- What tells a marshal from all others: its daemon, and its id there. -/
abbrev Key := Nat × Nat

/-- The key of a marshal. Nothing that is done to the marshal changes it. -/
def Marshal.key (m : Marshal) : Key := (m.place, m.id)

end SessionPool.Mock
