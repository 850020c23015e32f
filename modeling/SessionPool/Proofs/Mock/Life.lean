import Mathlib.Algebra.Ring.Parity
import Mathlib.Data.List.Induction
import SessionPool.Proofs.Mock.Log

/-!
# The life of a marshal

The events of one marshal tell how it lives. It is opened or refused, and from then on it is handed
out and comes back in turns, with a reset each time; the last thing is that it is closed after it
has come back.

    unseen ──opened──▶ opened ──reset──▶ handed ──reset──▶ returned ──closed──▶ closed
       │                                   ▲                  │
       └──refused──▶ refused               └──────reset───────┘

A life that keeps to these phases is the beginning of a word of

    refused | opened reset (reset reset)* (nothing | reset | reset closed).
-/

namespace SessionPool.Mock

/-- How far a marshal has come. Nothing is said of a marshal with events out of order. -/
inductive Phase where
  | unseen
  | refused
  | opened
  | handed
  | returned
  | closed
  | broken
  deriving DecidableEq, Repr

/-- The phase after an event. -/
def Phase.after : Phase → Event → Phase
  | .unseen, .dialled _ _ _ true => .opened
  | .unseen, .dialled _ _ _ false => .refused
  | .opened, .reset _ => .handed
  | .handed, .reset _ => .returned
  | .returned, .reset _ => .handed
  | .returned, .closed _ => .closed
  | _, _ => .broken

/-- The phase of a marshal with the given events. -/
def phaseAfter (events : List Event) : Phase := events.foldl Phase.after .unseen

theorem phaseAfter_append (events more : List Event) :
    phaseAfter (events ++ more) = more.foldl Phase.after (phaseAfter events) := List.foldl_append

theorem foldl_broken (events : List Event) : events.foldl Phase.after .broken = .broken := by
  induction events with
  | nil => rfl
  | cons e events ih => exact ih

/-! ### Words -/

/-- The events of a marshal that is in use: it was opened and handed out, and so many times it has
come back and was handed out again. -/
def inUse (id : Nat) (host : String) (port : UInt16) (times : Nat) : List Event :=
  .dialled id host port true :: .reset id :: List.replicate (2 * times) (.reset id)

theorem inUse_succ (id : Nat) (host : String) (port : UInt16) (times : Nat) :
    inUse id host port (times + 1) = inUse id host port times ++ [.reset id] ++ [.reset id] := by
  have htwo : 2 * (times + 1) = 2 * times + 1 + 1 := rfl
  simp only [inUse, htwo, List.replicate_succ', List.cons_append]

/-- The whole lives of marshals. -/
inductive Life (id : Nat) : List Event → Prop
  | refused (host : String) (port : UInt16) : Life id [.dialled id host port false]
  | inUse (host : String) (port : UInt16) (times : Nat) : Life id (inUse id host port times)
  | returned (host : String) (port : UInt16) (times : Nat) :
      Life id (Mock.inUse id host port times ++ [.reset id])
  | closed (host : String) (port : UInt16) (times : Nat) :
      Life id (Mock.inUse id host port times ++ [.reset id, .closed id])

/-- What a phase tells of the events. -/
def Phase.Tells (id : Nat) (events : List Event) : Phase → Prop
  | .unseen => events = []
  | .refused => ∃ host port, events = [.dialled id host port false]
  | .opened => ∃ host port, events = [.dialled id host port true]
  | .handed => ∃ host port times, events = inUse id host port times
  | .returned => ∃ host port times, events = inUse id host port times ++ [.reset id]
  | .closed => ∃ host port times, events = inUse id host port times ++ [.reset id, .closed id]
  | .broken => True

theorem Phase.Tells.after {id : Nat} {events : List Event} {g : Phase} {e : Event}
    (h : g.Tells id events) (he : e.id = id) : (g.after e).Tells id (events ++ [e]) := by
  subst he
  cases e with
  | dialled i host port ok =>
    cases g with
    | unseen =>
      obtain rfl : events = [] := h
      cases ok with
      | true => exact ⟨host, port, rfl⟩
      | false => exact ⟨host, port, rfl⟩
    | _ => exact True.intro
  | reset i =>
    cases g with
    | opened =>
      obtain ⟨host, port, rfl⟩ := h
      exact ⟨host, port, 0, rfl⟩
    | handed =>
      obtain ⟨host, port, times, rfl⟩ := h
      exact ⟨host, port, times, rfl⟩
    | returned =>
      obtain ⟨host, port, times, rfl⟩ := h
      exact ⟨host, port, times + 1, (inUse_succ ..).symm⟩
    | _ => exact True.intro
  | closed i =>
    cases g with
    | returned =>
      obtain ⟨host, port, times, rfl⟩ := h
      exact ⟨host, port, times, List.append_assoc ..⟩
    | _ => exact True.intro

theorem tells_phaseAfter {id : Nat} {events : List Event} (hid : ∀ e ∈ events, e.id = id) :
    (phaseAfter events).Tells id events := by
  induction events using List.reverseRecOn with
  | nil => rfl
  | append_singleton events e ih =>
    rw [phaseAfter_append]
    exact (ih fun e' he' => hid e' (by simp [he'])).after (hid e (by simp))

/-! ### What an unbroken life is like -/

/-- An attempt to open a marshal. -/
def Event.isDialled : Event → Bool
  | .dialled _ _ _ _ => true
  | _ => false

/-- The events of a marshal so far are the beginning of a whole life. So it is opened once, closed
at most once, closed only straight after a reset, and nothing comes after that. -/
structure Lives (id : Nat) (events : List Event) : Prop where
  word : ∃ word, Life id word ∧ events <+: word
  openedOnce : events ≠ [] → events.countP Event.isDialled = 1
  closedOnce : events.count (.closed id) ≤ 1
  closedLast : ∀ before after, events = before ++ .closed id :: after →
    (∃ earlier, before = earlier ++ [.reset id]) ∧ after = []

variable {id : Nat} {events : List Event}

theorem exists_life (hid : ∀ e ∈ events, e.id = id) (h : phaseAfter events ≠ .broken) :
    ∃ word, Life id word ∧ events <+: word := by
  have htells := tells_phaseAfter hid
  cases hphase : phaseAfter events with
  | unseen =>
    rw [hphase] at htells
    obtain rfl : events = [] := htells
    exact ⟨_, .refused "" 0, List.nil_prefix⟩
  | refused =>
    rw [hphase] at htells
    obtain ⟨host, port, rfl⟩ := htells
    exact ⟨_, .refused host port, List.prefix_rfl⟩
  | opened =>
    rw [hphase] at htells
    obtain ⟨host, port, rfl⟩ := htells
    exact ⟨_, .inUse host port 0, ⟨[.reset id], rfl⟩⟩
  | handed =>
    rw [hphase] at htells
    obtain ⟨host, port, times, rfl⟩ := htells
    exact ⟨_, .inUse host port times, List.prefix_rfl⟩
  | returned =>
    rw [hphase] at htells
    obtain ⟨host, port, times, rfl⟩ := htells
    exact ⟨_, .returned host port times, List.prefix_rfl⟩
  | closed =>
    rw [hphase] at htells
    obtain ⟨host, port, times, rfl⟩ := htells
    exact ⟨_, .closed host port times, List.prefix_rfl⟩
  | broken => exact absurd hphase h

/-- A close out of order would break a life, and so would anything after it. -/
theorem closedLast_of_phase (hid : ∀ e ∈ events, e.id = id) (h : phaseAfter events ≠ .broken)
    {before after : List Event} (heq : events = before ++ .closed id :: after) :
    (∃ earlier, before = earlier ++ [.reset id]) ∧ after = [] := by
  subst heq
  rw [phaseAfter_append, List.foldl_cons] at h
  have htells : (phaseAfter before).Tells id before :=
    tells_phaseAfter fun e he => hid e (by simp [he])
  cases hphase : phaseAfter before with
  | returned =>
    rw [hphase] at htells h
    obtain ⟨host, port, times, hbefore⟩ := htells
    refine ⟨⟨_, hbefore⟩, ?_⟩
    cases after with
    | nil => rfl
    | cons e after =>
      rw [List.foldl_cons] at h
      exact absurd (foldl_broken after) (by cases e <;> exact h)
  | _ =>
    rw [hphase] at h
    exact absurd (foldl_broken after) h

/-! ### Counting events -/

theorem countP_isDialled_inUse (id : Nat) (host : String) (port : UInt16) (times : Nat) :
    (inUse id host port times).countP Event.isDialled = 1 := by
  rw [inUse, List.countP_cons_of_pos rfl, List.countP_cons_of_neg Bool.false_ne_true,
    List.countP_replicate]
  rfl

theorem count_reset_inUse (id : Nat) (host : String) (port : UInt16) (times : Nat) :
    (inUse id host port times).count (.reset id) = 2 * times + 1 := by
  simp [inUse]

/-- A whole life has one attempt to open the marshal. -/
theorem Life.countP_isDialled {word : List Event} (h : Life id word) :
    word.countP Event.isDialled = 1 := by
  cases h with
  | refused host port => rfl
  | inUse host port times => exact countP_isDialled_inUse ..
  | returned host port times =>
    rw [List.countP_append, countP_isDialled_inUse]
    rfl
  | closed host port times =>
    rw [List.countP_append, countP_isDialled_inUse]
    rfl

/-- It begins with that attempt. -/
theorem Life.exists_cons {word : List Event} (h : Life id word) :
    ∃ e rest, word = e :: rest ∧ e.isDialled = true := by
  cases h <;> exact ⟨_, _, rfl, rfl⟩

theorem Life.count_closed_le {word : List Event} (h : Life id word) :
    word.count (.closed id) ≤ 1 := by
  cases h <;> simp [Mock.inUse, List.count_replicate]

/-- The resets are odd in number just when the marshal is handed out. -/
theorem odd_count_reset_iff (hid : ∀ e ∈ events, e.id = id) (h : phaseAfter events ≠ .broken) :
    Odd (events.count (.reset id)) ↔ phaseAfter events = .handed := by
  have htells := tells_phaseAfter hid
  rw [Nat.odd_iff]
  cases hphase : phaseAfter events with
  | unseen =>
    rw [hphase] at htells
    obtain rfl : events = [] := htells
    simp
  | refused =>
    rw [hphase] at htells
    obtain ⟨host, port, rfl⟩ := htells
    simp
  | opened =>
    rw [hphase] at htells
    obtain ⟨host, port, rfl⟩ := htells
    simp
  | handed =>
    rw [hphase] at htells
    obtain ⟨host, port, times, rfl⟩ := htells
    rw [count_reset_inUse]
    simp
  | returned =>
    rw [hphase] at htells
    obtain ⟨host, port, times, rfl⟩ := htells
    have heven : (2 * times + 1 + 1) % 2 = 0 := by omega
    simp [List.count_append, count_reset_inUse, heven]
  | closed =>
    rw [hphase] at htells
    obtain ⟨host, port, times, rfl⟩ := htells
    have heven : (2 * times + 1 + 1) % 2 = 0 := by omega
    simp [List.count_append, count_reset_inUse, heven]
  | broken => exact absurd hphase h

theorem lives_of_phase (hid : ∀ e ∈ events, e.id = id) (h : phaseAfter events ≠ .broken) :
    Lives id events := by
  obtain ⟨word, hlife, hbegin⟩ := exists_life hid h
  refine ⟨⟨word, hlife, hbegin⟩, ?_, ?_, fun before after => closedLast_of_phase hid h⟩
  · intro hevents
    obtain ⟨e, rest, rfl, he⟩ := hlife.exists_cons
    have hle := hbegin.sublist.countP_le (p := Event.isDialled)
    rw [hlife.countP_isDialled] at hle
    rcases List.prefix_cons_iff.mp hbegin with hnil | ⟨later, rfl, -⟩
    · exact absurd hnil hevents
    · rw [List.countP_cons_of_pos he] at hle ⊢
      omega
  · exact Nat.le_trans (hbegin.sublist.count_le _) hlife.count_closed_le

/-! ### What a daemon notes of one marshal -/

namespace Daemon

/-- The events of one marshal. -/
def history (d : Daemon) (id : Nat) : List Event := d.log.toList.filter (·.id == id)

/-- How far a marshal has come. -/
def phase (d : Daemon) (id : Nat) : Phase := phaseAfter (d.history id)

theorem id_of_mem_history {d : Daemon} {id : Nat} {e : Event} (h : e ∈ d.history id) :
    e.id = id := beq_iff_eq.mp (List.mem_filter.mp h).2

theorem resetCount_eq (d : Daemon) (id : Nat) :
    d.resetCount id = (d.history id).count (.reset id) := by
  rw [resetCount, history, List.count_filter (by simp [Event.id])]

end Daemon

end SessionPool.Mock
