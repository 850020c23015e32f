import Mathlib.Data.List.Infix
import Mathlib.Data.List.Induction
import Mathlib.Order.Bounds.Basic
import SessionPool.Mock.Daemon
import SessionPool.Session

/-!
# Releases in excess

A session takes back whatever it is given, also a marshal that it never handed out. When it counts
none as out any more, the count stays at zero, and the release in excess is forgiven for all time:

    outstanding = acquired - released + forgiven.

What was forgiven is the most by which releases have ever been ahead of acquisitions. So the count
follows from the history without any look at the states in between.
-/

namespace SessionPool

variable {φ μ ω : Type}

/-! ### What one call does to the count -/

namespace Session

variable [Marshal μ ω] (s : Session φ μ) (w : ω)

/-- An acquisition counts what it hands out. One that fails has counted back. -/
theorem outstanding_acquire [Source φ μ ω] :
    (s.acquire w).2.1.outstanding = s.outstanding + (s.acquire w).1.isSome.toNat := by
  obtain ⟨localId, remoteId, domain, factory, ⟨idle, outstanding, closed⟩⟩ := s
  cases idle with
  | cons m rest => rfl
  | nil =>
    simp only [acquire, Pool.take]
    split
    · rfl
    · exact Nat.add_sub_cancel outstanding 1

/-- A release counts down, but not below zero, whether or not the session is closed. -/
theorem outstanding_release (m : μ) : (s.release m w).2.1.outstanding = s.outstanding - 1 := by
  obtain ⟨localId, remoteId, domain, factory, ⟨idle, outstanding, closed⟩⟩ := s
  cases closed <;> rfl

theorem outstanding_close : (s.close w).2.1.outstanding = s.outstanding :=
  s.pool.drain_outstanding

end Session

/-! ### Dealings with a session -/

/-- What is done with a session, one thing after the other, or what happens to the world between two
calls. -/
inductive Dealing (μ ω : Type) where
  | acquire
  | release (m : μ)
  | close
  | meanwhile (change : ω → ω)

/-- A session after some dealings, how many acquisitions have handed out a marshal, and how many
releases there were. -/
structure Dealt (φ μ ω : Type) where
  session : Session φ μ
  world : ω
  acquired : Nat := 0
  released : Nat := 0

namespace Dealt

/-- By how much releases are ahead of acquisitions. The number is negative while they are behind. -/
def ahead (st : Dealt φ μ ω) : Int := st.released - st.acquired

/-- By how much the session counts more marshals as out than acquisitions and releases leave. -/
def forgiven (st : Dealt φ μ ω) : Int := st.session.outstanding + st.ahead

/-- What was handed out and not given back, and what was forgiven. -/
theorem outstanding_eq (st : Dealt φ μ ω) :
    (st.session.outstanding : Int) = st.acquired - st.released + st.forgiven := by
  rw [forgiven, ahead]
  omega

variable [Marshal μ ω] [Source φ μ ω]

/-- One more dealing. -/
def go (st : Dealt φ μ ω) : Dealing μ ω → Dealt φ μ ω
  | .acquire =>
    let (m, session, world) := st.session.acquire st.world
    { st with session, world, acquired := st.acquired + m.isSome.toNat }
  | .release m =>
    let (_, session, world) := st.session.release m st.world
    { st with session, world, released := st.released + 1 }
  | .close =>
    let (_, session, world) := st.session.close st.world
    { st with session, world }
  | .meanwhile change => { st with world := change st.world }

/-- Some more dealings. -/
def run (st : Dealt φ μ ω) (dealings : List (Dealing μ ω)) : Dealt φ μ ω := dealings.foldl go st

theorem run_concat (st : Dealt φ μ ω) (dealings : List (Dealing μ ω)) (d : Dealing μ ω) :
    st.run (dealings ++ [d]) = (st.run dealings).go d := by
  rw [run, List.foldl_append]
  rfl

/-- By how much releases were ahead at any time, the beginning and the end included. -/
def leads (start : Dealt φ μ ω) (dealings : List (Dealing μ ω)) : Set Int :=
  {lead | ∃ earlier, earlier <+: dealings ∧ (start.run earlier).ahead = lead}

theorem leads_nil (start : Dealt φ μ ω) : start.leads [] = {start.ahead} := by
  ext lead
  constructor
  · rintro ⟨earlier, hearlier, rfl⟩
    rw [List.prefix_nil.mp hearlier]
    rfl
  · rintro rfl
    exact ⟨[], List.prefix_rfl, rfl⟩

theorem leads_concat (start : Dealt φ μ ω) (dealings : List (Dealing μ ω)) (d : Dealing μ ω) :
    start.leads (dealings ++ [d]) =
      insert (start.run (dealings ++ [d])).ahead (start.leads dealings) := by
  ext lead
  constructor
  · rintro ⟨earlier, hearlier, rfl⟩
    rcases List.prefix_concat_iff.mp hearlier with rfl | hbefore
    · exact Set.mem_insert ..
    · exact Set.mem_insert_of_mem _ ⟨earlier, hbefore, rfl⟩
  · rintro (rfl | ⟨earlier, hearlier, rfl⟩)
    · exact ⟨_, List.prefix_rfl, rfl⟩
    · exact ⟨earlier, hearlier.trans (List.prefix_append ..), rfl⟩

/-! ### What was forgiven is the greatest lead -/

/-- Only acquisitions that hand out a marshal and releases change the count. -/
theorem outstanding_go (st : Dealt φ μ ω) (d : Dealing μ ω) :
    (st.go d).session.outstanding = match d with
      | .acquire => st.session.outstanding + (st.session.acquire st.world).1.isSome.toNat
      | .release _ => st.session.outstanding - 1
      | .close | .meanwhile _ => st.session.outstanding := by
  cases d with
  | acquire => exact st.session.outstanding_acquire st.world
  | release m => exact st.session.outstanding_release st.world m
  | close => exact st.session.outstanding_close st.world
  | meanwhile change => rfl

/-- **Step**: something is forgiven only when releases get further ahead than ever before. -/
theorem forgiven_go (st : Dealt φ μ ω) (d : Dealing μ ω) :
    (st.go d).forgiven = max (st.go d).ahead st.forgiven := by
  rw [forgiven, forgiven, outstanding_go]
  cases d <;> simp only [go, ahead] <;> omega

/-- **Step**: the count is at most what was handed out. -/
theorem outstanding_le_go {st : Dealt φ μ ω} (h : st.session.outstanding ≤ st.acquired)
    (d : Dealing μ ω) : (st.go d).session.outstanding ≤ (st.go d).acquired := by
  rw [outstanding_go]
  cases d <;> simp only [go] <;> omega

/-- A fresh session that nothing was done with yet. -/
def fresh (localId : UInt64) (remoteId : UInt32) (domain : Domain) (factory : φ) (w : ω) :
    Dealt φ μ ω where
  session := { localId, remoteId, domain, factory }
  world := w

variable {start : Dealt φ μ ω}

/-- **Run**: when nothing is counted in the beginning, what was forgiven is the greatest lead. -/
theorem isGreatest_forgiven (hstart : start.session.outstanding = 0)
    (dealings : List (Dealing μ ω)) :
    IsGreatest (start.leads dealings) (start.run dealings).forgiven := by
  induction dealings using List.reverseRecOn with
  | nil =>
    have hforgiven : (start.run []).forgiven = start.ahead := by
      show (start.session.outstanding : Int) + start.ahead = start.ahead
      rw [hstart, Int.ofNat_zero, Int.zero_add]
    rw [leads_nil, hforgiven]
    exact isGreatest_singleton
  | append_singleton dealings d ih =>
    rw [leads_concat, run_concat, forgiven_go]
    exact ih.insert _

/-- **Run**. -/
theorem outstanding_le_run (h : start.session.outstanding ≤ start.acquired)
    (dealings : List (Dealing μ ω)) :
    (start.run dealings).session.outstanding ≤ (start.run dealings).acquired := by
  induction dealings generalizing start with
  | nil => exact h
  | cons d dealings ih => exact ih (outstanding_le_go h d)

/-! ### The count -/

section Forgiven

variable {dealings : List (Dealing μ ω)} (hstart : start.session.outstanding = 0)

include hstart

theorem ahead_le_forgiven {earlier : List (Dealing μ ω)} (h : earlier <+: dealings) :
    (start.run earlier).ahead ≤ (start.run dealings).forgiven :=
  (isGreatest_forgiven hstart dealings).2 ⟨earlier, h, rfl⟩

/-- Nothing was forgiven if there never was an excess. -/
theorem forgiven_le_zero_iff : (start.run dealings).forgiven ≤ 0 ↔
    ∀ earlier, earlier <+: dealings →
      (start.run earlier).released ≤ (start.run earlier).acquired := by
  constructor
  · intro hforgiven earlier hearlier
    have hle := ahead_le_forgiven hstart hearlier
    rw [ahead] at hle
    omega
  · intro hnever
    obtain ⟨earlier, hearlier, hlead⟩ := (isGreatest_forgiven hstart dealings).1
    have hle := hnever earlier hearlier
    rw [ahead] at hlead
    omega

end Forgiven

/-- What the count of a session comes to after some dealings, in terms of what happened. -/
structure Reckoned (start : Dealt φ μ ω) (dealings : List (Dealing μ ω)) : Prop where
  /-- What was handed out and not given back, and the greatest lead that releases ever had. -/
  count : ∃ greatest, IsGreatest (start.leads dealings) greatest ∧
    ((start.run dealings).session.outstanding : Int) =
      (start.run dealings).acquired - (start.run dealings).released + max 0 greatest
  atLeast : ((start.run dealings).acquired : Int) - (start.run dealings).released ≤
    (start.run dealings).session.outstanding
  /-- The count never gets beyond the number of acquisitions, not even while one is under way. -/
  atMost : (start.run dealings).session.pool.take.2.outstanding ≤ (start.run dealings).acquired + 1
  /-- Only an excess makes the count differ from what was handed out and not given back. -/
  exact_iff : ((start.run dealings).session.outstanding : Int) =
      (start.run dealings).acquired - (start.run dealings).released ↔
    ∀ earlier, earlier <+: dealings → (start.run earlier).released ≤ (start.run earlier).acquired
  failed : ((start.run dealings).session.acquire (start.run dealings).world).1 = none →
    (start.run (dealings ++ [.acquire])).session.outstanding =
      (start.run dealings).session.outstanding
  closing : (start.run (dealings ++ [.close])).session.outstanding =
    (start.run dealings).session.outstanding

/-- **The count after excess releases**: whatever is done with a fresh session, one thing after the
other, and whichever marshals it is given, the count follows from what was handed out and what was
given back. -/
theorem reckoned_run (localId : UInt64) (remoteId : UInt32) (domain : Domain) (factory : φ) (w : ω)
    (dealings : List (Dealing μ ω)) :
    (fresh localId remoteId domain factory w).Reckoned dealings := by
  generalize hfresh : (fresh localId remoteId domain factory w : Dealt φ μ ω) = start
  have hstart : start.session.outstanding = 0 := by rw [← hfresh]; rfl
  have hcount := outstanding_eq (start.run dealings)
  -- In the beginning releases were not behind.
  have hnonneg : 0 ≤ (start.run dealings).forgiven := by
    have hahead : start.ahead = 0 := by rw [← hfresh]; rfl
    exact hahead ▸ ahead_le_forgiven hstart List.nil_prefix
  refine {
    count := ⟨_, isGreatest_forgiven hstart dealings, by rw [max_eq_right hnonneg, hcount]⟩
    atLeast := by omega
    atMost := ?atMost
    exact_iff := ?exact_iff
    failed := ?failed
    closing := by rw [run_concat, outstanding_go] }
  case atMost =>
    rw [Pool.take_outstanding]
    exact Nat.succ_le_succ (outstanding_le_run (hstart ▸ Nat.zero_le _) dealings)
  case exact_iff =>
    rw [← forgiven_le_zero_iff hstart]
    omega
  case failed =>
    intro hfailed
    rw [run_concat, outstanding_go]
    simp only [hfailed]
    rfl

/-- Two releases to a session that has handed out nothing are forgiven, so that the next marshal
counts as out again. -/
example : ((fresh 1 0 {} ⟨0⟩ ⟨[{}]⟩ : Dealt Mock.Factory Mock.Marshal Mock.Fleet).run
    [.release ⟨7, 1, true, false⟩, .release ⟨7, 2, true, false⟩, .acquire]).session.outstanding =
      1 := by
  decide

end Dealt

end SessionPool
