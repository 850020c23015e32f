import SessionPool.Interleaving
import SessionPool.Proofs.Entries

/-!
# What a step does to an interleaving

A thread is in one call at a time, so the calls under way are the call of a given thread and those
of the others. Everything that is counted over the calls under way therefore changes in a step by
what the call of one thread counts before and after it:

    (st.advance t p s).inCalls f + f p.next = st.inCalls f + (what f counts afterwards).
-/

namespace SessionPool

open Session (Call Result)

/-- Counting with one item more, as an equation without a case split. -/
theorem countP_cons_toNat {α : Type} (f : α → Bool) (a : α) (l : List α) :
    (a :: l).countP f = l.countP f + (f a).toNat := by
  rw [List.countP_cons]
  cases f a <;> rfl

namespace Session

/-- What a caller can begin with. -/
def Call.isEntry {μ : Type} : Call μ → Bool
  | .acquire | .release _ | .close | .pooled | .isClosed => true
  | _ => false

end Session

namespace Interleaving

variable {φ μ ω : Type}

/-! ### The call of one thread, and the others -/

/-- No thread is in two calls. -/
def OneCallEach (st : Interleaving φ μ ω) : Prop := (st.pending.map (·.1)).Nodup

/-- How many calls under way are such that what they do next has a property. -/
def inCalls (st : Interleaving φ μ ω) (f : Call μ → Bool) : Nat :=
  st.pending.countP fun entry => f entry.2.next

theorem mem_pending {st : Interleaving φ μ ω} {t : Thread} {p : Pending μ}
    (h : st.pending? t = some p) : (t, p) ∈ st.pending := by
  obtain ⟨l₁, l₂, hl, -⟩ := List.lookup_eq_some_iff.mp h
  rw [hl]
  simp

theorem mem_others {st : Interleaving φ μ ω} {t : Thread} {entry : Thread × Pending μ} :
    entry ∈ st.others t ↔ entry ∈ st.pending ∧ entry.1 ≠ t := by
  rw [others, List.mem_filter, bne_iff_ne]

theorem pending?_eq_none_iff {st : Interleaving φ μ ω} {t : Thread} :
    st.pending? t = none ↔ ∀ entry ∈ st.pending, entry.1 ≠ t := by
  rw [pending?, List.lookup_eq_none_iff]
  simp only [bne_iff_ne, ne_comm]

theorem lookup_others (st : Interleaving φ μ ω) (t : Thread) : (st.others t).lookup t = none :=
  lookup_filter_self st.pending t

theorem lookup_others_of_ne (st : Interleaving φ μ ω) {t t' : Thread} (h : t' ≠ t) :
    (st.others t).lookup t' = st.pending? t' :=
  lookup_filter_of_ne st.pending h

theorem OneCallEach.pending_perm {st : Interleaving φ μ ω} (h : st.OneCallEach) {t : Thread}
    {p : Pending μ} (hp : st.pending? t = some p) : st.pending.Perm ((t, p) :: st.others t) :=
  perm_of_lookup h hp

theorem OneCallEach.inCalls_eq {st : Interleaving φ μ ω} (h : st.OneCallEach) {t : Thread}
    {p : Pending μ} (hp : st.pending? t = some p) (f : Call μ → Bool) :
    st.inCalls f = (st.others t).countP (fun entry => f entry.2.next) + (f p.next).toNat := by
  rw [inCalls, (h.pending_perm hp).countP_eq, countP_cons_toNat]

theorem inCalls_or (st : Interleaving φ μ ω) {f g : Call μ → Bool}
    (h : ∀ call, f call = true → g call = false) :
    st.inCalls (fun call => f call || g call) = st.inCalls f + st.inCalls g := by
  unfold inCalls
  induction st.pending with
  | nil => rfl
  | cons entry entries ih =>
    simp only [countP_cons_toNat, ih]
    cases hf : f entry.2.next with
    | false =>
      rw [Bool.false_or, Bool.toNat_false]
      omega
    | true =>
      rw [Bool.true_or, h _ hf, Bool.toNat_false]
      omega

/-! ### A thread begins a call -/

/-- The calls after one more has begun. -/
def begun (st : Interleaving φ μ ω) (t : Thread) (place : Place) (call : Call μ) :
    Interleaving φ μ ω :=
  { st with pending := (t, ⟨place, call, call⟩) :: st.pending }

theorem OneCallEach.begun {st : Interleaving φ μ ω} (h : st.OneCallEach) {t : Thread}
    (free : st.pending? t = none) (place : Place) (call : Call μ) :
    (st.begun t place call).OneCallEach := by
  refine List.nodup_cons.mpr ⟨?_, h⟩
  intro hmem
  obtain ⟨entry, hentry, heq⟩ := List.mem_map.mp hmem
  exact pending?_eq_none_iff.mp free entry hentry heq

@[simp] theorem pending?_begun (st : Interleaving φ μ ω) (t : Thread) (place : Place)
    (call : Call μ) : (st.begun t place call).pending? t = some ⟨place, call, call⟩ := by
  rw [pending?, begun, List.lookup_cons_self]

theorem pending?_begun_of_ne (st : Interleaving φ μ ω) {t t' : Thread} (h : t' ≠ t)
    (place : Place) (call : Call μ) : (st.begun t place call).pending? t' = st.pending? t' := by
  rw [pending?, begun, List.lookup_cons, beq_false_of_ne h]
  rfl

theorem inCalls_begun (st : Interleaving φ μ ω) (t : Thread) (place : Place) (call : Call μ)
    (f : Call μ → Bool) : (st.begun t place call).inCalls f = st.inCalls f + (f call).toNat := by
  rw [inCalls, begun, countP_cons_toNat, inCalls]

variable [Marshal μ ω] [Source φ μ ω]

theorem move_start {st : Interleaving φ μ ω} {t : Thread} {place : Place} {s : Session φ μ}
    (free : st.pending? t = none) (there : st.sessions[place]? = some s) (call : Call μ) :
    st.move (.start t place call) = st.begun t place call := by
  rw [move, free, there]
  rfl

/-! ### A thread takes a step -/

theorem move_advance {st : Interleaving φ μ ω} {t : Thread} {p : Pending μ} {s : Session φ μ}
    (hp : st.pending? t = some p) (hs : st.sessions[p.place]? = some s) :
    st.move (.advance t) = st.advance t p s := by
  simp only [move, hp, hs]

variable (st : Interleaving φ μ ω) (t : Thread) (p : Pending μ) (s : Session φ μ)

/-- What a call does next, the session and the world after that. -/
def outcome : (Call μ ⊕ Result μ) × Session φ μ × ω := p.next.step s st.world

@[simp] theorem advance_world : (st.advance t p s).world = (st.outcome p s).2.2 := by
  unfold advance outcome
  split <;> simp_all

@[simp] theorem advance_sessions :
    (st.advance t p s).sessions = st.sessions.set p.place (st.outcome p s).2.1 := by
  unfold advance outcome
  split <;> simp_all

theorem advance_pending :
    (st.advance t p s).pending =
      (st.outcome p s).1.elim (fun next => [(t, { p with next })]) (fun _ => []) ++
        st.others t := by
  unfold advance outcome
  split <;> simp_all

theorem pending?_advance :
    (st.advance t p s).pending? t =
      (st.outcome p s).1.elim (fun next => some { p with next }) fun _ => none := by
  rw [pending?, advance_pending]
  cases (st.outcome p s).1 with
  | inl next => exact List.lookup_cons_self
  | inr result => exact st.lookup_others t

theorem pending?_advance_of_ne {t' : Thread} (h : t' ≠ t) :
    (st.advance t p s).pending? t' = st.pending? t' := by
  rw [pending?, advance_pending]
  cases (st.outcome p s).1 with
  | inl next =>
    rw [Sum.elim_inl, List.singleton_append, List.lookup_cons, beq_false_of_ne h]
    exact st.lookup_others_of_ne h
  | inr result => exact st.lookup_others_of_ne h

theorem advance_finished :
    (st.advance t p s).finished =
      (st.outcome p s).1.elim (fun _ => []) (fun result => [⟨t, p.place, p.started, result⟩]) ++
        st.finished := by
  unfold advance outcome
  split <;> simp_all

variable {st t p}

theorem OneCallEach.advance (h : st.OneCallEach) (hp : st.pending? t = some p) :
    (st.advance t p s).OneCallEach := by
  have hnodup : (((t, p) :: st.others t).map (·.1)).Nodup :=
    ((h.pending_perm hp).map _).nodup_iff.mp h
  rw [OneCallEach, advance_pending]
  cases (st.outcome p s).1 with
  | inl next => exact hnodup
  | inr result => exact hnodup.of_cons

theorem OneCallEach.inCalls_advance (h : st.OneCallEach) (hp : st.pending? t = some p)
    (f : Call μ → Bool) :
    (st.advance t p s).inCalls f + (f p.next).toNat =
      st.inCalls f + (st.outcome p s).1.elim (fun next => (f next).toNat) (fun _ => 0) := by
  rw [h.inCalls_eq hp, inCalls, advance_pending]
  cases (st.outcome p s).1 with
  | inl next =>
    rw [Sum.elim_inl, Sum.elim_inl, List.singleton_append, countP_cons_toNat]
    show _ + (f next).toNat + _ = _
    omega
  | inr result =>
    simp only [Sum.elim_inr, List.nil_append]
    omega

end Interleaving

end SessionPool
