import SessionPool.Stress
import SessionPool.Proofs.Custody.Alike

/-!
# Stress with marshals of two kinds

A stress run knows of its marshals no more than the session does. So under a likeness of marshals,
as long as attempts to open them end alike, workers with the one kind do what workers with the other
kind do, and the reports are the same.
-/

namespace SessionPool

open Session (Call Result)
open Script (World Holder)
open Stress (Load Run Schedule Worker)

variable {φ μ ω χ α φ' μ' ω' χ' α' : Type}

/-- Workers that differ in nothing but the marshals that they hold. -/
structure Stress.Worker.Alike (R : μ → μ' → Prop) (k : Worker μ) (k' : Worker μ') : Prop where
  left : k.left = k'.left
  holding : Option.Rel R k.holding k'.holding
  exchanges : k.exchanges = k'.exchanges
  unavailable : k.unavailable = k'.unavailable
  refused : k.refused = k'.refused

namespace Stress.Worker.Alike

variable {R : μ → μ' → Prop} {k : Worker μ} {k' : Worker μ'}

/-- The workers begin the same call, or both are done. -/
theorem next? (h : Worker.Alike R k k') :
    Option.Rel (fun next next' => Call.Alike R next.1 next'.1 ∧ Worker.Alike R next.2 next'.2)
      k.next? k'.next? := by
  obtain ⟨left, holding, exchanges, unavailable, refused⟩ := k
  obtain ⟨left', holding', exchanges', unavailable', refused'⟩ := k'
  obtain ⟨rfl, hholding, rfl, rfl, rfl⟩ := h
  cases hholding with
  | some hm => exact .some ⟨.release hm, rfl, .none, rfl, rfl, rfl⟩
  | none =>
    cases left with
    | zero => exact .none
    | succ left => exact .some ⟨.acquire, rfl, .none, rfl, rfl, rfl⟩

theorem note (h : Worker.Alike R k k') {result : Result μ} {result' : Result μ'}
    (hresult : Result.Alike R result result') :
    Worker.Alike R (k.note result) (k'.note result') := by
  cases hresult with
  | acquired hm =>
    cases hm with
    | none => exact { h with unavailable := congrArg (· + 1) h.unavailable }
    | some hm => exact { h with holding := .some hm }
  | released refusal =>
    cases refusal with
    | none => exact { h with exchanges := congrArg (· + 1) h.exchanges }
    | some _ => exact { h with left := rfl, refused := rfl }
  | closed => exact h
  | pooled => exact h
  | isClosed => exact h

theorem total {ks : List (Worker μ)} {ks' : List (Worker μ')}
    (h : List.Forall₂ (Worker.Alike R) ks ks') {count : Worker μ → Nat} {count' : Worker μ' → Nat}
    (same : ∀ k k', Worker.Alike R k k' → count k = count' k') :
    Worker.total count ks = Worker.total count' ks' := by
  induction h with
  | nil => rfl
  | cons hk _ ih => rw [Worker.total, Worker.total, same _ _ hk, ih]

end Stress.Worker.Alike

variable [Marshal μ ω] [Source φ μ ω] [World ω χ] [Holder μ α] [Marshal μ' ω'] [Source φ' μ' ω']
  [World ω' χ'] [Holder μ' α']

namespace Likeness

variable {L : Likeness φ μ ω χ α φ' μ' ω' χ' α'}

/-- Stress runs whose workers are at the same point with marshals that are alike. -/
structure RunAlike (L : Likeness φ μ ω χ α φ' μ' ω' χ' α') (r : Run φ μ ω) (r' : Run φ' μ' ω') :
    Prop where
  calls : L.CallsAlike r.calls r'.calls
  workers : List.Forall₂ (Worker.Alike L.marshal) r.workers r'.workers

variable {r : Run φ μ ω} {r' : Run φ' μ' ω'}

/-- A thread takes the next step of its call in both runs. -/
theorem CallsAlike.move_advance (exact : L.IsExact) {calls : Interleaving φ μ ω}
    {calls' : Interleaving φ' μ' ω'} (h : L.CallsAlike calls calls') (t : Thread) :
    L.CallsAlike (calls.move (.advance t)) (calls'.move (.advance t)) := by
  have hp := h.pending? t
  simp only [Interleaving.move]
  generalize calls.pending? t = p at hp
  generalize calls'.pending? t = p' at hp
  cases hp with
  | none => exact h
  | @some p p' hlike =>
    have hs := h.session? p.place
    rw [hlike.place] at hs
    simp only [hlike.place]
    generalize calls.sessions[p'.place]? = s at hs
    generalize calls'.sessions[p'.place]? = s' at hs
    cases hs with
    | none => exact h
    | @some s s' hs =>
      have hturn : L.TurnAlike ⟨t, p.place, p.started, p.next, s, calls.world⟩
          ⟨t, p'.place, p'.started, p'.next, s', calls'.world⟩ :=
        ⟨rfl, hlike.place, hlike.started, hlike.next, hs, h.world⟩
      exact h.advance t hlike (step hs h.world hlike.next (exact.dialled?_eq hturn))

/-- **Step**: whoever goes on does alike in both runs. -/
theorem RunAlike.go (exact : L.IsExact) (h : L.RunAlike r r') (k : Thread) :
    L.RunAlike (r.go k) (r'.go k) := by
  have hworker := forall₂_getElem? h.workers k
  have hpending := h.calls.pending? k
  simp only [Run.go]
  generalize r.workers[k]? = worker at hworker
  generalize r'.workers[k]? = worker' at hworker
  cases hworker with
  | none => exact h
  | @some worker worker' hworker =>
    generalize r.calls.pending? k = p at hpending
    generalize r'.calls.pending? k = p' at hpending
    cases hpending with
    | none =>
      have hnext := hworker.next?
      dsimp only
      generalize worker.next? = next at hnext
      generalize worker'.next? = next' at hnext
      cases hnext with
      | none => exact h
      | some hnext => exact ⟨h.calls.start k 0 hnext.1, forall₂_set h.workers k hnext.2⟩
    | some =>
      have hcalls := h.calls.move_advance exact k
      have hafter := hcalls.pending? k
      have hback := forall₂_getElem? hcalls.finished 0
      rw [← List.head?_eq_getElem?, ← List.head?_eq_getElem?] at hback
      have hmoved : L.RunAlike { r with calls := r.calls.move (.advance k) }
          { r' with calls := r'.calls.move (.advance k) } := ⟨hcalls, h.workers⟩
      dsimp only
      -- Either both calls go on, or both are over and have come back last.
      generalize (r.calls.move (.advance k)).pending? k = next at hafter ⊢
      generalize (r'.calls.move (.advance k)).pending? k = next' at hafter ⊢
      generalize (r.calls.move (.advance k)).finished.head? = back at hback ⊢
      generalize (r'.calls.move (.advance k)).finished.head? = back' at hback ⊢
      cases hafter with
      | some => cases hback <;> exact hmoved
      | none =>
        cases hback with
        | none => exact hmoved
        | some hback => exact ⟨hcalls, forall₂_set h.workers k (hworker.note hback.result)⟩

/-- **Run**. -/
theorem RunAlike.follow (exact : L.IsExact) (h : L.RunAlike r r') (schedule : Schedule) :
    L.RunAlike (r.follow schedule) (r'.follow schedule) := by
  induction schedule generalizing r r' with
  | nil => exact h
  | cons k schedule ih => exact ih (h.go exact k)

variable {s : Session φ μ} {s' : Session φ' μ'} {w : ω} {w' : ω'}

theorem runAlike_start (hs : Session.Alike L.factory L.marshal s s') (hw : L.world w w')
    (workers rounds : Nat) :
    L.RunAlike (Run.start workers rounds s w) (Run.start workers rounds s' w') := by
  refine ⟨⟨hw, .cons hs .nil, .nil, .nil⟩, ?_⟩
  induction workers with
  | zero => exact .nil
  | succ workers ih => exact .cons ⟨rfl, .none, rfl, rfl, rfl⟩ ih

/-- What is reported after runs that are alike is the same. -/
theorem stress (exact : L.IsExact) (hs : Session.Alike L.factory L.marshal s s')
    (hw : L.world w w') (schedule : Schedule) (load : Load) :
    (Stress.run schedule load s w).1 = (Stress.run schedule load s' w').1 ∧
      Session.Alike L.factory L.marshal (Stress.run schedule load s w).2.1
        (Stress.run schedule load s' w').2.1 ∧
      L.world (Stress.run schedule load s w).2.2 (Stress.run schedule load s' w').2.2 := by
  have hrun := (runAlike_start hs hw load.workers.toNat load.rounds.toNat).follow exact
    (schedule ++ Stress.inTurn load.workers.toNat load.rounds.toNat)
  dsimp only [Stress.run]
  generalize (Run.start load.workers.toNat load.rounds.toNat s w).follow _ = r at hrun ⊢
  generalize (Run.start load.workers.toNat load.rounds.toNat s' w').follow _ = r' at hrun ⊢
  have hsession : Session.Alike L.factory L.marshal (r.calls.sessions.headD s)
      (r'.calls.sessions.headD s') := by
    have hsessions := hrun.calls.sessions
    generalize r.calls.sessions = ss at hsessions ⊢
    generalize r'.calls.sessions = ss' at hsessions ⊢
    cases hsessions with
    | nil => exact hs
    | cons hfirst _ => exact hfirst
  generalize r.calls.sessions.headD s = t at hsession ⊢
  generalize r'.calls.sessions.headD s' = t' at hsession ⊢
  have hclosed := step hsession hrun.calls.world (.close : Call.Alike L.marshal .close .close) rfl
  have hrefused : r.workers.any (·.refused) = r'.workers.any (·.refused) :=
    forall₂_any hrun.workers fun _ _ hk => hk.refused
  have hpooled : t.pooled = t'.pooled := hsession.idle.length_eq
  rw [hrefused]
  split
  · refine ⟨?_, hclosed.session, hclosed.world⟩
    exact congrArg (fun id => Except.error (Error.sessionClosed id)) hsession.localId
  · refine ⟨?_, hclosed.session, hclosed.world⟩
    rw [hpooled, Worker.Alike.total hrun.workers fun _ _ hk => hk.exchanges,
      Worker.Alike.total hrun.workers fun _ _ hk => hk.unavailable]

end Likeness

end SessionPool
