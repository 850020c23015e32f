import SessionPool.Proofs.Mock.Ledger
import SessionPool.Proofs.Script.Marshals

/-!
# Every marshal counts once

With mock daemons it can be told which marshals there are. As long as nobody but the sessions closes
them, a marshal that is idle in a session, or outside the pools, was not closed, and one that was
closed is nowhere and is never closed again:

    somewhere + closed ≤ 1.
-/

namespace SessionPool.Script

open Mock (Factory Fleet Key Ledger)

variable {x y : Moment Factory Mock.Marshal Fleet} {tag : Tag Factory FleetChange MockAct}
  {daemons : Nat} {ref : SessionRef} {k : Key}

/-! ### What an act does to the fleet -/

/-- The sessions stay as they are; what is in hand may change. -/
theorem ledger_of_sessions_eq
    (hledger : Ledger x.state.client.world y.state.client.world x.inHand y.inHand)
    (hsessions : y.state.client.sessions = x.state.client.sessions) :
    Ledger x.state.client.world y.state.client.world x.marshals y.marshals := by
  have h := hledger.append x.state.client.idle
  rwa [Moment.marshals, Moment.marshals, Client.idle, Client.idle, hsessions]

/-- One session is used. It may take marshals from those in hand and give others. -/
theorem ledger_of_update {s s' : Session Factory Mock.Marshal} {w : Fleet}
    (hs : x.state.client.session? ref = some s)
    (hclient : y.state.client = x.state.client.update ref s' w) (taken given : List Mock.Marshal)
    (hledger : Ledger x.state.client.world w (taken ++ s.pool.idle) (given ++ s'.pool.idle))
    (hhands : (taken ++ y.inHand).Subperm (given ++ x.inHand)) :
    Ledger x.state.client.world y.state.client.world x.marshals y.marshals := by
  have hworld : y.state.client.world = w := by
    rw [hclient]
    rfl
  rw [hworld]
  refine ⟨hledger.length, hledger.closed, fun k => ?_⟩
  have hcounts := hledger.counts k
  have hhands := hhands.countP_le (·.key == k)
  have hbefore := (x.state.client.idle_perm hs).countP_eq (·.key == k)
  have hafter := (x.state.client.idle_update_perm hs s' w).countP_eq (·.key == k)
  rw [← hclient] at hafter
  simp only [Moment.marshals, List.countP_append] at hcounts hhands hbefore hafter ⊢
  omega

theorem ledger_of_close {other : SessionRef}
    (hclient : y.state.client = (x.state.client.close other).2) (hands : y.inHand = x.inHand) :
    Ledger x.state.client.world y.state.client.world x.marshals y.marshals := by
  cases hs : x.state.client.session? other with
  | none =>
    rw [Client.close_of_none hs] at hclient
    rw [Moment.marshals, Moment.marshals, hclient, hands]
    exact .of_subperm (.refl _)
  | some s =>
    rw [Client.close_of_some hs] at hclient
    refine ledger_of_update hs hclient [] [] (.closeSession s _) ?_
    rw [hands]

/-- Factories belong to daemons that are there, new daemons have closed nothing, and nobody who
holds a marshal closes it. -/
def Tag.IsFair (daemons : Nat) : Tag Factory FleetChange MockAct → Prop
  | .source f => f.place < daemons
  | .change (.start d) => d.closedIds = []
  | .deed d => d ≠ .close
  | _ => True

theorem ledger_of_act (hact : Act tag x y) (hfair : tag.IsFair daemons)
    (hfactories : ∀ f ∈ x.state.factories, f.place < x.state.client.world.daemons.length) :
    Ledger x.state.client.world y.state.client.world x.marshals y.marshals := by
  cases hact with
  | rehold same sessions world hands =>
    refine ledger_of_sessions_eq ?_ sessions
    rw [world]
    exact .of_subperm hands
  | letGo _ other =>
    by_cases hheld : x.state.isHeld other = true
    · rw [State.letGo_of_held hheld]
      exact .of_subperm (.refl _)
    · have hclose : (x.state.letGo other).client = (x.state.client.close other).2 := by
        rw [State.letGo, if_neg hheld]
      refine ledger_of_close hclose ?_
      rw [Moment.inHand, Moment.inHand, State.inHand, State.inHand]
      simp
  | build _ b =>
    obtain ⟨new, hnew, -, hidle, -⟩ := x.state.client.sessions_build b
    refine .of_subperm (List.Perm.subperm (.of_eq ?_))
    rw [Moment.marshals, Moment.marshals, Client.idle, Client.idle, hnew]
    simp [hidle, Moment.inHand, State.inHand]
  | source _ as f => exact .of_subperm (.refl _)
  | change _ c =>
    cases c with
    | start d => exact .start _ hfair _
    | setAccepting place on =>
      have hsame (d : Mock.Daemon) := d.sameLives_accepting on
      exact .modify _ place (fun d => (hsame d).closed) (fun d => (hsame d).nextId) _
  | create f known same sessions world hands =>
    refine ledger_of_sessions_eq ?_ sessions
    rw [world]
    exact ((Ledger.create (hfactories f known)).append x.inHand).trans (.of_subperm hands)
  | deed d m others same sessions world before after =>
    refine ledger_of_sessions_eq ?_ sessions
    rw [world]
    have hdone := (Ledger.deed m x.state.client.world hfair).append others
    exact (Ledger.of_subperm before.symm.subperm).trans (hdone.trans (.of_subperm after.subperm))
  | @draw _ _ other s same hs client hands =>
    refine ledger_of_update hs client [] _ (.acquire s (hfactories _ ?_)) hands
    exact List.mem_append_right _ (List.mem_map_of_mem (List.mem_of_getElem? hs))
  | @giveBack _ _ other s m same hs client hands =>
    exact ledger_of_update hs client [m] [] (.release s m _) hands
  | close _ other => exact ledger_of_close rfl rfl
  | @relabel _ other s hs id =>
    exact ledger_of_update hs rfl [] [] (.of_subperm (.refl _)) (.refl _)
  | free other same sessions world hands =>
    refine ledger_of_sessions_eq ?_ sessions
    rw [world]
    exact .of_subperm hands

/-! ### Moments that are counted -/

/-- A moment at which every session that nobody minds is shut, and every marshal is in one place at
most or was closed once. -/
structure Counted (daemons : Nat) (x : Moment Factory Mock.Marshal Fleet) : Prop where
  tidy : Tidy x
  length : daemons ≤ x.state.client.world.daemons.length
  factories : ∀ f ∈ x.state.factories, f.place < x.state.client.world.daemons.length
  once (k : Key) : x.marshals.countP (·.key == k) + x.state.client.world.closeCount k ≤
    (x.state.client.world.hasIssued k).toNat

namespace Counted

theorem act (h : Counted daemons x) (hact : Act tag x y) (hfair : tag.IsFair daemons) :
    Counted daemons y := by
  have hledger := ledger_of_act hact hfair h.factories
  refine ⟨h.tidy.act hact, Nat.le_trans h.length hledger.length, fun f hf => ?_, fun k => ?_⟩
  · rcases hact.factories hf with hold | rfl
    · exact Nat.lt_of_lt_of_le (h.factories f hold) hledger.length
    · exact Nat.lt_of_lt_of_le hfair (Nat.le_trans h.length hledger.length)
  · have honce := h.once k
    have hcounts := hledger.counts k
    omega

/-- The daemon of a marshal that is somewhere is there. -/
theorem place_lt (h : Counted daemons x) {m : Mock.Marshal} (hm : m ∈ x.marshals) :
    m.place < x.state.client.world.daemons.length := by
  have hcount : 0 < x.marshals.countP (·.key == m.key) :=
    List.countP_pos_iff.mpr ⟨m, hm, beq_self_eq_true _⟩
  have honce := h.once m.key
  have hissued : x.state.client.world.hasIssued m.key = true := by
    cases hissued : x.state.client.world.hasIssued m.key with
    | true => rfl
    | false =>
      rw [hissued, Bool.toNat_false] at honce
      omega
  rw [Fleet.hasIssued, Bool.and_eq_true, decide_eq_true_eq] at hissued
  exact hissued.1

theorem closeCount_le (h : Counted daemons x) (k : Key) :
    x.state.client.world.closeCount k ≤ 1 := by
  have honce := h.once k
  have hissued := Bool.toNat_le (x.state.client.world.hasIssued k)
  omega

section Acts

variable {P : Tag Factory FleetChange MockAct → Prop}

theorem acts (h : Counted daemons x) (hacts : Acts P x y)
    (hfair : ∀ tag, P tag → tag.IsFair daemons) : Counted daemons y := by
  induction hacts with
  | refl => exact h
  | tail _ hact ih =>
    obtain ⟨tag, hP, hact⟩ := hact
    exact ih.act hact (hfair tag hP)

/-- What is closed stays closed. -/
theorem closeCount_mono (h : Counted daemons x) (hacts : Acts P x y)
    (hfair : ∀ tag, P tag → tag.IsFair daemons) (k : Key) :
    x.state.client.world.closeCount k ≤ y.state.client.world.closeCount k := by
  induction hacts with
  | refl => exact Nat.le_refl _
  | tail hacts hact ih =>
    obtain ⟨tag, hP, hact⟩ := hact
    have hcounted := h.acts hacts hfair
    exact Nat.le_trans ih ((ledger_of_act hact (hfair tag hP) hcounted.factories).closed k)

end Acts

end Counted

/-! ### Marshals that stay or are closed -/

namespace Moment

/-- Whether a marshal is idle in a session, or closed. -/
def Keeps (x : Moment Factory Mock.Marshal Fleet) (ref : SessionRef) (k : Key) : Prop :=
  (∃ m ∈ x.state.idle ref, m.key = k) ∨ 0 < x.state.client.world.closeCount k

/-- Whether a marshal is in a lease from a session, or idle in the session, or closed. -/
def Secures (x : Moment Factory Mock.Marshal Fleet) (ref : SessionRef) (k : Key) : Prop :=
  (∃ m, (ref, m) ∈ x.state.loans ∧ m.key = k) ∨ x.Keeps ref k

theorem Keeps.act (h : x.Keeps ref k) (hx : Counted daemons x) (hact : Act tag x y)
    (hfair : tag.IsFair daemons) (hdraw : tag ≠ .draw ref) : y.Keeps ref k := by
  have hledger := ledger_of_act hact hfair hx.factories
  rcases h with ⟨m, hm, rfl⟩ | hclosed
  · have hplace : m.place < x.state.client.world.daemons.length :=
      hx.place_lt (List.mem_append_right _ (x.state.idle_subset ref hm))
    rcases hact.stays hx.tidy hdraw hm with hstays | ⟨ms, hms, hworld⟩
    · exact .inl ⟨m, hstays, rfl⟩
    · refine .inr ?_
      rw [hworld]
      exact Fleet.closeCount_closeEach_pos hms hplace
  · exact .inr (Nat.lt_of_lt_of_le hclosed (hledger.closed k))

theorem Secures.act (h : x.Secures ref k) (hx : Counted daemons x) (hact : Act tag x y)
    (hfair : tag.IsFair daemons) (hdraw : tag ≠ .draw ref) (hfree : tag ≠ .free ref) :
    y.Secures ref k := by
  rcases h with ⟨m, hm, rfl⟩ | hkeeps
  · have hplace : m.place < x.state.client.world.daemons.length :=
      hx.place_lt (List.mem_append_left _ (List.mem_append_right _ (State.mem_inHand_of_loan hm)))
    rcases hact.loan hfree hm with hstays | (hidle | hclosed) | ⟨d, rfl, hdone⟩
    · exact .inl ⟨m, hstays, rfl⟩
    · exact .inr (.inl ⟨_, hidle, rfl⟩)
    · refine .inr (.inr ?_)
      rw [hclosed]
      have hreset := (Ledger.reset m x.state.client.world).length
      exact Fleet.closeCount_close_pos (Nat.lt_of_lt_of_le hplace hreset)
    · exact .inl ⟨_, hdone, Mock.key_doDeed ..⟩
  · exact .inr (hkeeps.act hx hact hfair hdraw)

section Acts

variable {P : Tag Factory FleetChange MockAct → Prop}

theorem Keeps.acts (h : x.Keeps ref k) (hx : Counted daemons x) (hacts : Acts P x y)
    (hfair : ∀ tag, P tag → tag.IsFair daemons) (hdraw : ¬ P (.draw ref)) : y.Keeps ref k := by
  induction hacts with
  | refl => exact h
  | tail hacts hact ih =>
    obtain ⟨tag, hP, hact⟩ := hact
    refine ih.act (hx.acts hacts hfair) hact (hfair tag hP) ?_
    rintro rfl
    exact hdraw hP

theorem Secures.acts (h : x.Secures ref k) (hx : Counted daemons x) (hacts : Acts P x y)
    (hfair : ∀ tag, P tag → tag.IsFair daemons) (hdraw : ¬ P (.draw ref))
    (hfree : ¬ P (.free ref)) : y.Secures ref k := by
  induction hacts with
  | refl => exact h
  | tail hacts hact ih =>
    obtain ⟨tag, hP, hact⟩ := hact
    refine ih.act (hx.acts hacts hfair) hact (hfair tag hP) ?_ ?_
    · rintro rfl
      exact hdraw hP
    · rintro rfl
      exact hfree hP

end Acts

end Moment

end SessionPool.Script
