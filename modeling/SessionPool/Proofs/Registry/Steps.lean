import SessionPool.Registry.Shared
import SessionPool.Proofs.Registry.Table

/-!
# The steps of a registry call

A step makes a session, enters one, takes one out of the table, closes one, or only looks. So no
session gets lost in it, and none is there twice:

    entering' + registered' + took = entering + registered + made.

This holds as long as the id under which a session is entered is free.
-/

namespace SessionPool

variable {φ μ ω : Type}

namespace Client

theorem Continues.refl (c : Client φ μ ω) : c.Continues c := fun _ s hs => ⟨s, hs, rfl, id⟩

theorem continues_build (c : Client φ μ ω) (b : Builder φ) : c.Continues (c.build b).2 :=
  fun _ s hs => ⟨s, session?_build_of_some hs b, rfl, id⟩

theorem isClosed_close [Marshal μ ω] {c : Client φ μ ω} {ref : SessionRef} {s : Session φ μ}
    (hs : c.session? ref = some s) :
    ∃ s', (c.close ref).2.session? ref = some s' ∧ s'.localId = s.localId ∧
      s'.isClosed = true := by
  rw [close_of_some hs]
  exact ⟨_, session?_update_self hs _ _, rfl, s.pool.drain_closed⟩

theorem continues_close [Marshal μ ω] (c : Client φ μ ω) (ref : SessionRef) :
    c.Continues (c.close ref).2 := by
  intro other t ht
  by_cases hother : other = ref
  · subst hother
    obtain ⟨s', hs', hid, hclosed⟩ := isClosed_close ht
    exact ⟨s', hs', hid, fun _ => hclosed⟩
  · cases hs : c.session? ref with
    | none =>
      rw [close_of_none hs]
      exact ⟨t, ht, rfl, id⟩
    | some s =>
      rw [close_of_some hs, session?_update_of_ne hother]
      exact ⟨t, ht, rfl, id⟩

end Client

namespace Registry

/-! ### Registered sessions -/

/-- The registered sessions. -/
def refs (r : Registry φ) : List SessionRef := r.table.map (·.2)

section

variable {r : Registry φ} {id : UInt64} {ref : SessionRef}

theorem count_refs_erase (h : r.keys.Nodup) (hget : r.lookup? id = some ref) (other : SessionRef) :
    (r.erase id).refs.count other + [ref].count other = r.refs.count other := by
  have hperm : r.refs.Perm (ref :: (r.erase id).refs) := (perm_of_lookup h hget).map _
  rw [hperm.count_eq, ← List.count_append]
  exact (List.perm_append_singleton ref _).count_eq other

theorem table_insert_of_none (hget : r.lookup? id = none) (ref : SessionRef) :
    (r.insert id ref).table = r.table ++ [(id, ref)] := by
  rw [insert, erase_eq_self hget]

end

variable [Marshal μ ω]

/-! ### The branches of the steps -/

/-- What comes of a step. -/
inductive Stepped (r : Registry φ) (c : Client φ μ ω) (now : Nat) : Call → Step φ μ ω → Prop
  | create {domain : Domain} {ref : SessionRef} {s : Session φ μ} {client : Client φ μ ω}
      (build : c.build (r.builder domain) = (ref, client)) (fresh : c.session? ref = none)
      (made : client.session? ref = some s) :
      Stepped r c now (.create domain)
        { next := .inl (.insert ref), registry := r, client, made := some (s.localId, ref) }
  | insert (ref : SessionRef) :
      Stepped r c now (.insert ref)
        { next := .inr (.created ref), registry := r.register ref c, client := c }
  | get (id : UInt64) :
      Stepped r c now (.get id) { next := .inr (.got (r.get id)), registry := r, client := c }
  | missing {id : UInt64} (h : r.lookup? id = none) :
      Stepped r c now (.remove id)
        { next := .inr (.removed (.error (.sessionNotFound id))), registry := r, client := c }
  | remove {id : UInt64} {ref : SessionRef} (h : r.lookup? id = some ref) :
      Stepped r c now (.remove id)
        { next := .inl (.close ref), registry := r.erase id, client := c, took := ref }
  | close (ref : SessionRef) :
      Stepped r c now (.close ref)
        { next := .inr (.removed (.ok ref)), registry := r, client := (c.close ref).2 }
  | closeAll :
      Stepped r c now .closeAll { next := .inl (.list now), registry := r, client := c }
  | list (since : Nat) :
      Stepped r c now (.list since) { next := .inl (.list since), registry := r, client := c }
  | done (count : Nat) :
      Stepped r c now (.removeNext [] count)
        { next := .inr (.closedAll count), registry := r, client := c }
  | skip {id : UInt64} {ids : List UInt64} {count : Nat} (h : r.lookup? id = none) :
      Stepped r c now (.removeNext (id :: ids) count)
        { next := .inl (.removeNext ids count), registry := r, client := c }
  | removeNext {id : UInt64} {ids : List UInt64} {count : Nat} {ref : SessionRef}
      (h : r.lookup? id = some ref) :
      Stepped r c now (.removeNext (id :: ids) count)
        { next := .inl (.closeNext ref ids count), registry := r.erase id, client := c,
          took := ref }
  | closeNext (ref : SessionRef) (ids : List UInt64) (count : Nat) :
      Stepped r c now (.closeNext ref ids count)
        { next := .inl (.removeNext ids (count + 1)), registry := r, client := (c.close ref).2 }

theorem stepped (r : Registry φ) (c : Client φ μ ω) (now : Nat) (call : Call) :
    Stepped r c now call (call.step r c now) := by
  cases call with
  | create domain =>
    have hmade := Client.session?_build (c := c) (r.builder domain)
    simp only [Call.step, hmade]
    exact .create rfl (Client.session?_build_new _) hmade
  | insert ref => exact .insert ref
  | get id => exact .get id
  | remove id =>
    cases h : r.lookup? id with
    | none => simpa only [Call.step, h] using .missing h
    | some ref => simpa only [Call.step, h] using .remove h
  | close ref => exact .close ref
  | closeAll => exact .closeAll
  | list since => exact .list since
  | removeNext ids count =>
    cases ids with
    | nil => exact .done count
    | cons id ids =>
      cases h : r.lookup? id with
      | none => simpa only [Call.step, h] using .skip h
      | some ref => simpa only [Call.step, h] using .removeNext h
  | closeNext ref ids count => exact .closeNext ref ids count

/-! ### Where the sessions are -/

/-- The session that a call is about to enter. -/
def Call.entering : Call → List SessionRef
  | insert ref => [ref]
  | _ => []

/-- The sessions that a call still has to enter after a step. -/
def Step.entering (step : Step φ μ ω) : List SessionRef := step.next.elim Call.entering fun _ => []

/-- The id under which a call is about to enter a session is free. -/
def Call.Fits (r : Registry φ) (c : Client φ μ ω) (call : Call) : Prop :=
  ∀ ref, call = .insert ref → ∃ s, c.session? ref = some s ∧ r.lookup? s.localId = none

omit [Marshal μ ω] in
theorem Call.Fits.table_register {r : Registry φ} {c : Client φ μ ω} {ref : SessionRef}
    (fits : (Call.insert ref).Fits r c) :
    ∃ s, c.session? ref = some s ∧ (r.register ref c).table = r.table ++ [(s.localId, ref)] := by
  obtain ⟨s, hs, hfree⟩ := fits ref rfl
  refine ⟨s, hs, ?_⟩
  rw [register, hs]
  exact table_insert_of_none hfree ref

namespace Stepped

variable {r : Registry φ} {c : Client φ μ ω} {now : Nat} {call : Call} {step : Step φ μ ω}

theorem continues (h : Stepped r c now call step) : c.Continues step.client := by
  cases h with
  | @create domain _ _ _ build =>
    have hbuild := c.continues_build (r.builder domain)
    rw [build] at hbuild
    exact hbuild
  | close ref => exact c.continues_close ref
  | closeNext ref => exact c.continues_close ref
  | _ => exact .refl c

/-- No session gets lost, and none is there twice. -/
theorem count_eq (h : Stepped r c now call step) (nodup : r.keys.Nodup) (fits : call.Fits r c)
    (ref : SessionRef) :
    step.entering.count ref + step.registry.refs.count ref + step.took.toList.count ref =
      call.entering.count ref + r.refs.count ref + (step.made.toList.map (·.2)).count ref := by
  cases h with
  | create => simp [Step.entering, Call.entering, Nat.add_comm]
  | insert entered =>
    obtain ⟨s, hs, htable⟩ := fits.table_register
    simp [Step.entering, Call.entering, refs, htable, Nat.add_comm]
  | remove hget =>
    have hcount := count_refs_erase nodup hget ref
    simp only [Step.entering, Call.entering, Sum.elim_inl, Option.toList_some, Option.toList_none,
      List.map_nil, List.count_nil]
    omega
  | removeNext hget =>
    have hcount := count_refs_erase nodup hget ref
    simp only [Step.entering, Call.entering, Sum.elim_inl, Option.toList_some, Option.toList_none,
      List.map_nil, List.count_nil]
    omega
  | _ => simp [Step.entering, Call.entering]

/-- A call that makes a session enters it before it comes back. -/
theorem length_eq (h : Stepped r c now call step) :
    step.entering.length + (step.next.elim (fun _ => false) Result.isCreation).toNat =
      call.entering.length + step.made.toList.length := by
  cases h <;> rfl

/-- A session that is made in a step is new. -/
theorem made_eq (h : Stepped r c now call step) {entry : Registration}
    (made : step.made = some entry) :
    c.session? entry.2 = none ∧
      ∃ s, step.client.session? entry.2 = some s ∧ s.localId = entry.1 := by
  cases h with
  | create build fresh hs =>
    obtain rfl := Option.some.inj made
    exact ⟨fresh, _, hs, rfl⟩
  | _ => cases made

theorem nodup_keys (h : Stepped r c now call step) (nodup : r.keys.Nodup) :
    step.registry.keys.Nodup := by
  cases h with
  | insert ref =>
    rw [register]
    split
    · exact nodup
    · exact nodup_insert nodup _ _
  | remove => exact nodup_erase nodup _
  | removeNext => exact nodup_erase nodup _
  | _ => exact nodup

/-- An entry stays in the table until its session is taken out. -/
theorem stays (h : Stepped r c now call step) (nodup : r.keys.Nodup) (fits : call.Fits r c)
    {entry : Registration} (hentry : entry ∈ r.table) :
    entry ∈ step.registry.table ∨ step.took = some entry.2 := by
  have herase {id : UInt64} {ref : SessionRef} (hget : r.lookup? id = some ref) :
      entry ∈ (r.erase id).table ∨ some ref = some entry.2 := by
    by_cases hid : entry.1 = id
    · subst hid
      exact .inr (hget.symm.trans (lookup_of_mem nodup hentry))
    · exact .inl (List.mem_filter.mpr ⟨hentry, bne_iff_ne.mpr hid⟩)
  cases h with
  | insert ref =>
    obtain ⟨s, -, htable⟩ := fits.table_register
    rw [htable]
    exact .inl (List.mem_append_left _ hentry)
  | remove hget => exact herase hget
  | removeNext hget => exact herase hget
  | _ => exact .inl hentry

/-- An entry that is not new was there before. -/
theorem mem_table (h : Stepped r c now call step) (fits : call.Fits r c) {entry : Registration}
    (hentry : entry ∈ step.registry.table) :
    entry ∈ r.table ∨ ∃ s, call = .insert entry.2 ∧ c.session? entry.2 = some s ∧
      entry.1 = s.localId := by
  cases h with
  | insert ref =>
    obtain ⟨s, hs, htable⟩ := fits.table_register
    rw [htable, List.mem_append, List.mem_singleton] at hentry
    rcases hentry with hold | rfl
    · exact .inl hold
    · exact .inr ⟨s, rfl, hs, rfl⟩
  | remove => exact .inl (List.mem_of_mem_filter hentry)
  | removeNext => exact .inl (List.mem_of_mem_filter hentry)
  | _ => exact .inl hentry

end Stepped

/-! ### What a call has taken out -/

/-- The sessions that a call has taken out, by what was asked and by what comes next. -/
inductive Took : Request → Call ⊕ Result → List SessionRef → Prop
  | create {domain : Domain} : Took (.create domain) (.inl (.create domain)) []
  | insert {domain : Domain} {ref : SessionRef} : Took (.create domain) (.inl (.insert ref)) []
  | created {domain : Domain} {ref : SessionRef} : Took (.create domain) (.inr (.created ref)) []
  | get {id : UInt64} : Took (.get id) (.inl (.get id)) []
  | got {id : UInt64} {result : Except Error SessionRef} : Took (.get id) (.inr (.got result)) []
  | remove {id : UInt64} : Took (.remove id) (.inl (.remove id)) []
  | close {id : UInt64} {ref : SessionRef} : Took (.remove id) (.inl (.close ref)) [ref]
  | removed {id : UInt64} {ref : SessionRef} : Took (.remove id) (.inr (.removed (.ok ref))) [ref]
  | missing {id : UInt64} :
      Took (.remove id) (.inr (.removed (.error (.sessionNotFound id)))) []
  | closeAll : Took .closeAll (.inl .closeAll) []
  | list {since : Nat} : Took .closeAll (.inl (.list since)) []
  | removeNext {ids : List UInt64} {took : List SessionRef} :
      Took .closeAll (.inl (.removeNext ids took.length)) took
  | closeNext {ref : SessionRef} {ids : List UInt64} {took : List SessionRef} :
      Took .closeAll (.inl (.closeNext ref ids took.length)) (took ++ [ref])
  | closedAll {took : List SessionRef} : Took .closeAll (.inr (.closedAll took.length)) took

/-- The session that a call is about to close. -/
def Call.closing? : Call → Option SessionRef
  | close ref | closeNext ref _ _ => some ref
  | _ => none

/-- The session that a call is about to close after a step. -/
def Step.closing? (step : Step φ μ ω) : Option SessionRef :=
  step.next.elim Call.closing? fun _ => none

namespace Stepped

variable {r : Registry φ} {c : Client φ μ ω} {now : Nat} {call : Call} {step : Step φ μ ω}
  {ref : SessionRef}

/-- What is taken out is closed next. -/
theorem closing_of_took (h : Stepped r c now call step) (took : step.took = some ref) :
    step.closing? = some ref := by
  cases h with
  | remove => exact took
  | removeNext => exact took
  | _ => cases took

theorem isClosed (h : Stepped r c now call step) (closing : call.closing? = some ref)
    {s : Session φ μ} (hs : c.session? ref = some s) :
    ∃ s', step.client.session? ref = some s' ∧ s'.isClosed = true := by
  obtain ⟨s', hs', -, hclosed⟩ := Client.isClosed_close hs
  cases h with
  | close =>
    obtain rfl := Option.some.inj closing
    exact ⟨s', hs', hclosed⟩
  | closeNext =>
    obtain rfl := Option.some.inj closing
    exact ⟨s', hs', hclosed⟩
  | _ => cases closing

end Stepped

theorem Took.start (request : Request) : Took request (.inl request.call) [] := by
  cases request
  · exact .create
  · exact .get
  · exact .remove
  · exact .closeAll

/-- A call that has come back has taken out as many sessions as it tells. -/
theorem Took.length_eq {request : Request} {result : Result} {took : List SessionRef}
    (h : Took request (.inr result) took) :
    took.length = result.isRemoval.toNat + result.closings := by
  cases h <;> simp [Result.isRemoval, Result.closings]

/-- A listing brings ids and takes nothing. -/
theorem Took.listed {request : Request} {since : Nat} {took : List SessionRef}
    (h : Took request (.inl (.list since)) took) (ids : List UInt64) :
    Took request (.inl (.removeNext ids 0)) took := by
  cases h
  have hnothing : Took .closeAll (.inl (.removeNext ids [].length)) [] := .removeNext
  exact hnothing

theorem Took.step {r : Registry φ} {c : Client φ μ ω} {now : Nat} {request : Request} {call : Call}
    {step : Step φ μ ω} {took : List SessionRef} (h : Took request (.inl call) took)
    (hstep : Stepped r c now call step) :
    Took request step.next (took ++ step.took.toList) := by
  cases hstep with
  | create => cases h; exact .insert
  | insert => cases h; exact .created
  | get => cases h; exact .got
  | missing => cases h; exact .missing
  | remove => cases h; exact .close
  | close => cases h; exact .removed
  | closeAll => cases h; exact .list
  | list => cases h; exact .list
  | done => cases h; simpa using Took.closedAll
  | skip => cases h; simpa using Took.removeNext
  | removeNext => cases h; exact .closeNext
  | closeNext ref ids =>
    cases h with
    | @closeNext _ _ took =>
      rw [Option.toList_none, List.append_nil, ← List.length_concat, List.concat_eq_append]
      exact .removeNext

/-! ### Closing all sessions -/

/-- A call that closes all sessions has still to take out the entry of an id, which has been in the
table since the call began. -/
def Call.Awaits (past : List (List UInt64)) (id : UInt64) : Call → Prop
  | closeAll => True
  | list since => ∀ keys ∈ past.drop since, id ∈ keys
  | removeNext ids _ | closeNext _ ids _ => id ∈ ids
  | _ => False

/-- As long as an entry is there, the call still awaits it or takes its session out. -/
theorem Stepped.awaits {r : Registry φ} {c : Client φ μ ω} {past : List (List UInt64)}
    {call : Call} {step : Step φ μ ω} (h : Stepped r c past.length call step)
    (nodup : r.keys.Nodup) {entry : Registration} (hentry : entry ∈ r.table)
    (awaits : call.Awaits past entry.1) :
    step.took = some entry.2 ∨
      ∃ next, step.next = .inl next ∧ next.Awaits (past ++ [r.keys]) entry.1 := by
  have hkey : entry.1 ∈ r.keys := List.mem_map_of_mem hentry
  have hget : r.lookup? entry.1 = some entry.2 := lookup_of_mem nodup hentry
  cases h with
  | closeAll =>
    refine .inr ⟨_, rfl, fun keys hkeys => ?_⟩
    rw [List.drop_left, List.mem_singleton] at hkeys
    exact hkeys ▸ hkey
  | list since =>
    refine .inr ⟨_, rfl, fun keys hkeys => ?_⟩
    rw [List.drop_append, List.mem_append] at hkeys
    rcases hkeys with hold | hnow
    · exact awaits keys hold
    · rw [List.mem_singleton.mp (List.mem_of_mem_drop hnow)]
      exact hkey
  | done => cases awaits
  | skip hnone =>
    rcases List.mem_cons.mp awaits with hid | hlater
    · rw [← hid, hget] at hnone
      cases hnone
    · exact .inr ⟨_, rfl, hlater⟩
  | removeNext hfound =>
    rcases List.mem_cons.mp awaits with hid | hlater
    · rw [← hid, hget] at hfound
      exact .inl hfound.symm
    · exact .inr ⟨_, rfl, hlater⟩
  | closeNext => exact .inr ⟨_, rfl, awaits⟩
  | _ => cases awaits

end Registry

end SessionPool
