import SessionPool.Mock.Daemon
import SessionPool.Proofs.Registry.Steps

/-!
# A session is taken out of a registry once

Whatever threads do with a registry at the same time, every session that was made for it is in one
place: a call is about to enter it, it is registered, or one call has taken it out,

    entering + registered + taken = created.

A call that closes all sessions cannot miss one that was registered when it began. Such a session is
in the table at every moment of the listing, so that the listing brings its id, unless some call has
taken it out by then.
-/

namespace SessionPool.Registry

variable {φ μ ω : Type}

namespace Shared

/-! ### The call of one thread, and the others -/

/-- No thread is in two calls. -/
def OneCallEach (st : Shared φ μ ω) : Prop := (st.pending.map (·.1)).Nodup

/-- The sessions that calls are about to enter. -/
def entering (st : Shared φ μ ω) : List SessionRef := st.pending.flatMap (·.2.next.entering)

theorem OneCallEach.pending_perm {st : Shared φ μ ω} (h : st.OneCallEach) {t : Thread}
    {p : Pending} (hp : st.pending? t = some p) : st.pending.Perm ((t, p) :: st.others t) :=
  perm_of_lookup h hp

section

variable [Marshal μ ω] (st : Shared φ μ ω) (t : Thread) (p : Pending)

/-- What comes of the next step of a call. -/
def outcome : Step φ μ ω := p.next.step st.registry st.client st.past.length

theorem stepped_outcome :
    Stepped st.registry st.client st.past.length p.next (st.outcome p) := stepped ..

@[simp] theorem advance_registry : (st.advance t p).registry = (st.outcome p).registry := by
  unfold advance outcome
  dsimp only
  split <;> rfl

@[simp] theorem advance_client : (st.advance t p).client = (st.outcome p).client := by
  unfold advance outcome
  dsimp only
  split <;> rfl

@[simp] theorem advance_created :
    (st.advance t p).created = st.created ++ (st.outcome p).made.toList := by
  unfold advance outcome
  dsimp only
  split <;> rfl

@[simp] theorem advance_past : (st.advance t p).past = st.past ++ [st.registry.keys] := by
  unfold advance
  dsimp only
  split <;> rfl

/-- The call after a step, if it is still under way. -/
def going : List (Thread × Pending) :=
  (st.outcome p).next.elim
    (fun next => [(t, { p with next, took := p.took ++ (st.outcome p).took.toList })]) fun _ => []

/-- The call after a step, if it has come back. -/
def back : List Finished :=
  (st.outcome p).next.elim (fun _ => []) fun result =>
    [⟨t, p.request, result, p.before, p.took ++ (st.outcome p).took.toList⟩]

theorem advance_pending : (st.advance t p).pending = st.going t p ++ st.others t := by
  unfold advance going outcome
  dsimp only
  split <;> simp_all

theorem advance_finished : (st.advance t p).finished = st.back t p ++ st.finished := by
  unfold advance back outcome
  dsimp only
  split <;> simp_all

theorem going_entering :
    (st.going t p).flatMap (·.2.next.entering) = (st.outcome p).entering := by
  unfold going Step.entering
  cases (st.outcome p).next <;> simp

theorem took_perm : ((st.going t p).flatMap (·.2.took) ++ (st.back t p).flatMap (·.took)) =
    p.took ++ (st.outcome p).took.toList := by
  unfold going back
  cases (st.outcome p).next <;> simp

theorem back_creations : (st.back t p).countP (·.result.isCreation) =
    ((st.outcome p).next.elim (fun _ => false) Result.isCreation).toNat := by
  unfold back
  cases (st.outcome p).next with
  | inl next => rfl
  | inr result => cases h : result.isCreation <;> simp [h]

end

section

variable {st : Shared φ μ ω} {t : Thread} {p : Pending}

theorem OneCallEach.entering_perm (h : st.OneCallEach) (hp : st.pending? t = some p) :
    st.entering.Perm (p.next.entering ++ (st.others t).flatMap (·.2.next.entering)) :=
  (h.pending_perm hp).flatMap_right _

theorem OneCallEach.taken_perm (h : st.OneCallEach) (hp : st.pending? t = some p) :
    st.taken.Perm (p.took ++ (st.others t).flatMap (·.2.took) ++ st.finished.flatMap (·.took)) :=
  ((h.pending_perm hp).flatMap_right _).append_right _

variable [Marshal μ ω]

/-- What a call is about to enter changes with its step. -/
theorem OneCallEach.entering_advance (h : st.OneCallEach) (hp : st.pending? t = some p) :
    ((st.advance t p).entering ++ p.next.entering).Perm
      (st.entering ++ (st.outcome p).entering) := by
  refine List.perm_iff_count.mpr fun ref => ?_
  have hcount := (h.entering_perm hp).count_eq ref
  rw [List.count_append] at hcount
  rw [entering, advance_pending, List.flatMap_append, going_entering]
  simp only [List.count_append]
  omega

/-- What has been taken out stays so, and the step may add to it. -/
theorem OneCallEach.taken_advance (h : st.OneCallEach) (hp : st.pending? t = some p) :
    (st.advance t p).taken.Perm (st.taken ++ (st.outcome p).took.toList) := by
  refine List.perm_iff_count.mpr fun ref => ?_
  have hcount := (h.taken_perm hp).count_eq ref
  have htook := congrArg (List.count ref) (st.took_perm t p)
  simp only [taken, advance_pending, advance_finished, List.flatMap_append, List.count_append]
    at hcount htook ⊢
  omega

theorem OneCallEach.advance (h : st.OneCallEach) (hp : st.pending? t = some p) :
    (st.advance t p).OneCallEach := by
  have hnodup : (((t, p) :: st.others t).map (·.1)).Nodup :=
    ((h.pending_perm hp).map _).nodup_iff.mp h
  rw [OneCallEach, advance_pending, going]
  cases (st.outcome p).next with
  | inl next => exact hnodup
  | inr result => exact hnodup.of_cons

end

/-- The calls after a listing has brought some ids to one of them. -/
def listed (st : Shared φ μ ω) (t : Thread) (p : Pending) (ids : List UInt64) : Shared φ μ ω :=
  { st with pending := (t, { p with next := .removeNext ids 0 }) :: st.others t }

/-- A listing brings what was in the table all the time. -/
theorem mem_of_isListing {seen : List (List UInt64)} {listing : List UInt64} (hne : seen ≠ [])
    (h : isListing seen listing = true) {id : UInt64} (hid : ∀ keys ∈ seen, id ∈ keys) :
    id ∈ listing := by
  obtain ⟨first, rest, rfl⟩ := List.exists_cons_of_ne_nil hne
  have hall : (first :: rest).all (·.contains id) = true :=
    List.all_eq_true.mpr fun keys hkeys => List.contains_iff_mem.mpr (hid keys hkeys)
  rw [isListing, Bool.and_eq_true, List.headD_cons] at h
  have hbrought := List.all_eq_true.mp h.2 id (hid first List.mem_cons_self)
  rw [hall] at hbrought
  exact List.contains_iff_mem.mp hbrought

/-! ### What every move keeps -/

/-- The session is there and closed. -/
def IsClosed (st : Shared φ μ ω) (ref : SessionRef) : Prop :=
  ∃ s, st.client.session? ref = some s ∧ s.isClosed = true

/-- What holds of a call under way: what it has taken out is closed unless that comes next, and if
it is to close all sessions, each that was registered is taken out or still awaited. -/
structure Fair (st : Shared φ μ ω) (p : Pending) : Prop where
  took : Took p.request (.inl p.next) p.took
  closed : ∀ ref ∈ p.took, p.next.closing? = some ref ∨ st.IsClosed ref
  awaits : p.request = .closeAll → ∀ entry ∈ p.before,
    entry.2 ∈ st.taken ∨ entry ∈ st.registry.table ∧ p.next.Awaits st.past entry.1

/-- What holds of a call that has come back. -/
structure Settled (st : Shared φ μ ω) (f : Finished) : Prop where
  took : Took f.request (.inr f.result) f.took
  closed : ∀ ref ∈ f.took, st.IsClosed ref
  emptied : f.request = .closeAll → ∀ entry ∈ f.before, entry.2 ∈ st.taken

/-- What carries the rest through a run: every session is in one place. -/
structure Sound (st : Shared φ μ ω) : Prop where
  oneCall : st.OneCallEach
  keys : st.registry.keys.Nodup
  made : ∀ entry ∈ st.created, ∃ s, st.client.session? entry.2 = some s ∧ s.localId = entry.1
  fresh : (st.created.map (·.2)).Nodup
  whereabouts : ∀ ref, st.entering.count ref + st.registry.refs.count ref + st.taken.count ref =
    (st.created.map (·.2)).count ref
  registered : ∀ entry ∈ st.registry.table, entry ∈ st.created
  creations : st.creations + st.entering.length = st.created.length
  fair : ∀ entry ∈ st.pending, st.Fair entry.2
  settled : ∀ f ∈ st.finished, st.Settled f

/-- A later state: sessions go on, and an entry of the table stays there until its session is taken
out. -/
structure Later (st st' : Shared φ μ ω) : Prop where
  continues : st.client.Continues st'.client
  taken : ∀ ref ∈ st.taken, ref ∈ st'.taken
  stays : ∀ entry ∈ st.registry.table, entry ∈ st'.registry.table ∨ entry.2 ∈ st'.taken
  past : st'.past = st.past ∨ st'.past = st.past ++ [st.registry.keys]

namespace Later

variable {st st' : Shared φ μ ω}

theorem isClosed (h : Later st st') {ref : SessionRef} (hclosed : st.IsClosed ref) :
    st'.IsClosed ref := by
  obtain ⟨s, hs, hclosed⟩ := hclosed
  obtain ⟨s', hs', -, hkeeps⟩ := h.continues ref s hs
  exact ⟨s', hs', hkeeps hclosed⟩

theorem awaits (h : Later st st') {call : Call} {entry : Registration}
    (hentry : entry ∈ st.registry.table) (awaits : call.Awaits st.past entry.1) :
    call.Awaits st'.past entry.1 := by
  cases call with
  | list since =>
    intro keys hkeys
    rcases h.past with hsame | hmore
    · exact awaits keys (hsame ▸ hkeys)
    · rw [hmore, List.drop_append, List.mem_append] at hkeys
      rcases hkeys with hold | hnow
      · exact awaits keys hold
      · rw [List.mem_singleton.mp (List.mem_of_mem_drop hnow)]
        exact List.mem_map_of_mem hentry
  | _ => exact awaits

/-- A call that does nothing meanwhile stays fair. -/
theorem fair (h : Later st st') {p : Pending} (hfair : st.Fair p) : st'.Fair p where
  took := hfair.took
  closed ref href := (hfair.closed ref href).imp_right h.isClosed
  awaits hall entry hentry := by
    rcases hfair.awaits hall entry hentry with htaken | ⟨hthere, hawaits⟩
    · exact .inl (h.taken _ htaken)
    · rcases h.stays entry hthere with hstill | htaken
      · exact .inr ⟨hstill, h.awaits hthere hawaits⟩
      · exact .inl htaken

theorem settled (h : Later st st') {f : Finished} (hsettled : st.Settled f) : st'.Settled f where
  took := hsettled.took
  closed ref href := h.isClosed (hsettled.closed ref href)
  emptied hall entry hentry := h.taken _ (hsettled.emptied hall entry hentry)

end Later

namespace Sound

variable {st : Shared φ μ ω}

/-- A session that is about to be entered was made for the registry. -/
theorem created_of_entering (h : st.Sound) {entry : Thread × Pending} (hp : entry ∈ st.pending)
    {ref : SessionRef} (hinsert : entry.2.next = .insert ref) :
    0 < st.entering.count ref ∧
      ∃ s, st.client.session? ref = some s ∧ (s.localId, ref) ∈ st.created := by
  have hentering : ref ∈ st.entering :=
    List.mem_flatMap.mpr ⟨entry, hp, by simp [hinsert, Call.entering]⟩
  have hpos : 0 < st.entering.count ref := List.count_pos_iff.mpr hentering
  have hcount := h.whereabouts ref
  have hcreated : ref ∈ st.created.map (·.2) := List.count_pos_iff.mp (by omega)
  obtain ⟨⟨id, ref⟩, hentry, rfl⟩ := List.mem_map.mp hcreated
  obtain ⟨s, hs, rfl⟩ := h.made _ hentry
  exact ⟨hpos, s, hs, hentry⟩

/-- Where the ids of all sessions are distinct, a session is entered under an id that is free. -/
theorem fits (h : st.Sound) (distinct : (st.created.map (·.1)).Nodup) {entry : Thread × Pending}
    (hp : entry ∈ st.pending) : entry.2.next.Fits st.registry st.client := by
  intro ref hinsert
  obtain ⟨hpos, s, hs, hcreated⟩ := h.created_of_entering hp hinsert
  refine ⟨s, hs, ?_⟩
  cases hget : st.registry.lookup? s.localId with
  | none => rfl
  | some other =>
    -- It can only be the same session, which is not registered yet.
    have hmem : (s.localId, other) ∈ st.registry.table := SessionPool.mem_of_lookup hget
    have hother := lookup_of_mem distinct (h.registered _ hmem)
    rw [lookup_of_mem distinct hcreated] at hother
    obtain rfl := Option.some.inj hother
    have hregistered : 0 < st.registry.refs.count ref :=
      List.count_pos_iff.mpr (List.mem_map.mpr ⟨_, hmem, rfl⟩)
    have hone := List.nodup_iff_count.mp h.fresh ref
    have hcount := h.whereabouts ref
    omega

theorem start (h : st.Sound) {t : Thread} (free : st.pending? t = none) (request : Request) :
    Sound { st with
      pending := (t, ⟨request, request.call, st.registry.table, []⟩) :: st.pending } := by
  have hentering : request.call.entering = [] := by cases request <;> rfl
  have hlater : Later st { st with
      pending := (t, ⟨request, request.call, st.registry.table, []⟩) :: st.pending } :=
    ⟨.refl _, fun _ href => href, fun _ hentry => .inl hentry, .inl rfl⟩
  refine ⟨?_, h.keys, h.made, h.fresh, fun ref => ?_, h.registered, ?_, fun entry hentry => ?_,
    fun f hf => hlater.settled (h.settled f hf)⟩
  · refine List.nodup_cons.mpr ⟨fun hmem => ?_, h.oneCall⟩
    obtain ⟨entry, hentry, heq⟩ := List.mem_map.mp hmem
    have hne := List.lookup_eq_none_iff.mp free entry hentry
    simp [heq] at hne
  · have hcount := h.whereabouts ref
    simpa [entering, taken, hentering] using hcount
  · have hcount := h.creations
    simpa [entering, Shared.creations, hentering] using hcount
  · rcases List.mem_cons.mp hentry with rfl | hold
    · refine ⟨.start request, fun ref href => ?_, fun hall entry hentry => .inr ⟨hentry, ?_⟩⟩
      · cases href
      · obtain rfl : request = .closeAll := hall
        trivial
    · exact hlater.fair (h.fair entry hold)

theorem meanwhile (h : st.Sound) (course : Client.Course φ μ ω) :
    Sound { st with client := course.apply st.client } := by
  have hlater : Later st { st with client := course.apply st.client } :=
    ⟨course.continues _, fun _ href => href, fun _ hentry => .inl hentry, .inl rfl⟩
  refine ⟨h.oneCall, h.keys, fun entry hentry => ?_, h.fresh, h.whereabouts, h.registered,
    h.creations, fun entry hentry => hlater.fair (h.fair entry hentry),
    fun f hf => hlater.settled (h.settled f hf)⟩
  obtain ⟨s, hs, hid⟩ := h.made entry hentry
  obtain ⟨s', hs', hid', -⟩ := course.continues _ _ s hs
  exact ⟨s', hs', hid'.trans hid⟩

variable [Marshal μ ω] {t : Thread} {p : Pending}

/-- A step of one call leads to a later state. -/
theorem later_advance (h : st.Sound) (distinct : (st.created.map (·.1)).Nodup)
    (hp : st.pending? t = some p) : Later st (st.advance t p) := by
  have hfits := h.fits distinct (SessionPool.mem_of_lookup hp)
  have htaken := h.oneCall.taken_advance hp
  refine ⟨?_, fun ref href => ?_, fun entry hentry => ?_, .inr (st.advance_past t p)⟩
  · rw [advance_client]
    exact (st.stepped_outcome p).continues
  · rw [htaken.mem_iff]
    exact List.mem_append_left _ href
  · rw [htaken.mem_iff, advance_registry]
    refine ((st.stepped_outcome p).stays h.keys hfits hentry).imp_right fun htook => ?_
    exact List.mem_append_right _ (Option.mem_toList.mpr htook)

/-- A session that a call has taken out is closed, or the call closes it next. -/
theorem closed_advance (h : st.Sound) (hp : st.pending? t = some p)
    (hlater : Later st (st.advance t p)) {ref : SessionRef}
    (href : ref ∈ p.took ++ (st.outcome p).took.toList) :
    (st.outcome p).closing? = some ref ∨ (st.advance t p).IsClosed ref := by
  have hmem : (t, p) ∈ st.pending := SessionPool.mem_of_lookup hp
  rcases List.mem_append.mp href with hold | hnew
  · right
    rcases (h.fair _ hmem).closed ref hold with hclosing | hclosed
    · have htaken : ref ∈ st.taken :=
        List.mem_append_left _ (List.mem_flatMap.mpr ⟨_, hmem, hold⟩)
      have hpos := List.count_pos_iff.mpr htaken
      have hcount := h.whereabouts ref
      have hcreated : ref ∈ st.created.map (·.2) := List.count_pos_iff.mp (by omega)
      obtain ⟨entry, hentry, rfl⟩ := List.mem_map.mp hcreated
      obtain ⟨s, hs, -⟩ := h.made entry hentry
      rw [IsClosed, advance_client]
      exact (st.stepped_outcome p).isClosed hclosing hs
    · exact hlater.isClosed hclosed
  · exact .inl ((st.stepped_outcome p).closing_of_took (Option.mem_toList.mp hnew))

/-- What was registered when a call to close all sessions began is taken out, or the call goes on
and still awaits it. -/
theorem awaits_advance (h : st.Sound) (hp : st.pending? t = some p)
    (hlater : Later st (st.advance t p)) (hall : p.request = .closeAll) {entry : Registration}
    (hentry : entry ∈ p.before) :
    entry.2 ∈ (st.advance t p).taken ∨ ∃ next, (st.outcome p).next = .inl next ∧
      entry ∈ (st.advance t p).registry.table ∧ next.Awaits (st.advance t p).past entry.1 := by
  have htaken := h.oneCall.taken_advance hp
  rcases (h.fair _ (SessionPool.mem_of_lookup hp)).awaits hall entry hentry with
    hold | ⟨hthere, hawaits⟩
  · exact .inl (hlater.taken _ hold)
  · rcases hlater.stays entry hthere with hstill | hnow
    · rcases (st.stepped_outcome p).awaits h.keys hthere hawaits with htook | ⟨next, hnext, hawaits⟩
      · rw [htaken.mem_iff]
        exact .inl (List.mem_append_right _ (Option.mem_toList.mpr htook))
      · rw [advance_past]
        exact .inr ⟨next, hnext, hstill, hawaits⟩
    · exact .inl hnow

theorem made_advance (h : st.Sound) (t : Thread) (p : Pending) :
    ∀ entry ∈ (st.advance t p).created,
      ∃ s, (st.advance t p).client.session? entry.2 = some s ∧ s.localId = entry.1 := by
  have hstep := st.stepped_outcome p
  intro entry hentry
  rw [advance_created, List.mem_append] at hentry
  rw [advance_client]
  rcases hentry with hold | hnew
  · obtain ⟨s, hs, hid⟩ := h.made entry hold
    obtain ⟨s', hs', hid', -⟩ := hstep.continues _ s hs
    exact ⟨s', hs', hid'.trans hid⟩
  · exact (hstep.made_eq (Option.mem_toList.mp hnew)).2

/-- A session that has just been made was not there before. -/
theorem fresh_advance (h : st.Sound) (t : Thread) (p : Pending) :
    ((st.advance t p).created.map (·.2)).Nodup := by
  rw [advance_created, List.map_append, List.nodup_append]
  refine ⟨h.fresh, ?_, fun ref hold other hnew => ?_⟩
  · cases (st.outcome p).made <;> simp
  · obtain ⟨entry, hentry, rfl⟩ := List.mem_map.mp hold
    obtain ⟨new, hmade, rfl⟩ := List.mem_map.mp hnew
    obtain ⟨s, hs, -⟩ := h.made entry hentry
    have hnone := ((st.stepped_outcome p).made_eq (Option.mem_toList.mp hmade)).1
    intro heq
    rw [← heq, hs] at hnone
    cases hnone

/-- Whatever a step takes from one place it puts into another. -/
theorem whereabouts_advance (h : st.Sound) (hp : st.pending? t = some p)
    (hfits : p.next.Fits st.registry st.client) (ref : SessionRef) :
    (st.advance t p).entering.count ref + (st.advance t p).registry.refs.count ref +
      (st.advance t p).taken.count ref = ((st.advance t p).created.map (·.2)).count ref := by
  have hcount := (st.stepped_outcome p).count_eq h.keys hfits ref
  have hbefore := h.whereabouts ref
  have hentering := (h.oneCall.entering_advance hp).count_eq ref
  have htaken := (h.oneCall.taken_advance hp).count_eq ref
  rw [advance_registry, advance_created, List.map_append]
  simp only [List.count_append] at hentering htaken ⊢
  omega

theorem registered_advance (h : st.Sound) (hp : st.pending? t = some p)
    (hfits : p.next.Fits st.registry st.client) :
    ∀ entry ∈ (st.advance t p).registry.table, entry ∈ (st.advance t p).created := by
  intro entry hentry
  rw [advance_registry] at hentry
  rw [advance_created]
  refine List.mem_append_left _ ?_
  rcases (st.stepped_outcome p).mem_table hfits hentry with hold | ⟨s, hinsert, hs, hid⟩
  · exact h.registered entry hold
  · obtain ⟨-, s', hs', hcreated⟩ :=
      h.created_of_entering (SessionPool.mem_of_lookup hp) hinsert
    obtain rfl := Option.some.inj (hs.symm.trans hs')
    rwa [← hid] at hcreated

theorem creations_advance (h : st.Sound) (hp : st.pending? t = some p) :
    (st.advance t p).creations + (st.advance t p).entering.length =
      (st.advance t p).created.length := by
  have hlength := (st.stepped_outcome p).length_eq
  have hbefore := h.creations
  have hentering := (h.oneCall.entering_advance hp).length_eq
  rw [Shared.creations] at hbefore ⊢
  rw [advance_finished, advance_created, List.countP_append, back_creations]
  simp only [List.length_append] at hentering ⊢
  omega

/-- The call goes on, and what holds of a call under way holds of it. -/
theorem fair_going (h : st.Sound) (hp : st.pending? t = some p)
    (hlater : Later st (st.advance t p)) :
    ∀ entry ∈ st.going t p, (st.advance t p).Fair entry.2 := by
  have htook := (h.fair _ (SessionPool.mem_of_lookup hp)).took.step (st.stepped_outcome p)
  intro entry hentry
  cases hnext : (st.outcome p).next with
  | inr result => simp [going, hnext] at hentry
  | inl next =>
    simp only [going, hnext, Sum.elim_inl, List.mem_singleton] at hentry
    subst hentry
    refine ⟨hnext ▸ htook, fun ref href => ?_, fun hall entry hentry => ?_⟩
    · have hclosed := h.closed_advance hp hlater href
      rwa [Step.closing?, hnext, Sum.elim_inl] at hclosed
    · refine (h.awaits_advance hp hlater hall hentry).imp_right ?_
      rintro ⟨next', hnext', hthere, hawaits⟩
      obtain rfl := Sum.inl.inj (hnext.symm.trans hnext')
      exact ⟨hthere, hawaits⟩

/-- The call comes back, and has closed what it has taken out. -/
theorem settled_back (h : st.Sound) (hp : st.pending? t = some p)
    (hlater : Later st (st.advance t p)) :
    ∀ f ∈ st.back t p, (st.advance t p).Settled f := by
  have htook := (h.fair _ (SessionPool.mem_of_lookup hp)).took.step (st.stepped_outcome p)
  intro f hf
  cases hnext : (st.outcome p).next with
  | inl next => simp [back, hnext] at hf
  | inr result =>
    simp only [back, hnext, Sum.elim_inr, List.mem_singleton] at hf
    subst hf
    refine ⟨hnext ▸ htook, fun ref href => ?_, fun hall entry hentry => ?_⟩
    · have hclosed := h.closed_advance hp hlater href
      rw [Step.closing?, hnext, Sum.elim_inr] at hclosed
      exact hclosed.resolve_left (by simp)
    · rcases h.awaits_advance hp hlater hall hentry with htaken | ⟨next', hnext', -⟩
      · exact htaken
      · rw [hnext] at hnext'
        cases hnext'

theorem advance (h : st.Sound) (distinct : (st.created.map (·.1)).Nodup)
    (hp : st.pending? t = some p) : (st.advance t p).Sound := by
  have hfits := h.fits distinct (SessionPool.mem_of_lookup hp)
  have hlater := h.later_advance distinct hp
  exact {
    oneCall := h.oneCall.advance hp
    keys := by
      rw [advance_registry]
      exact (st.stepped_outcome p).nodup_keys h.keys
    made := h.made_advance t p
    fresh := h.fresh_advance t p
    whereabouts := h.whereabouts_advance hp hfits
    registered := h.registered_advance hp hfits
    creations := h.creations_advance hp
    fair := by
      intro entry hentry
      rw [advance_pending, List.mem_append] at hentry
      rcases hentry with hown | hother
      · exact h.fair_going hp hlater entry hown
      · exact hlater.fair (h.fair entry (List.mem_of_mem_filter hother))
    settled := by
      intro f hf
      rw [advance_finished, List.mem_append] at hf
      rcases hf with hown | hother
      · exact h.settled_back hp hlater f hown
      · exact hlater.settled (h.settled f hother) }

omit [Marshal μ ω] in
/-- A listing that is done brings every id that the call awaits. -/
theorem list (h : st.Sound) (hp : st.pending? t = some p) {since : Nat}
    (hnext : p.next = .list since) {listing : List UInt64}
    (hlisting : isListing (st.seen since) listing = true) : (st.listed t p listing).Sound := by
  obtain ⟨request, _, before, took⟩ := p
  subst hnext
  have hentering : (st.listed t ⟨request, .list since, before, took⟩ listing).entering.Perm
      st.entering := (h.oneCall.entering_perm hp).symm
  have htaken : (st.listed t ⟨request, .list since, before, took⟩ listing).taken.Perm st.taken :=
    (h.oneCall.taken_perm hp).symm
  have hfair := h.fair _ (SessionPool.mem_of_lookup hp)
  have hlater : Later st (st.listed t ⟨request, .list since, before, took⟩ listing) :=
    ⟨.refl _, fun ref href => htaken.mem_iff.mpr href, fun _ hentry => .inl hentry, .inl rfl⟩
  refine ⟨?_, h.keys, h.made, h.fresh, fun ref => ?_, h.registered, ?_, fun entry hentry => ?_,
    fun f hf => hlater.settled (h.settled f hf)⟩
  · exact ((h.oneCall.pending_perm hp).map _).nodup_iff.mp h.oneCall
  · rw [hentering.count_eq, htaken.count_eq]
    exact h.whereabouts ref
  · rw [hentering.length_eq]
    exact h.creations
  · rcases List.mem_cons.mp hentry with rfl | hother
    · refine ⟨hfair.took.listed listing, fun ref href => ?_, fun hall entry hentry => ?_⟩
      · exact ((hlater.fair hfair).closed ref href).imp_left fun hclosing => by cases hclosing
      · refine ((hlater.fair hfair).awaits hall entry hentry).imp_right ?_
        rintro ⟨hthere, hawaits⟩
        have hne : st.seen since ≠ [] := by simp [seen]
        refine ⟨hthere, mem_of_isListing hne hlisting fun keys hkeys => ?_⟩
        rcases List.mem_append.mp hkeys with hpast | hnow
        · exact hawaits keys hpast
        · rw [List.mem_singleton.mp hnow]
          exact List.mem_map_of_mem hthere
    · exact hlater.fair (h.fair entry (List.mem_of_mem_filter hother))

/-- **Step**: no move loses a session or takes one out twice. -/
theorem move (h : st.Sound) (distinct : (st.created.map (·.1)).Nodup) (m : Move φ μ ω) :
    (st.move m).Sound := by
  cases m with
  | start thread request =>
    rw [Shared.move]
    split
    · next free => exact h.start free request
    · exact h
  | advance thread =>
    rw [Shared.move]
    split
    · exact h
    · next hp => exact h.advance distinct hp
  | list thread listing =>
    rw [Shared.move]
    split
    · next hp =>
      split
      · next hlisting => exact h.list hp rfl hlisting
      · exact h
    · exact h
  | meanwhile course => exact h.meanwhile course

end Sound

/-! ### Runs -/

section

variable [Marshal μ ω]

/-- What was made for a registry stays known. -/
theorem created_move (st : Shared φ μ ω) (m : Move φ μ ω) :
    ∃ more, (st.move m).created = st.created ++ more := by
  have hsame : ∃ more, st.created = st.created ++ more := ⟨[], (List.append_nil _).symm⟩
  cases m with
  | start thread request =>
    rw [move]
    split
    · exact hsame
    · exact hsame
  | advance thread =>
    rw [move]
    split
    · exact hsame
    · exact ⟨_, st.advance_created _ _⟩
  | list thread listing =>
    rw [move]
    split
    · split
      · exact hsame
      · exact hsame
    · exact hsame
  | meanwhile course => exact hsame

theorem created_run (st : Shared φ μ ω) (moves : List (Move φ μ ω)) :
    ∃ more, (st.run moves).created = st.created ++ more := by
  induction moves generalizing st with
  | nil => exact ⟨[], (List.append_nil _).symm⟩
  | cons m moves ih =>
    obtain ⟨first, hfirst⟩ := st.created_move m
    obtain ⟨rest, hrest⟩ := ih (st.move m)
    refine ⟨first ++ rest, ?_⟩
    rw [← List.append_assoc, ← hfirst]
    exact hrest

/-- **Run**: no run loses a session or takes one out twice. The ids only have to be distinct among
the sessions that there are in the end. -/
theorem Sound.run {st : Shared φ μ ω} (h : st.Sound) (moves : List (Move φ μ ω))
    (distinct : ((st.run moves).created.map (·.1)).Nodup) : (st.run moves).Sound := by
  induction moves generalizing st with
  | nil => exact h
  | cons m moves ih =>
    obtain ⟨more, hmore⟩ := st.created_run (m :: moves)
    have hnow : (st.created.map (·.1)).Nodup := by
      rw [hmore, List.map_append] at distinct
      exact (List.nodup_append.mp distinct).1
    exact ih (h.move hnow m) distinct

end

/-- What the threads that share a registry can rely on. Every session that was made for it is in one
place, so each is taken out at most once. Where nobody is in a call, the calls account for all of
them. What a call that has come back has taken out is closed, and after a call to close all sessions
none is left of those that were registered when it began. -/
structure Once (st : Shared φ μ ω) : Prop where
  places : (st.entering ++ st.registry.refs ++ st.taken).Perm (st.created.map (·.2))
  once : st.taken.Nodup
  took : ∀ f ∈ st.finished, Took f.request (.inr f.result) f.took
  balance : st.isQuiet = true → st.creations = st.registry.size + st.removals + st.closings
  closed : ∀ f ∈ st.finished, ∀ ref ∈ f.took, st.IsClosed ref
  emptied : ∀ f ∈ st.finished, f.request = .closeAll →
    ∀ entry ∈ f.before, entry.2 ∈ st.taken ∧ entry.2 ∉ st.registry.refs

/-- The calls that have come back have taken out what they have counted. -/
theorem Sound.length_took {st : Shared φ μ ω} (h : st.Sound) :
    (st.finished.flatMap (·.took)).length = st.removals + st.closings := by
  have hsettled : ∀ f ∈ st.finished, Took f.request (.inr f.result) f.took :=
    fun f hf => (h.settled f hf).took
  unfold removals closings
  generalize st.finished = finished at hsettled
  induction finished with
  | nil => rfl
  | cons f finished ih =>
    have hfirst := (hsettled f List.mem_cons_self).length_eq
    have hrest := ih fun f hf => hsettled f (List.mem_cons_of_mem _ hf)
    rw [List.flatMap_cons, List.length_append, List.countP_cons, List.foldr_cons, hrest, hfirst]
    cases f.result.isRemoval <;> simp <;> omega

theorem Sound.places {st : Shared φ μ ω} (h : st.Sound) :
    (st.entering ++ st.registry.refs ++ st.taken).Perm (st.created.map (·.2)) := by
  refine List.perm_iff_count.mpr fun ref => ?_
  rw [List.count_append, List.count_append]
  exact h.whereabouts ref

theorem Sound.nodup_places {st : Shared φ μ ω} (h : st.Sound) :
    (st.entering ++ st.registry.refs ++ st.taken).Nodup := h.places.nodup_iff.mpr h.fresh

/-- Without calls under way the calls that have come back account for all sessions. -/
theorem Sound.balance {st : Shared φ μ ω} (h : st.Sound) (quiet : st.isQuiet = true) :
    st.creations = st.registry.size + st.removals + st.closings := by
  have hnobody : st.pending = [] := List.isEmpty_iff.mp quiet
  have hcreations := h.creations
  have hplaces := h.places.length_eq
  have htook := h.length_took
  have hsize : st.registry.refs.length = st.registry.size := List.length_map _
  simp only [entering, taken, hnobody, List.flatMap_nil, List.nil_append, List.length_nil,
    List.length_append, List.length_map] at hcreations hplaces
  omega

theorem Sound.once {st : Shared φ μ ω} (h : st.Sound) : st.Once where
  places := h.places
  once := (List.nodup_append.mp h.nodup_places).2.1
  took f hf := (h.settled f hf).took
  balance := h.balance
  closed f hf := (h.settled f hf).closed
  emptied f hf hall entry hentry := by
    have htaken := (h.settled f hf).emptied hall entry hentry
    refine ⟨htaken, fun hstill => ?_⟩
    exact (List.nodup_append.mp h.nodup_places).2.2 _ (List.mem_append_right _ hstill) _ htaken rfl

/-- Whatever threads do with a registry that starts without sessions, and whatever happens to its
client meanwhile, they can rely on it as long as the ids of the sessions are distinct. -/
theorem once_run [Marshal μ ω] (factory : φ) (allocator : Option AllocatorRef)
    (client : Client φ μ ω) (moves : List (Move φ μ ω))
    (distinct : ((run { registry := { factory, allocator }, client } moves).created.map
      (·.1)).Nodup) :
    Once (run { registry := { factory, allocator }, client } moves) := by
  have hstart : Sound ({ registry := { factory, allocator }, client } : Shared φ μ ω) := by
    constructor <;> simp [OneCallEach, keys, entering, refs, taken, creations]
  exact (hstart.run moves distinct).once

/-- Two threads create a session each, then one of them closes all sessions while the other one
removes its own. -/
def racing : List (Move Mock.Factory Mock.Marshal Mock.Fleet) :=
  [.start 1 (.create {}), .start 2 (.create {}), .advance 1, .advance 2, .advance 2, .advance 1,
    .start 1 .closeAll, .start 2 (.remove 2), .advance 1, .advance 2, .list 1 [1, 2],
    .advance 1, .advance 1, .advance 2, .advance 1, .advance 1]

theorem once_run_racing :
    let st := run { registry := { factory := ⟨0⟩ }, client := { world := {} } } racing
    (st.created.map (·.1)).Nodup ∧ Once st ∧ st.isQuiet = true ∧ st.creations = 2 ∧
      st.registry.size = 0 ∧ st.removals = 1 ∧ st.closings = 1 :=
  ⟨by decide, once_run _ _ _ _ (by decide), by decide⟩

end Shared

end SessionPool.Registry
