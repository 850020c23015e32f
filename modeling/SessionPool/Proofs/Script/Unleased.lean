import SessionPool.Proofs.Script.Leases

/-!
# Running a script without its leases

Each command of a script, and the command that replaces it, take a state and the same without leases
to such a pair again. So do a script and its replacement, and on the way every reply is the same and
so is the client:

    st ~ st'  ⟹  (st.run script).client = (st'.run (unleased names script)).client.
-/

namespace SessionPool.Script

variable {φ μ ω χ α : Type}

namespace Names

variable {names : Names} {name handle : Name} {owned : Owned}

theorem lends_erase (h : names.lends handle = false) (name : Name) :
    Names.lends (names.erase name) handle = false := by
  rw [lends, Bool.eq_false_iff, ne_eq, List.contains_iff_mem] at h ⊢
  exact fun hlends => h ((List.filter_sublist.map _).subset hlends)

theorem lends_insert (h : names.lends handle = false) (howned : owned ≠ .loan handle)
    (name : Name) : Names.lends (names.insert name owned) handle = false := by
  have herase := lends_erase h name
  rw [lends, Bool.eq_false_iff, ne_eq, List.contains_iff_mem] at herase ⊢
  intro hlends
  rcases List.mem_cons.mp hlends with heq | hlater
  · exact howned heq.symm
  · exact herase hlater

end Names

/-- A command that passes lends no session through a handle without a name. -/
theorem Command.lends_names {names : Names} (h : names.lends none = false)
    {command : Command φ χ α} (passes : command.passes names = true) :
    (command.names names).lends none = false := by
  cases command with
  | lease as handle =>
    refine Names.lends_insert h ?_ as
    rintro heq
    obtain rfl := Owned.loan.inj heq
    simp [Command.passes] at passes
  | acquire as _ => exact Names.lends_insert h Owned.noConfusion as
  | create as _ => exact Names.lends_insert h Owned.noConfusion as
  | detach as _ => exact Names.lends_insert h Owned.noConfusion as
  | dropLease name => exact Names.lends_erase h name
  | _ => exact h

namespace State

variable {names : Names} {marshals : Named μ} {st st' : State φ μ ω} {ref : SessionRef}
  {s : Session φ μ} {m : μ} {name : Name}

/-! ### Looking things up -/

section Find

variable {β : Type} {kind : Kind} {things : Named β} {b : β}

theorem find_of_none (h : things.get? name = none) : find kind things name = .error kind := by
  rw [find, h]

theorem find_of_some (h : things.get? name = some b) : find kind things name = .ok b := by
  rw [find, h]

theorem find_ok (h : find kind things name = .ok b) : things.get? name = some b := by
  rw [find] at h
  cases hb : things.get? name with
  | none =>
    rw [hb] at h
    cases h
  | some b' =>
    rw [hb] at h
    rw [Except.ok.inj h]

theorem findSession_of_some (hhandle : st.handles.get? name = some ref)
    (hs : st.client.session? ref = some s) : st.findSession name = .ok (ref, s) := by
  simp only [findSession, find_of_some hhandle, bind, Except.bind]
  rw [hs]
  rfl

theorem findLease_of_none (h : st.leases.get? name = none) :
    st.findLease name = .error .lease := by
  rw [findLease, find_of_none h]
  rfl

theorem findLease_of_some (hlease : st.leases.get? name = some ⟨ref, some m⟩)
    (hs : st.client.session? ref = some s) :
    st.findLease name = .ok (⟨ref, some m⟩, m, s) := by
  simp only [findLease, find_of_some hlease, bind, Except.bind]
  rw [hs]
  rfl

theorem findLease_ok {lease : Lease μ} (h : st.findLease name = .ok (lease, m, s)) :
    st.leases.get? name = some lease ∧ lease.marshal = some m ∧
      st.client.session? lease.session = some s := by
  cases hlease : st.leases.get? name with
  | none =>
    rw [findLease_of_none hlease] at h
    cases h
  | some lease' =>
    simp only [findLease, find_of_some hlease, bind, Except.bind] at h
    split at h
    · next m' s' hm hs =>
      obtain ⟨rfl, rfl, rfl⟩ : lease' = lease ∧ m' = m ∧ s' = s := by simpa using Except.ok.inj h
      exact ⟨rfl, hm, hs⟩
    · cases h

end Find

/-! ### Acquiring and releasing -/

section Calls

variable [Marshal μ ω]

/-- A lease ends with one release, and its session goes on being held by the handle. -/
theorem dropLease_of_loan {handle : Name} (hlease : st.leases.get? name = some ⟨ref, some m⟩)
    (hs : st.client.session? ref = some s) (hhandle : st.handles.get? handle = some ref) :
    st.dropLease name = { st with
      leases := st.leases.erase name
      client := st.client.update ref (s.release m st.client.world).2.1
        (s.release m st.client.world).2.2 } := by
  rw [dropLease, hlease]
  dsimp only
  rw [Lease.finish_of_some hs]
  apply letGo_of_held
  apply isHeld_of_handle
  exact hhandle

variable [Source φ μ ω]

theorem Lent.acquire (h : st.Lent names marshals) {as : Name} (hlease : st.leases.get? as = none)
    (hs : st.client.session? ref = some s) :
    ∃ marshals', TwinOutcome Eq (names.insert as .marshal) marshals' (st.acquire as ref s)
      ((st.unleased marshals).acquire as ref s) := by
  have hshut : s.Shut → (s.acquire st.client.world).2.1.Shut := (·.acquire _)
  rw [State.acquire, State.acquire, unleased_client]
  generalize s.acquire st.client.world = acquired at hshut
  obtain ⟨got, s', w⟩ := acquired
  have honward := Client.onward_update hs hshut w
  cases got with
  | none => exact ⟨marshals, rfl, rfl, rfl, (h.nameMarshal hlease).setClient honward⟩
  | some m =>
    exact ⟨marshals.insert as m, rfl, rfl, rfl, (h.insertMarshal hlease m).setClient honward⟩

theorem Lent.lease (h : st.Lent names marshals) {as handle : Name} (new : names.get? as = none)
    (hnamed : as ≠ none) (hhandle : handle ≠ none) (hheld : st.handles.get? handle = some ref)
    (hs : st.client.session? ref = some s) :
    ∃ marshals', TwinOutcome Eq (names.insert as (.loan handle)) marshals' (st.lease as ref)
      ((st.unleased marshals).acquire as ref s) := by
  have hshut : s.Shut → (s.acquire st.client.world).2.1.Shut := (·.acquire _)
  have hthere : (st.client.session? ref).isSome = true := by rw [hs]; rfl
  rw [State.lease, Lease.start, State.acquire, hs, unleased_client]
  dsimp only
  generalize s.acquire st.client.world = acquired at hshut
  obtain ⟨got, s', w⟩ := acquired
  have honward := Client.onward_update hs hshut w
  cases got with
  | none => exact ⟨marshals, rfl, rfl, rfl, (h.nameLease new handle).setClient honward⟩
  | some m =>
    have hput : { st with client := st.client.update ref s' w }.putLease as ⟨ref, some m⟩ =
        { st with client := st.client.update ref s' w
                  leases := st.leases.insert as ⟨ref, some m⟩ } := by
      rw [putLease, dropLease]
      dsimp only
      rw [(h.eq_none_of_new new).1]
    refine ⟨marshals.insert as m, rfl, rfl, ?_⟩
    show Twin _ _ (State.putLease _ as _) _
    rw [hput]
    exact ⟨rfl, (h.insertLease new hnamed hhandle hheld hthere m).setClient honward⟩

omit [Source φ μ ω] in
theorem Lent.release (h : st.Lent names marshals) (hlease : st.leases.get? name = none)
    (hs : st.client.session? ref = some s) (m : μ) :
    TwinOutcome Eq names (marshals.erase name) (st.release ref s name m)
      ((st.unleased marshals).release ref s name m) := by
  have honward := Client.onward_update hs (·.release m st.client.world)
    (s.release m st.client.world).2.2
  exact ⟨rfl, rfl, rfl, (h.eraseMarshal hlease).setClient honward⟩

omit [Source φ μ ω] in
theorem Lent.dropLease (h : st.Lent names marshals) (loan : names.isLoan name = true)
    {handle : Name} (hlease : st.leases.get? name = some ⟨ref, some m⟩)
    (hs : st.client.session? ref = some s) (hhandle : st.handles.get? handle = some ref) :
    TwinOutcome (SameReply (.dropLease name : Command φ χ α)) (names.erase name)
      (marshals.erase name)
      { reply := .done
        session := if (st.dropLease name).isHeld ref then some ref else none
        state := st.dropLease name }
      ((st.unleased marshals).release ref s name m) := by
  have honward := Client.onward_update hs (·.release m st.client.world)
    (s.release m st.client.world).2.2
  have hheld : (st.dropLease name).isHeld ref = true :=
    isHeld_of_handle (by rwa [dropLease_handles])
  rw [if_pos hheld, dropLease_of_loan hlease hs hhandle]
  refine ⟨?_, rfl, rfl, (h.eraseLease loan).setClient honward⟩
  simp only [State.release, unleased_client]
  cases (s.release m st.client.world).1 with
  | ok => exact .accepted name
  | error e => exact .refused name e

end Calls

/-! ### One command -/

section Steps

variable [Marshal μ ω]

/-- A report about the session of a lease is the same as none. -/
theorem Lent.settled (h : st.Lent names marshals) (kept : names.lends none = false)
    (unnamed : st.handles.get? none = none) {handle : Name}
    (hhandle : st.handles.get? handle = some ref) (reply reply' : Reply φ μ) :
    Twin names (marshals.erase none)
      (reported { reply, session := some ref, state := st }).clearUnnamed
      (reported { reply := reply', state := st.unleased marshals }).clearUnnamed := by
  rw [reported_of_held h.not_none unnamed hhandle reply]
  exact Twin.clearUnnamed ⟨rfl, h⟩ kept

/-- So it is when the marshal was taken out of the lease. -/
theorem Lent.settled_detached (h : st.Lent names marshals) (kept : names.lends none = false)
    (unnamed : st.handles.get? none = none) {handle : Name}
    (hhandle : st.handles.get? handle = some ref) (reply reply' : Reply φ μ) :
    Twin names (marshals.erase none)
      (reported
        { reply, session := some ref, state := st.putLease none ⟨ref, none⟩ }).clearUnnamed
      (reported { reply := reply', state := st.unleased marshals }).clearUnnamed := by
  rw [reported_detached h.not_none unnamed hhandle]
  exact Twin.clearUnnamed ⟨rfl, h⟩ kept

omit [Marshal μ ω] in
theorem Lent.find_marshal (h : st.Lent names marshals) (hlease : st.leases.get? name = none) :
    find .marshal marshals name = find .marshal st.marshals name := by
  rw [find, find, h.marshals_eq, hlease]
  rfl

variable [Source φ μ ω] [World ω χ] [Holder μ α]

/-- What a command comes to, and the one that replaces it. -/
theorem Lent.perform? (h : st.Lent names marshals) (kept : names.lends none = false)
    (unnamed : st.handles.get? none = none) (command : Command φ χ α)
    (passes : command.passes names = true) :
    Replaced (command.names names) command st (st.unleased marshals) (st.perform? command)
      ((st.unleased marshals).perform? (command.unleased names)) := by
  have kept' := Command.lends_names kept passes
  have twin : Twin names marshals st (st.unleased marshals) := ⟨rfl, h⟩
  have noLease {name : Name} (hname : (!names.isLoan name) = true) :
      st.leases.get? name = none := h.leases_eq_none (by simpa using hname)
  have world (w : ω) : st.client.Onward { st.client with world := w } :=
    Client.onward_of_sessions_eq rfl
  cases command with
  | acquire as session =>
    have hlease := noLease passes
    refine Replaced.bind (st.findSession session) ⟨rfl, h.nameMarshal hlease⟩
      fun (ref, s) hfound => ?_
    obtain ⟨_, houtcome⟩ := h.acquire hlease (findSession_ok hfound).2
    exact .of_eq kept' houtcome
  | release session marshal =>
    have hlease := noLease passes
    refine Replaced.bind (st.findSession session) twin fun (ref, s) hfound => ?_
    show Replaced _ _ _ _ (find .marshal st.marshals marshal >>= _)
      (find .marshal marshals marshal >>= _)
    rw [h.find_marshal hlease]
    refine Replaced.bind _ twin fun m _ => ?_
    exact .of_eq kept (h.release hlease (findSession_ok hfound).2 m)
  | lease as session =>
    simp only [Command.passes, Bool.and_eq_true, Option.isNone_iff_eq_none] at passes
    obtain ⟨⟨hnamed, hhandle⟩, new⟩ := passes
    refine Replaced.bind (st.findSession session) ⟨rfl, h.nameLease new session⟩
      fun (ref, s) hfound => ?_
    obtain ⟨hheld, hs⟩ := findSession_ok hfound
    obtain ⟨_, houtcome⟩ := h.lease new (Option.isSome_iff_ne_none.mp hnamed)
      (Option.isSome_iff_ne_none.mp hhandle) hheld hs
    exact .of_eq kept' houtcome
  | leaseInfo name =>
    show Replaced _ _ _ _ (st.findLease name >>= _) (find .marshal marshals name >>= _)
    rcases h.loan_cases passes with ⟨hlease, hm⟩ | ⟨ref, m, s, hlease, hm, hs, hhandle⟩
    · rw [findLease_of_none hlease, find_of_none hm]
      exact .error _ _ twin
    · rw [findLease_of_some hlease hs, find_of_some hm]
      exact .ok (.read name m s) ((h.keep hm).settled kept unnamed hhandle _ _)
  | leaseDeed name d =>
    show Replaced _ _ _ _ (st.findLease name >>= _) (find .marshal marshals name >>= _)
    rcases h.loan_cases passes with ⟨hlease, hm⟩ | ⟨ref, m, s, hlease, hm, hs, hhandle⟩
    · rw [findLease_of_none hlease, find_of_none hm]
      exact .error _ _ twin
    · rw [findLease_of_some hlease hs, find_of_some hm]
      have hdone := (h.setLease hlease (doDeed m st.client.world d).2.1).setClient
        (world (doDeed m st.client.world d).2.2)
      exact .ok (.same _ _) (hdone.settled kept unnamed hhandle _ _)
  | detach as name =>
    obtain ⟨has, loan⟩ := Bool.and_eq_true_iff.mp passes
    obtain rfl := beq_iff_eq.mp has
    show Replaced _ _ _ _ (st.findLease as >>= _) (find .marshal marshals as >>= _)
    rcases h.loan_cases loan with ⟨hlease, hm⟩ | ⟨ref, m, s, hlease, hm, hs, hhandle⟩
    · rw [findLease_of_none hlease, find_of_none hm]
      exact .error _ _ ⟨rfl, h.nameMarshal hlease⟩
    · rw [findLease_of_some hlease hs, find_of_some hm]
      have hdetached := h.detach as m
      exact .ok (.kept as as m) (hdetached.settled_detached kept' unnamed hhandle _ _)
  | dropLease name =>
    show Replaced _ _ _ _ (find .lease st.leases name >>= _)
      ((st.unleased marshals).findSession (names.lender name) >>= fun found =>
        find .marshal marshals name >>= _)
    rcases h.loan_cases passes with ⟨hlease, hm⟩ | ⟨ref, m, s, hlease, hm, hs, hhandle⟩
    · have hgone : Twin (names.erase name) marshals st (st.unleased marshals) :=
        ⟨rfl, h.unname passes hlease⟩
      rw [find_of_none hlease, find_of_none hm]
      cases (st.unleased marshals).findSession (names.lender name) with
      | error kind => exact .error _ _ hgone
      | ok found => exact .error _ _ hgone
    · have hfound : (st.unleased marshals).findSession (names.lender name) = .ok (ref, s) :=
        findSession_of_some hhandle hs
      rw [find_of_some hlease, hfound, find_of_some hm]
      exact .of_outcome (fun _ _ hr => hr) kept' (h.dropLease passes hlease hs hhandle)
  | create as source =>
    have hlease := noLease passes
    refine Replaced.bind (find .source st.sources source) ⟨rfl, h.nameMarshal hlease⟩
      fun f _ => ?_
    exact .of_eq kept' ⟨rfl, rfl, rfl, (h.insertMarshal hlease _).setClient (world _)⟩
  | deed marshal d =>
    have hlease := noLease passes
    show Replaced _ _ _ _ (find .marshal st.marshals marshal >>= _)
      (find .marshal marshals marshal >>= _)
    rw [h.find_marshal hlease]
    refine Replaced.bind _ twin fun m hm => ?_
    have howned := h.owned marshal m (find_ok hm)
    exact .of_eq kept ⟨rfl, rfl, rfl, (h.setMarshal hlease howned _).setClient (world _)⟩
  | dropMarshal marshal =>
    have hlease := noLease passes
    show Replaced _ _ _ _ (find .marshal st.marshals marshal >>= _)
      (find .marshal marshals marshal >>= _)
    rw [h.find_marshal hlease]
    refine Replaced.bind _ twin fun m _ => ?_
    exact .of_eq kept ⟨rfl, rfl, rfl, h.eraseMarshal hlease⟩
  | _ => exact .of_both kept twin (twin.perform? rfl passes)

/-! ### A whole script -/

/-- A state and the same without leases, between two steps of a script. -/
structure Sync (names : Names) (st st' : State φ μ ω) : Prop where
  twin : ∃ marshals, Twin names marshals st st'
  kept : names.lends none = false
  settled : st.Settled

namespace Sync

omit [Marshal μ ω] [Source φ μ ω] in
theorem client_eq (h : Sync names st st') : st'.client = st.client := by
  obtain ⟨marshals, twin⟩ := h.twin
  exact twin.client_eq

omit [Marshal μ ω] [Source φ μ ω] in
/-- Every lease is as it should be while it lasts. -/
theorem isLoan (h : Sync names st st') {lease : Lease μ}
    (hlease : st.leases.get? name = some lease) : st.IsLoan names name lease := by
  obtain ⟨marshals, twin⟩ := h.twin
  exact twin.lent.loans name lease hlease

theorem perform (h : Sync names st st') {command : Command φ χ α}
    (passes : command.passes names = true) :
    Sync (command.names names) (st.perform command).2
        (st'.perform (command.unleased names)).2 ∧
      SameReply command (st.perform command).1.reply
        (st'.perform (command.unleased names)).1.reply := by
  obtain ⟨⟨marshals, rfl, hlent⟩, kept, settled⟩ := h
  have kept' := Command.lends_names kept passes
  have settled' := settled.perform command
  have hreplaced := hlent.perform? kept settled.handles command passes
  generalize hr : st.perform? command = r at hreplaced
  generalize hr' : (st.unleased marshals).perform? (command.unleased names) = r' at hreplaced
  cases hreplaced with
  | error kind kind' twin =>
    obtain ⟨hreply, hstate⟩ := perform_of_error hr
    obtain ⟨hreply', hstate'⟩ := perform_of_error hr'
    rw [hstate] at settled' ⊢
    rw [hstate', hreply, hreply']
    exact ⟨⟨⟨_, twin⟩, kept', settled'⟩, .missing command kind kind'⟩
  | ok reply twin =>
    obtain ⟨hreply, hstate⟩ := perform_of_ok hr
    obtain ⟨hreply', hstate'⟩ := perform_of_ok hr'
    rw [hstate] at settled' ⊢
    rw [hstate', hreply, hreply']
    exact ⟨⟨⟨_, twin⟩, kept', settled'⟩, reply⟩

/-- So it goes with the beginning of a script. -/
theorem run_take (h : Sync names st st') {script : List (Command φ χ α)}
    (passes : Script.passes names script = true) (n : Nat) :
    ∃ names', Sync names' (st.run (script.take n)).2
        (st'.run ((Script.unleased names script).take n)).2 ∧
      Script.passes names' (script.drop n) = true := by
  induction n generalizing names st st' script with
  | zero => exact ⟨names, h, passes⟩
  | succ n ih =>
    cases script with
    | nil => exact ⟨names, h, passes⟩
    | cons command script =>
      obtain ⟨hcommand, hscript⟩ := Bool.and_eq_true_iff.mp passes
      exact ih (h.perform hcommand).1 hscript

end Sync

end Steps

end State

end SessionPool.Script
