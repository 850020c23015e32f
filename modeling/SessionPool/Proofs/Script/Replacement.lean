import SessionPool.Proofs.Script.Unleased

/-!
# A lease is an acquisition and a release

A script that a borrow checker lets pass can do without leases: everything comes out the same, step
by step. What a lease does is therefore no more than an acquisition at its start and a release at
its end. And it is no less: as long as a lease lasts its marshal is in it, and it ends in one of two
ways,

    drop l    : the marshal goes back to the session, once
    detach l  : the marshal stays out, and nothing happens to the session.
-/

namespace SessionPool.Script

variable {φ μ ω χ α : Type}

/-- Whether a command leaves the lease of a name where it is. It may do something to its marshal. -/
def Command.spares (name : Name) : Command φ χ α → Prop
  | .lease as _ => as ≠ name
  | .detach _ other | .dropLease other => other ≠ name
  | _ => True

theorem Command.not_spares {name : Name} {command : Command φ χ α} (h : ¬ command.spares name) :
    (∃ session, command = .lease name session) ∨ (∃ as, command = .detach as name) ∨
      command = .dropLease name := by
  cases command with
  | lease as session =>
    obtain rfl : as = name := not_not.mp h
    exact .inl ⟨session, rfl⟩
  | detach as other =>
    obtain rfl : other = name := not_not.mp h
    exact .inr (.inl ⟨as, rfl⟩)
  | dropLease other =>
    obtain rfl : other = name := not_not.mp h
    exact .inr (.inr rfl)
  | _ => exact absurd trivial h

namespace State

variable [Marshal μ ω] [Source φ μ ω] [World ω χ] [Holder μ α]
variable {names : Names} {st st' : State φ μ ω} {name : Name}

/-! ### What becomes of a lease -/

/-- Whether a lease is left as it is, but for what a command does to its marshal. -/
def IsLeft (name : Name) (lease : Lease μ) (command : Command φ χ α) (st : State φ μ ω) : Prop :=
  ∃ lease', st.leases.get? name = some lease' ∧ lease'.session = lease.session ∧
    (lease' = lease ∨ ∃ d, command = .leaseDeed name d)

theorem isLeft_perform? {lease : Lease μ} (hnamed : name ≠ none)
    (hlease : st.leases.get? name = some lease) {command : Command φ χ α}
    (spares : command.spares name) :
    Yields (fun o => o.state.IsLeft name lease command) (st.perform? command) := by
  have same {o : Outcome φ μ ω} (h : o.state.leases.get? name = st.leases.get? name) :
      o.state.IsLeft name lease command := ⟨lease, h.trans hlease, rfl, .inl rfl⟩
  cases command with
  | change => exact .ok (same rfl)
  | source => exact .ok (same rfl)
  | domain => exact .ok (same rfl)
  | setDomain => exact .bind _ fun _ _ => .ok (same rfl)
  | allocator => exact .ok (same rfl)
  | nextId => exact .bind _ fun _ _ => .ok (same rfl)
  | lastId => exact .bind _ fun _ _ => .ok (same rfl)
  | builder => exact .bind _ fun _ _ => .ok (same rfl)
  | rebuilder => exact .bind _ fun _ _ => .bind _ fun _ _ => .bind _ fun _ _ => .ok (same rfl)
  | build => exact .bind _ fun _ _ => .ok (same (by simp))
  | session => exact .bind _ fun _ _ => .ok (same (by simp))
  | cloneSession => exact .bind _ fun _ _ => .ok (same (by simp))
  | dropSession => exact .bind _ fun _ _ => .ok (same (by simp))
  | acquire => exact .bind _ fun _ _ => .ok (same (by simp))
  | release => exact .bind _ fun _ _ => .bind _ fun _ _ => .ok (same rfl)
  | lease => exact .bind _ fun _ _ => .ok (same (lease_get?_of_ne _ _ _ spares.symm))
  | leaseInfo => exact .bind _ fun _ _ => .ok (same rfl)
  | leaseDeed other d =>
    refine .bind _ fun (lease', m, s) hfound => .ok ?_
    by_cases hother : name = other
    · subst hother
      obtain rfl := Option.some.inj (hlease.symm.trans (findLease_ok hfound).1)
      exact ⟨_, Named.get?_insert_self _ _ _, rfl, .inr ⟨d, rfl⟩⟩
    · exact same (Named.get?_insert_of_ne _ _ hother)
  | detach as other =>
    refine .bind _ fun _ _ => .ok (same ?_)
    have hother : name ≠ other := Ne.symm spares
    simp [putLease, Named.get?_insert_of_ne _ _ hnamed, Named.get?_erase_of_ne _ hnamed,
      Named.get?_erase_of_ne _ hother]
  | dropLease other =>
    refine .bind _ fun _ _ => .ok (same ?_)
    have hother : name ≠ other := Ne.symm spares
    simp [Named.get?_erase_of_ne _ hother]
  | create => exact .bind _ fun _ _ => .ok (same rfl)
  | deed => exact .bind _ fun _ _ => .ok (same rfl)
  | dropMarshal => exact .bind _ fun _ _ => .ok (same rfl)
  | close => exact .bind _ fun _ _ => .ok (same rfl)
  | setRemoteId => exact .bind _ fun _ _ => .ok (same rfl)
  | inspect => exact .bind _ fun _ _ => .ok (same rfl)
  | same => exact .bind _ fun _ _ => .bind _ fun _ _ => .ok (same rfl)
  | registry => exact .bind _ fun _ _ => .bind _ fun _ _ => .ok (same (by simp))
  | withAllocator => exact .bind _ fun _ _ => .bind _ fun _ _ => .ok (same rfl)
  | registryCreate => exact .bind _ fun _ _ => .bind _ fun _ _ => .ok (same (by simp))
  | registryGet as registry id =>
    refine .bind _ fun r _ => ?_
    cases r.get id with
    | error => exact .ok (same rfl)
    | ok => exact .ok (same (by simp))
  | registryRemove as registry id =>
    refine .bind _ fun r _ => ?_
    split
    · exact .ok (same rfl)
    · exact .ok (same (by simp))
  | registryFind as registry domainId remoteId =>
    refine .bind _ fun r _ => ?_
    split
    · exact .ok (same rfl)
    · exact .ok (same (by simp))
    · exact .ok (same rfl)
  | registryIds => exact .bind _ fun _ _ => .ok (same rfl)
  | registryCloseAll => exact .bind _ fun _ _ => .ok (same rfl)
  | dropRegistry => exact .bind _ fun _ _ => .ok (same (by simp))

/-- As long as a command spares a lease, it leaves it as it is. -/
theorem isLeft_perform {lease : Lease μ} (hnamed : name ≠ none)
    (hlease : st.leases.get? name = some lease) {command : Command φ χ α}
    (spares : command.spares name) : (st.perform command).2.IsLeft name lease command := by
  cases h : st.perform? command with
  | error kind =>
    rw [(perform_of_error h).2]
    exact ⟨lease, hlease, rfl, .inl rfl⟩
  | ok o =>
    obtain ⟨lease', hlease', hleft⟩ := isLeft_perform? hnamed hlease spares o h
    refine ⟨lease', ?_, hleft⟩
    rw [(perform_of_ok h).2, clearUnnamed_leases, reported_leases,
      Named.get?_erase_of_ne _ hnamed, Named.get?_erase_of_ne _ hnamed, hlease']

/-- The life of the lease of a name while a script runs. It lasts with its marshal in it, until the
script is over, or the marshal goes back to the session by one release, or it is taken out and
nothing happens to the client. After that the lease is gone. -/
inductive Life (name : Name) : State φ μ ω → List (Command φ χ α) → Prop
  | lasts {st : State φ μ ω} {ref : SessionRef} {m : μ}
      (there : st.leases.get? name = some ⟨ref, some m⟩) : Life name st []
  | goesOn {st : State φ μ ω} {ref : SessionRef} {m m' : μ} {command : Command φ χ α}
      {commands : List (Command φ χ α)} (there : st.leases.get? name = some ⟨ref, some m⟩)
      (stays : (st.perform command).2.leases.get? name = some ⟨ref, some m'⟩)
      (same : m' = m ∨ ∃ d, command = .leaseDeed name d)
      (later : Life name (st.perform command).2 commands) : Life name st (command :: commands)
  | returned {st : State φ μ ω} {ref : SessionRef} {m : μ} {s : Session φ μ}
      {commands : List (Command φ χ α)} (there : st.leases.get? name = some ⟨ref, some m⟩)
      (hs : st.client.session? ref = some s)
      (gone : (st.perform (.dropLease name : Command φ χ α)).2.leases.get? name = none)
      (once : (st.perform (.dropLease name : Command φ χ α)).2.client =
        st.client.update ref (s.release m st.client.world).2.1 (s.release m st.client.world).2.2) :
      Life name st (.dropLease name :: commands)
  | detached {st : State φ μ ω} {ref : SessionRef} {m : μ} {as : Name}
      {commands : List (Command φ χ α)} (there : st.leases.get? name = some ⟨ref, some m⟩)
      (gone : (st.perform (.detach as name : Command φ χ α)).2.leases.get? name = none)
      (out : (st.perform (.detach as name : Command φ χ α)).2.marshals.get? as = some m)
      (never : (st.perform (.detach as name : Command φ χ α)).2.client = st.client) :
      Life name st (.detach as name :: commands)

section Ends

variable {ref : SessionRef} {m : μ} {s : Session φ μ} {handle : Name}

/-- At the end of a lease the marshal is released, and nothing else happens. -/
theorem perform_dropLease (h : st.Settled) (hlease : st.leases.get? name = some ⟨ref, some m⟩)
    (hs : st.client.session? ref = some s) (hhandle : st.handles.get? handle = some ref) :
    (st.perform (.dropLease name : Command φ χ α)).2.leases.get? name = none ∧
      (st.perform (.dropLease name : Command φ χ α)).2.client =
        st.client.update ref (s.release m st.client.world).2.1
          (s.release m st.client.world).2.2 := by
  have hdrop := dropLease_of_loan hlease hs hhandle
  have hheld : (st.dropLease name).isHeld ref = true :=
    isHeld_of_handle (by rwa [dropLease_handles])
  have hperform? : st.perform? (.dropLease name : Command φ χ α) =
      .ok { reply := .done, session := some ref, state := st.dropLease name } := by
    show (find .lease st.leases name >>= _) = _
    rw [find_of_some hlease]
    show Except.ok _ = _
    rw [if_pos hheld]
  have hsettled : (st.dropLease name).Settled := by
    refine ⟨?_, ?_, ?_⟩
    · rw [dropLease_handles, h.handles]
    · rw [dropLease_leases, Named.get?_erase_eq_none _ h.leases]
    · rw [dropLease_registries, h.registries]
  have hkept : (st.dropLease name).handles.get? handle = some ref := by rwa [dropLease_handles]
  rw [(perform_of_ok hperform?).2,
    reported_of_held hsettled.leases hsettled.handles hkept, hsettled.client_eq]
  constructor
  · rw [clearUnnamed_leases, dropLease_leases]
    exact Named.get?_erase_eq_none _ (Named.get?_erase_self _ _) none
  · rw [hdrop]

/-- When a marshal is taken out of its lease, nothing happens to the client. -/
theorem perform_detach (h : st.Settled) (hlease : st.leases.get? name = some ⟨ref, some m⟩)
    (hs : st.client.session? ref = some s) (hhandle : st.handles.get? handle = some ref)
    {as : Name} (hnamed : as ≠ none) :
    (st.perform (.detach as name : Command φ χ α)).2.leases.get? name = none ∧
      (st.perform (.detach as name : Command φ χ α)).2.marshals.get? as = some m ∧
      (st.perform (.detach as name : Command φ χ α)).2.client = st.client := by
  have hperform? : st.perform? (.detach as name : Command φ χ α) =
      .ok { reply := .marshal m, session := some ref,
            state := { st with
              leases := st.leases.erase name
              marshals := st.marshals.insert as m }.putLease none ⟨ref, none⟩ } := by
    show (st.findLease name >>= _) = _
    rw [findLease_of_some hlease hs]
    rfl
  have hsettled : Settled { st with
      leases := st.leases.erase name
      marshals := st.marshals.insert as m } :=
    ⟨h.handles, Named.get?_erase_eq_none _ h.leases _, h.registries⟩
  rw [(perform_of_ok hperform?).2,
    reported_detached hsettled.leases hsettled.handles hhandle, hsettled.client_eq,
    hsettled.marshals_eq, clearUnnamed_leases]
  refine ⟨Named.get?_erase_eq_none _ (Named.get?_erase_self _ _) none, ?_, rfl⟩
  rw [Named.get?_erase_of_ne _ hnamed]
  exact Named.get?_insert_self _ _ _

end Ends

/-- Every lease of a script that passes has a life. -/
theorem Sync.life (h : Sync names st st') {script : List (Command φ χ α)}
    (passes : Script.passes names script = true) {lease : Lease μ}
    (hlease : st.leases.get? name = some lease) : Life name st script := by
  induction script generalizing names st st' lease with
  | nil =>
    obtain ⟨ref, marshal⟩ := lease
    obtain ⟨m, rfl⟩ := Option.isSome_iff_exists.mp (h.isLoan hlease).full
    exact .lasts hlease
  | cons command script ih =>
    obtain ⟨hnamed, hfull, ⟨handle, -, hname, hhandle⟩, hthere⟩ := h.isLoan hlease
    obtain ⟨hcommand, hscript⟩ := Bool.and_eq_true_iff.mp passes
    obtain ⟨ref, marshal⟩ := lease
    obtain ⟨m, rfl⟩ := Option.isSome_iff_exists.mp hfull
    obtain ⟨s, hs⟩ := Option.isSome_iff_exists.mp hthere
    by_cases spares : command.spares name
    · have hnext := (h.perform hcommand).1
      obtain ⟨⟨ref', marshal'⟩, hlease', hsession, hsame⟩ :=
        isLeft_perform hnamed hlease spares
      obtain rfl : ref' = ref := hsession
      obtain ⟨m', rfl⟩ := Option.isSome_iff_exists.mp (hnext.isLoan hlease').full
      refine .goesOn hlease hlease' (hsame.imp_left fun heq => ?_) (ih hnext hscript hlease')
      exact Option.some.inj (congrArg Lease.marshal heq)
    · rcases Command.not_spares spares with ⟨session, rfl⟩ | ⟨as, rfl⟩ | rfl
      · simp [Command.passes, hname] at hcommand
      · obtain rfl : as = name := beq_iff_eq.mp (Bool.and_eq_true_iff.mp hcommand).1
        obtain ⟨hgone, hout, hnever⟩ := perform_detach h.settled hlease hs hhandle hnamed
        exact .detached hlease hgone hout hnever
      · obtain ⟨hgone, honce⟩ := perform_dropLease h.settled hlease hs hhandle
        exact .returned hlease hs hgone honce

/-! ### Doing without leases -/

/-- The replies to commands, and those to the commands that replace them. -/
inductive SameReplies : List (Command φ χ α) → List (Report φ μ) → List (Report φ μ) → Prop
  | nil : SameReplies [] [] []
  | cons {command : Command φ χ α} {commands : List (Command φ χ α)} {report report' : Report φ μ}
      {reports reports' : List (Report φ μ)}
      (first : SameReply command report.reply report'.reply)
      (rest : SameReplies commands reports reports') :
      SameReplies (command :: commands) (report :: reports) (report' :: reports')

theorem Sync.replies (h : Sync names st st') {script : List (Command φ χ α)}
    (passes : Script.passes names script = true) :
    SameReplies script (st.run script).1 (st'.run (Script.unleased names script)).1 := by
  induction script generalizing names st st' with
  | nil => exact .nil
  | cons command script ih =>
    obtain ⟨hcommand, hscript⟩ := Bool.and_eq_true_iff.mp passes
    obtain ⟨hnext, hreply⟩ := h.perform hcommand
    exact .cons hreply (ih hnext hscript)

/-- What it means that a script can do without leases. The replies are the same, and so is the
client after every step, that is every session and the world. At any time every lease has its
marshal, and it lasts, is given back once, or is taken apart. -/
structure Replaceable (st : State φ μ ω) (script : List (Command φ χ α)) : Prop where
  replies : SameReplies script (st.run script).1 (st.run (Script.unleased {} script)).1
  client (n : Nat) : (st.run ((Script.unleased {} script).take n)).2.client =
    (st.run (script.take n)).2.client
  full (n : Nat) (name : Name) (lease : Lease μ) :
    (st.run (script.take n)).2.leases.get? name = some lease → lease.marshal.isSome = true
  life (n : Nat) (name : Name) (lease : Lease μ) :
    (st.run (script.take n)).2.leases.get? name = some lease →
      Life name (st.run (script.take n)).2 (script.drop n)

omit [Marshal μ ω] [Source φ μ ω] in
/-- When nothing has a name yet, there are no leases. -/
theorem sync_start (client : Client φ μ ω) :
    Sync {} ({ client } : State φ μ ω) ({ client } : State φ μ ω) := by
  refine ⟨⟨{}, rfl, ⟨fun _ => rfl, fun name lease hlease => ?_, fun name m hm => ?_, ?_⟩⟩, rfl,
    ⟨rfl, rfl, rfl⟩⟩
  · cases hlease
  · cases hm
  · exact Named.proper_empty

/-- **A lease is an acquisition and a release**, in every script that a borrow checker lets pass,
whatever else is done in it to sessions, marshals, registries and the world outside. -/
theorem lease_replaceable (client : Client φ μ ω) (script : List (Command φ χ α))
    (passes : Script.passes {} script = true) :
    Replaceable ({ client } : State φ μ ω) script := by
  have hstart := sync_start client
  refine ⟨hstart.replies passes, fun n => ?_, fun n name lease hlease => ?_,
    fun n name lease hlease => ?_⟩
  · obtain ⟨names, h, -⟩ := hstart.run_take passes n
    exact h.client_eq
  · obtain ⟨names, h, -⟩ := hstart.run_take passes n
    exact (h.isLoan hlease).full
  · obtain ⟨names, h, hrest⟩ := hstart.run_take passes n
    exact h.life hrest hlease

/-- Three leases from two sessions of one daemon. The first is used and given back and the second is
taken apart. The third one's session is closed while it lasts, and then the daemon refuses. -/
def threeLeases : List (Command Mock.Factory FleetChange MockAct) :=
  [.change (.start {}), .source (some "daemon") ⟨0⟩,
    .session (some "left") (some "daemon") none (.given {}),
    .session (some "right") (some "daemon") none (.given {}),
    .lease (some "a") (some "left"), .leaseDeed (some "a") (.act .markDirty),
    .lease (some "b") (some "right"), .leaseInfo (some "b"), .detach (some "b") (some "b"),
    .dropLease (some "a"), .lease (some "c") (some "left"), .close (some "left"),
    .leaseDeed (some "c") .reset, .change (.setAccepting 0 false),
    .lease (some "d") (some "right"), .dropLease (some "c"),
    .release (some "right") (some "b"), .dropSession (some "left"), .dropLease (some "d"),
    .dropSession (some "right")]

theorem lease_replaceable_threeLeases :
    Script.passes {} threeLeases = true ∧
      Replaceable ({ client := { world := {} } } : State Mock.Factory Mock.Marshal Mock.Fleet)
        threeLeases :=
  ⟨by decide, lease_replaceable _ threeLeases (by decide)⟩

end State

end SessionPool.Script
