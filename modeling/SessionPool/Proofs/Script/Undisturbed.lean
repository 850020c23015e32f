import SessionPool.Proofs.Script.Alongside
import SessionPool.Proofs.Script.Outliving

/-!
# Sessions do not disturb each other

Sessions share the daemons that their marshals come from, and the allocators that their ids come
from. A script that uses several of them can be run without what it does with all others than one,

    watch a (script)  ~  watch a (script without the others).

Nobody who watches this one can tell the difference, but for the ids of its marshals. These are
counted by the daemons, and the others make them higher.
-/

namespace SessionPool.Script

open Mock (Factory Fleet Key Renaming Matched SessionAlike minted Event)

/-! ### Scripts -/

namespace Command

/-- Whether a command uses a session or ends something, so that it can be left out. -/
def isUse {φ χ α : Type} : Command φ χ α → Bool
  | .dropSession _ | .acquire _ _ | .release _ _ | .lease _ _ | .detach _ _ | .dropLease _
  | .close _ | .setRemoteId _ _ => true
  | _ => false

theorem isInward_of_isUse {φ χ α : Type} {command : Command φ χ α} (h : command.isUse = true) :
    command.isInward = true := by
  cases command <;> first | rfl | cases h

variable (a : SessionRef) (keys : List Key) (st : State Factory Mock.Marshal Fleet)

/-- The keys of the marshals that were created for a session, after a command. -/
def keysAfter (command : Command Factory FleetChange MockAct) : List Key :=
  if command.isAbout a keys st then keys ++ command.creates a st else keys

/-- Whether a command finds what it names, and respects what belongs to a session. -/
def fits (command : Command Factory FleetChange MockAct) : Bool :=
  (st.perform? command).isOk && command.respects a keys st

end Command

/-- Whether all commands of a script fit. -/
def allFit (a : SessionRef) :
    List Key → State Factory Mock.Marshal Fleet → List (Command Factory FleetChange MockAct) → Bool
  | _, _, [] => true
  | keys, st, command :: commands =>
    command.fits a keys st &&
      allFit a (command.keysAfter a keys st) (st.perform command).2 commands

/-- A script without what is done with other sessions than one. -/
def without (a : SessionRef) :
    List Key → State Factory Mock.Marshal Fleet → List (Command Factory FleetChange MockAct) →
      List (Command Factory FleetChange MockAct)
  | _, _, [] => []
  | keys, st, command :: commands =>
    let rest := without a (command.keysAfter a keys st) (st.perform command).2 commands
    if command.isUse && !command.isAbout a keys st then rest else command :: rest

/-- What was seen of a session in a run: one glimpse for each step that was about it. The marshals
with the given keys were created for it, and the run has ended in a state. -/
structure Sight where
  glimpses : List Glimpse
  keys : List Key
  state : State Factory Mock.Marshal Fleet

/-- Watches a session while a script runs. -/
def watch (a : SessionRef) :
    List Key → State Factory Mock.Marshal Fleet → List (Command Factory FleetChange MockAct) → Sight
  | keys, st, [] => ⟨[], keys, st⟩
  | keys, st, command :: commands =>
    let (report, st') := st.perform command
    let rest := watch a (command.keysAfter a keys st) st' commands
    if command.isAbout a keys st then
      { rest with glimpses := ⟨report, st'.client.session? a⟩ :: rest.glimpses }
    else rest

section Equations

variable {a : SessionRef} {keys : List Key} {st : State Factory Mock.Marshal Fleet}
  {command : Command Factory FleetChange MockAct}
  (commands : List (Command Factory FleetChange MockAct))

theorem keysAfter_of_about (about : command.isAbout a keys st = true) :
    command.keysAfter a keys st = keys ++ command.creates a st := if_pos about

theorem keysAfter_of_other (other : command.isAbout a keys st = false) :
    command.keysAfter a keys st = keys := if_neg (by simp [other])

theorem without_of_kept (h : (command.isUse && !command.isAbout a keys st) = false) :
    without a keys st (command :: commands) =
      command :: without a (command.keysAfter a keys st) (st.perform command).2 commands :=
  if_neg (by simp [h])

theorem without_of_left (use : command.isUse = true) (other : command.isAbout a keys st = false) :
    without a keys st (command :: commands) =
      without a (command.keysAfter a keys st) (st.perform command).2 commands :=
  if_pos (by simp [use, other])

theorem watch_of_about (about : command.isAbout a keys st = true) :
    watch a keys st (command :: commands) =
      { watch a (keys ++ command.creates a st) (st.perform command).2 commands with
        glimpses :=
          ⟨(st.perform command).1, (st.perform command).2.client.session? a⟩ ::
            (watch a (keys ++ command.creates a st) (st.perform command).2 commands).glimpses } := by
  rw [← keysAfter_of_about about]
  exact if_pos about

theorem watch_of_other (other : command.isAbout a keys st = false) :
    watch a keys st (command :: commands) = watch a keys (st.perform command).2 commands := by
  have hwatch : watch a keys st (command :: commands) =
      watch a (command.keysAfter a keys st) (st.perform command).2 commands :=
    if_neg (by simp [other])
  rw [hwatch, keysAfter_of_other other]

/-- A script is watched while it runs. -/
theorem watch_state (script : List (Command Factory FleetChange MockAct)) :
    (watch a keys st script).state = (st.run script).2 := by
  induction script generalizing keys st with
  | nil => rfl
  | cons command commands ih =>
    cases about : command.isAbout a keys st with
    | true => rw [watch_of_about commands about, ih, State.run]
    | false => rw [watch_of_other commands about, ih, State.run]

/-- What is seen of a session are reports of the script. -/
theorem watch_reports (script : List (Command Factory FleetChange MockAct)) :
    ((watch a keys st script).glimpses.map (·.report)).Sublist (st.run script).1 := by
  induction script generalizing keys st with
  | nil => exact .slnil
  | cons command commands ih =>
    cases about : command.isAbout a keys st with
    | true =>
      rw [watch_of_about commands about, State.run]
      exact .cons_cons _ ih
    | false =>
      rw [watch_of_other commands about, State.run]
      exact .cons _ ih

theorem without_sublist (script : List (Command Factory FleetChange MockAct)) :
    (without a keys st script).Sublist script := by
  induction script generalizing keys st with
  | nil => exact .slnil
  | cons command commands ih =>
    rw [without]
    split
    · exact .cons _ ih
    · exact .cons_cons _ ih

/-- Sessions are built, daemons changed and everything else is done as before. -/
theorem filter_without (script : List (Command Factory FleetChange MockAct)) :
    (without a keys st script).filter (!·.isUse) = script.filter (!·.isUse) := by
  induction script generalizing keys st with
  | nil => rfl
  | cons command commands ih =>
    cases left : command.isUse && !command.isAbout a keys st with
    | true =>
      obtain ⟨use, other⟩ := Bool.and_eq_true_iff.mp left
      rw [without_of_left commands use (by simpa using other), ih, List.filter_cons, use]
      rfl
    | false => rw [without_of_kept commands left, List.filter_cons, List.filter_cons, ih]

end Equations

/-- The same was seen of a session in two runs, but for the ids of its marshals. The events in the
logs of the daemons that tell of these are the same in the same order. -/
structure Sight.Alike (a : SessionRef) (ρ : Renaming) (x x' : Sight) : Prop where
  keys : ρ.keys = x.keys
  keys' : ρ.keys' = x'.keys
  nodup : x.keys.Nodup
  nodup' : x'.keys.Nodup
  glimpses : List.Forall₂ (Glimpse.Alike ρ) x.glimpses x'.glimpses
  session : Option.Rel (SessionAlike ρ) (x.state.client.session? a) (x'.state.client.session? a)
  events (place : Nat) : List.Forall₂ (Event.Alike ρ place)
    (x.state.client.world.eventsOf x.keys place) (x'.state.client.world.eventsOf x'.keys place)

/-! ### Handles -/

/-- The handles after a command that makes or drops one. -/
def Command.handles {φ μ ω χ α : Type} (st : State φ μ ω) : Command φ χ α → Named SessionRef
  | .build as _ | .session as _ _ _ | .registryCreate as _ _ =>
    st.handles.insert as st.client.sessions.length
  | .cloneSession as handle =>
    match st.handles.get? handle with
    | some ref => st.handles.insert as ref
    | none => st.handles
  | .registryGet as name id | .registryRemove as name id =>
    match st.registered? name id with
    | some ref => st.handles.insert as ref
    | none => st.handles
  | .dropSession handle => st.handles.erase handle
  | _ => st.handles

namespace State

variable {a ref : SessionRef} {ρ : Renaming} {keys : List Key}
  {st st' : State Factory Mock.Marshal Fleet}
  {command : Command Factory FleetChange MockAct} {o o' : Outcome Factory Mock.Marshal Fleet}
  {name : Name}

theorem handles_perform? (respects : command.respects a keys st = true) :
    Yields (fun o => o.state.handles = command.handles st) (st.perform? command) := by
  cases command with
  | build as builder => exact .bind _ fun b _ => .ok (putHandle_handles ..)
  | session as source allocator domain => exact .bind _ fun b _ => .ok (putHandle_handles ..)
  | cloneSession as handle =>
    refine .bind _ fun (ref, s) hfound => .ok ?_
    simp only [Command.handles, (findSession_ok hfound).1]
    exact putHandle_handles ..
  | dropSession handle => exact .bind _ fun _ _ => .ok (dropHandle_handles ..)
  | acquire as handle => exact .bind _ fun _ _ => .ok (acquire_handles as _)
  | lease as handle => exact .bind _ fun _ _ => .ok (lease_handles as)
  | detach as lease => exact .bind _ fun _ _ => .ok (dropLease_handles ..)
  | dropLease lease => exact .bind _ fun _ _ => .ok (dropLease_handles ..)
  | change | source | domain | allocator => exact .ok rfl
  | setDomain | nextId | lastId | builder | leaseInfo | leaseDeed | create | deed | dropMarshal
  | close | setRemoteId | inspect => exact .bind _ fun _ _ => .ok rfl
  | release | same => exact .bind _ fun _ _ => .bind _ fun _ _ => .ok rfl
  | rebuilder => exact .bind _ fun _ _ => .bind _ fun _ _ => .bind _ fun _ _ => .ok rfl
  | registry as =>
    exact .bind _ fun _ _ => .bind _ fun _ _ => .ok (dropRegistry_handles ..)
  | withAllocator => exact .bind _ fun _ _ => .bind _ fun _ _ => .ok rfl
  | registryCreate as =>
    exact .bind _ fun _ _ => .bind _ fun _ _ => .ok (register_handles as ..)
  | registryGet as registry id =>
    refine .bind _ fun r hr => ?_
    simp only [Command.handles, registered?, find_ok hr, Option.bind_some, Registry.get]
    cases r.lookup? id with
    | none => exact .ok rfl
    | some ref => exact .ok (putHandle_handles ..)
  | registryRemove as registry id =>
    refine .bind _ fun r hr => ?_
    simp only [Command.handles, registered?, find_ok hr, Option.bind_some, Registry.remove]
    cases r.lookup? id with
    | none => exact .ok rfl
    | some ref => exact .ok (putHandle_handles ..)
  | registryFind => cases respects
  | registryIds | registryCloseAll => exact .bind _ fun _ _ => .ok rfl
  | dropRegistry => exact .bind _ fun _ _ => .ok (dropRegistry_handles ..)

theorem handles_perform (respects : command.respects a keys st = true)
    (ho : st.perform? command = .ok o) :
    (st.perform command).2.handles = (command.handles st).erase none := by
  rw [(perform_of_ok ho).2, clearUnnamed_handles, reported_handles,
    handles_perform? respects o ho]

theorem handles_of_inward (inward : command.isInward = true)
    (respects : command.respects a keys st = true)
    (h : (st.perform command).2.handles.get? name = some ref) :
    st.handles.get? name = some ref := by
  cases ho : st.perform? command with
  | error kind => rwa [(perform_of_error ho).2] at h
  | ok o =>
    rw [handles_perform respects ho] at h
    have hold := Named.get?_of_erase h
    cases command with
    | dropSession handle => exact Named.get?_of_erase hold
    | build | session | cloneSession | registryCreate | registryGet | registryRemove =>
      cases inward
    | _ => exact hold

theorem handles_of_kept (kept : command.isUse = false) (inward : command.isInward = true)
    (respects : command.respects a keys st = true) (cleared : st.Cleared)
    (h : st.handles.get? name = some ref) :
    (st.perform command).2.handles.get? name = some ref := by
  cases ho : st.perform? command with
  | error kind => rwa [(perform_of_error ho).2]
  | ok o =>
    have hsame : command.handles st = st.handles := by
      cases command with
      | dropSession handle => cases kept
      | build | session | cloneSession | registryCreate | registryGet | registryRemove =>
        cases inward
      | _ => rfl
    rwa [handles_perform respects ho, hsame, Named.erase_eq_self cleared.settled.handles]

/-- Two states between two steps. What a handle is to on one side it is to on the other, where more
handles may be left. -/
structure Tied (a : SessionRef) (ρ : Renaming) (st st' : State Factory Mock.Marshal Fleet) :
    Prop where
  agree : st.Agree a ρ st'
  within : Named.Within st.handles st'.handles
  grounded : st.Grounded
  grounded' : st'.Grounded

namespace Tied

theorem respects_eq (h : Tied a ρ st st') (command : Command Factory FleetChange MockAct) :
    command.respects a ρ.keys st = command.respects a ρ.keys' st' := by
  cases command with
  | source => simp only [Command.respects, h.agree.world.length]
  | release | acquire | lease | detach =>
    simp only [Command.respects, h.agree.hasHandle_eq, h.agree.hasLease_eq, h.agree.hasMarshal_eq]
  | change c => cases c <;> rfl
  | _ => rfl

/-- Where both carry out a command, what a handle is to stays the same. -/
theorem handles_within (h : Tied a ρ st st') (ho : st.perform? command = .ok o) :
    Named.Within (command.handles st) (command.handles st') := by
  cases command with
  | build as | session as | registryCreate as =>
    simp only [Command.handles, ← h.agree.count]
    exact h.within.insert as _
  | registryGet as registry id | registryRemove as registry id =>
    have hsame : st'.registered? registry id = st.registered? registry id := by
      rw [registered?, registered?, h.agree.registries]
    simp only [Command.handles, hsame]
    cases st.registered? registry id with
    | none => exact h.within
    | some ref => exact h.within.insert as ref
  | cloneSession as handle =>
    cases hfound : st.findSession handle with
    | error kind =>
      simp only [perform?, hfound] at ho
      cases ho
    | ok found =>
      have hhandle := (findSession_ok hfound).1
      simp only [Command.handles, hhandle, h.within handle _ hhandle]
      exact h.within.insert as _
  | dropSession handle => exact h.within.erase handle
  | _ => exact h.within

theorem perform_within (h : Tied a ρ st st') (respects : command.respects a ρ.keys st = true)
    (ho : st.perform? command = .ok o) (ho' : st'.perform? command = .ok o') :
    Named.Within (st.perform command).2.handles (st'.perform command).2.handles := by
  rw [handles_perform respects ho, handles_perform (h.respects_eq command ▸ respects) ho']
  exact (h.handles_within ho).erase none

theorem report_alike (halike : OutcomeAlike a ρ o o') (ho : st.perform? command = .ok o)
    (ho' : st'.perform? command = .ok o') :
    (st.perform command).1.Alike ρ (st'.perform command).1 := by
  have hsnapshot := (halike.state.reported halike.session).snapshot_eq
  have habout := halike.about
  rw [perform, perform, ho, ho']
  refine ⟨halike.reply, ?_⟩
  show o.session.bind (snapshot? (State.reported o)) =
    o'.session.bind (snapshot? (State.reported o'))
  rw [← halike.session]
  cases hsession : o.session with
  | none => rfl
  | some ref =>
    obtain rfl := habout ref hsession
    exact hsnapshot

/-- A step that is about the session. -/
theorem perform_own (h : Tied a ρ st st') (fits : command.fits a ρ.keys st = true)
    (about : command.isAbout a ρ.keys st = true) :
    ∃ new : Renaming, new.keys = command.creates a st ∧ new.keys' = command.creates a st' ∧
      Tied a (ρ ++ new) (st.perform command).2 (st'.perform command).2 ∧
      (st.perform command).1.Alike (ρ ++ new) (st'.perform command).1 := by
  obtain ⟨hok, respects⟩ := Bool.and_eq_true_iff.mp fits
  have respects' := h.respects_eq command ▸ respects
  cases ho : st.perform? command with
  | error kind =>
    rw [ho] at hok
    cases hok
  | ok o =>
    obtain ⟨o', ho', new, hnew, hnew', halike⟩ :=
      h.agree.alongside_perform? h.within h.grounded.places about respects o ho
    have hreported := halike.state.reported halike.session
    refine ⟨new, hnew, hnew', ⟨?_, h.perform_within respects ho ho', h.grounded.perform respects,
      h.grounded'.perform respects'⟩, ?_⟩
    · rw [(perform_of_ok ho).2, (perform_of_ok ho').2]
      exact hreported.clearUnnamed
    · exact report_alike halike ho ho'

/-- A step that is left out on the other side. -/
theorem perform_left (h : Tied a ρ st st') (fits : command.fits a ρ.keys st = true)
    (other : command.isAbout a ρ.keys st = false) (use : command.isUse = true) :
    Tied a ρ (st.perform command).2 st' := by
  obtain ⟨-, respects⟩ := Bool.and_eq_true_iff.mp fits
  -- It may drop a handle on this side, but it makes none.
  have inward := Command.isInward_of_isUse use
  have hbeside := h.agree.others.beside_perform h.agree.world.sound h.grounded.cleared
    h.grounded.places inward other respects
  refine ⟨h.agree.left hbeside, fun name ref hget => ?_, h.grounded.perform respects, h.grounded'⟩
  exact h.within name ref (handles_of_inward inward respects hget)

/-- A step that is kept on the other side, and is not about the session. -/
theorem perform_kept (h : Tied a ρ st st') (fits : command.fits a ρ.keys st = true)
    (other : command.isAbout a ρ.keys st = false) (kept : command.isUse = false) :
    Tied a ρ (st.perform command).2 (st'.perform command).2 := by
  obtain ⟨hok, respects⟩ := Bool.and_eq_true_iff.mp fits
  have respects' := h.respects_eq command ▸ respects
  have other' := h.agree.isAbout_eq command ▸ other
  have grounded := h.grounded.perform respects
  have grounded' := h.grounded'.perform respects'
  -- What is done with another session need not be possible on the other side.
  cases inward : command.isInward with
  | true =>
    have hbeside := h.agree.others.beside_perform h.agree.world.sound h.grounded.cleared
      h.grounded.places inward other respects
    have hbeside' := h.agree.others'.beside_perform h.agree.world.sound' h.grounded'.cleared
      h.grounded'.places inward other' respects'
    refine ⟨(h.agree.left hbeside).right hbeside', fun name ref hget => ?_, grounded, grounded'⟩
    have hold := h.within name ref (handles_of_inward inward respects hget)
    exact handles_of_kept kept inward respects' h.grounded'.cleared hold
  | false =>
    cases ho : st.perform? command with
    | error kind =>
      rw [ho] at hok
      cases hok
    | ok o =>
      obtain ⟨o', ho', hsession, hstate⟩ :=
        h.agree.kept_perform? h.within h.grounded.places inward respects o ho
      refine ⟨?_, h.perform_within respects ho ho', grounded, grounded'⟩
      rw [(perform_of_ok ho).2, (perform_of_ok ho').2]
      exact (hstate.reported hsession).clearUnnamed

/-! ### A whole script -/

/-- The session is seen to do the same while a script runs, and while the script runs without what
is done with other sessions. -/
theorem watch_alike (h : Tied a ρ st st') (script : List (Command Factory FleetChange MockAct))
    (fit : allFit a ρ.keys st script = true) :
    ∃ σ : Renaming, ρ ⊆ σ ∧ (watch a ρ.keys st script).Alike a σ
      (watch a ρ.keys' st' (without a ρ.keys st script)) := by
  induction script generalizing ρ st st' with
  | nil =>
    have world := h.agree.world
    exact ⟨ρ, List.Subset.refl _, rfl, rfl, world.nodup, world.nodup', .nil, h.agree.session,
      world.events⟩
  | cons command script ih =>
    obtain ⟨fits, hrest⟩ := Bool.and_eq_true_iff.mp fit
    have habout := h.agree.isAbout_eq command
    cases about : command.isAbout a ρ.keys st with
    | true =>
      -- The rest goes on under a larger renaming, where what was alike before still is.
      obtain ⟨new, hnew, hnew', htied, hreport⟩ := h.perform_own fits about
      rw [keysAfter_of_about about, ← hnew, ← Renaming.keys_append] at hrest
      obtain ⟨σ, hsub, halike⟩ := ih htied hrest
      have hglimpse : Glimpse.Alike σ ⟨(st.perform command).1, _⟩ ⟨(st'.perform command).1, _⟩ :=
        Glimpse.Alike.mono hsub ⟨hreport, htied.agree.session⟩
      refine ⟨σ, fun pair hpair => hsub (List.mem_append_left _ hpair), ?_⟩
      rw [without_of_kept script (by simp [about]), watch_of_about _ about,
        watch_of_about _ (habout ▸ about), keysAfter_of_about about, ← hnew, ← hnew',
        ← Renaming.keys_append, ← Renaming.keys'_append]
      exact { halike with glimpses := .cons hglimpse halike.glimpses }
    | false =>
      rw [keysAfter_of_other about] at hrest
      rw [watch_of_other _ about]
      cases use : command.isUse with
      | true =>
        rw [without_of_left script use about, keysAfter_of_other about]
        exact ih (h.perform_left fits about use) hrest
      | false =>
        rw [without_of_kept script (by simp [use]), watch_of_other _ (habout ▸ about),
          keysAfter_of_other about]
        exact ih (h.perform_kept fits about use) hrest

end Tied

theorem others_start (a : SessionRef) (keys : List Key) : (ofFleet {}).Others a keys where
  idle ref s _ hs := by cases hs
  leases name l hl := by cases hl
  marshals name m hm := by cases hm
  handles_proper := Named.proper_empty
  leases_proper := Named.proper_empty

theorem tied_start (a : SessionRef) : Tied a [] (ofFleet {}) (ofFleet {}) := by
  have sound : Fleet.Sound {} [] := by
    refine ⟨fun place e he => ?_, fun k hk => ?_⟩
    · cases he
    · cases hk
  have grounded : (ofFleet {}).Grounded := by
    refine ⟨⟨⟨rfl, rfl, rfl⟩, rfl, rfl⟩, inOrder_start _, fun f hf => ?_⟩
    cases hf
  have world : Matched [] {} {} :=
    ⟨sound, sound, .nil, .nil, rfl, fun _ => rfl, fun _ => .nil⟩
  exact ⟨⟨world, others_start a _, others_start a _, .none, rfl, rfl, fun _ => .none,
    fun _ => .none, fun _ => .none, rfl, rfl⟩, fun _ _ h => h, grounded, grounded⟩

end State

/-- Sessions that share daemons and allocators do not disturb each other. Leaving everything out of
a script that is done with other sessions makes no difference to a session: in the steps that are
about it, it gets the same replies and stands the same, but for the ids of its marshals, and under
this renaming the daemons have noted the same events of them in the same order. -/
theorem undisturbed (a : SessionRef) (script : List (Command Factory FleetChange MockAct))
    (fit : allFit a [] (.ofFleet {}) script = true) :
    ∃ ρ : Renaming, (watch a [] (.ofFleet {}) script).Alike a ρ
      (watch a [] (.ofFleet {}) (without a [] (.ofFleet {}) script)) := by
  obtain ⟨ρ, -, halike⟩ := (State.tied_start a).watch_alike script fit
  exact ⟨ρ, halike⟩

/-- Two sessions at one daemon and with one allocator take turns. -/
def takingTurns : List (Command Factory FleetChange MockAct) :=
  [.change (.start {}), .source (some "f") ⟨0⟩, .allocator (some "ids") {},
    .session (some "other") (some "f") (some (some "ids")) (.given {}),
    .registry (some "r") (some "f") (some (some "ids")),
    .registryCreate (some "mine") (some "r") (.given {}),
    .acquire (some "x") (some "other"), .acquire (some "m") (some "mine"),
    .deed (some "m") (.act .markDirty), .lease (some "l") (some "other"),
    .release (some "mine") (some "m"), .dropLease (some "l"), .setRemoteId (some "other") 7,
    .lease (some "k") (some "mine"), .close (some "other"), .detach (some "n") (some "k"),
    .release (some "other") (some "x"), .lease (some "k") (some "mine"),
    .change (.setAccepting 0 false), .acquire (some "none") (some "mine"), .dropLease (some "k"),
    .dropSession (some "other"), .registryRemove (some "mine") (some "r") 2,
    .release (some "mine") (some "n")]

/-- The session that is watched gets other marshals when nothing is done with the other one. -/
theorem undisturbed_takingTurns :
    allFit 1 [] (.ofFleet {}) takingTurns = true ∧
      (∃ ρ : Renaming, (watch 1 [] (.ofFleet {}) takingTurns).Alike 1 ρ
        (watch 1 [] (.ofFleet {}) (without 1 [] (.ofFleet {}) takingTurns))) ∧
      (watch 1 [] (.ofFleet {}) takingTurns).keys = [(0, 2), (0, 4), (0, 5)] ∧
      (watch 1 [] (.ofFleet {}) (without 1 [] (.ofFleet {}) takingTurns)).keys =
        [(0, 1), (0, 2), (0, 3)] :=
  ⟨by decide +kernel, undisturbed _ _ (by decide +kernel), by decide +kernel, by decide +kernel⟩

end SessionPool.Script
