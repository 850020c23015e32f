import SessionPool.Proofs.Script.Counted
import SessionPool.Proofs.Script.Performed

/-!
# No idle marshal outlives its session

Handles, registries and leases hold sessions, and scripts end these in many ways. However the last
holder of a session goes, the session is shut then, and what was idle in it has been closed once and
is never closed again. As long as somebody holds the session nothing happens to it:

    held, then not held  ⟹  the idle marshals are closed, each exactly once
    held all the while   ⟹  the session is as before, and no event tells of its marshals.
-/

namespace SessionPool.Script

variable {φ μ ω χ α : Type}

/-! ### Scripts step by step -/

namespace State

variable [Marshal μ ω] [Source φ μ ω] [World ω χ] [Holder μ α]

/-- The state after so many steps of a script. -/
def after (st : State φ μ ω) (script : List (Command φ χ α)) (n : Nat) : State φ μ ω :=
  (st.run (script.take n)).2

theorem run_append (st : State φ μ ω) (commands later : List (Command φ χ α)) :
    (st.run (commands ++ later)).2 = ((st.run commands).2.run later).2 := by
  induction commands generalizing st with
  | nil => rfl
  | cons command commands ih => exact ih (st.perform command).2

variable {st : State φ μ ω} {script : List (Command φ χ α)} {n : Nat}

theorem after_succ {command : Command φ χ α} (h : script[n]? = some command) :
    st.after script (n + 1) = ((st.after script n).perform command).2 := by
  rw [after, List.take_add_one, h, run_append]
  rfl

theorem after_of_over (h : script[n]? = none) : st.after script (n + 1) = st.after script n := by
  rw [after, List.take_add_one, h, Option.toList_none, List.append_nil]
  rfl

/-! ### Holders that come and go -/

/-- What comes of it when holders come and go. Whoever is still held is as before. Nothing happens
but that the idle marshals of the sessions that have lost their last holder are closed. -/
structure Quiet (st st' : State φ μ ω) : Prop where
  kept (ref : SessionRef) (s : Session φ μ) : st.client.session? ref = some s →
    ref ∈ st'.holds → st'.client.session? ref = some s
  events : ∃ gone : List SessionRef, (∀ ref ∈ gone, ref ∈ st.holds ∧ ref ∉ st'.holds) ∧
    st'.client.world = closeEach (gone.flatMap st.idle) st.client.world
  silent : (∀ ref ∈ st.holds, ref ∈ st'.holds) → st'.client.world = st.client.world

omit [Marshal μ ω] [Source φ μ ω] [World ω χ] [Holder μ α] in
theorem isShift_of_allows {command : Command φ χ α} (hshift : command.isShift = true)
    (tag : Tag φ χ α) (hallows : command.allows st tag) : tag.IsShift := by
  cases tag with
  | shift => trivial
  | source f => trivial
  | change c =>
    obtain rfl : command = .change c := hallows
    cases hshift
  | deed d =>
    obtain ⟨name, rfl | rfl⟩ := hallows
    · cases hshift
    · cases hshift
  | use => exact absurd (hshift.symm.trans hallows) Bool.noConfusion
  | draw ref =>
    obtain ⟨as, session, rfl | rfl, -⟩ := hallows
    · cases hshift
    · cases hshift
  | free ref =>
    obtain ⟨as, lease, rfl⟩ := hallows
    cases hshift

omit [Source φ μ ω] [World ω χ] [Holder μ α] in
theorem Quiet.of_shifted {st' : State φ μ ω} (htidy : Tidy (⟨[], [], st⟩ : Moment φ μ ω))
    (h : Shifted (⟨[], [], st⟩ : Moment φ μ ω) ⟨[], [], st'⟩) : Quiet st st' := by
  obtain ⟨gone, hgone, hworld⟩ := h.world
  have hlost (ref : SessionRef) (href : ref ∈ gone) : ref ∈ st.holds ∧ ref ∉ st'.holds := by
    obtain ⟨hidle, hnot⟩ := hgone ref href
    obtain ⟨s, hs, heq⟩ := State.exists_of_idle hidle
    refine ⟨?_, fun hheld => hnot (.inl hheld)⟩
    -- What nobody held before is shut, so nothing was idle in it.
    by_contra hbefore
    have hshut := htidy.shut ref s hs (Moment.minds_iff_held.not.mpr hbefore)
    exact hidle (heq.trans hshut.empty)
  refine ⟨fun ref s hs hheld => ?_, ⟨gone, hlost, hworld⟩, fun hall => ?_⟩
  · rcases h.old ref s hs with hsame | ⟨hnot, -⟩
    · exact hsame
    · exact absurd (.inl hheld) hnot
  · cases gone with
    | nil => exact hworld
    | cons ref gone =>
      obtain ⟨hbefore, hafter⟩ := hlost ref (List.mem_cons_self ..)
      exact absurd (hall ref hbefore) hafter

theorem perform_quiet (settled : st.Settled) (order : st.InOrder)
    (htidy : Tidy (⟨[], [], st⟩ : Moment φ μ ω)) {command : Command φ χ α}
    (hshift : command.isShift = true) : Quiet st (st.perform command).2 := by
  obtain ⟨-, hacts⟩ := perform_course settled order command
  exact .of_shifted htidy (hacts.shifted (isShift_of_allows hshift) htidy)

/-- Nothing happens when a handle is dropped and its session is still held. -/
theorem perform_dropSession (settled : st.Settled) {session : Name} {ref : SessionRef}
    (hhandle : st.handles.get? session = some ref)
    (hheld : ref ∈ (st.perform (.dropSession session : Command φ χ α)).2.holds) :
    (st.perform (.dropSession session : Command φ χ α)).2.client = st.client := by
  cases hr : st.perform? (.dropSession session : Command φ χ α) with
  | error kind => rw [(perform_of_error hr).2]
  | ok o =>
    have hyields : Yields (fun o => o.session = none ∧ o.state = st.dropHandle session)
        (st.perform? (.dropSession session : Command φ χ α)) :=
      .bind (st.findSession session) fun _ _ => .ok ⟨rfl, rfl⟩
    obtain ⟨hnone, hstate⟩ := hyields o hr
    have hdropped : (st.dropHandle session).Settled := by
      refine ⟨?_, ?_, ?_⟩
      · rw [dropHandle_handles, Named.get?_erase_eq_none _ settled.handles]
      · rw [dropHandle_leases, settled.leases]
      · rw [dropHandle_registries, settled.registries]
    have hreported : reported o = st.dropHandle session := by
      rw [reported, hnone, hstate]
      exact dropLease_of_none hdropped.leases
    rw [(perform_of_ok hr).2, hreported] at hheld ⊢
    rw [hdropped.holds_eq] at hheld
    rw [hdropped.client_eq]
    rw [dropHandle, hhandle] at hheld ⊢
    dsimp only at hheld ⊢
    rw [letGo_holds] at hheld
    rw [letGo_of_held (List.contains_iff_mem.mpr hheld)]

/-- A change to the world changes nothing else. -/
theorem perform_change (settled : st.Settled) (c : χ) :
    (st.perform (.change c : Command φ χ α)).2.client =
      { st.client with world := World.change c st.client.world } := by
  have hsettled : Settled { st with client := { st.client with
      world := World.change c st.client.world } } :=
    ⟨settled.handles, settled.leases, settled.registries⟩
  have hr : st.perform? (.change c : Command φ χ α) = .ok { reply := .done, state := { st with
      client := { st.client with world := World.change c st.client.world } } } := rfl
  rw [(perform_of_ok hr).2, reported]
  dsimp only
  rw [dropLease_of_none hsettled.leases, hsettled.client_eq]

end State

/-! ### Fair scripts -/

open State (Quiet)
open Mock (Factory Fleet Key)

/-- Whether a command starts no daemon that has closed something before, takes marshals only from
daemons that are there, and does not close any marshal that somebody holds. -/
def Command.isFair (daemons : Nat) : Command Factory FleetChange MockAct → Bool
  | .change (.start d) => d.closedIds.isEmpty
  | .source _ f => f.place < daemons
  | .deed _ d | .leaseDeed _ d => d != .close
  | _ => true

/-- How many daemons there are after a command. -/
def Command.daemons (daemons : Nat) : Command Factory FleetChange MockAct → Nat
  | .change (.start _) => daemons + 1
  | _ => daemons

/-- Whether all commands of a script are fair, when there are so many daemons before it. -/
def allFair : Nat → List (Command Factory FleetChange MockAct) → Bool
  | _, [] => true
  | daemons, command :: commands =>
    command.isFair daemons && allFair (command.daemons daemons) commands

variable {st : State Factory Mock.Marshal Fleet} {daemons n : Nat}
  {command : Command Factory FleetChange MockAct}
  {script : List (Command Factory FleetChange MockAct)}

theorem isFair_of_drop (hfair : allFair daemons (script.drop n) = true)
    (h : script[n]? = some command) : command.isFair daemons = true ∧
      allFair (command.daemons daemons) (script.drop (n + 1)) = true := by
  obtain ⟨hlt, rfl⟩ := List.getElem?_eq_some_iff.mp h
  rw [List.drop_eq_getElem_cons hlt] at hfair
  exact Bool.and_eq_true_iff.mp hfair

theorem isFair_of_allows (hfair : command.isFair daemons = true)
    (tag : Tag Factory FleetChange MockAct) (hallows : command.allows st tag) :
    tag.IsFair daemons := by
  cases tag with
  | source f =>
    obtain ⟨as, rfl⟩ := hallows
    show f.place < daemons
    exact of_decide_eq_true hfair
  | change c =>
    obtain rfl : command = .change c := hallows
    cases c with
    | start d => exact List.isEmpty_iff.mp hfair
    | setAccepting place on => trivial
  | deed d =>
    obtain ⟨name, rfl | rfl⟩ := hallows
    · exact bne_iff_ne.mp hfair
    · exact bne_iff_ne.mp hfair
  | _ => trivial

/-- The state before a script. -/
def State.ofFleet (w : Fleet) : State Factory Mock.Marshal Fleet := { client := { world := w } }

/-- A state between two steps of a fair script. -/
structure InCare (daemons : Nat) (st : State Factory Mock.Marshal Fleet) : Prop where
  settled : st.Settled
  order : st.InOrder
  counted : Counted daemons ⟨[], [], st⟩

namespace InCare

/-- One step of a fair script. -/
theorem perform (h : InCare daemons st) (hfair : command.isFair daemons = true) :
    InCare (command.daemons daemons) (st.perform command).2 := by
  obtain ⟨horder, hacts⟩ := st.perform_course h.settled h.order command
  have hcounted := h.counted.acts hacts (isFair_of_allows hfair)
  refine ⟨h.settled.perform command, horder, { hcounted with length := ?_ }⟩
  have hlength := hcounted.length
  cases command with
  | change c =>
    cases c with
    | start d =>
      show daemons + 1 ≤ (st.perform _).2.client.world.daemons.length
      rw [State.perform_change h.settled]
      show daemons + 1 ≤ (st.client.world.daemons ++ [d]).length
      rw [List.length_append]
      exact Nat.succ_le_succ h.counted.length
    | setAccepting place on => exact hlength
  | _ => exact hlength

theorem start {w : Fleet} (hw : ∀ d ∈ w.daemons, d.closedIds = []) :
    InCare w.daemons.length (.ofFleet w) := by
  refine ⟨⟨rfl, rfl, rfl⟩, State.inOrder_start _, ⟨⟨fun ref s hs => ?_, fun ref s hs => ?_⟩,
    Nat.le_refl _, fun f hf => ?_, fun k => ?_⟩⟩
  · cases hs
  · cases hs
  · cases hf
  · have hdaemon : (w.daemon k.1).closedIds = [] := by
      rw [Fleet.daemon, List.getD_eq_getElem?_getD]
      cases hd : w.daemons[k.1]? with
      | none => rfl
      | some d => exact hw d (List.mem_of_getElem? hd)
    show 0 + (w.daemon k.1).closedIds.count k.2 ≤ _
    rw [hdaemon]
    exact Nat.zero_le _

/-- So it goes with the beginning of a script. -/
theorem after (h : InCare daemons st) (hfair : allFair daemons script = true) (n : Nat) :
    ∃ daemons', InCare daemons' (st.after script n) ∧ allFair daemons' (script.drop n) = true := by
  induction n with
  | zero => exact ⟨daemons, h, hfair⟩
  | succ n ih =>
    obtain ⟨daemons', hcare, hrest⟩ := ih
    cases hcommand : script[n]? with
    | none =>
      have hover : script.length ≤ n + 1 :=
        Nat.le_succ_of_le (List.getElem?_eq_none_iff.mp hcommand)
      rw [State.after_of_over hcommand, List.drop_eq_nil_of_le hover]
      exact ⟨daemons', hcare, rfl⟩
    | some command =>
      obtain ⟨hfirst, hlater⟩ := isFair_of_drop hrest hcommand
      rw [State.after_succ hcommand]
      exact ⟨_, hcare.perform hfirst, hlater⟩

/-- What is closed stays closed. -/
theorem closeCount_le (h : InCare daemons st) (hfair : allFair daemons script = true) (k : Key)
    {n later : Nat} (hle : n ≤ later) :
    (st.after script n).client.world.closeCount k ≤
      (st.after script later).client.world.closeCount k := by
  induction hle with
  | refl => exact Nat.le_refl _
  | @step later _ ih =>
    obtain ⟨daemons', hcare, hrest⟩ := h.after hfair later
    refine Nat.le_trans ih ?_
    cases hcommand : script[later]? with
    | none => exact Nat.le_of_eq (by rw [State.after_of_over hcommand])
    | some command =>
      obtain ⟨hfirst, -⟩ := isFair_of_drop hrest hcommand
      obtain ⟨-, hacts⟩ := State.perform_course hcare.settled hcare.order command
      rw [State.after_succ hcommand]
      exact hcare.counted.closeCount_mono hacts (isFair_of_allows hfirst) k

/-- What is idle in a session when its last holder goes, or comes back to it then, is closed. -/
theorem closed_of_left (h : InCare daemons st) (hfair : command.isFair daemons = true)
    {ref : SessionRef} {m : Mock.Marshal} (hleft : ref ∉ (st.perform command).2.holds)
    (hm : m ∈ st.idle ref ∨
      (ref, m) ∈ st.loans ∧ ∀ as lease, command ≠ .detach as lease) :
    0 < (st.perform command).2.client.world.closeCount m.key := by
  have hnext := h.perform hfair
  obtain ⟨-, hacts⟩ := State.perform_course h.settled h.order command
  have hfair' : ∀ tag, command.allows st tag → tag.IsFair daemons := isFair_of_allows hfair
  have hdraw : ¬ command.allows st (.draw ref) :=
    fun hdraw => hleft (State.held_of_draw h.settled hdraw)
  have hkept : Moment.Secures ⟨[], [], (st.perform command).2⟩ ref m.key := by
    rcases hm with hm | ⟨hm, hstays⟩
    · have hkeeps : Moment.Keeps ⟨[], [], st⟩ ref m.key := .inl ⟨m, hm, rfl⟩
      exact .inr (hkeeps.acts h.counted hacts hfair' hdraw)
    · have hsecures : Moment.Secures ⟨[], [], st⟩ ref m.key := .inl ⟨m, hm, rfl⟩
      refine hsecures.acts h.counted hacts hfair' hdraw ?_
      rintro ⟨as, lease, heq⟩
      exact hstays as lease heq
  rcases hkept with ⟨m', hloan, -⟩ | ⟨m', hidle, -⟩ | hclosed
  · exact absurd (State.mem_holds_of_loan hloan) hleft
  · obtain ⟨s, hs, hidle⟩ := State.mem_idle hidle
    have hshut := hnext.counted.tidy.shut ref s hs (Moment.minds_iff_held.not.mpr hleft)
    rw [hshut.empty] at hidle
    cases hidle
  · exact hclosed

end InCare

/-- What it means that no idle marshal outlives its session while a script runs. -/
structure NoneOutlives (st : State Factory Mock.Marshal Fleet)
    (script : List (Command Factory FleetChange MockAct)) : Prop where
  /-- At any time, a session that nobody holds is closed and has no idle marshals. -/
  shut (n : Nat) (ref : SessionRef) (s : Session Factory Mock.Marshal) :
    (st.after script n).client.session? ref = some s → ref ∉ (st.after script n).holds → s.Shut
  /-- What is idle in a session, or comes back to it from a lease, when its last holder goes has
  been closed once ever after. -/
  once (n later : Nat) (ref : SessionRef) (m : Mock.Marshal) :
    ref ∈ (st.after script n).holds → ref ∉ (st.after script (n + 1)).holds → n < later →
    m ∈ (st.after script n).idle ref ∨
      (ref, m) ∈ (st.after script n).loans ∧ (∀ as lease, script[n]? ≠ some (.detach as lease)) →
    (st.after script later).client.world.closeCount m.key = 1
  /-- Nothing but that happens while handles and registries come and go. -/
  quiet (n : Nat) (command : Command Factory FleetChange MockAct) :
    script[n]? = some command → command.isShift = true →
    Quiet (st.after script n) (st.after script (n + 1))
  /-- A handle that is not the last holder is dropped without any consequence. -/
  dropped (n : Nat) (session : Name) (ref : SessionRef) :
    script[n]? = some (.dropSession session) →
    (st.after script n).handles.get? session = some ref →
    ref ∈ (st.after script (n + 1)).holds →
    (st.after script (n + 1)).client = (st.after script n).client

/-- **No idle marshal outlives its session**, in every script that leaves the closing of marshals to
their sessions. -/
theorem none_outlives (w : Fleet) (script : List (Command Factory FleetChange MockAct))
    (fresh : ∀ d ∈ w.daemons, d.closedIds = [])
    (fair : allFair w.daemons.length script = true) :
    NoneOutlives (.ofFleet w) script := by
  have hstart := InCare.start fresh
  constructor
  case shut =>
    intro n ref s hs hfree
    obtain ⟨daemons, hcare, -⟩ := hstart.after fair n
    exact hcare.counted.tidy.shut ref s hs (Moment.minds_iff_held.not.mpr hfree)
  case once =>
    intro n later ref m hheld hleft hlater hm
    obtain ⟨daemons, hcare, hrest⟩ := hstart.after fair n
    cases hcommand : script[n]? with
    | none =>
      rw [State.after_of_over hcommand] at hleft
      exact absurd hheld hleft
    | some command =>
      obtain ⟨hfirst, -⟩ := isFair_of_drop hrest hcommand
      have hclosed : 0 < ((State.ofFleet w).after script
          (n + 1)).client.world.closeCount m.key := by
        rw [State.after_succ hcommand] at hleft ⊢
        refine hcare.closed_of_left hfirst hleft (hm.imp_right fun ⟨hloan, hstays⟩ => ?_)
        exact ⟨hloan, fun as lease heq => hstays as lease (heq ▸ hcommand)⟩
      obtain ⟨daemons', hcare', -⟩ := hstart.after fair later
      have hmono := hstart.closeCount_le fair m.key hlater
      have honce := hcare'.counted.closeCount_le m.key
      exact Nat.le_antisymm honce (Nat.lt_of_lt_of_le hclosed hmono)
  case quiet =>
    intro n command hcommand hshift
    obtain ⟨daemons, hcare, -⟩ := hstart.after fair n
    rw [State.after_succ hcommand]
    exact State.perform_quiet hcare.settled hcare.order hcare.counted.tidy hshift
  case dropped =>
    intro n session ref hcommand hhandle hheld
    obtain ⟨daemons, hcare, -⟩ := hstart.after fair n
    rw [State.after_succ hcommand] at hheld ⊢
    exact State.perform_dropSession hcare.settled hhandle hheld

/-- Two sessions are registered under one id, so the first is displaced, but a clone of its handle
holds it longer. The second goes with its last holder, a lease, which outlives handle and registry.
-/
def manyHolders : List (Command Factory FleetChange MockAct) :=
  [.change (.start {}), .source (some "daemon") ⟨0⟩, .allocator (some "ids") {},
    .allocator (some "again") {}, .registry (some "registry") (some "daemon") (some "ids"),
    .registryCreate (some "first") (some "registry") (.given {}),
    .acquire (some "m") (some "first"), .release (some "first") (some "m"),
    .cloneSession (some "clone") (some "first"), .dropSession (some "first"),
    .withAllocator (some "registry") (some "again"),
    .registryCreate (some "second") (some "registry") (.given {}),
    .lease (some "lease") (some "second"), .dropSession (some "clone"),
    .acquire (some "m") (some "second"), .release (some "second") (some "m"),
    .dropSession (some "second"), .dropRegistry (some "registry"), .dropLease (some "lease")]

theorem none_outlives_manyHolders :
    allFair 0 manyHolders = true ∧ NoneOutlives (.ofFleet {}) manyHolders ∧
      ((State.ofFleet {}).after manyHolders 18).holds = [1] ∧
      ((State.ofFleet {}).after manyHolders 19).client.world.daemons.map
        (·.closedIds) = [[1, 2, 3]] := by
  refine ⟨by decide, none_outlives {} manyHolders ?_ (by decide), ?_, ?_⟩
  · intro d hd
    cases hd
  · decide +kernel
  · decide +kernel

end SessionPool.Script
