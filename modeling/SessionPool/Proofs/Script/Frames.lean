import SessionPool.Script.Perform
import SessionPool.Proofs.Script.Clients

/-!
# What stays when things are dropped and named

Naming or dropping a thing changes the things of its own kind and, when a session loses its last
holder by it, the client. Everything else stays. What is done in vain changes nothing at all:

    letGo ref st = st    as long as something holds ref in st.
-/

namespace SessionPool.Script.State

variable {φ μ ω χ α : Type} [Marshal μ ω] (st : State φ μ ω)

/-! ### Letting go -/

section LetGo

variable (ref : SessionRef)

@[simp] theorem letGo_handles : (st.letGo ref).handles = st.handles := by
  rw [letGo]
  split <;> rfl

@[simp] theorem letGo_marshals : (st.letGo ref).marshals = st.marshals := by
  rw [letGo]
  split <;> rfl

@[simp] theorem letGo_leases : (st.letGo ref).leases = st.leases := by
  rw [letGo]
  split <;> rfl

@[simp] theorem letGo_registries : (st.letGo ref).registries = st.registries := by
  rw [letGo]
  split <;> rfl

@[simp] theorem letGo_holds : (st.letGo ref).holds = st.holds := by
  rw [letGo]
  split <;> rfl

@[simp] theorem letGo_sources : (st.letGo ref).sources = st.sources := by
  rw [letGo]
  split <;> rfl

variable {st ref}

theorem letGo_of_held (h : st.isHeld ref = true) : st.letGo ref = st := if_pos h

omit [Marshal μ ω] in
theorem isHeld_of_handle {name : Name} (h : st.handles.get? name = some ref) :
    st.isHeld ref = true := by
  refine List.contains_iff_mem.mpr (List.mem_append_left _ (List.mem_append_left _ ?_))
  exact Named.mem_values_of_get? h

end LetGo

theorem onward_letGo (st : State φ μ ω) (ref : SessionRef) :
    st.client.Onward (st.letGo ref).client := by
  rw [letGo]
  split
  · exact .refl _
  · exact Client.onward_close ref

/-! ### Dropping and naming -/

theorem letGoEach_frame (refs : List SessionRef) :
    (refs.foldl letGo st).handles = st.handles ∧ (refs.foldl letGo st).marshals = st.marshals ∧
      (refs.foldl letGo st).leases = st.leases ∧
      (refs.foldl letGo st).registries = st.registries ∧
      (refs.foldl letGo st).sources = st.sources := by
  induction refs generalizing st with
  | nil => exact ⟨rfl, rfl, rfl, rfl, rfl⟩
  | cons ref refs ih => simpa using ih (st.letGo ref)

variable (name : Name)

@[simp] theorem dropHandle_handles : (st.dropHandle name).handles = st.handles.erase name := by
  rw [dropHandle]
  split
  · next h => exact (Named.erase_eq_self h).symm
  · simp

@[simp] theorem dropHandle_leases : (st.dropHandle name).leases = st.leases := by
  rw [dropHandle]
  split <;> simp

@[simp] theorem dropHandle_registries : (st.dropHandle name).registries = st.registries := by
  rw [dropHandle]
  split <;> simp

@[simp] theorem putHandle_handles (ref : SessionRef) :
    (st.putHandle name ref).handles = st.handles.insert name ref := by
  simp only [putHandle]
  split <;> simp

@[simp] theorem putHandle_leases (ref : SessionRef) :
    (st.putHandle name ref).leases = st.leases := by
  simp only [putHandle]
  split <;> simp

@[simp] theorem dropLease_handles : (st.dropLease name).handles = st.handles := by
  rw [dropLease]
  split <;> simp

@[simp] theorem dropLease_leases : (st.dropLease name).leases = st.leases.erase name := by
  rw [dropLease]
  split
  · next h => exact (Named.erase_eq_self h).symm
  · simp

@[simp] theorem dropLease_registries : (st.dropLease name).registries = st.registries := by
  rw [dropLease]
  split <;> simp

theorem onward_dropLease : st.client.Onward (st.dropLease name).client := by
  rw [dropLease]
  split
  · exact .refl _
  · next lease _ =>
    have honward := lease.onward_finish st.client
    exact honward.trans (onward_letGo { st with
      leases := st.leases.erase name, client := lease.finish st.client } lease.session)

@[simp] theorem dropRegistry_handles : (st.dropRegistry name).handles = st.handles := by
  rw [dropRegistry]
  split
  · rfl
  · exact (letGoEach_frame _ _).1

@[simp] theorem dropRegistry_leases : (st.dropRegistry name).leases = st.leases := by
  rw [dropRegistry]
  split
  · rfl
  · exact (letGoEach_frame _ _).2.2.1

@[simp] theorem dropRegistry_registries :
    (st.dropRegistry name).registries = st.registries.erase name := by
  rw [dropRegistry]
  split
  · next h => exact (Named.erase_eq_self h).symm
  · exact (letGoEach_frame _ _).2.2.2.1

@[simp] theorem dropRegistry_sources : (st.dropRegistry name).sources = st.sources := by
  rw [dropRegistry]
  split
  · rfl
  · exact (letGoEach_frame _ _).2.2.2.2

@[simp] theorem putRegistry_leases (r : Registry φ) :
    (st.putRegistry name r).leases = st.leases := st.dropRegistry_leases name

@[simp] theorem clearUnnamed_handles : st.clearUnnamed.handles = st.handles.erase none := by
  simp [clearUnnamed]

@[simp] theorem clearUnnamed_leases : st.clearUnnamed.leases = st.leases.erase none := by
  simp [clearUnnamed]

@[simp] theorem clearUnnamed_registries :
    st.clearUnnamed.registries = st.registries.erase none := by
  simp [clearUnnamed]

@[simp] theorem reported_leases (o : Outcome φ μ ω) :
    (reported o).leases = o.state.leases.erase none := by
  rw [reported]
  split <;> simp

variable {st name}

theorem dropLease_of_none (h : st.leases.get? name = none) : st.dropLease name = st := by
  rw [dropLease, h]

theorem dropHandle_of_none (h : st.handles.get? name = none) : st.dropHandle name = st := by
  rw [dropHandle, h]

theorem dropRegistry_of_none (h : st.registries.get? name = none) : st.dropRegistry name = st := by
  rw [dropRegistry, h]

theorem putHandle_of_new (h : st.handles.get? name = none) (ref : SessionRef) :
    st.putHandle name ref = { st with handles := st.handles.insert name ref } := by
  rw [putHandle, h]

/-! ### Outcomes -/

/-- What holds of the outcome, if there is one. -/
def Yields (P : Outcome φ μ ω → Prop) (r : Except Kind (Outcome φ μ ω)) : Prop :=
  ∀ o, r = .ok o → P o

section Yields

variable {P : Outcome φ μ ω → Prop} {β : Type}

omit [Marshal μ ω]

theorem Yields.ok {o : Outcome φ μ ω} (h : P o) : Yields P (.ok o) := by
  intro o' ho'
  rwa [← Except.ok.inj ho']

theorem Yields.bind (found : Except Kind β) {f : β → Except Kind (Outcome φ μ ω)}
    (h : ∀ b, found = .ok b → Yields P (f b)) : Yields P (found >>= f) := by
  cases found with
  | error kind =>
    intro o ho
    cases ho
  | ok b => exact h b rfl

end Yields

section Outcomes

variable (st : State φ μ ω) (as : Name) (ref : SessionRef)

@[simp] theorem answerSession_leases : (st.answerSession as ref).state.leases = st.leases :=
  st.putHandle_leases as ref

@[simp] theorem buildSession_leases (b : Builder φ) :
    (st.buildSession as b).state.leases = st.leases :=
  State.answerSession_leases _ as _

@[simp] theorem register_leases (registry : Name) (r : Registry φ) (domain : Domain) :
    (st.register as registry r domain).state.leases = st.leases := by
  simp only [register]
  split <;> simp

variable [Source φ μ ω] (s : Session φ μ)

@[simp] theorem acquire_leases : (st.acquire as ref s).state.leases = st.leases := by
  rw [acquire]
  split <;> rfl

/-- A new lease has no effect on the leases of other names. -/
theorem lease_get?_of_ne {other : Name} (h : other ≠ as) :
    (st.lease as ref).state.leases.get? other = st.leases.get? other := by
  rw [lease]
  split
  · simp [putLease, Named.get?_insert_of_ne _ _ h, Named.get?_erase_of_ne _ h]
  · rfl

end Outcomes

/-! ### The end of a step -/

section Perform

variable [Source φ μ ω] [World ω χ] [Holder μ α] {command : Command φ χ α}

theorem perform_of_ok {o : Outcome φ μ ω} (h : st.perform? command = .ok o) :
    (st.perform command).1.reply = o.reply ∧
      (st.perform command).2 = (reported o).clearUnnamed := by
  rw [perform, h]
  exact ⟨rfl, rfl⟩

theorem perform_of_error {kind : Kind} (h : st.perform? command = .error kind) :
    (st.perform command).1.reply = .missing kind ∧ (st.perform command).2 = st := by
  rw [perform, h]
  exact ⟨rfl, rfl⟩

end Perform

/-- Between two steps nothing that has no name is there. -/
structure Settled (st : State φ μ ω) : Prop where
  handles : st.handles.get? none = none
  leases : st.leases.get? none = none
  registries : st.registries.get? none = none

namespace Settled

theorem clearUnnamed (st : State φ μ ω) : st.clearUnnamed.Settled where
  handles := by simp
  leases := by simp
  registries := by simp

theorem perform [Source φ μ ω] [World ω χ] [Holder μ α] (h : st.Settled)
    (command : Command φ χ α) : (st.perform command).2.Settled := by
  cases hr : st.perform? command with
  | error kind => rwa [(perform_of_error hr).2]
  | ok o =>
    rw [(perform_of_ok hr).2]
    exact clearUnnamed _

theorem dropped (h : st.Settled) :
    ((st.dropLease none).dropHandle none).dropRegistry none = st := by
  rw [dropLease_of_none h.leases, dropHandle_of_none h.handles, dropRegistry_of_none h.registries]

theorem client_eq (h : st.Settled) : st.clearUnnamed.client = st.client := by
  rw [State.clearUnnamed, h.dropped]

theorem holds_eq (h : st.Settled) : st.clearUnnamed.holds = st.holds := by
  rw [State.clearUnnamed, h.dropped]
  rfl

theorem marshals_eq (h : st.Settled) : st.clearUnnamed.marshals = st.marshals.erase none := by
  rw [State.clearUnnamed, h.dropped]

end Settled

/-- A report about a session that a handle holds changes nothing. -/
theorem reported_of_held {ref : SessionRef} (hleases : st.leases.get? none = none)
    (hhandles : st.handles.get? none = none) (hheld : st.handles.get? name = some ref)
    (reply : Reply φ μ) :
    (reported { reply, session := some ref, state := st }).clearUnnamed = st.clearUnnamed := by
  have hput := putHandle_of_new hhandles ref
  have hnone : (st.putHandle none ref).leases.get? none = none := by simpa using hleases
  have hdrop : (st.putHandle none ref).dropHandle none = st := by
    rw [hput, dropHandle, Named.get?_insert_self]
    show letGo { st with handles := (st.handles.insert none ref).erase none } ref = st
    rw [Named.erase_insert, Named.erase_eq_self hhandles]
    exact letGo_of_held (isHeld_of_handle hheld)
  simp only [reported, clearUnnamed]
  rw [dropLease_of_none hnone, dropLease_of_none hnone, hdrop, dropLease_of_none hleases,
    dropHandle_of_none hhandles]

/-- What is left of a lease when its marshal was taken out ends without anything coming of it. -/
theorem reported_detached {ref : SessionRef} (hleases : st.leases.get? none = none)
    (hhandles : st.handles.get? none = none) (hheld : st.handles.get? name = some ref)
    (reply : Reply φ μ) :
    (reported
      { reply, session := some ref, state := st.putLease none ⟨ref, none⟩ }).clearUnnamed =
      st.clearUnnamed := by
  have hput := putHandle_of_new hhandles ref
  have hnone : (st.putHandle none ref).leases.get? none = none := by simpa using hleases
  have hlease : (st.putLease none ⟨ref, none⟩).putHandle none ref =
      { st.putHandle none ref with leases := st.leases.insert none ⟨ref, none⟩ } := by
    rw [putLease, dropLease_of_none hleases, hput]
    refine putHandle_of_new ?_ ref
    exact hhandles
  rw [← reported_of_held hleases hhandles hheld reply]
  simp only [reported]
  rw [dropLease_of_none hnone, hlease, hput, dropLease, Named.get?_insert_self]
  congr 1
  show letGo { st with handles := _, leases := (st.leases.insert none _).erase none } ref = _
  rw [Named.erase_insert, Named.erase_eq_self hleases]
  exact letGo_of_held (isHeld_of_handle (Named.get?_insert_self _ _ _))

end SessionPool.Script.State
