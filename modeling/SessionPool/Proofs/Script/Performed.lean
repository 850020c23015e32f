import SessionPool.Proofs.Script.Commands

/-!
# Whatever a command does

The courses of the commands on registries, and then of any command. So a step of a script keeps the
state in order, and it is made of acts that the command allows:

    (nothing loose, st)  →  …  →  (nothing loose, (st.perform command).2).
-/

namespace SessionPool.Script

variable {φ μ ω χ α : Type} [Marshal μ ω] [Source φ μ ω] [World ω χ] [Holder μ α]

namespace State

variable {P : Tag φ χ α → Prop} {loose : List SessionRef} {st : State φ μ ω} {ref : SessionRef}

/-! ### Registries -/

/-- What a state leads to once a session, which is loose then, is taken out of a registry. -/
theorem leads_erase (hP : P .shift) {registry : Name} {r : Registry φ}
    (hr : st.registries.get? registry = some r) {id : UInt64} (hid : r.lookup? id = some ref)
    {z : Moment φ μ ω}
    (h : Leads P
      ⟨[ref], [], { st with registries := st.registries.insert registry (r.erase id) }⟩ z) :
    Leads P ⟨[], [], st⟩ z := by
  have hfactory : (r.erase id).factory = r.factory := rfl
  refine leads_changeRegistry hP hr hfactory (Registry.nodup_erase · id)
    (fun hnodup other => ?_) h
  rw [Registry.mem_erase hnodup hid, List.mem_singleton]
  simp only [List.not_mem_nil, or_false]
  exact or_comm

/-- What a state leads to once a session is closed and taken out of a registry. -/
theorem leads_remove (hP : P .shift) (huse : P .use) {registry : Name} {r : Registry φ}
    (hr : st.registries.get? registry = some r) {id : UInt64} (hid : r.lookup? id = some ref)
    {z : Moment φ μ ω}
    (h : Leads P ⟨[ref], [], { st with
      client := (st.client.close ref).2
      registries := st.registries.insert registry (r.erase id) }⟩ z) :
    Leads P ⟨[], [], st⟩ z := by
  refine .head huse (fun _ => .close _ ref)
    (fun (hst : st.InOrder) => hst.setClient (Client.onward_close ref)) ?_
  refine leads_erase hP ?_ hid h
  exact hr

omit [Source φ μ ω] [World ω χ] [Holder μ α] in
/-- Letting go of a session that is closed changes nothing. -/
theorem letGo_of_closed (registries : Named (Registry φ)) :
    letGo { st with client := (st.client.close ref).2, registries } ref =
      { st with client := (st.client.close ref).2, registries } := by
  rw [letGo]
  split
  · rfl
  · rw [Client.close_close]

/-- The sessions with some ids are closed and taken out of a registry, one after the other. -/
theorem leads_removeEach (hP : P .shift) (huse : P .use) {registry : Name} (ids : List UInt64)
    {r : Registry φ} (hr : st.registries.get? registry = some r) :
    Leads P ⟨[], [], st⟩ ⟨[], [], { st with
      client := (r.removeEach ids st.client).2.2
      registries := st.registries.insert registry (r.removeEach ids st.client).2.1 }⟩ := by
  induction ids generalizing st r with
  | nil => exact leads_changeRegistry hP hr rfl id (fun _ _ => Iff.rfl) (.refl (List.Subset.refl _))
  | cons id ids ih =>
    cases hid : r.lookup? id with
    | none =>
      simp only [Registry.removeEach, Registry.remove, hid]
      exact ih hr
    | some ref =>
      simp only [Registry.removeEach, Registry.remove, hid]
      apply leads_remove hP huse hr hid
      refine .trans (y := ⟨[], [], { st with
        client := (st.client.close ref).2
        registries := st.registries.insert registry (r.erase id) }⟩) ?_ fun loose hsub => ?_
      · have h : Leads P ⟨[ref], [], _⟩ ⟨[], [], letGo { st with
            client := (st.client.close ref).2
            registries := st.registries.insert registry (r.erase id) } ref⟩ :=
          leads_letGo hP ref fun other hother hne => absurd (List.mem_singleton.mp hother) hne
        rwa [letGo_of_closed] at h
      · obtain rfl := List.subset_nil.mp hsub
        have h := @ih { st with
          client := (st.client.close ref).2
          registries := st.registries.insert registry (r.erase id) } (r.erase id)
          (Named.get?_insert_self _ _ _)
        rwa [Named.insert_insert] at h

/-- The answer is a session of a registry. -/
theorem course_registered (hP : P .shift) (settled : st.Settled) (as : Name) {registry : Name}
    {r : Registry φ} (hr : st.registries.get? registry = some r) {id : UInt64}
    (hid : r.lookup? id = some ref) : Course P st (st.answerSession as ref) :=
  course_answerSession hP settled as (mem_holds_of_registry hr (Registry.mem_of_lookup hid))

/-- The answer is a session that has been closed and taken out of a registry. -/
theorem course_removed (hP : P .shift) (huse : P .use) (settled : st.Settled) (as : Name)
    {registry : Name} {r : Registry φ} (hr : st.registries.get? registry = some r) {id : UInt64}
    (hid : r.lookup? id = some ref) :
    Course P st (answerSession { st with
      client := (st.client.close ref).2
      registries := st.registries.insert registry (r.erase id) } as ref) := by
  refine .of_leads (leads_remove hP huse hr hid ?_) (fun other hother => ?_) ?_
  · exact leads_answerSession hP as (.inr (List.mem_singleton_self ref))
      fun other hother => List.mem_singleton.mp hother
  · obtain rfl : ref = other := Option.some.inj hother
    exact mem_holds_putHandle _ as ref
  · rw [answerSession_leases]
    exact settled.leases

omit [Marshal μ ω] [Source φ μ ω] [World ω χ] [Holder μ α] in
/-- A session that is found by its remote id is in the table. -/
theorem lookup_of_allRemote {r : Registry φ} {domainId remoteId : UInt32}
    (hfound : ref ∈ r.allRemote st.client domainId remoteId) : ∃ id, r.lookup? id = some ref := by
  obtain ⟨id, -, hid⟩ := List.mem_filterMap.mp (List.mem_filter.mp hfound).1
  exact ⟨id, hid⟩

/-! ### Every command -/

omit [Marshal μ ω] [Source φ μ ω] [World ω χ] [Holder μ α] in
theorem mem_factories_of_source {source : Name} {f : φ}
    (hf : find .source st.sources source = .ok f) : f ∈ st.factories := by
  refine List.mem_append_left _ (List.mem_append_left _ (List.mem_append_left _ ?_))
  exact Named.mem_values_of_get? (find_ok hf)

omit [Marshal μ ω] [Source φ μ ω] [World ω χ] [Holder μ α] in
theorem mem_factories_of_builder {builder : Name} {b : Builder φ}
    (hb : find .builder st.builders builder = .ok b) : b.factory ∈ st.factories := by
  refine List.mem_append_left _ (List.mem_append_left _ (List.mem_append_right _ ?_))
  exact List.mem_map_of_mem (Named.mem_values_of_get? (find_ok hb))

omit [Marshal μ ω] [Source φ μ ω] [World ω χ] [Holder μ α] in
theorem mem_factories_of_makeBuilder {source : Name} {allocator : Option Name}
    {domain : DomainArg} {b : Builder φ} (hb : st.makeBuilder source allocator domain = .ok b) :
    b.factory ∈ st.factories := by
  rw [makeBuilder] at hb
  cases hf : find .source st.sources source with
  | error kind =>
    rw [hf] at hb
    cases hb
  | ok f =>
    rw [hf] at hb
    cases ha : st.findAllocator allocator with
    | error kind =>
      rw [ha] at hb
      cases hb
    | ok a =>
      rw [ha] at hb
      cases hd : st.findDomain domain with
      | error kind =>
        rw [hd] at hb
        cases hb
      | ok d =>
        rw [hd] at hb
        obtain rfl := Except.ok.inj hb
        exact mem_factories_of_source hf

omit [Marshal μ ω] [Source φ μ ω] [World ω χ] [Holder μ α] in
theorem aside_insertBuilder (as : Name) {b : Builder φ} (hb : b.factory ∈ st.factories) :
    st.Aside { st with builders := st.builders.insert as b } := by
  refine ⟨fun f hf => ?_, rfl, rfl, rfl, rfl, rfl, rfl⟩
  rw [factories, Named.values_insert] at hf
  simp only [List.map_cons, List.mem_append, List.mem_cons] at hf
  have hfewer := ((st.builders.values_erase_sublist as).map (·.factory)).subset
  rcases hf with ((hf | rfl | hf) | hf) | hf
  · exact List.mem_append_left _ (List.mem_append_left _ (List.mem_append_left _ hf))
  · exact hb
  · exact List.mem_append_left _ (List.mem_append_left _ (List.mem_append_right _ (hfewer hf)))
  · exact List.mem_append_left _ (List.mem_append_right _ hf)
  · exact List.mem_append_right _ hf

/-- **Every command takes its course.** -/
theorem yields_course (settled : st.Settled) (command : Command φ χ α) :
    Yields (Course (command.allows st) st) (st.perform? command) := by
  have hP : command.allows st .shift := trivial
  cases command with
  | change c =>
    apply Yields.ok
    have hchange : Command.allows (α := α) st (.change c) (.change c) := rfl
    refine .of_leads (.single hchange (fun _ => .change _ c) fun h => ?_) (unreported rfl)
      settled.leases
    exact h.setClient (Client.onward_of_sessions_eq rfl)
  | source as f =>
    apply Yields.ok
    have hsource : Command.allows (χ := χ) (α := α) st (.source as f) (.source f) := ⟨as, rfl⟩
    refine .of_leads (.single hsource (fun _ => .source _ as f) fun h => ?_) (unreported rfl)
      settled.leases
    exact { h with }
  | domain as d =>
    apply Yields.ok
    exact course_aside hP settled ⟨List.Subset.refl _, rfl, rfl, rfl, rfl, rfl, rfl⟩
      (unreported rfl)
  | setDomain domain host port id =>
    refine Yields.bind (find .domain st.domains domain) fun d _ => ?_
    apply Yields.ok
    exact course_aside hP settled ⟨List.Subset.refl _, rfl, rfl, rfl, rfl, rfl, rfl⟩
      (unreported rfl)
  | allocator as a =>
    apply Yields.ok
    exact course_aside hP settled ⟨List.Subset.refl _, rfl, rfl, rfl, rfl, rfl, rfl⟩
      (unreported rfl)
  | nextId allocator =>
    refine Yields.bind (find .allocator st.allocators allocator) fun ref _ => ?_
    apply Yields.ok
    exact course_aside hP settled ⟨List.Subset.refl _, rfl, rfl, rfl, rfl, rfl, rfl⟩
      (unreported rfl)
  | lastId allocator =>
    refine Yields.bind (find .allocator st.allocators allocator) fun ref _ => ?_
    exact .ok (course_aside hP settled (.refl st) (unreported rfl))
  | builder as source allocator domain =>
    refine Yields.bind (st.makeBuilder source allocator domain) fun b hb => ?_
    apply Yields.ok
    exact course_aside hP settled (aside_insertBuilder as (mem_factories_of_makeBuilder hb))
      (unreported rfl)
  | rebuilder as builder source allocator =>
    refine Yields.bind (find .builder st.builders builder) fun b _ => ?_
    refine Yields.bind (find .source st.sources source) fun factory hfactory => ?_
    refine Yields.bind (st.findAllocator allocator) fun other _ => ?_
    apply Yields.ok
    refine course_aside hP settled (aside_insertBuilder as ?_) (unreported rfl)
    exact mem_factories_of_source hfactory
  | build as builder =>
    refine Yields.bind (find .builder st.builders builder) fun b hb => ?_
    exact .ok (course_buildSession hP settled as (mem_factories_of_builder hb))
  | session as source allocator domain =>
    refine Yields.bind (st.makeBuilder source allocator domain) fun b hb => ?_
    exact .ok (course_buildSession hP settled as (mem_factories_of_makeBuilder hb))
  | cloneSession as session =>
    refine Yields.bind (st.findSession session) fun found hfound => ?_
    obtain ⟨ref, s⟩ := found
    obtain ⟨hhandle, -⟩ := findSession_ok hfound
    exact .ok (course_answerSession hP settled as (mem_holds_of_handle hhandle))
  | dropSession session =>
    refine Yields.bind (st.findSession session) fun _ _ => ?_
    apply Yields.ok
    refine .of_leads (leads_dropHandle hP session) (unreported rfl) ?_
    exact (st.dropHandle_leases session).symm ▸ settled.leases
  | acquire as session =>
    refine Yields.bind (st.findSession session) fun found hfound => ?_
    obtain ⟨ref, s⟩ := found
    obtain ⟨hhandle, hs⟩ := findSession_ok hfound
    apply Yields.ok
    refine course_acquire ?_ settled as hs (mem_holds_of_handle hhandle)
    exact ⟨as, session, .inl rfl, hhandle⟩
  | release session marshal =>
    refine Yields.bind (st.findSession session) fun found hfound => ?_
    obtain ⟨ref, s⟩ := found
    refine Yields.bind (find .marshal st.marshals marshal) fun m hm => ?_
    obtain ⟨hhandle, hs⟩ := findSession_ok hfound
    apply Yields.ok
    refine course_release ?_ hs (mem_holds_of_handle hhandle) (find_ok hm)
    rfl
  | lease as session =>
    refine Yields.bind (st.findSession session) fun found hfound => ?_
    obtain ⟨ref, s⟩ := found
    obtain ⟨hhandle, hs⟩ := findSession_ok hfound
    apply Yields.ok
    exact course_lease hP ⟨as, session, .inr rfl, hhandle⟩ rfl as hs hhandle
  | leaseInfo name =>
    refine Yields.bind (st.findLease name) fun found hfound => ?_
    obtain ⟨lease, m, s⟩ := found
    refine .ok (course_aside hP settled (.refl st) fun ref href => ?_)
    obtain ⟨hlease, -, -⟩ := findLease_ok hfound
    obtain rfl : lease.session = ref := Option.some.inj href
    refine List.mem_append_left _ (List.mem_append_right _ ?_)
    exact List.mem_map_of_mem (Named.mem_values_of_get? hlease)
  | leaseDeed name d =>
    refine Yields.bind (st.findLease name) fun found hfound => ?_
    obtain ⟨⟨ref, marshal⟩, m, s⟩ := found
    obtain ⟨hlease, rfl, -⟩ := findLease_ok hfound
    apply Yields.ok
    exact course_leaseDeed ⟨name, .inr rfl⟩ settled hlease
  | detach as name =>
    refine Yields.bind (st.findLease name) fun found hfound => ?_
    obtain ⟨⟨ref, marshal⟩, m, s⟩ := found
    obtain ⟨hlease, rfl, -⟩ := findLease_ok hfound
    apply Yields.ok
    exact course_detach hP ⟨as, name, rfl⟩ rfl settled as hlease
  | dropLease name =>
    refine Yields.bind (find .lease st.leases name) fun lease _ => ?_
    apply Yields.ok
    exact course_dropLease hP rfl name
  | create as source =>
    refine Yields.bind (find .source st.sources source) fun f hf => ?_
    apply Yields.ok
    refine course_create ?_ as (mem_factories_of_source hf)
    rfl
  | deed marshal d =>
    refine Yields.bind (find .marshal st.marshals marshal) fun m hm => ?_
    apply Yields.ok
    exact course_deed ⟨marshal, .inl rfl⟩ settled (find_ok hm)
  | dropMarshal marshal =>
    refine Yields.bind (find .marshal st.marshals marshal) fun m _ => ?_
    exact .ok (course_dropMarshal hP settled marshal)
  | close session =>
    refine Yields.bind (st.findSession session) fun found hfound => ?_
    obtain ⟨ref, s⟩ := found
    obtain ⟨hhandle, -⟩ := findSession_ok hfound
    apply Yields.ok
    refine course_close ?_ settled (mem_holds_of_handle hhandle)
    rfl
  | setRemoteId session id =>
    refine Yields.bind (st.findSession session) fun found hfound => ?_
    obtain ⟨ref, s⟩ := found
    obtain ⟨hhandle, hs⟩ := findSession_ok hfound
    apply Yields.ok
    refine course_setRemoteId ?_ settled (mem_holds_of_handle hhandle) hs id
    rfl
  | inspect session =>
    refine Yields.bind (st.findSession session) fun found hfound => ?_
    obtain ⟨ref, s⟩ := found
    refine .ok (course_aside hP settled (.refl st) fun other hother => ?_)
    obtain rfl : ref = other := Option.some.inj hother
    exact mem_holds_of_handle (findSession_ok hfound).1
  | same session other =>
    refine Yields.bind (st.findSession session) fun found _ => ?_
    obtain ⟨ref, -⟩ := found
    refine Yields.bind (st.findSession other) fun found' _ => ?_
    obtain ⟨ref', -⟩ := found'
    exact .ok (course_aside hP settled (.refl st) (unreported rfl))
  | registry as source allocator =>
    refine Yields.bind (find .source st.sources source) fun factory hfactory => ?_
    refine Yields.bind (st.findAllocator allocator) fun allocator _ => ?_
    apply Yields.ok
    refine .of_leads (leads_putRegistry hP as rfl ?_) (unreported rfl) ?_
    · exact Named.mem_values_of_get? (find_ok hfactory)
    · exact (st.putRegistry_leases as _).symm ▸ settled.leases
  | withAllocator registry allocator =>
    refine Yields.bind (find .registry st.registries registry) fun r hr => ?_
    refine Yields.bind (find .allocator st.allocators allocator) fun ref _ => ?_
    apply Yields.ok
    have hfactory : { r with allocator := some ref }.factory = r.factory := rfl
    refine .of_leads ?_ (unreported rfl) settled.leases
    exact leads_changeRegistry hP (find_ok hr) hfactory id (fun _ _ => Iff.rfl)
      (.refl (List.Subset.refl _))
  | registryCreate as registry domain =>
    refine Yields.bind (find .registry st.registries registry) fun r hr => ?_
    refine Yields.bind (st.findDomain domain) fun d _ => ?_
    exact .ok (course_register hP settled as (find_ok hr) d)
  | registryGet as registry id =>
    refine Yields.bind (find .registry st.registries registry) fun r hr => ?_
    cases hid : r.lookup? id with
    | none =>
      simp only [Registry.get, hid]
      exact .ok (course_aside hP settled (.refl st) (unreported rfl))
    | some ref =>
      simp only [Registry.get, hid]
      exact .ok (course_registered hP settled as (find_ok hr) hid)
  | registryRemove as registry id =>
    refine Yields.bind (find .registry st.registries registry) fun r hr => ?_
    cases hid : r.lookup? id with
    | none =>
      simp only [Registry.remove, hid]
      exact .ok (course_aside hP settled (.refl st) (unreported rfl))
    | some ref =>
      simp only [Registry.remove, hid]
      exact .ok (course_removed hP rfl settled as (find_ok hr) hid)
  | registryFind as registry domainId remoteId =>
    refine Yields.bind (find .registry st.registries registry) fun r hr => ?_
    split
    · exact .ok (course_aside hP settled (.refl st) (unreported rfl))
    · next ref hone =>
      obtain ⟨id, hid⟩ := lookup_of_allRemote (hone ▸ List.mem_singleton_self ref)
      exact .ok (course_registered hP settled as (find_ok hr) hid)
    · exact .ok (course_aside hP settled (.refl st) (unreported rfl))
  | registryIds registry =>
    refine Yields.bind (find .registry st.registries registry) fun r _ => ?_
    exact .ok (course_aside hP settled (.refl st) (unreported rfl))
  | registryCloseAll registry =>
    refine Yields.bind (find .registry st.registries registry) fun r hr => ?_
    apply Yields.ok
    exact .of_leads (leads_removeEach hP rfl r.ids (find_ok hr)) (unreported rfl) settled.leases
  | dropRegistry registry =>
    refine Yields.bind (find .registry st.registries registry) fun r _ => ?_
    apply Yields.ok
    refine .of_leads (leads_dropRegistry hP registry) (unreported rfl) ?_
    exact (st.dropRegistry_leases registry).symm ▸ settled.leases

/-- **A step keeps the state in order, and it is made of acts that its command allows.** -/
theorem perform_course (settled : st.Settled) (order : st.InOrder) (command : Command φ χ α) :
    (st.perform command).2.InOrder ∧
      Acts (command.allows st) ⟨[], [], st⟩ ⟨[], [], (st.perform command).2⟩ := by
  cases hr : st.perform? command with
  | error kind =>
    rw [(perform_of_error hr).2]
    exact ⟨order, .refl⟩
  | ok o =>
    rw [(perform_of_ok hr).2]
    have hleads := (yields_course settled command o hr).settle trivial
    obtain ⟨horder, loose, hsub, hacts⟩ := hleads order
    obtain rfl := List.subset_nil.mp hsub
    exact ⟨horder, hacts⟩

/-! ### Handles that stay -/

omit [Source φ μ ω] [World ω χ] [Holder μ α] in
theorem reported_handles (o : Outcome φ μ ω) :
    (reported o).handles.erase none = o.state.handles.erase none := by
  rw [reported]
  split
  · rw [dropLease_handles]
  · rw [dropLease_handles, putHandle_handles, Named.erase_insert]

omit [World ω χ] [Holder μ α] in
theorem acquire_handles (as : Name) (s : Session φ μ) :
    (st.acquire as ref s).state.handles = st.handles := by
  rw [acquire]
  split
  · rfl
  · rfl

omit [World ω χ] [Holder μ α] in
theorem lease_handles (as : Name) : (st.lease as ref).state.handles = st.handles := by
  rw [lease]
  split
  · rw [putLease, dropLease_handles]
  · rfl

omit [Source φ μ ω] [World ω χ] [Holder μ α] in
theorem register_handles (as registry : Name) (r : Registry φ) (domain : Domain) :
    (st.register as registry r domain).state.handles =
      st.handles.insert as st.client.sessions.length := by
  simp only [register]
  split
  · exact putHandle_handles ..
  · exact (letGo_handles ..).trans (putHandle_handles ..)

omit [Source φ μ ω] [World ω χ] [Holder μ α] in
theorem register_session (as registry : Name) (r : Registry φ) (domain : Domain) :
    (st.register as registry r domain).session = some st.client.sessions.length := by
  simp only [register]
  split
  · rfl
  · rfl

/-- A session from which a command acquires is held after it. -/
theorem held_of_draw (settled : st.Settled) {command : Command φ χ α}
    (hdraw : command.allows st (.draw ref)) : ref ∈ (st.perform command).2.holds := by
  obtain ⟨as, session, hcommand, hhandle⟩ := hdraw
  have hyields : Yields (fun o => o.state.handles = st.handles) (st.perform? command) := by
    rcases hcommand with rfl | rfl
    · exact .bind (st.findSession session) fun _ _ => .ok (acquire_handles as _)
    · exact .bind (st.findSession session) fun _ _ => .ok (lease_handles as)
  apply mem_holds_of_handle
  cases hr : st.perform? command with
  | error kind =>
    rw [(perform_of_error hr).2]
    exact hhandle
  | ok o =>
    have hnamed : session ≠ none := by
      rintro rfl
      rw [settled.handles] at hhandle
      cases hhandle
    rw [(perform_of_ok hr).2, clearUnnamed_handles, reported_handles, hyields o hr,
      Named.get?_erase_of_ne _ hnamed]
    exact hhandle

end State

end SessionPool.Script
