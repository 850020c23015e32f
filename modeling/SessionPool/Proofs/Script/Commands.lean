import SessionPool.Proofs.Script.Courses

/-!
# What commands lead to

Each command is followed through its acts to what it comes to, and from there to the end of the
step. The command tells which acts it may take:

    (nothing loose, st)  →  …  →  (nothing loose, (st.perform command).2),    each act allowed.
-/

namespace SessionPool.Script

variable {φ μ ω χ α : Type}

namespace Command

/-- Whether a command lets holders come and go, or looks at something, but does not use any session
or marshal. -/
def isShift : Command φ χ α → Bool
  | .change _ | .acquire _ _ | .release _ _ | .lease _ _ | .leaseDeed _ _ | .detach _ _
  | .dropLease _ | .create _ _ | .deed _ _ | .dropMarshal _ | .close _ | .setRemoteId _ _
  | .registryRemove _ _ _ | .registryCloseAll _ => false
  | _ => true

/-- The acts that a command may take in a state. -/
def allows (st : State φ μ ω) (command : Command φ χ α) : Tag φ χ α → Prop
  | .shift => True
  | .source f => ∃ as, command = .source as f
  | .change c => command = .change c
  | .deed d => ∃ name, command = .deed name d ∨ command = .leaseDeed name d
  | .use => command.isShift = false
  | .draw ref => ∃ as session, (command = .acquire as session ∨ command = .lease as session) ∧
      st.handles.get? session = some ref
  | .free _ => ∃ as lease, command = .detach as lease

end Command

namespace State

variable [Marshal μ ω] [Source φ μ ω] [World ω χ] [Holder μ α]

/-- What a command comes to, seen from the state in which it is carried out. -/
structure Course (P : Tag φ χ α → Prop) (st : State φ μ ω) (o : Outcome φ μ ω) : Prop where
  leads : Leads P ⟨[], [], st⟩ ⟨[], [], o.state⟩
  held (ref : SessionRef) : o.session = some ref → ref ∈ o.state.holds
  unnamed : o.state.leases.get? none ≠ none → P .use

variable {P : Tag φ χ α → Prop} {st : State φ μ ω} {o : Outcome φ μ ω} {ref : SessionRef}

omit [Marshal μ ω] [Source φ μ ω] in
/-- Whatever is asked of the session that an outcome is about, when it is about none. -/
theorem unreported (h : o.session = none) {refs : List SessionRef} :
    ∀ ref, o.session = some ref → ref ∈ refs := by
  intro ref href
  rw [h] at href
  cases href

/-- What leads to a state in which every lease has a name. -/
theorem Course.of_leads (leads : Leads P ⟨[], [], st⟩ ⟨[], [], o.state⟩)
    (held : ∀ ref, o.session = some ref → ref ∈ o.state.holds)
    (named : o.state.leases.get? none = none) : Course P st o :=
  ⟨leads, held, fun h => absurd named h⟩

/-- What leads from a state to the end of the step. -/
theorem Course.settle (h : Course P st o) (hP : P .shift) :
    Leads P ⟨[], [], st⟩ ⟨[], [], (reported o).clearUnnamed⟩ :=
  h.leads.trans fun _ hsub =>
    (leads_settle hP h.unnamed h.held).trans fun _ hsub' => .refl (List.Subset.trans hsub' hsub)

omit [Marshal μ ω] [Source φ μ ω] in
theorem mem_holds_of_handle {name : Name} (h : st.handles.get? name = some ref) :
    ref ∈ st.holds := List.contains_iff_mem.mp (isHeld_of_handle h)

omit [Source φ μ ω] in
theorem mem_holds_putHandle (st : State φ μ ω) (as : Name) (ref : SessionRef) :
    ref ∈ (st.putHandle as ref).holds := by
  apply mem_holds_of_handle
  rw [putHandle_handles, Named.get?_insert_self]

/-! ### Answers about sessions -/

theorem leads_answerSession (hP : P .shift) {loose : List SessionRef} (as : Name)
    (hminded : ref ∈ st.holds ∨ ref ∈ loose) (hsub : ∀ other ∈ loose, other = ref) :
    Leads P ⟨loose, [], st⟩ ⟨[], [], (st.answerSession as ref).state⟩ := by
  refine (leads_putHandle hP as hminded).trans fun loose' hsub' => ?_
  refine leads_hold hP (mem_holds_putHandle st as ref) fun other hother hne => ?_
  exact absurd (hsub other (hsub' hother)) hne

/-- The answer is a session that is held already. -/
theorem course_answerSession (hP : P .shift) (settled : st.Settled) (as : Name)
    (hheld : ref ∈ st.holds) : Course P st (st.answerSession as ref) := by
  refine .of_leads ?_ (fun other hother => ?_) ?_
  · exact leads_answerSession hP as (.inl hheld) (by simp)
  · obtain rfl : ref = other := Option.some.inj hother
    exact mem_holds_putHandle st as ref
  · rw [answerSession_leases, settled.leases]

theorem course_buildSession (hP : P .shift) (settled : st.Settled) (as : Name) {b : Builder φ}
    (known : b.factory ∈ st.factories) : Course P st (st.buildSession as b) := by
  refine .of_leads ?_ (fun other hother => ?_) ?_
  · refine .head hP (fun _ => .build _ b known) (fun h => h.setClient (Client.onward_build b)) ?_
    exact leads_answerSession hP as (.inr (List.mem_singleton_self _))
      fun other hother => List.mem_singleton.mp hother
  · obtain rfl : (st.client.build b).1 = other := Option.some.inj hother
    exact mem_holds_putHandle _ as _
  · rw [buildSession_leases, settled.leases]

/-- A loose session is entered into the table of a registry. Then the one that it displaces is
loose. -/
theorem leads_enter (hP : P .shift) {registry : Name} {r : Registry φ}
    (hr : st.registries.get? registry = some r) (id : UInt64) (ref : SessionRef) :
    Leads P ⟨[ref], [], st⟩ ⟨(r.lookup? id).toList, [],
      { st with registries := st.registries.insert registry (r.insert id ref) }⟩ := by
  have hfactory : (r.insert id ref).factory = r.factory := rfl
  refine leads_changeRegistry hP hr hfactory (Registry.nodup_insert · id ref)
    (fun hnodup other => ?_) (.refl (List.Subset.refl _))
  rw [Registry.mem_insert hnodup, List.mem_singleton, or_comm]

omit [Marshal μ ω] [Source φ μ ω] in
theorem mem_holds_of_registry {registry : Name} {r : Registry φ}
    (hr : st.registries.get? registry = some r) (href : ref ∈ r.table.map (·.2)) :
    ref ∈ st.holds :=
  List.mem_append_right _ (List.mem_flatMap.mpr ⟨r, Named.mem_values_of_get? hr, href⟩)

/-- The answer is a session that has displaced another one, which is let go. -/
theorem course_displace (hP : P .shift) (as : Name) (displaced : Option SessionRef)
    {st' : State φ μ ω} (hheld : ref ∈ st'.holds) (named : st'.leases.get? none = none) :
    Leads P ⟨[], [], st⟩ ⟨displaced.toList, [], st'⟩ → Course P st
      (match displaced with
      | none => st'.answerSession as ref
      | some displaced =>
        { st'.answerSession as ref with
          state := (st'.answerSession as ref).state.letGo displaced }) := by
  intro h
  have hput := mem_holds_putHandle st' as ref
  cases displaced with
  | none =>
    refine .of_leads (h.trans fun loose hsub => ?_) (fun other hother => ?_) ?_
    · obtain rfl := List.subset_nil.mp hsub
      exact leads_answerSession hP as (.inl hheld) (by simp)
    · obtain rfl : ref = other := Option.some.inj hother
      exact hput
    · rw [answerSession_leases, named]
  | some old =>
    refine .of_leads (h.trans fun loose hsub => ?_) (fun other hother => ?_) ?_
    · refine (leads_putHandle hP as (.inl hheld)).trans fun loose' hsub' => ?_
      refine leads_letGo hP old fun other hother hne => ?_
      exact absurd (List.mem_singleton.mp (hsub (hsub' hother))) hne
    · obtain rfl : ref = other := Option.some.inj hother
      show ref ∈ ((st'.putHandle as ref).letGo old).holds
      rwa [letGo_holds]
    · rw [letGo_leases, answerSession_leases, named]

/-- A session is registered: it is built and entered into the table, and the answer is about it. -/
theorem course_register (hP : P .shift) (settled : st.Settled) (as : Name) {registry : Name}
    {r : Registry φ} (hr : st.registries.get? registry = some r) (domain : Domain) :
    Course P st (st.register as registry r domain) := by
  have hid (registries : Named (Registry φ)) :
      idOf { st with client := (st.client.build (r.builder domain)).2, registries }
        (st.client.build (r.builder domain)).1 =
        (st.client.nextId (r.allocator.getD Client.common)).1 := by
    rw [idOf, Client.session?_build]
    rfl
  rw [register, Registry.create_eq]
  dsimp only
  rw [hid]
  refine course_displace hP as _ ?_ settled.leases ?_
  · exact mem_holds_of_registry (Named.get?_insert_self _ _ _) (Registry.mem_insert_self r _ _)
  · refine .of_inOrder fun (hst : st.InOrder) => ?_
    have known := mem_factories_of_registry (Named.mem_values_of_get? hr)
    refine .head hP (fun _ => .build _ (r.builder domain) known)
      (fun h => h.setClient (Client.onward_build _)) ?_
    refine leads_enter hP ?_ _ _
    exact hr

/-! ### Marshals that come and go -/

omit [Marshal μ ω] [Source φ μ ω] in
theorem inHand_of_marshal (h : st.InOrder) {name : Name} {m : μ}
    (hm : st.marshals.get? name = some m) :
    st.inHand.Perm (m :: { st with marshals := st.marshals.erase name }.inHand) :=
  (h.marshals.values_perm hm).append_right _

omit [Marshal μ ω] [Source φ μ ω] in
theorem inHand_insert_subperm (name : Name) (m : μ) :
    { st with marshals := st.marshals.insert name m }.inHand.Subperm (m :: st.inHand) :=
  List.Sublist.subperm (.cons_cons m ((st.marshals.values_erase_sublist name).append_right _))

theorem course_acquire (hP : P (.draw ref)) (settled : st.Settled) (as : Name)
    {s : Session φ μ} (hs : st.client.session? ref = some s) (hheld : ref ∈ st.holds) :
    Course P st (st.acquire as ref s) := by
  have hfactory := s.acquire_factory st.client.world
  have hshut : s.Shut → (s.acquire st.client.world).2.1.Shut := (·.acquire _)
  rw [State.acquire]
  rcases hacquire : s.acquire st.client.world with ⟨got, s', w⟩
  rw [hacquire] at hfactory hshut
  have honward := Client.onward_update hs hshut w
  cases got with
  | none =>
    refine .of_leads (.single hP (fun h => .draw ⟨fun _ => Iff.rfl, factories_update hs hfactory w⟩
      hs ?_ ?_ (List.Subset.refl _)) fun h => h.setClient honward) (fun other hother => ?_)
      settled.leases
    · rw [hacquire]
    · rw [hacquire]
      exact .refl _
    · exact Option.some.inj hother ▸ hheld
  | some m =>
    refine .of_leads (.single hP (fun h => .draw ⟨fun _ => Iff.rfl, factories_update hs hfactory w⟩
      hs ?_ ?_ (List.Subset.refl _)) fun h => ?_) (fun other hother => ?_) settled.leases
    · rw [hacquire]
    · rw [hacquire]
      exact inHand_insert_subperm as m
    · exact { h.setClient honward with marshals := h.marshals.insert as m }
    · exact Option.some.inj hother ▸ hheld

theorem course_release (hP : P .use) {s : Session φ μ} {m : μ}
    {name : Name} (hs : st.client.session? ref = some s) (hheld : ref ∈ st.holds)
    (hm : st.marshals.get? name = some m) : Course P st (st.release ref s name m) := by
  have honward := Client.onward_update hs (·.release m st.client.world)
    (s.release m st.client.world).2.2
  refine ⟨.single hP (fun (h : st.InOrder) => .giveBack ⟨fun _ => Iff.rfl,
    factories_update hs (s.release_factory m _) _⟩ hs rfl ?_ fun loan hloan => .inl hloan)
    fun h => ?_, fun other hother => ?_, fun _ => hP⟩
  · exact (inHand_of_marshal h hm).symm.subperm
  · exact { h.setClient honward with marshals := h.marshals.erase name }
  · exact Option.some.inj hother ▸ hheld

/-- A lease is acquired, a lease of the same name ends, and then the new one has the name. -/
theorem course_lease (hP : P .shift) (hdraw : P (.draw ref)) (huse : P .use) (as : Name)
    {s : Session φ μ} (hs : st.client.session? ref = some s) {handle : Name}
    (hhandle : st.handles.get? handle = some ref) : Course P st (st.lease as ref) := by
  have hfactory := s.acquire_factory st.client.world
  have hshut : s.Shut → (s.acquire st.client.world).2.1.Shut := (·.acquire _)
  rw [State.lease, Lease.start, hs]
  dsimp only
  rcases hacquire : s.acquire st.client.world with ⟨got, s', w⟩
  rw [hacquire] at hfactory hshut
  have honward := Client.onward_update hs hshut w
  cases got with
  | none =>
    refine ⟨.single hdraw (fun h => .draw ⟨fun _ => Iff.rfl, factories_update hs hfactory w⟩ hs
      ?_ ?_ (List.Subset.refl _)) fun h => h.setClient honward, fun other hother => ?_,
      fun _ => huse⟩
    · rw [hacquire]
      rfl
    · rw [hacquire]
      exact .refl _
    · exact Option.some.inj hother ▸ mem_holds_of_handle hhandle
  | some m =>
    have hthere : ((st.client.update ref s' w).session? ref).isSome = true :=
      honward.isSome (by rw [hs]; rfl)
    refine ⟨?_, fun other hother => ?_, fun _ => huse⟩
    · refine .head (y := ⟨[], [m], { st with client := st.client.update ref s' w }⟩) hdraw
        (fun h => .draw ⟨fun _ => Iff.rfl, factories_update hs hfactory w⟩ hs ?_ ?_
          (List.Subset.refl _)) (fun h => h.setClient honward) ?_
      · rw [hacquire]
      · rw [hacquire]
        exact .refl _
      refine (leads_dropLease hP as fun _ => huse).trans fun loose hsub => ?_
      obtain rfl := List.subset_nil.mp hsub
      refine leads_insertLease hP (some m) ?_ (.inl ?_) ?_
      · rw [dropLease_leases, Named.get?_erase_self]
      · apply mem_holds_of_handle
        rw [dropLease_handles]
        exact hhandle
      · exact (onward_dropLease _ as).isSome hthere
    · obtain rfl : ref = other := Option.some.inj hother
      apply mem_holds_of_handle
      show (State.dropLease _ as).handles.get? handle = some ref
      rw [dropLease_handles]
      exact hhandle

/-- Something is done to a marshal. -/
theorem course_deed {d : Deed α} (hP : P (.deed d)) (settled : st.Settled) {name : Name} {m : μ}
    (hm : st.marshals.get? name = some m) {reply : Reply φ μ} :
    Course P st { reply, state := { st with
      client := { st.client with world := (doDeed m st.client.world d).2.2 }
      marshals := st.marshals.insert name (doDeed m st.client.world d).2.1 } } := by
  refine .of_leads (.single hP (fun (h : st.InOrder) => .deed d m
    (inHand { st with marshals := st.marshals.erase name })
    ⟨fun _ => Iff.rfl, List.Subset.refl _⟩ rfl rfl (inHand_of_marshal h hm) (.refl _)
    fun _ _ hloan => .inl hloan)
    fun h => { h with marshals := h.marshals.insert name _ }) (fun _ hother => ?_) settled.leases
  cases hother

theorem course_leaseDeed {d : Deed α} (hP : P (.deed d)) (settled : st.Settled) {name : Name}
    {m : μ} (hlease : st.leases.get? name = some ⟨ref, some m⟩) {reply : Reply φ μ} :
    Course P st { reply, session := some ref, state := { st with
      client := { st.client with world := (doDeed m st.client.world d).2.2 }
      leases := st.leases.insert name ⟨ref, some (doDeed m st.client.world d).2.1⟩ } } := by
  have hafter : (st.leases.insert name ⟨ref, some (doDeed m st.client.world d).2.1⟩).values.Perm
      (⟨ref, some (doDeed m st.client.world d).2.1⟩ :: (st.leases.erase name).values) := .refl _
  refine ⟨.of_inOrder fun (hst : st.InOrder) => ?_, fun other hother => ?_, fun h => ?_⟩
  · have hperm := hst.leases.values_perm hlease
    refine .single hP (fun _ => .deed d m (inHand { st with leases := st.leases.erase name })
      ⟨fun other => ?_, List.Subset.refl _⟩ rfl rfl (inHand_of_leases_perm st hperm)
      (inHand_of_leases_perm _ hafter) fun ref' m' hloan => ?_)
      fun _ => { hst with
        leases := hst.leases.insert name _
        lent := fun lease hlease' => ?_ }
    · simp only [Moment.Minds, mem_holds, (hperm.map (·.session)).mem_iff, Named.values_insert,
        List.map_cons]
    · rcases List.mem_cons.mp ((loans_of_leases_perm st hperm).mem_iff.mp hloan) with heq | hrest
      · obtain ⟨rfl, rfl⟩ := Prod.mk.inj heq
        exact .inr ⟨rfl, (loans_of_leases_perm st hafter).mem_iff.mpr (List.mem_cons_self ..)⟩
      · exact .inl ((loans_of_leases_perm st hafter).mem_iff.mpr (List.mem_cons_of_mem _ hrest))
    · rcases List.mem_cons.mp hlease' with rfl | hrest
      · exact hst.lent ⟨ref, some m⟩ (Named.mem_values_of_get? hlease)
      · exact hst.lent lease ((st.leases.values_erase_sublist name).subset hrest)
  · obtain rfl : ref = other := Option.some.inj hother
    refine List.mem_append_left _ (List.mem_append_right _ ?_)
    exact List.mem_map.mpr ⟨_, List.mem_cons_self .., rfl⟩
  · have hname : none ≠ name := by
      rintro rfl
      rw [settled.leases] at hlease
      cases hlease
    exact absurd ((Named.get?_insert_of_ne _ _ hname).trans settled.leases) h

/-- A marshal is taken out of its lease, and then the lease ends. -/
theorem course_detach (hP : P .shift) (hfree : P (.free ref)) (huse : P .use)
    (settled : st.Settled) (as : Name) {name : Name} {m : μ}
    (hlease : st.leases.get? name = some ⟨ref, some m⟩) {reply : Reply φ μ} :
    Course P st { reply, session := some ref, state := { st with
      leases := st.leases.erase name
      marshals := st.marshals.insert as m }.putLease none ⟨ref, none⟩ } := by
  have hnone : (st.leases.erase name).get? none = none :=
    Named.get?_erase_eq_none _ settled.leases name
  have hput : { st with
      leases := st.leases.erase name
      marshals := st.marshals.insert as m }.putLease none ⟨ref, none⟩ = { st with
      leases := (st.leases.erase name).insert none ⟨ref, none⟩
      marshals := st.marshals.insert as m } := by
    rw [putLease, dropLease]
    dsimp only
    rw [hnone]
  have hheld : ref ∈ holds { st with
      leases := (st.leases.erase name).insert none ⟨ref, none⟩
      marshals := st.marshals.insert as m } :=
    List.mem_append_left _ (List.mem_append_right _
      (List.mem_map.mpr ⟨_, List.mem_cons_self .., rfl⟩))
  rw [hput]
  refine ⟨.of_inOrder fun (hst : st.InOrder) => ?_, fun other hother => ?_, fun _ => huse⟩
  · have hperm := hst.leases.values_perm hlease
    have hhands := inHand_of_leases_perm st hperm
    refine .head (y := ⟨[ref], [], { st with
        leases := st.leases.erase name
        marshals := st.marshals.insert as m }⟩) hfree
      (fun _ => .free ref ⟨fun other => ?_, List.Subset.refl _⟩ rfl rfl ?_ fun loan hloan => ?_)
      (fun h => { h.eraseLease name with marshals := h.marshals.insert as m }) ?_
    · simp only [Moment.Minds, mem_holds, (hperm.map (·.session)).mem_iff, List.map_cons,
        List.mem_cons, List.not_mem_nil]
      grind
    · exact (inHand_insert_subperm as m).trans hhands.symm.subperm
    · rcases List.mem_cons.mp ((loans_of_leases_perm st hperm).mem_iff.mp hloan) with heq | hrest
      · exact .inr (congrArg Prod.fst heq)
      · exact .inl hrest
    · refine .trans (y := ⟨[ref], [], { st with
        leases := (st.leases.erase name).insert none ⟨ref, none⟩
        marshals := st.marshals.insert as m }⟩) (leads_insertLease hP none ?_
          (.inr (List.mem_singleton_self _)) ?_) fun loose hsub => ?_
      · exact hnone
      · exact hst.lent _ (Named.mem_values_of_get? hlease)
      · refine leads_hold hP hheld fun other hother hne => ?_
        exact absurd (List.mem_singleton.mp (hsub hother)) hne
  · exact Option.some.inj hother ▸ hheld

theorem course_create (hP : P .use) (as : Name) {f : φ} (known : f ∈ st.factories)
    {reply : Reply φ μ} :
    Course P st { reply, state := { st with
      client := { st.client with world := (Source.create f st.client.world).2 }
      marshals := st.marshals.insert as (Source.create f st.client.world).1 } } := by
  refine ⟨.single hP (fun _ => .create f known ⟨fun _ => Iff.rfl, List.Subset.refl _⟩ rfl rfl
    (inHand_insert_subperm as _) (List.Subset.refl _))
    fun h => { h with marshals := h.marshals.insert as _ }, fun _ hother => ?_, fun _ => hP⟩
  cases hother

theorem course_dropLease (hP : P .shift) (huse : P .use) (name : Name) {reply : Reply φ μ} :
    Course P st
      { reply
        session := if (st.dropLease name).isHeld ref then some ref else none
        state := st.dropLease name } := by
  refine ⟨leads_dropLease hP name fun _ => huse, fun other hother => ?_, fun _ => huse⟩
  by_cases hheld : (st.dropLease name).isHeld ref = true
  · rw [if_pos hheld] at hother
    exact Option.some.inj hother ▸ List.contains_iff_mem.mp hheld
  · rw [if_neg hheld] at hother
    cases hother

/-- A marshal that nobody has any more is forgotten. -/
theorem course_dropMarshal (hP : P .shift) (settled : st.Settled) (name : Name)
    {reply : Reply φ μ} :
    Course P st { reply, state := { st with marshals := st.marshals.erase name } } := by
  have hfewer : (inHand { st with marshals := st.marshals.erase name }).Sublist st.inHand :=
    (st.marshals.values_erase_sublist name).append_right _
  refine .of_leads (.single hP (fun _ => .rehold ⟨fun _ => Iff.rfl, List.Subset.refl _⟩ rfl rfl
    hfewer.subperm (List.Subset.refl _)) fun h => ?_) (fun _ hother => ?_) settled.leases
  · exact { h with marshals := h.marshals.erase name }
  · cases hother

theorem course_close (hP : P .use) (settled : st.Settled) (hheld : ref ∈ st.holds)
    {reply : Reply φ μ} :
    Course P st { reply, session := some ref, state := { st with
      client := (st.client.close ref).2 } } := by
  refine .of_leads (.single hP (fun _ => .close _ ref) fun h => ?_) (fun other hother => ?_)
    settled.leases
  · exact h.setClient (Client.onward_close ref)
  · exact Option.some.inj hother ▸ hheld

theorem course_setRemoteId (hP : P .use) (settled : st.Settled) (hheld : ref ∈ st.holds)
    {s : Session φ μ} (hs : st.client.session? ref = some s) (id : UInt32) {reply : Reply φ μ} :
    Course P st { reply, session := some ref, state := { st with
      client := st.client.update ref (s.setRemoteId id) st.client.world } } := by
  have hshut : s.Shut → (s.setRemoteId id).Shut := fun shut => ⟨shut.closed, shut.empty⟩
  refine .of_leads (.single hP (fun _ => .relabel _ hs id) fun h => ?_) (fun other hother => ?_)
    settled.leases
  · exact h.setClient (Client.onward_update hs hshut _)
  · exact Option.some.inj hother ▸ hheld

/-! ### What is beside the sessions -/

/-- Two states with the same sessions and marshals and the same holders, and with no factory that
is new. -/
structure Aside (st st' : State φ μ ω) : Prop where
  factories : st'.factories ⊆ st.factories
  sessions : st'.client.sessions = st.client.sessions
  world : st'.client.world = st.client.world
  handles : st'.handles = st.handles
  marshals : st'.marshals = st.marshals
  leases : st'.leases = st.leases
  registries : st'.registries = st.registries

omit [Marshal μ ω] [Source φ μ ω] [World ω χ] [Holder μ α] in
theorem Aside.inOrder {st' : State φ μ ω} (aside : st.Aside st') (h : st.InOrder) :
    st'.InOrder where
  handles := aside.handles ▸ h.handles
  marshals := aside.marshals ▸ h.marshals
  leases := aside.leases ▸ h.leases
  registries := aside.registries ▸ h.registries
  tables := aside.registries ▸ h.tables
  lent lease hlease := by
    rw [Client.session?, aside.sessions]
    exact h.lent lease (aside.leases ▸ hlease)

omit [Marshal μ ω] [Source φ μ ω] [World ω χ] [Holder μ α] in
theorem Aside.refl (st : State φ μ ω) : st.Aside st :=
  ⟨List.Subset.refl _, rfl, rfl, rfl, rfl, rfl, rfl⟩

theorem course_aside (hP : P .shift) (settled : st.Settled) (aside : st.Aside o.state)
    (hheld : ∀ ref, o.session = some ref → ref ∈ st.holds) : Course P st o := by
  have hholds : o.state.holds = st.holds := by
    rw [holds, holds, aside.handles, aside.leases, aside.registries]
  have hhands : o.state.inHand = st.inHand := by rw [inHand, inHand, aside.marshals, aside.leases]
  have hloans : o.state.loans = st.loans := by rw [loans, loans, aside.leases]
  refine .of_leads (.single hP (fun _ => .rehold ⟨fun other => ?_, aside.factories⟩ aside.sessions
    aside.world ?_ ?_) aside.inOrder) (fun ref href => ?_) ?_
  · rw [Moment.Minds, Moment.Minds, hholds]
  · show o.state.inHand.Subperm st.inHand
    rw [hhands]
  · exact hloans ▸ List.Subset.refl _
  · exact hholds ▸ hheld ref href
  · rw [aside.leases, settled.leases]

end State

end SessionPool.Script
