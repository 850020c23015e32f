import SessionPool.Proofs.Script.Acts
import SessionPool.Proofs.Script.Frames
import SessionPool.Proofs.Script.Unleased

/-!
# The course of a command

Every command is a course of acts, and the sessions that are loose on the way are all let go before
it ends:

    (nothing loose, st)  →  …  →  (nothing loose, st after the command).

Which kinds of acts there are on the way depends on the command. Most commands only let holders come
and go; one acquires at most, and from one session only.
-/

namespace SessionPool.Script

variable {φ μ ω χ α : Type}

namespace State

/-! ### States in order -/

/-- A state in which no name stands for two things, no registry has two entries for one id, and
every lease is from a session that is there. -/
structure InOrder (st : State φ μ ω) : Prop where
  handles : st.handles.Proper
  marshals : st.marshals.Proper
  leases : st.leases.Proper
  registries : st.registries.Proper
  tables : ∀ r ∈ st.registries.values, (r.table.map (·.1)).Nodup
  lent : ∀ lease ∈ st.leases.values, (st.client.session? lease.session).isSome = true

theorem inOrder_start (client : Client φ μ ω) : InOrder ({ client } : State φ μ ω) where
  handles := Named.proper_empty
  marshals := Named.proper_empty
  leases := Named.proper_empty
  registries := Named.proper_empty
  tables := by simp [Named.values]
  lent := by simp [Named.values]

theorem InOrder.setClient {st : State φ μ ω} (h : st.InOrder) {client : Client φ μ ω}
    (onward : st.client.Onward client) : { st with client }.InOrder :=
  { h with lent := fun lease hlease => onward.isSome (h.lent lease hlease) }

theorem mem_holds {st : State φ μ ω} {ref : SessionRef} :
    ref ∈ st.holds ↔ ref ∈ st.handles.values ∨ ref ∈ st.leases.values.map (·.session) ∨
      ref ∈ st.registries.values.flatMap fun r => r.table.map (·.2) := by
  rw [holds, List.mem_append, List.mem_append, or_assoc]

end State

/-! ### Courses -/

variable [Marshal μ ω] [Source φ μ ω] [World ω χ] [Holder μ α]

/-- Acts lead from one moment to another, in which some sessions may not be loose any more. -/
def Leads (P : Tag φ χ α → Prop) (x y : Moment φ μ ω) : Prop :=
  x.state.InOrder → y.state.InOrder ∧ ∃ loose, loose ⊆ y.loose ∧ Acts P x { y with loose }

namespace Leads

variable {P : Tag φ χ α → Prop} {x y z : Moment φ μ ω}

theorem refl {loose loose' : List SessionRef} {coming : List μ} {st : State φ μ ω}
    (hsub : loose ⊆ loose') : Leads P ⟨loose, coming, st⟩ ⟨loose', coming, st⟩ :=
  fun h => ⟨h, loose, hsub, .refl⟩

theorem trans (h : Leads P x y)
    (h' : ∀ loose, loose ⊆ y.loose → Leads P { y with loose } z) : Leads P x z := by
  intro hx
  obtain ⟨hy, loose, hsub, hacts⟩ := h hx
  obtain ⟨hz, loose', hsub', hacts'⟩ := h' loose hsub hy
  exact ⟨hz, loose', hsub', hacts.trans hacts'⟩

/-- On the way the state can be taken to be in order. -/
theorem of_inOrder (h : x.state.InOrder → Leads P x y) : Leads P x y := fun hx => h hx hx

/-- One act, and what it leads to. -/
theorem head {tag : Tag φ χ α} (hP : P tag) (hact : x.state.InOrder → Act tag x y)
    (horder : x.state.InOrder → y.state.InOrder) (h : Leads P y z) : Leads P x z := by
  intro hx
  obtain ⟨hz, loose, hsub, hacts⟩ := h (horder hx)
  exact ⟨hz, loose, hsub, .head ⟨tag, hP, hact hx⟩ hacts⟩

theorem single {tag : Tag φ χ α} (hP : P tag) (hact : x.state.InOrder → Act tag x y)
    (horder : x.state.InOrder → y.state.InOrder) : Leads P x y :=
  head hP hact horder (refl (List.Subset.refl _))

end Leads

namespace State

variable {P : Tag φ χ α → Prop} {loose : List SessionRef} {coming : List μ} {st : State φ μ ω}
  {name : Name} {ref : SessionRef}

/-! ### Letting go -/

omit [Source φ μ ω] [World ω χ] [Holder μ α] in
theorem InOrder.letGo (h : st.InOrder) (ref : SessionRef) : (st.letGo ref).InOrder := by
  rw [State.letGo]
  split
  · exact h
  · exact h.setClient (Client.onward_close ref)

theorem leads_letGo (hP : P .shift) {loose' : List SessionRef} (ref : SessionRef)
    (hsub : ∀ other ∈ loose, other ≠ ref → other ∈ loose') :
    Leads P ⟨loose, coming, st⟩ ⟨loose', coming, st.letGo ref⟩ := by
  refine .head hP (fun _ => .letGo _ ref) (fun h => h.letGo ref)
    (.refl fun other hother => ?_)
  obtain ⟨hloose, hne⟩ := List.mem_filter.mp hother
  exact hsub other hloose (bne_iff_ne.mp hne)

/-- A session that is held need not be loose. -/
theorem leads_hold (hP : P .shift) {loose' : List SessionRef} (hheld : ref ∈ st.holds)
    (hsub : ∀ other ∈ loose, other ≠ ref → other ∈ loose') :
    Leads P ⟨loose, coming, st⟩ ⟨loose', coming, st⟩ := by
  have h : Leads P ⟨loose, coming, st⟩ ⟨loose', coming, st.letGo ref⟩ := leads_letGo hP ref hsub
  rwa [letGo_of_held (List.contains_iff_mem.mpr hheld)] at h

theorem leads_letGoEach (hP : P .shift) (refs : List SessionRef) {loose' : List SessionRef}
    (hsub : ∀ other ∈ loose, other ∉ refs → other ∈ loose') :
    Leads P ⟨loose, coming, st⟩ ⟨loose', coming, refs.foldl letGo st⟩ := by
  induction refs generalizing st loose with
  | nil => exact .refl fun other hother => hsub other hother List.not_mem_nil
  | cons ref refs ih =>
    refine .trans (y := ⟨loose.filter (· != ref), coming, st.letGo ref⟩)
      (leads_letGo hP ref ?_) fun loose₁ hsub₁ => ih ?_
    · intro other hother hne
      exact List.mem_filter.mpr ⟨hother, bne_iff_ne.mpr hne⟩
    · intro other hother hnot
      obtain ⟨hloose, hne⟩ := List.mem_filter.mp (hsub₁ hother)
      refine hsub other hloose fun hmem => ?_
      rcases List.mem_cons.mp hmem with heq | hmem
      · exact bne_iff_ne.mp hne heq
      · exact hnot hmem

/-! ### Handles -/

omit [Marshal μ ω] [Source φ μ ω] [World ω χ] [Holder μ α] in
theorem InOrder.setHandles (h : st.InOrder) {handles : Named SessionRef}
    (proper : handles.Proper) : { st with handles }.InOrder :=
  { h with handles := proper }

theorem leads_dropHandle (hP : P .shift) (name : Name) :
    Leads P ⟨loose, coming, st⟩ ⟨loose, coming, st.dropHandle name⟩ := by
  rw [dropHandle]
  cases hget : st.handles.get? name with
  | none => exact .refl (List.Subset.refl _)
  | some ref =>
    refine .head (y := ⟨ref :: loose, coming, { st with handles := st.handles.erase name }⟩) hP
      (fun h => .rehold ⟨fun other => ?_, List.Subset.refl _⟩ rfl rfl (.refl _)
        (List.Subset.refl _)) (fun h => h.setHandles (h.handles.erase name))
      (leads_letGo hP ref ?_)
    · have hperm := h.handles.values_perm hget
      simp only [Moment.Minds, mem_holds, hperm.mem_iff, List.mem_cons]
      grind
    · intro other hother hne
      exact (List.mem_cons.mp hother).resolve_left hne

/-- A further handle can be given to a session that is minded already. -/
theorem leads_putHandle (hP : P .shift) (name : Name)
    (hminded : ref ∈ st.holds ∨ ref ∈ loose) :
    Leads P ⟨loose, coming, st⟩ ⟨loose, coming, st.putHandle name ref⟩ := by
  rw [mem_holds] at hminded
  simp only [putHandle]
  cases hget : st.handles.get? name with
  | none =>
    refine .single hP (fun h => .rehold ⟨fun other => ?_, List.Subset.refl _⟩ rfl rfl (.refl _)
      (List.Subset.refl _)) (fun h => h.setHandles (h.handles.insert name ref))
    simp only [Moment.Minds, mem_holds, Named.values_insert, Named.erase_eq_self hget,
      List.mem_cons]
    grind
  | some old =>
    refine .head (y := ⟨old :: loose, coming, { st with handles := st.handles.insert name ref }⟩)
      hP (fun h => .rehold ⟨fun other => ?_, List.Subset.refl _⟩ rfl rfl (.refl _)
        (List.Subset.refl _)) (fun h => h.setHandles (h.handles.insert name ref))
      (leads_letGo hP old ?_)
    · have hperm := h.handles.values_perm hget
      simp only [Moment.Minds, mem_holds, Named.values_insert, hperm.mem_iff, List.mem_cons]
        at hminded ⊢
      grind
    · intro other hother hne
      exact (List.mem_cons.mp hother).resolve_left hne

/-! ### Leases -/

section Hands

omit [Marshal μ ω] [Source φ μ ω] [World ω χ] [Holder μ α]

variable {leases rest : Named (Lease μ)} {lease : Lease μ}

theorem inHand_of_leases_perm (st : State φ μ ω)
    (hperm : leases.values.Perm (lease :: rest.values)) :
    { st with leases }.inHand.Perm (lease.marshal.toList ++ { st with leases := rest }.inHand) := by
  have hmarshals := hperm.filterMap (·.marshal)
  rw [inHand, inHand]
  dsimp only
  cases hm : lease.marshal with
  | none =>
    rw [List.filterMap_cons_none hm] at hmarshals
    exact hmarshals.append_left _
  | some m =>
    rw [List.filterMap_cons_some hm] at hmarshals
    exact (hmarshals.append_left _).trans List.perm_middle

theorem loans_of_leases_perm (st : State φ μ ω)
    (hperm : leases.values.Perm (lease :: rest.values)) :
    { st with leases }.loans.Perm
      ((lease.marshal.map fun m => (lease.session, m)).toList ++
        { st with leases := rest }.loans) := by
  have hloans := hperm.filterMap fun lease => lease.marshal.map fun m => (lease.session, m)
  rw [loans, loans]
  dsimp only
  refine hloans.trans (.of_eq ?_)
  cases hm : lease.marshal with
  | none => rw [List.filterMap_cons_none (by rw [hm]; rfl)]; rfl
  | some m => rw [List.filterMap_cons_some (by rw [hm]; rfl)]; rfl

theorem InOrder.eraseLease (h : st.InOrder) (name : Name) :
    { st with leases := st.leases.erase name }.InOrder :=
  { h with
    leases := h.leases.erase name
    lent := fun lease hlease => h.lent lease ((st.leases.values_erase_sublist name).subset hlease) }

/-- A session that is used goes on having its factory. -/
theorem factories_update {s s' : Session φ μ} (hs : st.client.session? ref = some s)
    (hfactory : s'.factory = s.factory) (w : ω) :
    { st with client := st.client.update ref s' w }.factories ⊆ st.factories := by
  intro f hf
  rcases List.mem_append.mp hf with hf | hf
  · exact List.mem_append_left _ hf
  · refine List.mem_append_right _ ?_
    obtain ⟨t, ht, rfl⟩ := List.mem_map.mp hf
    rcases List.mem_or_eq_of_mem_set ht with ht | rfl
    · exact List.mem_map_of_mem ht
    · exact List.mem_map.mpr ⟨s, List.mem_of_getElem? hs, hfactory.symm⟩

end Hands

/-- A lease ends with a release, if there is a marshal in it. -/
theorem leads_dropLease (hP : P .shift) (name : Name)
    (huse : st.leases.get? name ≠ none → P .use) :
    Leads P ⟨loose, coming, st⟩ ⟨loose, coming, st.dropLease name⟩ := by
  refine .of_inOrder fun (hst : st.InOrder) => ?_
  rw [dropLease]
  cases hget : st.leases.get? name with
  | none => exact .refl (List.Subset.refl _)
  | some lease =>
    obtain ⟨ref, marshal⟩ := lease
    dsimp only
    have hperm := hst.leases.values_perm hget
    have hloans := loans_of_leases_perm st hperm
    have hhands := inHand_of_leases_perm st hperm
    have hminds (other : SessionRef) (client : Client φ μ ω) :
        (⟨ref :: loose, coming, { st with leases := st.leases.erase name, client }⟩ :
          Moment φ μ ω).Minds other ↔ (⟨loose, coming, st⟩ : Moment φ μ ω).Minds other := by
      simp only [Moment.Minds, mem_holds, (hperm.map (·.session)).mem_iff, List.map_cons,
        List.mem_cons]
      grind
    have hsub : ∀ other ∈ ref :: loose, other ≠ ref → other ∈ loose :=
      fun other hother hne => (List.mem_cons.mp hother).resolve_left hne
    cases marshal with
    | none =>
      refine .head (y := ⟨ref :: loose, coming, { st with leases := st.leases.erase name }⟩) hP
        (fun _ => .rehold ⟨fun other => hminds other st.client, List.Subset.refl _⟩ rfl rfl ?_ ?_)
        (·.eraseLease name) (leads_letGo hP ref hsub)
      · exact (hhands.append_left coming).symm.subperm
      · exact fun loan hloan => hloans.mem_iff.mp hloan
    | some m =>
      obtain ⟨s, hs⟩ :=
        Option.isSome_iff_exists.mp (hst.lent _ (Named.mem_values_of_get? hget))
      have honward := Client.onward_update hs (·.release m st.client.world)
        (s.release m st.client.world).2.2
      have huse : P .use := huse (by simp [hget])
      rw [Lease.finish_of_some hs]
      refine .head (y := ⟨ref :: loose, coming, { st with
          leases := st.leases.erase name
          client := st.client.update ref (s.release m st.client.world).2.1
            (s.release m st.client.world).2.2 }⟩) huse
        (fun _ => .giveBack ⟨fun other => hminds other _,
          factories_update hs (s.release_factory m _) _⟩ hs rfl ?_ fun loan hloan => ?_)
        (fun h => (h.eraseLease name).setClient honward) (leads_letGo hP ref hsub)
      · exact ((hhands.append_left coming).trans List.perm_middle).symm.subperm
      · rcases List.mem_cons.mp (hloans.mem_iff.mp hloan) with heq | hrest
        · exact .inr heq
        · exact .inl hrest

/-- A lease is entered under a name that is free, with the marshal that was on its way to it. -/
theorem leads_insertLease (hP : P .shift) {as : Name} (marshal : Option μ)
    (hfree : st.leases.get? as = none) (hminded : ref ∈ st.holds ∨ ref ∈ loose)
    (hthere : (st.client.session? ref).isSome = true) :
    Leads P ⟨loose, marshal.toList, st⟩
      ⟨loose, [], { st with leases := st.leases.insert as ⟨ref, marshal⟩ }⟩ := by
  have hperm : (st.leases.insert as ⟨ref, marshal⟩).values.Perm
      (⟨ref, marshal⟩ :: st.leases.values) := by
    rw [Named.values_insert, Named.erase_eq_self hfree]
  have hloans := loans_of_leases_perm st hperm
  have hhands := inHand_of_leases_perm st hperm
  refine .single hP (fun h => .rehold ⟨fun other => ?_, List.Subset.refl _⟩ rfl rfl hhands.subperm
    fun loan hloan => hloans.mem_iff.mpr (List.mem_append_right _ hloan))
    fun h => { h with leases := h.leases.insert as _, lent := fun lease hlease => ?_ }
  · simp only [Moment.Minds, mem_holds, (hperm.map (·.session)).mem_iff, List.map_cons,
      List.mem_cons] at hminded ⊢
    grind
  · rcases List.mem_cons.mp (hperm.mem_iff.mp hlease) with rfl | hlease
    · exact hthere
    · exact h.lent lease hlease

/-! ### Registries -/

omit [Marshal μ ω] [Source φ μ ω] [World ω χ] [Holder μ α] in
theorem InOrder.setRegistry (h : st.InOrder) (name : Name) {r : Registry φ}
    (hnodup : (r.table.map (·.1)).Nodup) :
    { st with registries := st.registries.insert name r }.InOrder :=
  { h with
    registries := h.registries.insert name r
    tables := by
      intro r' hr'
      rcases List.mem_cons.mp hr' with rfl | hr'
      · exact hnodup
      · exact h.tables r' ((st.registries.values_erase_sublist name).subset hr') }

omit [Marshal μ ω] [Source φ μ ω] [World ω χ] [Holder μ α] in
theorem InOrder.eraseRegistry (h : st.InOrder) (name : Name) :
    { st with registries := st.registries.erase name }.InOrder :=
  { h with
    registries := h.registries.erase name
    tables := fun r hr => h.tables r ((st.registries.values_erase_sublist name).subset hr) }

omit [Marshal μ ω] [Source φ μ ω] [World ω χ] [Holder μ α] in
theorem mem_factories_of_registry {r : Registry φ} (hr : r ∈ st.registries.values) :
    r.factory ∈ st.factories :=
  List.mem_append_left _ (List.mem_append_right _ (List.mem_map_of_mem hr))

omit [Marshal μ ω] [Source φ μ ω] [World ω χ] [Holder μ α] in
theorem factories_setRegistries {registries : Named (Registry φ)}
    (h : ∀ r ∈ registries.values, r.factory ∈ st.factories) :
    { st with registries }.factories ⊆ st.factories := by
  intro f hf
  rcases List.mem_append.mp hf with hf | hf
  · rcases List.mem_append.mp hf with hf | hf
    · exact List.mem_append_left _ (List.mem_append_left _ hf)
    · obtain ⟨r, hr, rfl⟩ := List.mem_map.mp hf
      exact h r hr
  · exact List.mem_append_right _ hf

/-- One registry changes; what it lets go of is loose, and what it takes in may have been. -/
theorem leads_changeRegistry (hP : P .shift) {name : Name} {r r' : Registry φ}
    (hr : st.registries.get? name = some r) (hfactory : r'.factory = r.factory)
    {loose' : List SessionRef} {z : Moment φ μ ω}
    (hnodup : (r.table.map (·.1)).Nodup → (r'.table.map (·.1)).Nodup)
    (hminds : (r.table.map (·.1)).Nodup → ∀ other,
      other ∈ r'.table.map (·.2) ∨ other ∈ loose' ↔ other ∈ r.table.map (·.2) ∨ other ∈ loose)
    (h : Leads P ⟨loose', coming, { st with registries := st.registries.insert name r' }⟩ z) :
    Leads P ⟨loose, coming, st⟩ z := by
  refine .of_inOrder fun (hst : st.InOrder) => ?_
  have hmem := Named.mem_values_of_get? hr
  have hperm := hst.registries.values_perm hr
  have hminds := hminds (hst.tables r hmem)
  refine .head (y := ⟨loose', coming, { st with registries := st.registries.insert name r' }⟩) hP
    (fun _ => .rehold ⟨fun other => ?_, factories_setRegistries fun r₁ hr₁ => ?_⟩ rfl rfl (.refl _)
      (List.Subset.refl _)) (fun _ => hst.setRegistry name (hnodup (hst.tables r hmem))) h
  · have hother := hminds other
    simp only [Moment.Minds, mem_holds, Named.values_insert, (hperm.flatMap_right _).mem_iff,
      List.flatMap_cons, List.mem_append]
    grind
  · rcases List.mem_cons.mp hr₁ with rfl | hr₁
    · rw [hfactory]
      exact mem_factories_of_registry hmem
    · exact mem_factories_of_registry ((st.registries.values_erase_sublist name).subset hr₁)

theorem leads_dropRegistry (hP : P .shift) (name : Name) :
    Leads P ⟨loose, coming, st⟩ ⟨loose, coming, st.dropRegistry name⟩ := by
  refine .of_inOrder fun (hst : st.InOrder) => ?_
  rw [dropRegistry]
  cases hget : st.registries.get? name with
  | none => exact .refl (List.Subset.refl _)
  | some r =>
    have hperm := hst.registries.values_perm hget
    have herased := (st.registries.values_erase_sublist name).subset
    refine .head (y := ⟨r.table.map (·.2) ++ loose, coming,
        { st with registries := st.registries.erase name }⟩) hP
      (fun _ => .rehold ⟨fun other => ?_,
        factories_setRegistries fun r hr => mem_factories_of_registry (herased hr)⟩
        rfl rfl (.refl _) (List.Subset.refl _))
      (·.eraseRegistry name) (leads_letGoEach hP _ fun other hother hnot => ?_)
    · simp only [Moment.Minds, mem_holds, (hperm.flatMap_right _).mem_iff, List.flatMap_cons,
        List.mem_append]
      grind
    · refine (List.mem_append.mp hother).resolve_left fun hlisted => hnot ?_
      exact Registry.mem_listed (hst.tables r (Named.mem_values_of_get? hget)) hlisted

/-- A new registry has no sessions yet. -/
theorem leads_putRegistry (hP : P .shift) (name : Name) {r : Registry φ} (hempty : r.table = [])
    (hknown : r.factory ∈ st.sources.values) :
    Leads P ⟨loose, coming, st⟩ ⟨loose, coming, st.putRegistry name r⟩ := by
  refine (leads_dropRegistry hP name).trans fun loose₁ hsub => ?_
  have hnone : (st.dropRegistry name).registries.get? name = none := by simp
  have hknown : r.factory ∈ (st.dropRegistry name).factories := by
    refine List.mem_append_left _ (List.mem_append_left _ (List.mem_append_left _ ?_))
    rwa [dropRegistry_sources]
  refine .trans (y := ⟨loose₁, coming, st.putRegistry name r⟩) (.single hP
    (fun _ => .rehold ⟨fun other => ?_, factories_setRegistries fun r' hr' => ?_⟩ rfl rfl
      (.refl _) (List.Subset.refl _)) fun h => h.setRegistry name (by simp [hempty]))
    fun loose₂ hsub₂ => .refl (List.Subset.trans hsub₂ hsub)
  · simp only [putRegistry, Moment.Minds, mem_holds, Named.values_insert,
      Named.erase_eq_self hnone, List.flatMap_cons, hempty, List.map_nil, List.nil_append]
  · rcases List.mem_cons.mp hr' with rfl | hr'
    · exact hknown
    · exact mem_factories_of_registry (((Named.values_erase_sublist _ name).subset) hr')

/-! ### The end of a command -/

theorem leads_clearUnnamed (hP : P .shift) (huse : st.leases.get? none ≠ none → P .use) :
    Leads P ⟨loose, coming, st⟩ ⟨loose, [], st.clearUnnamed⟩ := by
  refine (leads_dropLease hP none huse).trans fun loose₁ hsub₁ => ?_
  refine (leads_dropHandle hP none).trans fun loose₂ hsub₂ => ?_
  refine (leads_dropRegistry hP none).trans fun loose₃ hsub₃ => ?_
  refine .trans (y := ⟨loose₃, [], st.clearUnnamed⟩) (.single hP
    (fun _ => .rehold ⟨fun _ => Iff.rfl, ?_⟩ rfl rfl ?_ (List.Subset.refl _))
    fun h => { h with marshals := h.marshals.erase none })
    fun loose₄ hsub₄ => .refl (List.Subset.trans hsub₄
      (List.Subset.trans hsub₃ (List.Subset.trans hsub₂ hsub₁)))
  · refine List.Sublist.subset (.append_right (.append_right (.append ?_ (.map _ ?_)) _) _)
    · exact Named.values_erase_sublist _ none
    · exact Named.values_erase_sublist _ none
  · have hfewer : st.clearUnnamed.inHand.Sublist
        (((st.dropLease none).dropHandle none).dropRegistry none).inHand :=
      .append_right (Named.values_erase_sublist _ none) _
    exact (hfewer.trans (List.sublist_append_right coming _)).subperm

/-- What a command leads to in the end, when all that it leaves unnamed is dropped. -/
theorem leads_settle (hP : P .shift) {o : Outcome φ μ ω}
    (huse : o.state.leases.get? none ≠ none → P .use)
    (hheld : ∀ ref, o.session = some ref → ref ∈ o.state.holds) :
    Leads P ⟨loose, coming, o.state⟩ ⟨loose, [], (reported o).clearUnnamed⟩ := by
  have hreported : Leads P ⟨loose, coming, o.state⟩ ⟨loose, coming, reported o⟩ := by
    rw [reported]
    split
    · exact leads_dropLease hP none huse
    · next ref hsession =>
      refine (leads_putHandle hP none (.inl (hheld ref hsession))).trans fun loose₁ hsub => ?_
      refine (leads_dropLease hP none ?_).trans fun loose₂ hsub₂ => ?_
      · rwa [putHandle_leases]
      · exact .refl (List.Subset.trans hsub₂ hsub)
  refine hreported.trans fun loose₁ hsub => ?_
  refine (leads_clearUnnamed hP fun h => ?_).trans fun loose₂ hsub₂ => ?_
  · rw [reported_leases, Named.get?_erase_self] at h
    exact absurd rfl h
  · exact .refl (List.Subset.trans hsub₂ hsub)

end State

end SessionPool.Script
