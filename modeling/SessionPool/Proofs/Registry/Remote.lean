import SessionPool.Proofs.Registry.Surroundings

/-!
# Finding sessions by their remote ids

A daemon knows a session by a domain and a remote id, of which the session is told only after it was
made, perhaps more than once. The history of a registry says which sessions qualify for the two:
those that stand for an id, were created from the domain, and were told the remote id last. In
whichever order the table is gone through,

    findRemote? listing client domainId remoteId = some ref  ⟹  Qualifies st domainId remoteId ref,

and a session is found if any qualifies.
-/

namespace SessionPool

variable {φ μ ω : Type}

namespace Client

/-- A session is told its remote id. -/
def Change.tell (ref : SessionRef) (id : UInt32) : Change φ μ ω :=
  ⟨(·.tell ref id), (·.keeps_tell ref id)⟩

/-- Something happens that changes pools at most. -/
def Change.undergo [Marshal μ ω] [Source φ μ ω] (h : Happening φ μ ω) : Change φ μ ω :=
  ⟨(·.undergo h), fun c => (c.repooled_undergo h).keeps⟩

end Client

namespace Registry

/-! ### Remote ids in histories -/

/-- What is done with a registry and its sessions, and what happens around it. -/
inductive Act (φ μ ω : Type) where
  | create (domain : Domain)
  | remove (id : UInt64)
  | closeAll
  | replaceAllocator (a : AllocatorRef)
  | tell (ref : SessionRef) (id : UInt32)
  | happen (happening : Client.Happening φ μ ω)

/-- A registry in use. Besides its history, which domain each of its sessions was created from, and
the remote ids that sessions were told, the last one first. -/
structure Known (φ μ ω : Type) extends InUse φ μ ω where
  origins : List (SessionRef × Domain) := []
  told : List (SessionRef × UInt32) := []

namespace Known

variable [Marshal μ ω] [Source φ μ ω]

/-- Does one thing and writes it down. Only a session that is there can be told anything. -/
def step (st : Known φ μ ω) : Act φ μ ω → Known φ μ ω
  | .create domain =>
    { st with
      toInUse := st.toInUse.step (.create domain)
      origins := ((st.registry.create domain st.client).1, domain) :: st.origins }
  | .remove id => { st with toInUse := st.toInUse.step (.remove id) }
  | .closeAll => { st with toInUse := st.toInUse.step .closeAll }
  | .replaceAllocator a => { st with toInUse := st.toInUse.step (.replaceAllocator a) }
  | .tell ref id =>
    match st.client.session? ref with
    | none => st
    | some _ =>
      { st with
        toInUse := st.toInUse.step (.meanwhile (.tell ref id))
        told := (ref, id) :: st.told }
  | .happen h => { st with toInUse := st.toInUse.step (.meanwhile (.undergo h)) }

/-- Does one thing after the other. -/
def run (st : Known φ μ ω) (acts : List (Act φ μ ω)) : Known φ μ ω := acts.foldl step st

end Known

/-- The remote id that a session was told last, which is 0 if it was told none. -/
def Known.lastTold (st : Known φ μ ω) (ref : SessionRef) : UInt32 := (st.told.lookup ref).getD 0

/-- A session that the daemon knows by a domain and a remote id, as far as the history tells. -/
structure Qualifies (st : Known φ μ ω) (domainId remoteId : UInt32) (ref : SessionRef) : Prop where
  registered : ∃ id, Stands st.history id ref
  origin : ∃ domain, (ref, domain) ∈ st.origins ∧ domain.remoteDomainId = domainId
  told : st.lastTold ref = remoteId

/-- What is found by remote ids, in any order of the table. -/
structure Findable [Marshal μ ω] [Source φ μ ω] (st : Known φ μ ω) : Prop where
  qualifies : ∀ (order : Order) domainId remoteId ref,
    findRemote? (order.arrange st.registry.table) st.client domainId remoteId = some ref →
      Qualifies st domainId remoteId ref
  get : ∀ (order : Order) domainId remoteId ref,
    findRemote? (order.arrange st.registry.table) st.client domainId remoteId = some ref →
      ∃ s, st.client.session? ref = some s ∧ st.registry.get s.localId = .ok ref
  exists_iff : ∀ (order : Order) domainId remoteId,
    (∃ ref, findRemote? (order.arrange st.registry.table) st.client domainId remoteId = some ref) ↔
      ∃ ref, Qualifies st domainId remoteId ref
  unique : ∀ (order : Order) domainId remoteId ref, Qualifies st domainId remoteId ref →
    (∀ other, Qualifies st domainId remoteId other → other = ref) →
      findRemote? (order.arrange st.registry.table) st.client domainId remoteId = some ref
  /-- No creation is missing in what is known, and a session that was just made was told nothing. -/
  creates : ∀ domain, ∃ id ref, st.Creates domain id ref ∧
    Qualifies (st.step (.create domain)) domain.remoteDomainId 0 ref

/-! ### What every act keeps -/

/-- What is known of the sessions is so: every registered session has an origin, the sessions with
an origin have the domain and the remote id that are known of them, and nobody else was told
anything. -/
structure Traced (st : Known φ μ ω) : Prop where
  sound : Sound st.toInUse
  listed : ∀ entry ∈ st.registry.table, ∃ domain, (entry.2, domain) ∈ st.origins
  origin : ∀ entry ∈ st.origins, ∃ s, st.client.session? entry.1 = some s ∧
    s.domain = entry.2 ∧ s.remoteId = st.lastTold entry.1
  told : ∀ entry ∈ st.told, (st.client.session? entry.1).isSome = true

section

variable [Marshal μ ω] (r : Registry φ) (c : Client φ μ ω)

theorem repooled_remove (id : UInt64) : c.Repooled (r.remove id c).2.2 := by
  rw [remove]
  split
  · exact .refl c
  · exact c.repooled_close _

theorem repooled_removeEach (ids : List UInt64) : c.Repooled (removeEach ids r c).2.2 := by
  induction ids generalizing r c with
  | nil => exact .refl c
  | cons id ids ih =>
    rw [removeEach_cons]
    exact (r.repooled_remove c id).trans (ih _ _)

theorem repooled_closeAll : c.Repooled (r.closeAll c).2.2 := r.repooled_removeEach c _

end

namespace Traced

variable {st : Known φ μ ω}

/-- Nothing happens but that pools change and entries are taken out. -/
theorem of_repooled (h : Traced st) {st' : InUse φ μ ω} (sound : Sound st')
    (hclient : st.client.Repooled st'.client)
    (htable : ∀ entry ∈ st'.registry.table, entry ∈ st.registry.table) :
    Traced { st with toInUse := st' } where
  sound := sound
  listed entry hentry := h.listed entry (htable entry hentry)
  origin entry hentry := by
    obtain ⟨s, hs, hdomain, hremote⟩ := h.origin entry hentry
    obtain ⟨pool, hs'⟩ := hclient _ s hs
    exact ⟨_, hs', hdomain, hremote⟩
  told entry hentry := by
    obtain ⟨s, hs⟩ := Option.isSome_iff_exists.mp (h.told entry hentry)
    obtain ⟨pool, hs'⟩ := hclient _ s hs
    rw [hs']
    rfl

theorem lastTold_of_new (h : Traced st) {ref : SessionRef} (hnew : st.client.session? ref = none) :
    st.lastTold ref = 0 := by
  have hnone : st.told.lookup ref = none := by
    cases hlookup : st.told.lookup ref with
    | none => rfl
    | some id =>
      have hsome := h.told _ (SessionPool.mem_of_lookup hlookup)
      rw [hnew] at hsome
      cases hsome
  rw [Known.lastTold, hnone]
  rfl

variable [Marshal μ ω] [Source φ μ ω]

theorem create (h : Traced st) (domain : Domain) : Traced (st.step (.create domain)) where
  sound := h.sound.create domain
  listed entry hentry := by
    have hentry : entry ∈ (st.registry.create domain st.client).2.1.table := hentry
    rw [create_eq] at hentry
    rcases List.mem_append.mp hentry with hold | hnew
    · obtain ⟨origin, horigin⟩ := h.listed entry (List.mem_of_mem_filter hold)
      exact ⟨origin, List.mem_cons_of_mem _ horigin⟩
    · rw [List.mem_singleton.mp hnew]
      exact ⟨domain, List.mem_cons_self⟩
  origin entry hentry := by
    rcases List.mem_cons.mp hentry with rfl | hold
    · refine ⟨_, Client.session?_build (st.registry.builder domain), rfl, ?_⟩
      exact (h.lastTold_of_new (Client.session?_build_new (st.registry.builder domain))).symm
    · obtain ⟨s, hs, hdomain, hremote⟩ := h.origin entry hold
      exact ⟨s, Client.session?_build_of_some hs _, hdomain, hremote⟩
  told entry hentry := by
    obtain ⟨s, hs⟩ := Option.isSome_iff_exists.mp (h.told entry hentry)
    show ((st.client.build (st.registry.builder domain)).2.session? entry.1).isSome = true
    rw [Client.session?_build_of_some hs]
    rfl

theorem tell (h : Traced st) (ref : SessionRef) (id : UInt32) :
    Traced (st.step (.tell ref id)) := by
  rw [Known.step]
  cases hs : st.client.session? ref with
  | none => exact h
  | some s =>
    have htell := Client.tell_of_some hs id
    refine {
      sound := h.sound.step (.meanwhile (.tell ref id))
      listed := h.listed
      origin := fun entry hentry => ?origin
      told := fun entry hentry => ?told }
    case origin =>
      obtain ⟨t, ht, hdomain, hremote⟩ := h.origin entry hentry
      show ∃ s, (st.client.tell ref id).session? entry.1 = some s ∧ _ ∧
        _ = (((ref, id) :: st.told).lookup entry.1).getD 0
      rw [htell, List.lookup_cons]
      by_cases href : entry.1 = ref
      · rw [href] at ht ⊢
        obtain rfl : s = t := Option.some.inj (hs.symm.trans ht)
        refine ⟨_, Client.session?_update_self hs _ _, hdomain, ?_⟩
        rw [BEq.rfl]
        rfl
      · rw [Client.session?_update_of_ne href, beq_false_of_ne href]
        exact ⟨t, ht, hdomain, hremote⟩
    case told =>
      show ((st.client.tell ref id).session? entry.1).isSome = true
      rw [htell]
      by_cases href : entry.1 = ref
      · rw [href, Client.session?_update_self hs]
        rfl
      · rw [Client.session?_update_of_ne href]
        rcases List.mem_cons.mp hentry with rfl | hold
        · exact absurd rfl href
        · exact h.told entry hold

theorem step (h : Traced st) (act : Act φ μ ω) : Traced (st.step act) := by
  cases act with
  | create domain => exact h.create domain
  | remove id =>
    refine h.of_repooled (h.sound.remove id) (st.registry.repooled_remove st.client id) ?_
    intro entry hentry
    have hentry : entry ∈ (st.registry.remove id st.client).2.1.table := hentry
    rw [remove_registry] at hentry
    exact List.mem_of_mem_filter hentry
  | closeAll =>
    refine h.of_repooled (h.sound.step .closeAll) (st.registry.repooled_closeAll st.client) ?_
    intro entry hentry
    have hentry : entry ∈ (st.registry.closeAll st.client).2.1.table := hentry
    rw [closeAll_table] at hentry
    cases hentry
  | replaceAllocator a =>
    exact h.of_repooled (h.sound.step (.replaceAllocator a)) (.refl _) fun _ hentry => hentry
  | tell ref id => exact h.tell ref id
  | happen happening =>
    exact h.of_repooled (h.sound.step (.meanwhile (.undergo happening)))
      (st.client.repooled_undergo happening) fun _ hentry => hentry

theorem run (h : Traced st) (acts : List (Act φ μ ω)) : Traced (st.run acts) := by
  induction acts generalizing st with
  | nil => exact h
  | cons act acts ih => exact ih (h.step act)

end Traced

/-! ### What is found -/

theorem findRemote?_eq_some {listing : List Registration} {c : Client φ μ ω}
    {domainId remoteId : UInt32} {ref : SessionRef}
    (h : findRemote? listing c domainId remoteId = some ref) :
    ∃ id, (id, ref) ∈ listing ∧ isRemote c domainId remoteId ref = true := by
  obtain ⟨entry, hfound, rfl⟩ := Option.map_eq_some_iff.mp h
  have hremote := List.find?_some hfound
  exact ⟨entry.1, List.mem_of_find?_eq_some hfound, hremote⟩

theorem exists_findRemote? {listing : List Registration} {c : Client φ μ ω}
    {domainId remoteId : UInt32} {id : UInt64} {ref : SessionRef} (hentry : (id, ref) ∈ listing)
    (hremote : isRemote c domainId remoteId ref = true) :
    ∃ other, findRemote? listing c domainId remoteId = some other := by
  have hsome : (listing.find? fun entry => isRemote c domainId remoteId entry.2).isSome = true :=
    List.find?_isSome.mpr ⟨(id, ref), hentry, hremote⟩
  obtain ⟨entry, hfound⟩ := Option.isSome_iff_exists.mp hsome
  exact ⟨entry.2, Option.map_eq_some_iff.mpr ⟨entry, hfound, rfl⟩⟩

namespace Traced

variable {st : Known φ μ ω} {domainId remoteId : UInt32} {id : UInt64} {ref : SessionRef}

theorem stands_iff (h : Traced st) : Stands st.history id ref ↔ (id, ref) ∈ st.registry.table := by
  rw [← h.sound.stands]
  exact ⟨SessionPool.mem_of_lookup, lookup_of_mem h.sound.nodup⟩

/-- A registered session qualifies if the client knows it so. -/
theorem qualifies_iff (h : Traced st) (hentry : (id, ref) ∈ st.registry.table) :
    Qualifies st domainId remoteId ref ↔ isRemote st.client domainId remoteId ref = true := by
  obtain ⟨domain, horigin⟩ := h.listed _ hentry
  obtain ⟨s, hs, hdomain, hremote⟩ := h.origin _ horigin
  rw [isRemote, hs, Option.any_some, Bool.and_eq_true, decide_eq_true_eq, decide_eq_true_eq]
  constructor
  · rintro ⟨-, ⟨domain', horigin', rfl⟩, rfl⟩
    obtain ⟨s', hs', hdomain', -⟩ := h.origin _ horigin'
    obtain rfl : s = s' := Option.some.inj (hs.symm.trans hs')
    exact ⟨congrArg Domain.remoteDomainId hdomain', hremote⟩
  · rintro ⟨hdomainId, hremoteId⟩
    refine ⟨⟨id, h.stands_iff.mpr hentry⟩, ⟨domain, horigin, ?_⟩, hremote.symm.trans hremoteId⟩
    rw [← hdomainId, hdomain]

/-- A session qualifies as soon as it is made. -/
theorem exists_creates [Marshal μ ω] [Source φ μ ω] (h : Traced st) (domain : Domain) :
    ∃ id ref, st.Creates domain id ref ∧
      Qualifies (st.step (.create domain)) domain.remoteDomainId 0 ref := by
  obtain ⟨id, ref, hcreates⟩ := st.toInUse.exists_creates domain
  have hstands : Stands (st.toInUse.step (.create domain)).history id ref := by
    rw [hcreates.noted]
    exact stands_concat.mpr (.inl rfl)
  refine ⟨id, ref, hcreates, ⟨id, hstands⟩, ⟨domain, ?_, rfl⟩, h.lastTold_of_new hcreates.new⟩
  rw [← hcreates.result]
  exact List.mem_cons_self

theorem findable [Marshal μ ω] [Source φ μ ω] (h : Traced st) : Findable st := by
  have hfound (order : Order) {domainId remoteId : UInt32} {ref : SessionRef}
      (hfind : findRemote? (order.arrange st.registry.table) st.client domainId remoteId =
        some ref) :
      ∃ id, (id, ref) ∈ st.registry.table ∧ Qualifies st domainId remoteId ref := by
    obtain ⟨id, hlisted, hremote⟩ := findRemote?_eq_some hfind
    have hentry := (order.perm _).mem_iff.mp hlisted
    exact ⟨id, hentry, (h.qualifies_iff hentry).mpr hremote⟩
  have hexists (order : Order) {domainId remoteId : UInt32} {ref : SessionRef}
      (hqualifies : Qualifies st domainId remoteId ref) :
      ∃ other, findRemote? (order.arrange st.registry.table) st.client domainId remoteId =
        some other := by
    obtain ⟨id, hstands⟩ := hqualifies.registered
    have hentry := h.stands_iff.mp hstands
    exact exists_findRemote? ((order.perm _).mem_iff.mpr hentry)
      ((h.qualifies_iff hentry).mp hqualifies)
  refine {
    qualifies := fun order domainId remoteId ref hfind => ?qualifies
    get := fun order domainId remoteId ref hfind => ?get
    exists_iff := fun order domainId remoteId => ⟨?sound, ?complete⟩
    unique := fun order domainId remoteId ref hqualifies honly => ?unique
    creates := h.exists_creates }
  case qualifies =>
    obtain ⟨-, -, hqualifies⟩ := hfound order hfind
    exact hqualifies
  case get =>
    obtain ⟨id, hentry, -⟩ := hfound order hfind
    obtain ⟨s, hs, hid⟩ := h.sound.keys _ hentry
    refine ⟨s, hs, get_eq_ok_iff.mpr ?_⟩
    rw [hid]
    exact lookup_of_mem h.sound.nodup hentry
  case sound =>
    rintro ⟨ref, hfind⟩
    obtain ⟨-, -, hqualifies⟩ := hfound order hfind
    exact ⟨ref, hqualifies⟩
  case complete =>
    rintro ⟨ref, hqualifies⟩
    exact hexists order hqualifies
  case unique =>
    obtain ⟨other, hfind⟩ := hexists order hqualifies
    obtain ⟨-, -, hother⟩ := hfound order hfind
    rw [hfind, honly other hother]

end Traced

/-- **A session is found by a remote id exactly if the history of the registry has one for it**, and
what is found is such a session, in whichever order the table is gone through. -/
theorem findable_run [Marshal μ ω] [Source φ μ ω] (factory : φ) (allocator : Option AllocatorRef)
    (client : Client φ μ ω) (acts : List (Act φ μ ω)) :
    Findable (Known.run { registry := { factory, allocator }, client } acts) := by
  have hsound : Sound ({ registry := { factory, allocator }, client } : InUse φ μ ω) := by
    refine ⟨List.nodup_nil, by simp, fun id ref => ?_⟩
    have hnot := not_stands_nil id ref
    simp [lookup?, hnot]
  have hstart : Traced ({ registry := { factory, allocator }, client } : Known φ μ ω) :=
    ⟨hsound, by simp, by simp, by simp⟩
  exact (hstart.run acts).findable

/-- Two sessions are told the same remote id, in different domains. -/
def sameRemoteId : List (Act Mock.Factory Mock.Marshal Mock.Fleet) :=
  [.create { remoteDomainId := 1 }, .create { remoteDomainId := 2 }, .tell 0 5, .tell 1 5]

theorem findable_sameRemoteId :
    let st := Known.run { registry := { factory := ⟨0⟩ }, client := { world := {} } } sameRemoteId
    Findable st ∧ findRemote? st.registry.table st.client 2 5 = some 1 :=
  ⟨findable_run _ _ _ _, by decide⟩

end Registry

end SessionPool
