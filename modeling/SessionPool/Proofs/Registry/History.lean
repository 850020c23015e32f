import SessionPool.Mock.Daemon
import SessionPool.Proofs.Registry.Table

/-!
# A registry is the table that its history says

The history of a registry tells which session stands for an id: the one that was created with it
last, unless it was removed since. Whatever the ids do, that is what is found,

    registry.get id = ok ref  ↔  Stands history id ref,

and the listing of the ids, their number and the test for none go by it. In between anything may
happen to the sessions, as it does in a client that others use as well, except that a session never
changes its local id.
-/

namespace SessionPool

variable {φ μ ω : Type}

/-! ### What else happens to a client -/

namespace Client

/-- Every session is still there, under the same local id. -/
def Keeps (c c' : Client φ μ ω) : Prop :=
  ∀ ref s, c.session? ref = some s → ∃ s', c'.session? ref = some s' ∧ s'.localId = s.localId

theorem Keeps.refl (c : Client φ μ ω) : c.Keeps c := fun _ s hs => ⟨s, hs, rfl⟩

theorem keeps_build (c : Client φ μ ω) (b : Builder φ) : c.Keeps (c.build b).2 :=
  fun _ s hs => ⟨s, session?_build_of_some hs b, rfl⟩

theorem keeps_update {c : Client φ μ ω} {ref : SessionRef} {s s' : Session φ μ}
    (hs : c.session? ref = some s) (hid : s'.localId = s.localId) (w : ω) :
    c.Keeps (c.update ref s' w) := by
  intro other t ht
  by_cases hother : other = ref
  · subst hother
    obtain rfl : s = t := Option.some.inj (hs.symm.trans ht)
    exact ⟨s', session?_update_self hs s' w, hid⟩
  · exact ⟨t, (session?_update_of_ne hother s' w).trans ht, rfl⟩

theorem keeps_close [Marshal μ ω] (c : Client φ μ ω) (ref : SessionRef) :
    c.Keeps (c.close ref).2 := by
  cases hs : c.session? ref with
  | none =>
    rw [close_of_none hs]
    exact .refl c
  | some s =>
    rw [close_of_some hs]
    have hid : (s.close c.world).2.1.localId = s.localId := rfl
    exact keeps_update hs hid _

/-- Something that happens to a client: its sessions are used, closed or told their remote ids, more
are made, allocators are added, the world goes on. -/
structure Change (φ μ ω : Type) where
  apply : Client φ μ ω → Client φ μ ω
  keeps : ∀ c : Client φ μ ω, c.Keeps (apply c)

end Client

namespace Registry

/-! ### Histories -/

/-- An order in which the table is gone through. -/
structure Order where
  arrange : List Registration → List Registration
  perm : ∀ table, (arrange table).Perm table

/-- What is done with a registry, or happens to its client meanwhile. -/
inductive Op (φ μ ω : Type) where
  | create (domain : Domain)
  | get (id : UInt64)
  | remove (id : UInt64)
  | closeAll
  | findRemote (order : Order) (domainId remoteId : UInt32)
  | replaceAllocator (a : AllocatorRef)
  | meanwhile (change : Client.Change φ μ ω)

/-- A call of a registry and what came of it. -/
inductive Event where
  | created (id : UInt64) (ref : SessionRef)
  | got (id : UInt64) (result : Except Error SessionRef)
  | removed (id : UInt64) (result : Except Error SessionRef)
  | closedAll (count : Nat)
  | found (domainId remoteId : UInt32) (result : Option SessionRef)

/-- A registry, its client, and what was called so far. -/
structure InUse (φ μ ω : Type) where
  registry : Registry φ
  client : Client φ μ ω
  history : List Event := []

namespace InUse

variable [Marshal μ ω]

/-- Does one thing and writes down what was called. -/
def step (st : InUse φ μ ω) : Op φ μ ω → InUse φ μ ω
  | .create domain =>
    let (ref, registry, client) := st.registry.create domain st.client
    let created := (client.session? ref).map fun s => Event.created s.localId ref
    { registry, client, history := st.history ++ created.toList }
  | .get id => { st with history := st.history ++ [.got id (st.registry.get id)] }
  | .remove id =>
    let (result, registry, client) := st.registry.remove id st.client
    { registry, client, history := st.history ++ [.removed id result] }
  | .closeAll =>
    let (count, registry, client) := st.registry.closeAll st.client
    { registry, client, history := st.history ++ [.closedAll count] }
  | .findRemote order domainId remoteId =>
    let result := findRemote? (order.arrange st.registry.table) st.client domainId remoteId
    { st with history := st.history ++ [.found domainId remoteId result] }
  | .replaceAllocator a => { st with registry := { st.registry with allocator := some a } }
  | .meanwhile change => { st with client := change.apply st.client }

/-- Does one thing after the other. -/
def run (st : InUse φ μ ω) (ops : List (Op φ μ ω)) : InUse φ μ ω := ops.foldl step st

end InUse

/-- The call ends what an id stood for. -/
inductive Event.Ends (id : UInt64) : Event → Prop
  | created (ref : SessionRef) : Ends id (.created id ref)
  | removed (ref : SessionRef) : Ends id (.removed id (.ok ref))
  | closedAll (count : Nat) : Ends id (.closedAll count)

/-- The session was created with the id, and nothing has ended that since. -/
def Stands (history : List Event) (id : UInt64) (ref : SessionRef) : Prop :=
  ∃ before after, history = before ++ .created id ref :: after ∧ ∀ e ∈ after, ¬ e.Ends id

/-- The result for an id is the session that stands for it, or that there is none. -/
def Answers (history : List Event) (id : UInt64) (result : Except Error SessionRef) : Prop :=
  (∃ ref, Stands history id ref ∧ result = .ok ref) ∨
    (∀ ref, ¬ Stands history id ref) ∧ result = .error (.sessionNotFound id)

theorem not_stands_nil (id : UInt64) (ref : SessionRef) : ¬ Stands [] id ref := by
  rintro ⟨before, after, h, -⟩
  simp at h

/-- One call later. -/
theorem stands_concat {history : List Event} {e : Event} {id : UInt64} {ref : SessionRef} :
    Stands (history ++ [e]) id ref ↔
      e = .created id ref ∨ ¬ e.Ends id ∧ Stands history id ref := by
  constructor
  · rintro ⟨before, after, h, hafter⟩
    rcases List.eq_nil_or_concat after with rfl | ⟨after, last, rfl⟩
    · obtain ⟨-, heq⟩ := List.append_inj' h rfl
      exact .inl (List.singleton_inj.mp heq)
    · rw [List.concat_eq_append, ← List.cons_append, ← List.append_assoc] at h
      obtain ⟨hhistory, heq⟩ := List.append_inj' h rfl
      obtain rfl := List.singleton_inj.mp heq
      refine .inr ⟨hafter e (by simp), before, after, hhistory, fun e' he' => ?_⟩
      exact hafter e' (by simp [he'])
  · rintro (rfl | ⟨hends, before, after, rfl, hafter⟩)
    · exact ⟨history, [], rfl, by simp⟩
    · refine ⟨before, after ++ [e], by simp, fun e' he' => ?_⟩
      rcases List.mem_append.mp he' with hold | hnew
      · exact hafter e' hold
      · exact List.mem_singleton.mp hnew ▸ hends

/-! ### What every operation keeps -/

/-- The call changes neither the registry nor anything in its client. -/
def InUse.Idle [Marshal μ ω] (st : InUse φ μ ω) : Op φ μ ω → Prop
  | .get _ | .findRemote .. => True
  | .remove id => ∃ e, (st.registry.remove id st.client).1 = .error e
  | _ => False

/-- A creation makes a session for a domain, gives it a local id, notes it and registers it. -/
structure InUse.Creates [Marshal μ ω] (st : InUse φ μ ω) (domain : Domain) (id : UInt64)
    (ref : SessionRef) : Prop where
  result : (st.registry.create domain st.client).1 = ref
  new : st.client.session? ref = none
  session : ∃ s, (st.step (.create domain)).client.session? ref = some s ∧
    s.localId = id ∧ s.domain = domain
  noted : (st.step (.create domain)).history = st.history ++ [.created id ref]
  registered : (st.step (.create domain)).registry.get id = .ok ref

/-- A registry is the table that its history says. -/
structure Faithful [Marshal μ ω] (st : InUse φ μ ω) : Prop where
  keys : ∀ entry ∈ st.registry.table,
    ∃ s, st.client.session? entry.2 = some s ∧ s.localId = entry.1
  get : ∀ id, Answers st.history id (st.registry.get id)
  ascending : st.registry.ids.Pairwise (· < ·)
  mem_ids : ∀ id, id ∈ st.registry.ids ↔ ∃ ref, st.registry.get id = .ok ref
  length_ids : st.registry.ids.length = st.registry.size
  isEmpty : st.registry.isEmpty = true ↔ st.registry.ids = []
  /-- No creation is missing in the history. -/
  creates : ∀ domain, ∃ id ref, st.Creates domain id ref
  idle : ∀ op, st.Idle op →
    (st.step op).registry = st.registry ∧ (st.step op).client = st.client

/-- What carries the rest through a run: no id occurs twice, every id is that of its session, and
what is found is what stands. -/
structure Sound (st : InUse φ μ ω) : Prop where
  nodup : (st.registry.table.map (·.1)).Nodup
  keys : ∀ entry ∈ st.registry.table,
    ∃ s, st.client.session? entry.2 = some s ∧ s.localId = entry.1
  stands : ∀ id ref, st.registry.lookup? id = some ref ↔ Stands st.history id ref

namespace InUse

variable [Marshal μ ω] (st : InUse φ μ ω) (domain : Domain)

theorem step_create : st.step (.create domain) =
    { registry := st.registry.insert
        (st.client.nextId (st.registry.allocator.getD Client.common)).1
        (st.client.build (st.registry.builder domain)).1
      client := (st.client.build (st.registry.builder domain)).2
      history := st.history ++ [.created
        (st.client.nextId (st.registry.allocator.getD Client.common)).1
        (st.client.build (st.registry.builder domain)).1] } := by
  rw [step, create_eq]
  dsimp only
  rw [Client.session?_build]
  rfl

theorem exists_creates : ∃ id ref, st.Creates domain id ref := by
  refine ⟨_, _, {
    result := rfl
    new := Client.session?_build_new (st.registry.builder domain)
    session := ⟨_, Client.session?_build (st.registry.builder domain), rfl, rfl⟩
    noted := ?noted
    registered := ?registered }⟩
  case noted =>
    rw [step_create]
    rfl
  case registered =>
    rw [step_create]
    exact get_eq_ok_iff.mpr (lookup?_insert_self _ _ _)

end InUse

namespace Sound

variable {st : InUse φ μ ω}

/-- A change of the client leaves every key with its session. -/
theorem keys_of_keeps (h : Sound st) {client : Client φ μ ω} (hkeeps : st.client.Keeps client) :
    ∀ entry ∈ st.registry.table, ∃ s, client.session? entry.2 = some s ∧ s.localId = entry.1 := by
  intro entry hentry
  obtain ⟨s, hs, hid⟩ := h.keys entry hentry
  obtain ⟨s', hs', hid'⟩ := hkeeps _ s hs
  exact ⟨s', hs', hid'.trans hid⟩

/-- A call that ends nothing is written down. -/
theorem note (h : Sound st) {e : Event} (hends : ∀ id, ¬ e.Ends id) :
    Sound { st with history := st.history ++ [e] } where
  nodup := h.nodup
  keys := h.keys
  stands id ref := by
    rw [stands_concat]
    have hcreated : e ≠ .created id ref := by
      rintro rfl
      exact hends id (.created ref)
    simp only [hcreated, hends id, not_false_eq_true, true_and, false_or]
    exact h.stands id ref

/-- A session is entered in place of the one that stood for its id. -/
theorem enter (h : Sound st) {id : UInt64} {ref : SessionRef} {client : Client φ μ ω}
    (hkeeps : st.client.Keeps client)
    (hmade : ∃ s, client.session? ref = some s ∧ s.localId = id) :
    Sound {
      registry := st.registry.insert id ref
      client
      history := st.history ++ [.created id ref] } where
  nodup := nodup_insert h.nodup id ref
  keys entry hentry := by
    rcases List.mem_append.mp hentry with hold | hnew
    · exact h.keys_of_keeps hkeeps entry (List.mem_of_mem_filter hold)
    · obtain rfl := List.mem_singleton.mp hnew
      exact hmade
  stands other ref' := by
    rw [stands_concat]
    by_cases hother : other = id
    · subst hother
      have hends : (Event.created other ref).Ends other := .created ref
      simp [hends]
    · have hends : ¬ (Event.created id ref).Ends other := by
        rintro ⟨⟩
        exact hother rfl
      rw [lookup?_insert_of_ne _ hother, h.stands]
      simp [hends, Ne.symm hother]

/-- A session is taken out. -/
theorem takeOut (h : Sound st) (id : UInt64) (ref : SessionRef) {client : Client φ μ ω}
    (hkeeps : st.client.Keeps client) :
    Sound {
      registry := st.registry.erase id
      client
      history := st.history ++ [.removed id (.ok ref)] } where
  nodup := nodup_erase h.nodup id
  keys entry hentry := h.keys_of_keeps hkeeps entry (List.mem_of_mem_filter hentry)
  stands other ref' := by
    rw [stands_concat]
    by_cases hother : other = id
    · subst hother
      have hends : (Event.removed other (.ok ref)).Ends other := .removed ref
      simp [hends]
    · have hends : ¬ (Event.removed id (.ok ref)).Ends other := by
        rintro ⟨⟩
        exact hother rfl
      rw [lookup?_erase_of_ne _ hother, h.stands]
      simp [hends]

/-- All sessions are taken out. -/
theorem of_table_eq_nil {registry : Registry φ} (hempty : registry.table = [])
    (client : Client φ μ ω) (history : List Event) (count : Nat) :
    Sound { registry, client, history := history ++ [.closedAll count] } where
  nodup := by simp [hempty]
  keys := by simp [hempty]
  stands id ref := by
    have hends : (Event.closedAll count).Ends id := .closedAll count
    rw [stands_concat, lookup?, hempty]
    simp [hends]

theorem answers (h : Sound st) (id : UInt64) : Answers st.history id (st.registry.get id) := by
  cases hget : st.registry.lookup? id with
  | none =>
    refine .inr ⟨fun ref hstands => ?_, get_eq_error_iff.mpr hget⟩
    rw [← h.stands, hget] at hstands
    cases hstands
  | some ref => exact .inl ⟨ref, (h.stands id ref).mp hget, get_eq_ok_iff.mpr hget⟩

variable [Marshal μ ω]

theorem create (h : Sound st) (domain : Domain) : Sound (st.step (.create domain)) := by
  rw [InUse.step_create]
  exact h.enter (st.client.keeps_build _)
    ⟨_, Client.session?_build (st.registry.builder domain), rfl⟩

theorem remove (h : Sound st) (id : UInt64) : Sound (st.step (.remove id)) := by
  rw [InUse.step]
  cases hget : st.registry.lookup? id with
  | none =>
    rw [remove_of_none st.client hget]
    apply h.note
    rintro other ⟨⟩
  | some ref =>
    rw [Registry.remove, hget]
    exact h.takeOut id ref (st.client.keeps_close ref)

theorem step (h : Sound st) (op : Op φ μ ω) : Sound (st.step op) := by
  cases op with
  | create domain => exact h.create domain
  | get id => exact h.note (by rintro other ⟨⟩)
  | remove id => exact h.remove id
  | closeAll => exact .of_table_eq_nil (closeAll_table st.client st.registry) _ _ _
  | findRemote order domainId remoteId => exact h.note (by rintro other ⟨⟩)
  | replaceAllocator a => exact ⟨h.nodup, h.keys, h.stands⟩
  | meanwhile change => exact ⟨h.nodup, h.keys_of_keeps (change.keeps _), h.stands⟩

theorem run (h : Sound st) (ops : List (Op φ μ ω)) : Sound (st.run ops) := by
  induction ops generalizing st with
  | nil => exact h
  | cons op ops ih => exact ih (h.step op)

/-- Calls that look, or that fail, leave everything as it is. -/
theorem idle (st : InUse φ μ ω) (op : Op φ μ ω) (h : st.Idle op) :
    (st.step op).registry = st.registry ∧ (st.step op).client = st.client := by
  cases op with
  | get id => exact ⟨rfl, rfl⟩
  | findRemote order domainId remoteId => exact ⟨rfl, rfl⟩
  | remove id =>
    -- It fails only if the id is not there, before any session is closed.
    obtain ⟨e, he⟩ := h
    cases hget : st.registry.lookup? id with
    | none =>
      rw [InUse.step, remove_of_none st.client hget]
      exact ⟨rfl, rfl⟩
    | some ref =>
      rw [remove_fst, get_eq_ok_iff.mpr hget] at he
      cases he
  | create domain => cases h
  | closeAll => cases h
  | replaceAllocator a => cases h
  | meanwhile change => cases h

theorem faithful (h : Sound st) : Faithful st where
  keys := h.keys
  get := h.answers
  ascending := ascending_ids h.nodup
  mem_ids id := by simp only [mem_ids_iff, get_eq_ok_iff]
  length_ids := st.registry.length_ids
  isEmpty := isEmpty_iff
  creates := st.exists_creates
  idle := idle st

end Sound

/-- Whatever is called, and whatever happens meanwhile, a registry that starts without sessions is
the table that its history says. -/
theorem faithful_run [Marshal μ ω] (factory : φ) (allocator : Option AllocatorRef)
    (client : Client φ μ ω) (ops : List (Op φ μ ω)) :
    Faithful (InUse.run { registry := { factory, allocator }, client } ops) := by
  have hstart : Sound ({ registry := { factory, allocator }, client } : InUse φ μ ω) := by
    refine ⟨List.nodup_nil, by simp, fun id ref => ?_⟩
    have hnot := not_stands_nil id ref
    simp [lookup?, hnot]
  exact (hstart.run ops).faithful

/-- Two allocators give the same id to one session each. -/
def sameIdTwice : List (Op Mock.Factory Mock.Marshal Mock.Fleet) :=
  [.create {}, .get 1, .replaceAllocator 1, .create {}, .remove 2]

/-- The session that was created last stands for the id. -/
theorem faithful_sameIdTwice :
    let st := InUse.run
      { registry := { factory := ⟨0⟩ }, client := { world := {}, allocators := [{}, {}] } }
      sameIdTwice
    Faithful st ∧ st.registry.get 1 = .ok 1 ∧ st.registry.size = 1 :=
  ⟨faithful_run _ _ _ _, by decide, by decide⟩

end Registry

end SessionPool
