import SessionPool.Proofs.Tcp.Sockets

/-!
# Which address a marshal connects to

A host may have several addresses. A marshal contacts them in the order in which the host resolves
to them, until one takes the connection and every option that is asked of it:

    refused · refused · … · accepted │ not contacted · …

With that address it stays connected. When all of them refuse, the last one tells why, and the
marshal is left without any stream.
-/

namespace SessionPool.Tcp

/-! ### One thing after the other -/

section Outcomes

variable {ε : Type} {reason : ε} {outcomes : List (Except ε Unit)}

theorem forM_eq_ok_iff : outcomes.forM id = .ok () ↔ ∀ outcome ∈ outcomes, outcome = .ok () := by
  induction outcomes with
  | nil => exact ⟨fun _ _ h => absurd h List.not_mem_nil, fun _ => rfl⟩
  | cons outcome outcomes ih =>
    rw [List.forall_mem_cons]
    cases outcome with
    | error reason =>
      constructor
      · intro h
        cases h
      · rintro ⟨h, -⟩
        cases h
    | ok =>
      show outcomes.forM id = _ ↔ _
      rw [ih]
      exact ⟨fun h => ⟨rfl, h⟩, And.right⟩

/-- The first failure decides. -/
theorem forM_eq_error_iff : outcomes.forM id = .error reason ↔
    ∃ before after, outcomes = before ++ .error reason :: after ∧
      ∀ outcome ∈ before, outcome = .ok () := by
  induction outcomes with
  | nil =>
    constructor
    · intro h
      cases h
    · rintro ⟨before, after, h, -⟩
      exact absurd h (by simp)
  | cons outcome outcomes ih =>
    cases outcome with
    | error first =>
      constructor
      · intro h
        cases h
        exact ⟨[], outcomes, rfl, fun _ h => absurd h List.not_mem_nil⟩
      · rintro ⟨before, after, h, hbefore⟩
        cases before with
        | nil =>
          cases h
          rfl
        | cons _ before =>
          cases h
          cases hbefore _ List.mem_cons_self
    | ok =>
      show outcomes.forM id = _ ↔ _
      rw [ih]
      constructor
      · rintro ⟨before, after, rfl, hbefore⟩
        exact ⟨.ok () :: before, after, rfl, List.forall_mem_cons.mpr ⟨rfl, hbefore⟩⟩
      · rintro ⟨before, after, h, hbefore⟩
        cases before with
        | nil => cases h
        | cons _ before =>
          cases h
          exact ⟨before, after, rfl, (List.forall_mem_cons.mp hbefore).2⟩

end Outcomes

namespace Answer

variable {ε : Type} {answer : Answer ε} {o : Options} {reason : ε}

/-- What became of all that is asked of an address, in order. Probes are asked for only if the
options have them. -/
def outcomes (answer : Answer ε) (o : Options) : List (Except ε Unit) :=
  [answer.connect, answer.nodelay, answer.readTimeout, answer.writeTimeout] ++
    if o.probing.isSome then [answer.keepalive] else []

/-- The address takes the connection and accepts every option. -/
def Accepts (answer : Answer ε) (o : Options) : Prop :=
  ∀ outcome ∈ answer.outcomes o, outcome = .ok ()

/-- The first thing that the address does not accept fails for the given reason. -/
def FailsWith (answer : Answer ε) (o : Options) (reason : ε) : Prop :=
  ∃ before after, answer.outcomes o = before ++ .error reason :: after ∧
    ∀ outcome ∈ before, outcome = .ok ()

theorem verdict_eq (answer : Answer ε) (o : Options) :
    answer.verdict o = (answer.outcomes o).forM id := by
  obtain ⟨connect, nodelay, readTimeout, writeTimeout, keepalive⟩ := answer
  rw [verdict, outcomes]
  cases o.probing.isSome with
  | true => cases keepalive <;> rfl
  | false => rfl

theorem verdict_eq_ok_iff : answer.verdict o = .ok () ↔ answer.Accepts o := by
  rw [verdict_eq, forM_eq_ok_iff, Accepts]

theorem verdict_eq_error_iff : answer.verdict o = .error reason ↔ answer.FailsWith o reason := by
  rw [verdict_eq, forM_eq_error_iff, FailsWith]

theorem exists_failsWith (h : ¬ answer.Accepts o) : ∃ reason, answer.FailsWith o reason := by
  cases hverdict : answer.verdict o with
  | ok => exact absurd (verdict_eq_ok_iff.mp hverdict) h
  | error reason => exact ⟨reason, verdict_eq_error_iff.mp hverdict⟩

instance (answer : Answer ε) (o : Options) : Decidable (answer.Accepts o) :=
  match h : answer.verdict o with
  | .ok () => .isTrue (verdict_eq_ok_iff.mp h)
  | .error _ => .isFalse fun hok => nomatch h.symm.trans (verdict_eq_ok_iff.mpr hok)

end Answer

/-! ### One address after the other -/

variable {ω ε : Type} [Network ω ε]

/-- The addresses with their answers, when all are contacted one after the other, whatever came of
the ones before. -/
def attempts (o : Options) : List Address → ω → List (Address × Answer ε)
  | [], _ => []
  | a :: rest, w => (a, (Network.contact a o w).1) :: attempts o rest (Network.contact a o w).2

theorem attempts_fst (o : Options) (addresses : List Address) (w : ω) :
    (attempts o addresses w).map Prod.fst = addresses := by
  induction addresses generalizing w with
  | nil => rfl
  | cons a rest ih => rw [attempts, List.map_cons, ih]

/-- What is reported when all attempts fail: why the last one did, or a fault of its own if there
was no attempt. -/
def IsLastFault (o : Options) (other : Fault ε) (tries : List (Address × Answer ε))
    (fault : Fault ε) : Prop :=
  match tries.getLast? with
  | none => fault = other
  | some t => ∃ reason, fault = .failed reason ∧ t.2.FailsWith o reason

variable {o : Options} {reason : ε} {last fault : Fault ε} {a : Address}
  {rest addresses : List Address}

theorem IsLastFault.cons {t : Address × Answer ε} {tries : List (Address × Answer ε)}
    (h : IsLastFault o (.failed reason) tries fault) (ht : t.2.FailsWith o reason)
    (other : Fault ε) : IsLastFault o other (t :: tries) fault := by
  cases tries with
  | nil => exact ⟨reason, h, ht⟩
  | cons t' tries =>
    rw [IsLastFault, List.getLast?_cons_cons]
    exact h

/-- If any address accepts, there is a first one that does. -/
theorem exists_first_accepts {tries : List (Address × Answer ε)}
    (h : ∃ t ∈ tries, t.2.Accepts o) :
    ∃ before a answer after, tries = before ++ (a, answer) :: after ∧
      (∀ t ∈ before, ¬ t.2.Accepts o) ∧ answer.Accepts o := by
  obtain ⟨t, ht, haccepts⟩ := h
  have hsome : (tries.find? fun t => t.2.Accepts o).isSome = true :=
    List.find?_isSome.mpr ⟨t, ht, decide_eq_true haccepts⟩
  obtain ⟨⟨a, answer⟩, hfound⟩ := Option.isSome_iff_exists.mp hsome
  obtain ⟨hanswer, before, after, htries, hbefore⟩ := List.find?_eq_some_iff_append.mp hfound
  refine ⟨before, a, answer, after, htries, fun t ht => ?_, of_decide_eq_true hanswer⟩
  simpa using hbefore t ht

section Steps

variable {w : ω}

/-- **Step**: an address that accepts ends the search. -/
theorem tryEach_cons_of_accepts (h : (Network.contact a o w).1.Accepts o) (last : Fault ε) :
    tryEach o last (a :: rest) w = (.ok ⟨a, o⟩, (Network.contact a o w).2) := by
  rw [tryEach]
  dsimp only
  rw [Answer.verdict_eq_ok_iff.mpr h]

/-- **Step**: the next address is tried after one that refuses. -/
theorem tryEach_cons_of_failsWith (h : (Network.contact a o w).1.FailsWith o reason)
    (last : Fault ε) :
    tryEach o last (a :: rest) w = tryEach o (.failed reason) rest (Network.contact a o w).2 := by
  rw [tryEach]
  dsimp only
  rw [Answer.verdict_eq_error_iff.mpr h]

end Steps

variable {w : Observed ω}

/-- **Run**: addresses are contacted up to the first one that accepts. -/
theorem tryEach_of_accepts {before after : List (Address × Answer ε)} {answer : Answer ε}
    (h : attempts o addresses w.world = before ++ (a, answer) :: after)
    (hbefore : ∀ t ∈ before, ¬ t.2.Accepts o) (hanswer : answer.Accepts o) (last : Fault ε) :
    (tryEach o last addresses w).1 = .ok ⟨a, o⟩ ∧
      (tryEach o last addresses w).2.contacts.map Prod.fst =
        w.contacts.map Prod.fst ++ (before.map Prod.fst ++ [a]) := by
  induction before generalizing addresses w last with
  | nil =>
    cases addresses with
    | nil => cases h
    | cons a' rest =>
      obtain ⟨⟨rfl, rfl⟩, -⟩ := List.cons.inj h
      rw [tryEach_cons_of_accepts (w := w) hanswer last]
      exact ⟨rfl, List.map_append⟩
  | cons t before ih =>
    cases addresses with
    | nil => cases h
    | cons a' rest =>
      obtain ⟨rfl, hrest⟩ := List.cons.inj h
      obtain ⟨hrefused, hbefore⟩ := List.forall_mem_cons.mp hbefore
      obtain ⟨reason, hreason⟩ := Answer.exists_failsWith hrefused
      have hnext := ih (w := (Network.contact a' o w).2) hrest hbefore (.failed reason)
      rw [tryEach_cons_of_failsWith (w := w) hreason last]
      refine ⟨hnext.1, hnext.2.trans ?_⟩
      show (w.contacts ++ [(a', o)]).map Prod.fst ++ _ = _
      rw [List.map_append, List.append_assoc]
      rfl

/-- **Run**: when all of them refuse, all addresses are contacted. -/
theorem tryEach_of_refuses (h : ∀ t ∈ attempts o addresses w.world, ¬ t.2.Accepts o)
    (last : Fault ε) :
    (∃ fault, (tryEach o last addresses w).1 = .error fault ∧
      IsLastFault o last (attempts o addresses w.world) fault) ∧
      (tryEach o last addresses w).2.contacts.map Prod.fst =
        w.contacts.map Prod.fst ++ addresses := by
  induction addresses generalizing w last with
  | nil => exact ⟨⟨last, rfl, rfl⟩, (List.append_nil _).symm⟩
  | cons a rest ih =>
    obtain ⟨hrefused, hrest⟩ := List.forall_mem_cons.mp h
    obtain ⟨reason, hreason⟩ := Answer.exists_failsWith hrefused
    obtain ⟨⟨reported, hreported, hlast⟩, hcontacts⟩ :=
      ih (w := (Network.contact a o w).2) hrest (.failed reason)
    rw [tryEach_cons_of_failsWith (w := w) hreason last]
    refine ⟨⟨reported, hreported, hlast.cons hreason last⟩, hcontacts.trans ?_⟩
    show (w.contacts ++ [(a, o)]).map Prod.fst ++ rest = _
    rw [List.map_append, List.append_assoc]
    rfl

namespace Marshal

/-! ### A marshal that connects -/

variable (m : Marshal) (host : String) (port : UInt16)

section Dialled

variable {m host port} {w : ω}

theorem dial_of_ok {stream : Stream} (h : (connect m.options host port w).1 = .ok stream) :
    m.dial host port w = (true, { m with stream := some stream },
      (connect m.options host port w).2) := by
  rw [dial]
  generalize connect m.options host port w = out at h ⊢
  obtain ⟨result, w'⟩ := out
  cases h
  rfl

theorem dial_of_error (h : (connect m.options host port w).1 = .error fault) :
    m.dial host port w = (false, { m with stream := none },
      (connect m.options host port w).2) := by
  rw [dial]
  generalize connect m.options host port w = out at h ⊢
  obtain ⟨result, w'⟩ := out
  cases h
  rfl

end Dialled

variable (w : ω)

/-- The addresses that a marshal contacts when it connects, in this order. -/
def contacted : List Address :=
  (m.dial host port ({ world := w } : Observed ω)).2.2.contacts.map Prod.fst

/-- The marshal connects to an address and has the stream to it. Nothing else about it changes. -/
structure OpensAt (a : Address) : Prop where
  stream : (connect m.options host port w).1 = .ok ⟨a, m.options⟩
  result : (m.dial host port w).1 = true
  marshal : (m.dial host port w).2.1 = { m with stream := some ⟨a, m.options⟩ }

/-- The marshal does not connect because of the given fault and has no stream, whatever it had
before. Nothing else about it changes. -/
structure FailsToOpen (fault : Fault ε) : Prop where
  reason : (connect m.options host port w).1 = .error fault
  result : (m.dial host port w).1 = false
  marshal : (m.dial host port w).2.1 = { m with stream := none }

/-- The marshal connects to the first address that accepts. -/
structure OpensFirst (addresses : List Address) (tries : List (Address × Answer ε)) : Prop where
  opens_iff : (m.dial host port w).1 = true ↔ ∃ t ∈ tries, t.2.Accepts m.options
  /-- What comes after the first address that accepts is not contacted. -/
  accepted : ∀ before a answer after, tries = before ++ (a, answer) :: after →
    (∀ t ∈ before, ¬ t.2.Accepts m.options) → answer.Accepts m.options →
    m.OpensAt host port w a ∧ m.contacted host port w = addresses.take (before.length + 1)
  refused : (∀ t ∈ tries, ¬ t.2.Accepts m.options) →
    (∃ fault, m.FailsToOpen host port w fault ∧
      IsLastFault m.options (.noAddress host port) tries fault) ∧
    m.contacted host port w = addresses

/-- What becomes of a marshal that is told to connect. -/
structure ConnectsInOrder : Prop where
  unresolved : ∀ reason w', Network.resolve host port w = (.error reason, w') →
    m.FailsToOpen host port w (.failed reason) ∧ m.contacted host port w = []
  resolved : ∀ addresses w', Network.resolve host port w = (.ok addresses, w') →
    m.OpensFirst host port w addresses (attempts m.options addresses w')
  /-- Nobody notices that contacts are written down. -/
  unnoticed : (m.dial host port ({ world := w } : Observed ω)).1 = (m.dial host port w).1 ∧
    (m.dial host port ({ world := w } : Observed ω)).2.1 = (m.dial host port w).2.1 ∧
    (m.dial host port ({ world := w } : Observed ω)).2.2.world = (m.dial host port w).2.2

/-! ### It connects in order -/

variable {m host port w} {w' : ω}

theorem connect_of_resolves (h : Network.resolve host port w = (.ok addresses, w')) :
    connect o host port w = tryEach o (.noAddress host port) addresses w' := by
  rw [connect, h]

/-- A host resolves to the same addresses when contacts are written down. -/
theorem resolve_observed {found : Except ε (List Address)}
    (h : Network.resolve host port w = (found, w')) :
    Network.resolve host port ({ world := w } : Observed ω) = (found, { world := w' }) := by
  show ((Network.resolve host port w).1,
    ({ world := (Network.resolve host port w).2 } : Observed ω)) = _
  rw [h]

theorem dial_world : (m.dial host port w).2.2 = (connect m.options host port w).2 := by
  cases h : (connect m.options host port w).1 with
  | ok stream => rw [dial_of_ok h]
  | error fault => rw [dial_of_error h]

theorem opensAt_of_ok (h : (connect m.options host port w).1 = .ok ⟨a, m.options⟩) :
    m.OpensAt host port w a where
  stream := h
  result := by rw [dial_of_ok h]
  marshal := by rw [dial_of_ok h]

theorem failsToOpen_of_error (h : (connect m.options host port w).1 = .error fault) :
    m.FailsToOpen host port w fault where
  reason := h
  result := by rw [dial_of_error h]
  marshal := by rw [dial_of_error h]

section Resolved

variable (h : Network.resolve host port w = (.ok addresses, w'))

include h

theorem connect_fst_of_resolves : (connect m.options host port w).1 =
    (tryEach m.options (.noAddress host port) addresses ({ world := w' } : Observed ω)).1 := by
  rw [connect_of_resolves h, (tryEach_observed _ _ _ _).1]

theorem contacted_of_resolves : m.contacted host port w =
    (tryEach m.options (.noAddress host port) addresses
      ({ world := w' } : Observed ω)).2.contacts.map Prod.fst := by
  rw [contacted, dial_world, connect_of_resolves (resolve_observed h)]

/-- The first address that accepts is the last one to be contacted. -/
theorem opensAt_of_accepts {before after : List (Address × Answer ε)} {answer : Answer ε}
    (htries : attempts m.options addresses w' = before ++ (a, answer) :: after)
    (hbefore : ∀ t ∈ before, ¬ t.2.Accepts m.options) (hanswer : answer.Accepts m.options) :
    m.OpensAt host port w a ∧ m.contacted host port w = addresses.take (before.length + 1) := by
  obtain ⟨hstream, hcontacts⟩ :=
    tryEach_of_accepts (w := { world := w' }) htries hbefore hanswer (.noAddress host port)
  refine ⟨opensAt_of_ok ((connect_fst_of_resolves h).trans hstream), ?_⟩
  have htake : addresses.take (before.length + 1) = before.map Prod.fst ++ [a] := by
    rw [← attempts_fst m.options addresses w', htries, List.map_append, List.map_cons,
      List.append_cons, List.take_left' (by simp)]
  rw [contacted_of_resolves h, hcontacts, htake]
  rfl

theorem failsToOpen_of_refuses
    (hnone : ∀ t ∈ attempts m.options addresses w', ¬ t.2.Accepts m.options) :
    (∃ fault, m.FailsToOpen host port w fault ∧
      IsLastFault m.options (.noAddress host port) (attempts m.options addresses w') fault) ∧
    m.contacted host port w = addresses := by
  obtain ⟨⟨fault, hfault, hlast⟩, hcontacts⟩ :=
    tryEach_of_refuses (w := { world := w' }) hnone (.noAddress host port)
  refine ⟨⟨fault, failsToOpen_of_error ((connect_fst_of_resolves h).trans hfault), hlast⟩, ?_⟩
  rw [contacted_of_resolves h, hcontacts]
  rfl

theorem opensFirst : m.OpensFirst host port w addresses (attempts m.options addresses w') where
  opens_iff := by
    constructor
    · intro hopened
      refine Classical.byContradiction fun hnone => ?_
      obtain ⟨⟨fault, hfails, -⟩, -⟩ :=
        failsToOpen_of_refuses h fun t ht haccepts => hnone ⟨t, ht, haccepts⟩
      exact Bool.false_ne_true (hfails.result.symm.trans hopened)
    · intro hany
      obtain ⟨before, a, answer, after, htries, hbefore, hanswer⟩ := exists_first_accepts hany
      exact (opensAt_of_accepts h htries hbefore hanswer).1.result
  accepted _ _ _ _ htries hbefore hanswer := opensAt_of_accepts h htries hbefore hanswer
  refused hnone := failsToOpen_of_refuses h hnone

end Resolved

/-- **Connecting in order**: whatever a host resolves to, whatever the addresses answer, and
whatever the marshal has been through before. -/
theorem connectsInOrder (m : Marshal) (host : String) (port : UInt16) (w : ω) :
    m.ConnectsInOrder host port w where
  unresolved reason w' h := by
    refine ⟨failsToOpen_of_error (by rw [connect, h]), ?_⟩
    rw [contacted, dial_world, connect, resolve_observed h]
    rfl
  resolved addresses w' h := opensFirst h
  unnoticed := m.dial_observed host port { world := w }

end Marshal

end SessionPool.Tcp
