import SessionPool.Proofs.Registry.Once

/-!
# Registry calls without others in between

A call whose steps nobody interrupts does what the library does at once: the steps of `create`,
`get`, `remove` and `closeAll` are those that a thread takes. A listing that nobody interrupts
brings exactly the ids of the table.
-/

namespace SessionPool.Registry.Shared

variable {φ μ ω : Type}

/-- A state with one call more under way. -/
def calling (st : Shared φ μ ω) (t : Thread) (p : Pending) : Shared φ μ ω :=
  { st with pending := (t, p) :: st.pending }

/-- A call has come back, and nothing else is under way than before. -/
structure Served (st st' : Shared φ μ ω) (t : Thread) (request : Request) (result : Result)
    (registry : Registry φ) (client : Client φ μ ω) : Prop where
  registry : st'.registry = registry
  client : st'.client = client
  pending : st'.pending = st.pending
  finished : ∃ before took, st'.finished = ⟨t, request, result, before, took⟩ :: st.finished

variable [Marshal μ ω] {st : Shared φ μ ω} {t : Thread}

/-- The state after a step of a call, without this call. -/
def after (st : Shared φ μ ω) (out : Step φ μ ω) : Shared φ μ ω :=
  { st with
    registry := out.registry
    client := out.client
    created := st.created ++ out.made.toList
    past := st.past ++ [st.registry.keys] }

theorem run_start (free : st.pending? t = none) (request : Request) (moves : List (Move φ μ ω)) :
    st.run (.start t request :: moves) =
      (st.calling t ⟨request, request.call, st.registry.table, []⟩).run moves := by
  rw [run, List.foldl_cons, move, free]
  rfl

omit [Marshal μ ω] in
theorem others_calling (free : st.pending? t = none) (p : Pending) :
    (st.calling t p).others t = st.pending := by
  rw [others, calling, List.filter_cons_of_neg (by simp), filter_of_lookup_eq_none free]

/-- A step of the call does nothing to the calls of others. -/
theorem move_advance (free : st.pending? t = none) (p : Pending) :
    (st.calling t p).move (.advance t) = { st.after (st.outcome p) with
      pending := st.going t p ++ st.pending
      finished := st.back t p ++ st.finished } := by
  have hp : (st.calling t p).pending? t = some p := List.lookup_cons_self
  have hstep : (st.calling t p).outcome p = st.outcome p := rfl
  rw [outcome] at hstep
  rw [move, hp]
  dsimp only
  rw [advance, others_calling free, hstep, going, back]
  cases (st.outcome p).next <;> rfl

variable {p : Pending} {out : Step φ μ ω} (hout : st.outcome p = out)

include hout

/-- The call goes on, and its thread with it. -/
theorem served_of_going (free : st.pending? t = none) {next : Call} (hnext : out.next = .inl next)
    {moves : List (Move φ μ ω)} {request : Request} {result : Result} {registry : Registry φ}
    {client : Client φ μ ω}
    (h : (st.after out).pending? t = none →
      Served (st.after out)
        (((st.after out).calling t { p with next, took := p.took ++ out.took.toList }).run moves)
        t request result registry client) :
    Served st ((st.calling t p).run (.advance t :: moves)) t request result registry client := by
  obtain ⟨hregistry, hclient, hpending, hfinished⟩ := h free
  rw [run, List.foldl_cons, move_advance free, going, back, hout, hnext]
  exact ⟨hregistry, hclient, hpending, hfinished⟩

/-- The call comes back, and then its thread has no step to take. -/
theorem served_of_back (free : st.pending? t = none) {result : Result}
    (hnext : out.next = .inr result) (n : Nat) :
    Served st ((st.calling t p).run (List.replicate (n + 1) (.advance t))) t p.request result
      out.registry out.client := by
  have hback : (st.calling t p).move (.advance t) = { st.after out with
      finished := ⟨t, p.request, result, p.before, p.took ++ out.took.toList⟩ :: st.finished } := by
    rw [move_advance free, going, back, hout, hnext]
    rfl
  rw [List.replicate_succ, run, List.foldl_cons, hback]
  generalize hst' : ({ st.after out with finished := _ } : Shared φ μ ω) = st'
  have hfree : st'.pending? t = none := by
    subst hst'
    exact free
  have hidle : List.foldl move st' (List.replicate n (.advance t)) = st' := by
    induction n with
    | zero => rfl
    | succ n ih => rw [List.replicate_succ, List.foldl_cons, move, hfree, ih]
  rw [hidle, ← hst']
  exact ⟨rfl, rfl, rfl, _, _, rfl⟩

omit hout

/-! ### The calls -/

theorem run_get (free : st.pending? t = none) (id : UInt64) :
    Served st (st.run [.start t (.get id), .advance t]) t (.get id) (.got (st.registry.get id))
      st.registry st.client := by
  rw [run_start free]
  exact served_of_back rfl free rfl 0

theorem run_create (free : st.pending? t = none) (domain : Domain) :
    let created := st.registry.create domain st.client
    Served st (st.run [.start t (.create domain), .advance t, .advance t]) t (.create domain)
      (.created created.1) created.2.1 created.2.2 := by
  rw [run_start free]
  exact served_of_going rfl free rfl fun free => served_of_back rfl free rfl 0

theorem run_remove (free : st.pending? t = none) (id : UInt64) :
    let removed := st.registry.remove id st.client
    Served st (st.run [.start t (.remove id), .advance t, .advance t]) t (.remove id)
      (.removed removed.1) removed.2.1 removed.2.2 := by
  rw [run_start free, Registry.remove]
  cases hget : st.registry.lookup? id with
  | none =>
    have hout : st.outcome ⟨.remove id, .remove id, st.registry.table, []⟩ =
        { next := .inr (.removed (.error (.sessionNotFound id))), registry := st.registry,
          client := st.client } := by simp only [outcome, Call.step, hget]
    exact served_of_back hout free rfl 1
  | some ref =>
    have hout : st.outcome ⟨.remove id, .remove id, st.registry.table, []⟩ =
        { next := .inl (.close ref), registry := st.registry.erase id, client := st.client,
          took := ref } := by simp only [outcome, Call.step, hget]
    exact served_of_going hout free rfl fun free => served_of_back rfl free rfl 0

theorem outcome_closeNext (st : Shared φ μ ω) (request : Request) (ref : SessionRef)
    (ids : List UInt64) (count : Nat) (before : List Registration) (took : List SessionRef) :
    st.outcome ⟨request, .closeNext ref ids count, before, took⟩ =
      { next := .inl (.removeNext ids (count + 1)), registry := st.registry,
        client := (st.client.close ref).2 } := rfl

/-- Removing the ids of a listing one after the other takes at most two steps each. -/
theorem served_removeNext (free : st.pending? t = none) (before : List Registration)
    (took : List SessionRef) (ids : List UInt64) (count : Nat) {n : Nat}
    (hn : 2 * ids.length < n) :
    Served st
      ((st.calling t ⟨.closeAll, .removeNext ids count, before, took⟩).run
        (List.replicate n (.advance t)))
      t .closeAll (.closedAll (count + (removeEach ids st.registry st.client).1))
      (removeEach ids st.registry st.client).2.1 (removeEach ids st.registry st.client).2.2 := by
  induction ids generalizing st took count n with
  | nil =>
    obtain ⟨n, rfl⟩ : ∃ m, n = m + 1 := Nat.exists_eq_succ_of_ne_zero (by omega)
    exact served_of_back rfl free rfl n
  | cons id ids ih =>
    rw [List.length_cons] at hn
    rw [removeEach, Registry.remove]
    cases hget : st.registry.lookup? id with
    | none =>
      have hout : st.outcome ⟨.closeAll, .removeNext (id :: ids) count, before, took⟩ =
          { next := .inl (.removeNext ids count), registry := st.registry,
            client := st.client } := by simp only [outcome, Call.step, hget]
      obtain ⟨n, rfl⟩ : ∃ m, n = m + 1 := Nat.exists_eq_succ_of_ne_zero (by omega)
      exact served_of_going hout free rfl fun free => ih free _ count (by omega)
    | some ref =>
      have hout : st.outcome ⟨.closeAll, .removeNext (id :: ids) count, before, took⟩ =
          { next := .inl (.closeNext ref ids count), registry := st.registry.erase id,
            client := st.client, took := ref } := by simp only [outcome, Call.step, hget]
      obtain ⟨n, rfl⟩ : ∃ m, n = m + 2 := Nat.exists_eq_add_of_le' (by omega)
      refine served_of_going hout free rfl fun free =>
        served_of_going (outcome_closeNext ..) free rfl fun free => ?_
      have hn : 2 * ids.length < n := by omega
      have hserved := ih free (took ++ [ref] ++ []) (count + 1) hn
      rw [Nat.add_right_comm] at hserved
      exact hserved

/-- A listing of a table that nobody changes is the listing of its ids. -/
theorem isListing_ids {r : Registry φ} (nodup : r.keys.Nodup) :
    isListing [r.keys, r.keys] r.ids = true := by
  have hmem (id : UInt64) : id ∈ r.ids ↔ id ∈ r.keys := List.mem_mergeSort
  have hsorted : r.ids.Pairwise (· ≤ ·) := (ascending_ids nodup).imp fun h => UInt64.le_of_lt h
  simp [isListing, hsorted, hmem]

/-- A listing of a table that nobody has changed since. -/
theorem run_list (free : st.pending? t = none) (nodup : st.registry.keys.Nodup) {since : Nat}
    (hpast : st.past.drop since = [st.registry.keys]) (request : Request)
    (before : List Registration) (took : List SessionRef) (moves : List (Move φ μ ω)) :
    (st.calling t ⟨request, .list since, before, took⟩).run
        (.list t st.registry.ids :: moves) =
      (st.calling t ⟨request, .removeNext st.registry.ids 0, before, took⟩).run moves := by
  have hp : (st.calling t ⟨request, .list since, before, took⟩).pending? t =
      some ⟨request, .list since, before, took⟩ := List.lookup_cons_self
  have hseen : (st.calling t ⟨request, .list since, before, took⟩).seen since =
      [st.registry.keys, st.registry.keys] := by
    show st.past.drop since ++ [st.registry.keys] = _
    rw [hpast]
    rfl
  rw [run, List.foldl_cons, move, hp]
  dsimp only
  rw [hseen, if_pos (isListing_ids nodup), others_calling free]
  rfl

theorem run_closeAll (free : st.pending? t = none) (nodup : st.registry.keys.Nodup) {n : Nat}
    (hn : 2 * st.registry.size < n) :
    let closed := st.registry.closeAll st.client
    Served st
      (st.run (.start t .closeAll :: .advance t :: .list t st.registry.ids ::
        List.replicate n (.advance t)))
      t .closeAll (.closedAll closed.1) closed.2.1 closed.2.2 := by
  rw [← length_ids] at hn
  rw [run_start free]
  refine served_of_going rfl free rfl fun free => ?_
  have hlist := run_list free nodup List.drop_left .closeAll st.registry.table []
    (List.replicate n (.advance t))
  rw [← Nat.zero_add (st.registry.closeAll st.client).1]
  exact hlist ▸ served_removeNext free st.registry.table [] st.registry.ids 0 hn

end SessionPool.Registry.Shared
