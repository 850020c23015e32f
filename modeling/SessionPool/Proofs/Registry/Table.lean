import SessionPool.Proofs.Script.Clients

/-!
# The table of a registry

What is found in the table after each of the operations on it, and how what is found goes with the
listing of the ids.
-/

namespace SessionPool.Registry

variable {φ μ ω : Type} {r : Registry φ} {id other : UInt64} {ref : SessionRef}

/-! ### Looking up -/

@[simp] theorem lookup?_erase_self (r : Registry φ) (id : UInt64) :
    (r.erase id).lookup? id = none := lookup_filter_self r.table id

theorem lookup?_erase_of_ne (r : Registry φ) (h : other ≠ id) :
    (r.erase id).lookup? other = r.lookup? other := lookup_filter_of_ne r.table h

@[simp] theorem lookup?_insert_self (r : Registry φ) (id : UInt64) (ref : SessionRef) :
    (r.insert id ref).lookup? id = some ref := by
  show ((r.erase id).table ++ [(id, ref)]).lookup id = _
  rw [List.lookup_append, show (r.erase id).table.lookup id = none from r.lookup?_erase_self id]
  simp

theorem lookup?_insert_of_ne (r : Registry φ) (h : other ≠ id) (ref : SessionRef) :
    (r.insert id ref).lookup? other = r.lookup? other := by
  show ((r.erase id).table ++ [(id, ref)]).lookup other = _
  rw [List.lookup_append, List.lookup_cons, beq_false_of_ne h, List.lookup_nil, Option.or_none]
  exact r.lookup?_erase_of_ne h

theorem get_eq_ok_iff : r.get id = .ok ref ↔ r.lookup? id = some ref := by
  rw [get]
  cases r.lookup? id <;> simp

theorem get_eq_error_iff : r.get id = .error (.sessionNotFound id) ↔ r.lookup? id = none := by
  rw [get]
  cases r.lookup? id <;> simp

/-! ### The ids -/

theorem mem_ids_iff : id ∈ r.ids ↔ ∃ ref, r.lookup? id = some ref := by
  rw [ids, List.mem_mergeSort, List.mem_map, ← Option.isSome_iff_exists, lookup?,
    List.lookup_isSome_iff]
  constructor
  · rintro ⟨entry, hentry, rfl⟩
    exact ⟨entry, hentry, BEq.rfl⟩
  · rintro ⟨entry, hentry, hid⟩
    exact ⟨entry, hentry, (eq_of_beq hid).symm⟩

theorem length_ids (r : Registry φ) : r.ids.length = r.size := by
  simp [ids, size]

theorem isEmpty_iff : r.isEmpty = true ↔ r.ids = [] := by
  rw [isEmpty, List.isEmpty_iff_length_eq_zero, ← List.length_eq_zero_iff, length_ids]
  rfl

/-- Since no id occurs twice, each one in the listing is less than those behind it. -/
theorem ascending_ids (h : (r.table.map (·.1)).Nodup) : r.ids.Pairwise (· < ·) := by
  have hle : r.ids.Pairwise (· ≤ ·) := by
    refine (List.pairwise_mergeSort ?_ ?_ _).imp of_decide_eq_true
    · intro a b c hab hbc
      exact decide_eq_true (UInt64.le_trans (of_decide_eq_true hab) (of_decide_eq_true hbc))
    · intro a b
      simpa using UInt64.le_total a b
  have hne : r.ids.Pairwise (· ≠ ·) := (List.mergeSort_perm _ _).nodup_iff.mpr h
  exact (hle.and hne).imp fun h => UInt64.lt_of_le_of_ne h.1 h.2

/-! ### Removing -/

section

variable [Marshal μ ω] (c : Client φ μ ω)

theorem remove_fst (r : Registry φ) (id : UInt64) : (r.remove id c).1 = r.get id := by
  rw [remove, get]
  cases r.lookup? id <;> rfl

theorem remove_registry (r : Registry φ) (id : UInt64) : (r.remove id c).2.1 = r.erase id := by
  rw [remove]
  split
  · next h => exact (erase_eq_self h).symm
  · rfl

/-- A removal that fails changes nothing. -/
theorem remove_of_none (h : r.lookup? id = none) :
    r.remove id c = (.error (.sessionNotFound id), r, c) := by
  rw [remove, h]

theorem removeEach_cons (ids : List UInt64) (r : Registry φ) :
    (removeEach (id :: ids) r c).2 =
      (removeEach ids (r.remove id c).2.1 (r.remove id c).2.2).2 := by
  rw [removeEach]
  split
  · next h => rw [h]
  · next h => rw [h]

/-- Removing several ids leaves the entries of the others. -/
theorem removeEach_table (ids : List UInt64) (r : Registry φ) :
    (removeEach ids r c).2.1.table = r.table.filter fun entry => entry.1 ∉ ids := by
  induction ids generalizing r c with
  | nil => simp [removeEach]
  | cons id ids ih =>
    rw [removeEach_cons, ih, remove_registry, erase, List.filter_filter]
    grind

theorem closeAll_table (r : Registry φ) : (r.closeAll c).2.1.table = [] := by
  rw [closeAll, removeEach_table, List.filter_eq_nil_iff]
  intro entry hentry
  have hid : entry.1 ∈ r.ids := by
    rw [ids, List.mem_mergeSort]
    exact List.mem_map_of_mem hentry
  simpa using hid

end

end SessionPool.Registry
