import Mathlib.Data.List.Basic

/-!
# Entries with keys

A list of entries is a table: the first entry with a key is what is found by the key. Leaving a key
out changes what is found by this key alone. Where no key occurs twice, the entries are exactly what
is found.
-/

namespace SessionPool

variable {κ α : Type} [BEq κ] [LawfulBEq κ] {key other : κ} {a : α}

theorem lookup_filter_self (entries : List (κ × α)) (key : κ) :
    (entries.filter (·.1 != key)).lookup key = none := by
  rw [List.lookup_eq_none_iff]
  intro entry hentry
  rw [bne_iff_ne, ne_comm]
  exact bne_iff_ne.mp (List.mem_filter.mp hentry).2

theorem lookup_filter_of_ne (entries : List (κ × α)) (h : other ≠ key) :
    (entries.filter (·.1 != key)).lookup other = entries.lookup other := by
  induction entries with
  | nil => rfl
  | cons entry entries ih =>
    obtain ⟨first, a⟩ := entry
    by_cases hfirst : first = key
    · have hne : (other == first) = false := beq_false_of_ne (hfirst ▸ h)
      rw [List.filter_cons_of_neg (by simp [hfirst]), List.lookup_cons, hne, ih]
    · rw [List.filter_cons_of_pos (by simp [hfirst]), List.lookup_cons, List.lookup_cons, ih]

variable {entries : List (κ × α)}

theorem filter_of_lookup_eq_none (h : entries.lookup key = none) :
    entries.filter (·.1 != key) = entries := by
  refine List.filter_eq_self.mpr fun entry hentry => ?_
  rw [bne_iff_ne, ne_comm]
  exact bne_iff_ne.mp (List.lookup_eq_none_iff.mp h entry hentry)

theorem mem_of_lookup (h : entries.lookup key = some a) : (key, a) ∈ entries := by
  obtain ⟨l₁, l₂, rfl, -⟩ := List.lookup_eq_some_iff.mp h
  simp

/-- Where no key occurs twice, every entry is found by its key. -/
theorem lookup_of_mem (h : (entries.map (·.1)).Nodup) (hentry : (key, a) ∈ entries) :
    entries.lookup key = some a := by
  induction entries with
  | nil => cases hentry
  | cons first rest ih =>
    obtain ⟨hfirst, hrest⟩ := List.nodup_cons.mp h
    rcases List.mem_cons.mp hentry with rfl | hlater
    · exact List.lookup_cons_self
    · have hne : key ≠ first.1 := by
        rintro rfl
        exact hfirst (List.mem_map.mpr ⟨_, hlater, rfl⟩)
      rw [List.lookup_cons, beq_false_of_ne hne]
      exact ih hrest hlater

/-- Where no key occurs twice, leaving one out takes away the entry that is found by it. -/
theorem perm_of_lookup (h : (entries.map (·.1)).Nodup) (hget : entries.lookup key = some a) :
    entries.Perm ((key, a) :: entries.filter (·.1 != key)) := by
  obtain ⟨l₁, l₂, rfl, hl₁⟩ := List.lookup_eq_some_iff.mp hget
  have hbefore : l₁.filter (·.1 != key) = l₁ :=
    filter_of_lookup_eq_none (List.lookup_eq_none_iff.mpr hl₁)
  have hafter : l₂.filter (·.1 != key) = l₂ := by
    rw [List.map_append, List.map_cons] at h
    have hnot := (List.nodup_cons.mp (List.nodup_append.mp h).2.1).1
    refine List.filter_eq_self.mpr fun entry hentry => ?_
    rw [bne_iff_ne]
    rintro rfl
    exact hnot (List.mem_map.mpr ⟨entry, hentry, rfl⟩)
  rw [List.filter_append, hbefore, List.filter_cons_of_neg (by simp), hafter]
  exact List.perm_middle

end SessionPool
