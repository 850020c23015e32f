import Mathlib.Data.List.TakeWhile
import SessionPool.Text.Blank

/-!
# What trimming leaves

A text has one part that neither starts nor ends with a blank and is between blanks only. This is
the part that trimming leaves:

    trim s = t  ↔  Trims s t.

So trimming what was trimmed leaves it as it is.
-/

namespace SessionPool.Text

/-- A text that neither starts nor ends with a blank. -/
structure IsTight (t : List Char) : Prop where
  head : ∀ c, t.head? = some c → isBlank c = false
  last : ∀ c, t.getLast? = some c → isBlank c = false

/-- A text is `t` between blanks, and none of the blanks is in `t`. -/
structure Trims (s t : List Char) : Prop where
  between : ∃ before after, s = before ++ (t ++ after) ∧
    (∀ c ∈ before, isBlank c = true) ∧ ∀ c ∈ after, isBlank c = true
  tight : IsTight t

/-! ### The end of a text -/

theorem trimEnd_cons (c : Char) (s : List Char) :
    trimEnd (c :: s) = if trimEnd s = [] ∧ isBlank c = true then [] else c :: trimEnd s := by
  rw [trimEnd]
  split
  · next h => cases isBlank c <;> simp [h]
  · next h =>
    have hne : trimEnd s ≠ [] := h
    simp [hne]

theorem trimEnd_eq_nil {s : List Char} (h : ∀ c ∈ s, isBlank c = true) : trimEnd s = [] :=
  (trimEnd_eq_nil_iff s).mpr (List.all_eq_true.mpr h)

/-- What is cut off at the end is blank. -/
theorem exists_trimEnd_append (s : List Char) :
    ∃ after, s = trimEnd s ++ after ∧ ∀ c ∈ after, isBlank c = true := by
  induction s with
  | nil => exact ⟨[], rfl, by simp⟩
  | cons c s ih =>
    rw [trimEnd_cons]
    split
    · next h =>
      have hs := List.all_eq_true.mp ((trimEnd_eq_nil_iff s).mp h.1)
      exact ⟨c :: s, rfl, List.forall_mem_cons.mpr ⟨h.2, hs⟩⟩
    · obtain ⟨after, hafter, hblank⟩ := ih
      exact ⟨after, congrArg (c :: ·) hafter, hblank⟩

/-- Blanks at the end do not matter. -/
theorem trimEnd_append (s : List Char) {after : List Char} (h : ∀ c ∈ after, isBlank c = true) :
    trimEnd (s ++ after) = trimEnd s := by
  induction s with
  | nil => exact trimEnd_eq_nil h
  | cons c s ih => rw [List.cons_append, trimEnd_cons, trimEnd_cons, ih]

theorem isBlank_of_getLast?_trimEnd {s : List Char} {c : Char}
    (h : (trimEnd s).getLast? = some c) : isBlank c = false := by
  induction s with
  | nil => cases h
  | cons c' s ih =>
    rw [trimEnd_cons] at h
    split at h
    · cases h
    · next hnot =>
      cases hs : trimEnd s with
      | nil =>
        rw [hs] at h
        obtain rfl := Option.some.inj h
        simpa [hs] using hnot
      | cons d t =>
        rw [hs, List.getLast?_cons_cons, ← hs] at h
        exact ih h

theorem trimEnd_of_last {t : List Char} (h : ∀ c, t.getLast? = some c → isBlank c = false) :
    trimEnd t = t := by
  obtain ⟨after, hafter, hblank⟩ := exists_trimEnd_append t
  cases hlast : after.getLast? with
  | none =>
    rw [List.getLast?_eq_none_iff.mp hlast, List.append_nil] at hafter
    exact hafter.symm
  | some c =>
    have hc : t.getLast? = some c := by
      rw [hafter, List.getLast?_append, hlast]
      rfl
    have hstray := h c hc
    rw [hblank c (List.mem_of_getLast? hlast)] at hstray
    cases hstray

/-! ### Both ends -/

theorem trims_trim (s : List Char) : Trims s (trim s) := by
  obtain ⟨after, hafter, hblank⟩ := exists_trimEnd_append (s.dropWhile isBlank)
  refine ⟨⟨s.takeWhile isBlank, after, ?_, fun c hc => ?_, hblank⟩, ⟨fun c hc => ?_,
    fun c hc => ?_⟩⟩
  · rw [trim, ← hafter, List.takeWhile_append_dropWhile]
  · exact List.mem_takeWhile_imp hc
  · -- Cutting at the end leaves the first character, if it leaves any.
    have hhead : (s.dropWhile isBlank).head? = some c := by
      rw [hafter, List.head?_append, ← trim, hc]
      rfl
    have hnot := List.head?_dropWhile_not isBlank s
    rw [hhead] at hnot
    exact hnot
  · exact isBlank_of_getLast?_trimEnd hc

theorem Trims.trim_eq {s t : List Char} (h : Trims s t) : trim s = t := by
  obtain ⟨⟨before, after, rfl, hbefore, hafter⟩, htight⟩ := h
  rw [trim, List.dropWhile_append_of_pos hbefore]
  cases t with
  | nil =>
    have hnil : after.dropWhile isBlank = [] := List.dropWhile_eq_nil_iff.mpr hafter
    rw [List.nil_append, hnil, trimEnd]
  | cons c t =>
    have hc : isBlank c = false := htight.head c rfl
    rw [List.cons_append, List.dropWhile_cons_of_neg (by simp [hc]), ← List.cons_append,
      trimEnd_append _ hafter, trimEnd_of_last htight.last]

/-- **Trimming leaves the one part of a text that is tight and between blanks.** -/
theorem trim_eq_iff {s t : List Char} : trim s = t ↔ Trims s t := by
  constructor
  · rintro rfl
    exact trims_trim s
  · exact Trims.trim_eq

/-! ### Strings -/

theorem trims_trimmed (s : String) : Trims s.toList (trimmed s).toList := by
  rw [trimmed, String.toList_ofList]
  exact trims_trim s.toList

theorem Trims.toList_trimmed {s : String} {t : List Char} (h : Trims s.toList t) :
    (trimmed s).toList = t := by
  rw [trimmed, h.trim_eq, String.toList_ofList]

end SessionPool.Text
