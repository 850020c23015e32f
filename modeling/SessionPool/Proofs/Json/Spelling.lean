import SessionPool.Json.Skip
import SessionPool.Json.Value

/-!
# Spellings of values

The compact and the pretty text of a value consist of the same parts; they differ in the white space
between these. A text *spells* a value when it consists of those parts with any white space at all,
so both layouts are spellings,

    Spells v.compact v  and  Spells (v.pretty depth) v,

and what a reader makes of every spelling it makes of both.
-/

namespace SessionPool.Json

open Value

/-! ### White space -/

/-- White space of the format. -/
def IsSpace (c : Char) : Prop := c = ' ' ∨ c = '\t' ∨ c = '\n' ∨ c = '\r'

/-- A gap between two parts: white space, or nothing. -/
def IsGap (g : List Char) : Prop := ∀ c ∈ g, IsSpace c

theorem isGap_nil : IsGap [] := by simp [IsGap]

theorem isGap_space : IsGap [' '] := by simp [IsGap, IsSpace]

theorem isGap_newLine (depth : Nat) : IsGap (newLine depth) := by
  intro c hc
  rcases List.mem_cons.mp hc with rfl | hc
  · exact .inr (.inr (.inl rfl))
  · exact .inl (List.eq_of_mem_replicate hc)

theorem skipBlanks_cons {c : Char} (h : ¬ IsSpace c) (s : List Char) :
    skipBlanks (c :: s) = c :: s := by
  simp only [IsSpace, not_or] at h
  simp [skipBlanks, h]

theorem skipBlanks_gap {g : List Char} (hg : IsGap g) (s : List Char) :
    skipBlanks (g ++ s) = skipBlanks s := by
  apply List.dropWhile_append_of_pos
  intro c hc
  rcases hg c hc with rfl | rfl | rfl | rfl <;> rfl

/-- The first character behind a gap. -/
theorem skipBlanks_gap_cons {g : List Char} {c : Char} (hg : IsGap g) (h : ¬ IsSpace c)
    (s : List Char) : skipBlanks (g ++ c :: s) = c :: s := by
  rw [skipBlanks_gap hg, skipBlanks_cons h]

/-! ### Spellings -/

mutual

/-- A text spells a value. -/
inductive Spells : List Char → Value → Prop
  | null : Spells ['n', 'u', 'l', 'l'] .null
  | boolean (b : Bool) : Spells (writeBoolean b) (.boolean b)
  | natural (n : Nat) : Spells (writeNatural n) (.natural n)
  | text (s : String) : Spells (writeText s) (.text s)
  | emptyList {g} : IsGap g → Spells ('[' :: (g ++ [']'])) (.list [])
  | list {g s vs} : IsGap g → SpellsElements s vs → Spells ('[' :: (g ++ s)) (.list vs)
  | emptyObject {g} : IsGap g → Spells ('{' :: (g ++ ['}'])) (.object [])
  | object {g s ms} : IsGap g → SpellsMembers s ms → Spells ('{' :: (g ++ s)) (.object ms)

/-- A text spells the elements of a list, from the first of them to the closing bracket. -/
inductive SpellsElements : List Char → List Value → Prop
  | last {s v g} : Spells s v → IsGap g → SpellsElements (s ++ (g ++ [']'])) [v]
  | cons {s v g h t vs} : Spells s v → IsGap g → IsGap h → SpellsElements t vs →
      SpellsElements (s ++ (g ++ ',' :: (h ++ t))) (v :: vs)

/-- A text spells the members of an object, from the first of them to the closing brace. -/
inductive SpellsMembers : List Char → List (String × Value) → Prop
  | last {s m g} : SpellsMember s m → IsGap g → SpellsMembers (s ++ (g ++ ['}'])) [m]
  | cons {s m g h t ms} : SpellsMember s m → IsGap g → IsGap h → SpellsMembers t ms →
      SpellsMembers (s ++ (g ++ ',' :: (h ++ t))) (m :: ms)

/-- A text spells a name and its value. -/
inductive SpellsMember : List Char → String × Value → Prop
  | mk {g h s v} (name : String) : IsGap g → IsGap h → Spells s v →
      SpellsMember (writeText name ++ (g ++ ':' :: (h ++ s))) (name, v)

end

/-! ### Both layouts are spellings -/

mutual

theorem spells_compact (v : Value) : Spells v.compact v := by
  match v with
  | .null => exact .null
  | .boolean b => exact .boolean b
  | .natural n => exact .natural n
  | .text s => exact .text s
  | .list [] => exact .emptyList isGap_nil
  | .list (v :: vs) =>
    exact .list isGap_nil (spellsElements_compact (v :: vs) (List.cons_ne_nil v vs))
  | .object [] => exact .emptyObject isGap_nil
  | .object (m :: ms) =>
    exact .object isGap_nil (spellsMembers_compact (m :: ms) (List.cons_ne_nil m ms))

theorem spellsElements_compact (vs : List Value) (h : vs ≠ []) :
    SpellsElements (compactElements vs) vs := by
  match vs, h with
  | [v], _ => exact .last (spells_compact v) isGap_nil
  | v :: v' :: vs, _ =>
    have hvs := spellsElements_compact (v' :: vs) (List.cons_ne_nil v' vs)
    exact .cons (spells_compact v) isGap_nil isGap_nil hvs

theorem spellsMembers_compact (ms : List (String × Value)) (h : ms ≠ []) :
    SpellsMembers (compactMembers ms) ms := by
  match ms, h with
  | [(name, v)], _ =>
    have hm := SpellsMember.mk name isGap_nil isGap_nil (spells_compact v)
    simpa [compactMembers] using SpellsMembers.last hm isGap_nil
  | (name, v) :: m :: ms, _ =>
    have hm := SpellsMember.mk name isGap_nil isGap_nil (spells_compact v)
    have hms := spellsMembers_compact (m :: ms) (List.cons_ne_nil m ms)
    simpa [compactMembers] using SpellsMembers.cons hm isGap_nil isGap_nil hms

end

mutual

theorem spells_pretty (depth : Nat) (v : Value) : Spells (v.pretty depth) v := by
  match v with
  | .null => exact .null
  | .boolean b => exact .boolean b
  | .natural n => exact .natural n
  | .text s => exact .text s
  | .list [] => exact .emptyList isGap_nil
  | .list (v :: vs) =>
    obtain ⟨t, ht, hs⟩ := spellsElements_pretty depth (v :: vs) (List.cons_ne_nil v vs)
    rw [pretty, ht]
    · exact .list (isGap_newLine _) hs
    · exact List.cons_ne_nil v vs
  | .object [] => exact .emptyObject isGap_nil
  | .object (m :: ms) =>
    obtain ⟨t, ht, hs⟩ := spellsMembers_pretty depth (m :: ms) (List.cons_ne_nil m ms)
    rw [pretty, ht]
    · exact .object (isGap_newLine _) hs
    · exact List.cons_ne_nil m ms

/-- The line on which the first element stands begins with a gap. -/
theorem spellsElements_pretty (depth : Nat) (vs : List Value) (h : vs ≠ []) :
    ∃ t, prettyElements depth vs = newLine (depth + 1) ++ t ∧ SpellsElements t vs := by
  match vs, h with
  | [v], _ =>
    have hv := spells_pretty (depth + 1) v
    exact ⟨_, by simp [prettyElements], .last hv (isGap_newLine depth)⟩
  | v :: v' :: vs, _ =>
    have hv := spells_pretty (depth + 1) v
    obtain ⟨t, ht, hs⟩ := spellsElements_pretty depth (v' :: vs) (List.cons_ne_nil v' vs)
    exact ⟨_, by simp [prettyElements, ht], .cons hv isGap_nil (isGap_newLine (depth + 1)) hs⟩

theorem spellsMembers_pretty (depth : Nat) (ms : List (String × Value)) (h : ms ≠ []) :
    ∃ t, prettyMembers depth ms = newLine (depth + 1) ++ t ∧ SpellsMembers t ms := by
  match ms, h with
  | [(name, v)], _ =>
    have hm := SpellsMember.mk name isGap_nil isGap_space (spells_pretty (depth + 1) v)
    exact ⟨_, by simp [prettyMembers], .last hm (isGap_newLine depth)⟩
  | (name, v) :: m :: ms, _ =>
    have hm := SpellsMember.mk name isGap_nil isGap_space (spells_pretty (depth + 1) v)
    obtain ⟨t, ht, hs⟩ := spellsMembers_pretty depth (m :: ms) (List.cons_ne_nil m ms)
    exact ⟨_, by simp [prettyMembers, ht], .cons hm isGap_nil (isGap_newLine (depth + 1)) hs⟩

end

end SessionPool.Json
