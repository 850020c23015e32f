import SessionPool.Proofs.Entries
import SessionPool.Script.Named

/-!
# What is found by a name

A thing is found by the name that it was given last, as long as it was not erased. When no name
stands for two things, erasing a name takes away one thing at most.
-/

namespace SessionPool.Script

section Options

variable {α β : Type} {R S : α → β → Prop} {x : Option α} {y : Option β}

theorem optionRel_imp (h : Option.Rel R x y) (hRS : ∀ a b, R a b → S a b) : Option.Rel S x y := by
  cases h with
  | some hab => exact .some (hRS _ _ hab)
  | none => exact .none

theorem optionRel_symm (h : Option.Rel R x y) {R' : β → α → Prop} (hR : ∀ a b, R a b → R' b a) :
    Option.Rel R' y x := by
  cases h with
  | some hab => exact .some (hR _ _ hab)
  | none => exact .none

end Options

namespace Named

variable {α : Type} (n : Named α) {name other : Name} (a : α)

/-! ### Looking up -/

@[simp] theorem get?_erase_self (name : Name) : (n.erase name).get? name = none :=
  lookup_filter_self n.entries name

theorem get?_erase_of_ne (h : other ≠ name) : (n.erase name).get? other = n.get? other :=
  lookup_filter_of_ne n.entries h

theorem get?_erase_eq_none (h : n.get? other = none) (name : Name) :
    (n.erase name).get? other = none := by
  by_cases heq : other = name
  · rw [heq, get?_erase_self]
  · rw [get?_erase_of_ne n heq, h]

@[simp] theorem get?_insert_self (name : Name) : (n.insert name a).get? name = some a :=
  List.lookup_cons_self

theorem get?_insert_of_ne (h : other ≠ name) : (n.insert name a).get? other = n.get? other := by
  rw [get?, insert, List.lookup_cons, beq_false_of_ne h]
  exact n.get?_erase_of_ne h

variable {n a}

theorem get?_of_erase (h : (n.erase name).get? other = some a) : n.get? other = some a := by
  by_cases heq : other = name
  · rw [heq, get?_erase_self] at h
    cases h
  · rwa [get?_erase_of_ne n heq] at h

theorem mem_entries_of_get? (h : n.get? name = some a) : (name, a) ∈ n.entries := mem_of_lookup h

theorem mem_values_of_get? (h : n.get? name = some a) : a ∈ n.values :=
  List.mem_map.mpr ⟨_, mem_entries_of_get? h, rfl⟩

theorem erase_eq_self (h : n.get? name = none) : n.erase name = n := by
  rw [erase, filter_of_lookup_eq_none h]

@[simp] theorem erase_insert (name : Name) : (n.insert name a).erase name = n.erase name := by
  simp [insert, erase]

@[simp] theorem insert_insert (name : Name) (b : α) :
    (n.insert name a).insert name b = n.insert name b := by
  rw [insert, erase_insert, insert]

/-! ### Names that stand for one thing -/

/-- No name stands for two things. -/
def Proper (n : Named α) : Prop := (n.entries.map (·.1)).Nodup

theorem proper_empty : Proper ({} : Named α) := List.nodup_nil

theorem Proper.erase (h : n.Proper) (name : Name) : (n.erase name).Proper :=
  h.sublist (List.filter_sublist.map _)

theorem Proper.insert (h : n.Proper) (name : Name) (a : α) : (n.insert name a).Proper := by
  refine List.nodup_cons.mpr ⟨?_, h.erase name⟩
  rw [List.mem_map]
  rintro ⟨entry, hentry, hname⟩
  exact bne_iff_ne.mp (List.mem_filter.mp hentry).2 hname

theorem Proper.get?_of_mem (h : n.Proper) (hentry : (name, a) ∈ n.entries) :
    n.get? name = some a := lookup_of_mem h hentry

theorem Proper.mem_values_iff (h : n.Proper) : a ∈ n.values ↔ ∃ name, n.get? name = some a := by
  constructor
  · intro ha
    obtain ⟨entry, hentry, rfl⟩ := List.mem_map.mp ha
    exact ⟨entry.1, h.get?_of_mem hentry⟩
  · rintro ⟨name, ha⟩
    exact mem_values_of_get? ha

/-! ### Things without their names -/

theorem values_insert (name : Name) :
    (n.insert name a).values = a :: (n.erase name).values := rfl

theorem values_erase_sublist (n : Named α) (name : Name) : (n.erase name).values.Sublist n.values :=
  List.filter_sublist.map _

/-- Erasing a name takes away the one thing that goes by it. -/
theorem Proper.values_perm (h : n.Proper) (hget : n.get? name = some a) :
    n.values.Perm (a :: (n.erase name).values) := (perm_of_lookup h hget).map Prod.snd

/-! ### Some of the things -/

section Selection

variable {β : Type} {p : α → Bool} {q : β → Bool} {R : α → β → Prop} {n n₂ : Named α}
  {n' n₂' : Named β} {a : α} {b : β} {name other : Name}

/-- What a name stands for, if it is one of some things. -/
def getIf (n : Named α) (p : α → Bool) (name : Name) : Option α := (n.get? name).filter p

theorem getIf_eq_some_iff : n.getIf p name = some a ↔ n.get? name = some a ∧ p a = true :=
  Option.filter_eq_some_iff

theorem getIf_of_none (h : n.get? name = none) : n.getIf p name = none := by
  rw [getIf, h, Option.filter_none]

theorem eq_true_of_isSome (h : (n.getIf p name).isSome = true) (hget : n.get? name = some a) :
    p a = true := by
  obtain ⟨b, hb⟩ := Option.isSome_iff_exists.mp h
  obtain ⟨hget', hp⟩ := getIf_eq_some_iff.mp hb
  obtain rfl := Option.some.inj (hget.symm.trans hget')
  exact hp

/-- What is not found among some things is not one of them. -/
theorem eq_false_of_getIf (h : n.getIf p name = none) (hget : n.get? name = some a) :
    p a = false := by
  rw [getIf, hget] at h
  simpa using h

theorem getIf_erase (n : Named α) (p : α → Bool) (name other : Name) :
    (n.erase name).getIf p other = if other = name then none else n.getIf p other := by
  by_cases heq : other = name
  · rw [if_pos heq, heq, getIf_of_none (n.get?_erase_self name)]
  · rw [if_neg heq, getIf, get?_erase_of_ne n heq, getIf]

theorem getIf_insert (n : Named α) (p : α → Bool) (name : Name) (a : α) (other : Name) :
    (n.insert name a).getIf p other =
      if other = name then (some a).filter p else n.getIf p other := by
  by_cases heq : other = name
  · rw [if_pos heq, heq, getIf, get?_insert_self]
  · rw [if_neg heq, getIf, get?_insert_of_ne n a heq, getIf]

/-- The same of some things, whatever the others are. -/
def SameIf (p : α → Bool) (n n₂ : Named α) : Prop := ∀ name, n₂.getIf p name = n.getIf p name

theorem SameIf.refl (p : α → Bool) (n : Named α) : SameIf p n n := fun _ => rfl

theorem SameIf.erase (h : n.getIf p name = none) : SameIf p n (n.erase name) := by
  intro other
  rw [getIf_erase]
  split
  · next heq => rw [heq, h]
  · rfl

theorem SameIf.insert (h : n.getIf p name = none) (ha : p a = false) :
    SameIf p n (n.insert name a) := by
  intro other
  rw [getIf_insert]
  split
  · next heq => rw [heq, h, Option.filter_some_neg (by simp [ha])]
  · rfl

/-- The same names for some things on two sides, which are related. -/
def RelIf (R : α → β → Prop) (p : α → Bool) (q : β → Bool) (n : Named α) (n' : Named β) : Prop :=
  ∀ name, Option.Rel R (n.getIf p name) (n'.getIf q name)

theorem RelIf.left (h : RelIf R p q n n') (hsame : SameIf p n n₂) : RelIf R p q n₂ n' := by
  intro name
  rw [hsame name]
  exact h name

theorem RelIf.erase (h : RelIf R p q n n') (name : Name) :
    RelIf R p q (n.erase name) (n'.erase name) := by
  intro other
  rw [getIf_erase, getIf_erase]
  split
  · exact .none
  · exact h other

theorem RelIf.insert (h : RelIf R p q n n') (name : Name) (hab : R a b) (ha : p a = true)
    (hb : q b = true) : RelIf R p q (n.insert name a) (n'.insert name b) := by
  intro other
  rw [getIf_insert, getIf_insert]
  split
  · rw [Option.filter_some_pos ha, Option.filter_some_pos hb]
    exact .some hab
  · exact h other

/-- A name is given to other things. -/
theorem RelIf.insert_not (h : RelIf R p q n n') (name : Name) (ha : p a = false)
    (hb : q b = false) : RelIf R p q (n.insert name a) (n'.insert name b) := by
  intro other
  rw [getIf_insert, getIf_insert]
  split
  · rw [Option.filter_some_neg (by simp [ha]), Option.filter_some_neg (by simp [hb])]
    exact .none
  · exact h other

theorem RelIf.exists_of_left (h : RelIf R p q n n') (hget : n.get? name = some a)
    (ha : p a = true) : ∃ b, n'.get? name = some b ∧ q b = true ∧ R a b := by
  have hname := h name
  rw [getIf_eq_some_iff.mpr ⟨hget, ha⟩] at hname
  cases hb : n'.getIf q name with
  | none =>
    rw [hb] at hname
    cases hname
  | some b =>
    rw [hb] at hname
    obtain ⟨hget', hq⟩ := getIf_eq_some_iff.mp hb
    cases hname with
    | some hab => exact ⟨b, hget', hq, hab⟩

theorem RelIf.none_of_left (h : RelIf R p q n n') (hname : n.getIf p name = none) :
    n'.getIf q name = none := by
  have hrel := h name
  rw [hname] at hrel
  cases hb : n'.getIf q name with
  | none => rfl
  | some b =>
    rw [hb] at hrel
    cases hrel

theorem RelIf.isSome_eq (h : RelIf R p q n n') (name : Name) :
    (n.getIf p name).isSome = (n'.getIf q name).isSome := by
  have hrel := h name
  generalize n.getIf p name = x at hrel
  generalize n'.getIf q name = y at hrel
  cases hrel with
  | some _ => rfl
  | none => rfl

theorem RelIf.symm (h : RelIf R p q n n') {R' : β → α → Prop} (hR : ∀ a b, R a b → R' b a) :
    RelIf R' q p n' n := fun name => optionRel_symm (h name) hR

theorem RelIf.imp (h : RelIf R p q n n') {S : α → β → Prop} (hRS : ∀ a b, R a b → S a b) :
    RelIf S p q n n' := fun name => optionRel_imp (h name) hRS

theorem getIf_congr {p₂ : α → Bool} (h : ∀ name a, n.get? name = some a → p₂ a = p a)
    (name : Name) : n.getIf p₂ name = n.getIf p name := by
  rw [getIf, getIf]
  cases hget : n.get? name with
  | none => rfl
  | some a => rw [Option.filter, Option.filter, h name a hget]

/-- It does not matter which things count, as long as the same of those that are there do. -/
theorem RelIf.congr (h : RelIf R p q n n') {p₂ : α → Bool} {q₂ : β → Bool}
    (hp : ∀ name a, n.get? name = some a → p₂ a = p a)
    (hq : ∀ name b, n'.get? name = some b → q₂ b = q b) : RelIf R p₂ q₂ n n' := by
  intro name
  rw [getIf_congr hp, getIf_congr hq]
  exact h name

/-- Some of the things are there on both sides, or on none. -/
theorem RelIf.exists_of_mem (h : RelIf R p q n n') (proper : n.Proper) (ha : a ∈ n.values)
    (hp : p a = true) : ∃ b ∈ n'.values, q b = true := by
  obtain ⟨name, hget⟩ := proper.mem_values_iff.mp ha
  obtain ⟨b, hget', hq, -⟩ := h.exists_of_left hget hp
  exact ⟨b, mem_values_of_get? hget', hq⟩

/-- What holds of all things that have names. -/
def All (P : α → Prop) (n : Named α) : Prop := ∀ name a, n.get? name = some a → P a

theorem All.imp {P Q : α → Prop} (h : n.All P) (hPQ : ∀ a, P a → Q a) : n.All Q :=
  fun name a hget => hPQ a (h name a hget)

theorem All.erase {P : α → Prop} (h : n.All P) (name : Name) : (n.erase name).All P :=
  fun other a hget => h other a (get?_of_erase hget)

theorem All.insert {P : α → Prop} (h : n.All P) (name : Name) (ha : P a) :
    (n.insert name a).All P := by
  intro other b hget
  by_cases heq : other = name
  · rw [heq, get?_insert_self] at hget
    rwa [← Option.some.inj hget]
  · rw [get?_insert_of_ne n a heq] at hget
    exact h other b hget

end Selection

/-- What a name stands for on one side it stands for on the other. -/
def Within (n n' : Named α) : Prop := ∀ name a, n.get? name = some a → n'.get? name = some a

section Within

variable {n' : Named α}

theorem Within.erase (h : Within n n') (name : Name) : Within (n.erase name) (n'.erase name) := by
  intro other a hget
  by_cases heq : other = name
  · rw [heq, get?_erase_self] at hget
    cases hget
  · rw [get?_erase_of_ne n' heq]
    exact h other a (get?_of_erase hget)

theorem Within.insert (h : Within n n') (name : Name) (a : α) :
    Within (n.insert name a) (n'.insert name a) := by
  intro other b hget
  by_cases heq : other = name
  · rw [heq, get?_insert_self] at hget ⊢
    exact hget
  · rw [get?_insert_of_ne n a heq] at hget
    rw [get?_insert_of_ne n' a heq]
    exact h other b hget

end Within

end Named

end SessionPool.Script
