/-!
# Matching brackets

In a word of brackets every opening bracket carries something. A closing bracket belongs to the
opening bracket that is left of it with nothing but a balanced word in between,

    before ++ opening a :: (inner ++ closing :: after),  inner balanced,

and a bracket that belongs to no other one is unmatched. Matching is said here without any stack; a
stack that is pushed and popped along the word finds the same partners.
-/

namespace SessionPool

/-- A bracket. An opening one carries something. -/
inductive Bracket (α : Type) where
  | opening (a : α)
  | closing
  deriving DecidableEq, Repr

namespace Bracket

variable {α : Type} {u v word : List (Bracket α)} {a : α}

/-! ### Partners -/

/-- A word in which every bracket has a partner. -/
inductive Balanced : List (Bracket α) → Prop
  | nil : Balanced []
  | wrap {inner : List (Bracket α)} (a : α) (h : Balanced inner) :
      Balanced (opening a :: (inner ++ [closing]))
  | append {u v : List (Bracket α)} (hu : Balanced u) (hv : Balanced v) : Balanced (u ++ v)

/-- A closing bracket behind the word would belong to an opening bracket in it, which carries
`a`. -/
def Awaits (word : List (Bracket α)) (a : α) : Prop :=
  ∃ before inner, word = before ++ opening a :: inner ∧ Balanced inner

/-- An opening bracket in front of the word would belong to a closing bracket in it. -/
def Closes (word : List (Bracket α)) : Prop :=
  ∃ inner after, word = inner ++ closing :: after ∧ Balanced inner

/-! ### Brackets that close too much -/

/-- How many closing brackets have no partner. -/
def excess : List (Bracket α) → Nat
  | [] => 0
  | opening _ :: word => excess word - 1
  | closing :: word => excess word + 1

theorem Balanced.excess_append (h : Balanced u) (v : List (Bracket α)) :
    excess (u ++ v) = excess v := by
  induction h generalizing v with
  | nil => rfl
  | @wrap inner a _ ih =>
    have hinner := ih (closing :: v)
    rw [List.cons_append, List.append_assoc, List.singleton_append, excess, hinner, excess]
    omega
  | @append u₁ u₂ _ _ ih₁ ih₂ => rw [List.append_assoc, ih₁, ih₂]

theorem closes_iff : Closes word ↔ 0 < excess word := by
  constructor
  · rintro ⟨inner, after, rfl, hinner⟩
    rw [hinner.excess_append, excess]
    exact Nat.succ_pos _
  · -- By the length: behind the first bracket that closes too much there may be another one.
    induction hn : word.length using Nat.strongRecOn generalizing word with
    | _ n ih =>
      subst hn
      intro hpos
      match word with
      | [] => exact absurd hpos (Nat.lt_irrefl 0)
      | closing :: after => exact ⟨[], after, rfl, .nil⟩
      | opening a :: word =>
        rw [excess] at hpos
        obtain ⟨inner, after, rfl, hinner⟩ := ih _ (by simp) rfl (by omega : 0 < excess word)
        rw [hinner.excess_append, excess] at hpos
        obtain ⟨inner', after', rfl, hinner'⟩ :=
          ih after.length (by simp; omega) rfl (by omega)
        exact ⟨_, after', by simp, (hinner.wrap a).append hinner'⟩

instance : Decidable (Closes word) := decidable_of_iff (0 < excess word) closes_iff.symm

/-- What the opening brackets without a partner carry, from the left to the right. -/
def unmatched : List (Bracket α) → List α
  | [] => []
  | opening a :: word => if Closes word then unmatched word else a :: unmatched word
  | closing :: word => unmatched word

/-! ### A stack along the word -/

/-- What a bracket does to a stack. -/
def push : List α → Bracket α → List α
  | stack, opening a => a :: stack
  | stack, closing => stack.tail

/-- The stack behind a word. -/
def stack (word : List (Bracket α)) : List α := word.foldl push []

theorem stack_concat (word : List (Bracket α)) (b : Bracket α) :
    stack (word ++ [b]) = push (stack word) b := by
  rw [stack, List.foldl_append]
  rfl

/-- A balanced word leaves every stack as it is. -/
theorem Balanced.foldl_push (h : Balanced u) (s : List α) : u.foldl push s = s := by
  induction h generalizing s with
  | nil => rfl
  | @wrap inner a _ ih =>
    have hinner := ih (a :: s)
    rw [List.foldl_cons, List.foldl_append]
    show (inner.foldl push (a :: s)).tail = s
    rw [hinner, List.tail_cons]
  | append _ _ ih₁ ih₂ => rw [List.foldl_append, ih₁, ih₂]

/-- On the stack is what was unmatched, and below it what closing too much has left there. -/
theorem foldl_push_eq (word : List (Bracket α)) (s : List α) :
    word.foldl push s = (unmatched word).reverse ++ s.drop (excess word) := by
  induction word generalizing s with
  | nil => rfl
  | cons b word ih =>
    rw [List.foldl_cons, ih]
    cases b with
    | closing => rw [push, unmatched, excess, List.drop_tail]
    | opening a =>
      rw [push, unmatched, excess]
      split
      · next hcloses =>
        obtain ⟨n, hn⟩ := Nat.exists_eq_add_of_lt (closes_iff.mp hcloses)
        rw [show excess word = n + 1 by omega, List.drop_succ_cons, Nat.add_sub_cancel]
      · next hopen =>
        have hzero : excess word = 0 := by
          rw [closes_iff] at hopen
          omega
        rw [hzero, List.drop_zero, List.drop_zero, List.reverse_cons, List.append_assoc,
          List.singleton_append]

theorem stack_eq (word : List (Bracket α)) : stack word = (unmatched word).reverse := by
  rw [stack, foldl_push_eq, List.drop_nil, List.append_nil]

/-- The partner that a closing bracket would have is on top of the stack. -/
theorem Balanced.stack_append (h : Balanced u) (before : List (Bracket α)) (a : α) :
    stack (before ++ opening a :: u) = a :: stack before := by
  rw [stack, List.foldl_append, List.foldl_cons]
  exact h.foldl_push _

/-- What is on top of the stack is the partner that a closing bracket would have, and below it is
the stack from before it came. -/
theorem exists_of_stack {rest : List α} (h : stack word = a :: rest) :
    ∃ before inner, word = before ++ opening a :: inner ∧ Balanced inner ∧
      stack before = rest := by
  -- By the length: a bracket that closes has a partner, and `a` came before that partner.
  induction hn : word.length using Nat.strongRecOn generalizing word a rest with
  | _ n ih =>
    subst hn
    rcases word.eq_nil_or_concat with rfl | ⟨word, b, rfl⟩
    · cases h
    rw [List.concat_eq_append] at h ih ⊢
    rw [stack_concat] at h
    cases b with
    | opening a' =>
      obtain ⟨rfl, hrest⟩ := List.cons.inj h
      exact ⟨word, [], rfl, .nil, hrest⟩
    | closing =>
      obtain ⟨top, htop⟩ : ∃ top, stack word = top :: a :: rest := by
        cases hs : stack word with
        | nil => rw [hs] at h; cases h
        | cons top below =>
          rw [hs] at h
          exact ⟨top, congrArg (top :: ·) h⟩
      obtain ⟨between, inner, rfl, hinner, hbelow⟩ := ih _ (by simp) htop rfl
      obtain ⟨before, inner', rfl, hinner', hrest⟩ := ih between.length (by simp) hbelow rfl
      exact ⟨before, _, by simp, hinner'.append (hinner.wrap top), hrest⟩

theorem awaits_iff : Awaits word a ↔ (stack word).head? = some a := by
  constructor
  · rintro ⟨before, inner, rfl, hinner⟩
    rw [hinner.stack_append, List.head?_cons]
  · intro h
    obtain ⟨rest, hrest⟩ := List.head?_eq_some_iff.mp h
    obtain ⟨before, inner, hword, hinner, -⟩ := exists_of_stack hrest
    exact ⟨before, inner, hword, hinner⟩

end Bracket

end SessionPool
