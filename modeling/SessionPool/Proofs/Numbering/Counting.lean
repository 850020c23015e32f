import Mathlib.Data.List.Basic
import SessionPool.Client

/-!
# Counting on

Behind an id `s` an allocator gives

    s + 1, s + 2, ..., s + n,

in words of 64 bits, and the id it gave last is then `s + n`. As long as there are no more than all
words, none comes twice; as long as the end of the words is not reached, they ascend.
-/

namespace SessionPool

/-- The first `n` ids behind `s`. -/
def idsAfter (s : UInt64) (n : Nat) : List UInt64 :=
  (List.range n).map fun i => s + UInt64.ofNat (i + 1)

theorem idsAfter_succ (s : UInt64) (n : Nat) :
    idsAfter s (n + 1) = idsAfter s n ++ [s + UInt64.ofNat (n + 1)] := by
  simp [idsAfter, List.range_succ]

theorem toNat_add_ofNat (s : UInt64) (i : Nat) :
    (s + UInt64.ofNat i).toNat = (s.toNat + i) % UInt64.size := by
  simp [UInt64.toNat_add, UInt64.size]

theorem nodup_idsAfter (s : UInt64) {n : Nat} (h : n ≤ UInt64.size) : (idsAfter s n).Nodup := by
  rw [List.Nodup, idsAfter, List.pairwise_map]
  refine List.pairwise_lt_range.imp_of_mem fun hi hj hlt heq => ?_
  have heq := congrArg UInt64.toNat heq
  simp only [List.mem_range, toNat_add_ofNat, UInt64.size] at hi hj heq h
  omega

theorem ascending_idsAfter (s : UInt64) {n : Nat} (h : s.toNat + n < UInt64.size) :
    (idsAfter s n).Pairwise (· < ·) := by
  rw [idsAfter, List.pairwise_map]
  refine List.pairwise_lt_range.imp_of_mem fun hi hj hlt => ?_
  rw [UInt64.lt_iff_toNat_lt, toNat_add_ofNat, toNat_add_ofNat]
  simp only [List.mem_range, UInt64.size] at hi hj h ⊢
  omega

theorem zero_notMem_idsAfter (s : UInt64) {n : Nat} (h : s.toNat + n < UInt64.size) :
    0 ∉ idsAfter s n := by
  intro hmem
  obtain ⟨i, hi, heq⟩ := List.mem_map.mp hmem
  have heq := congrArg UInt64.toNat heq
  rw [toNat_add_ofNat] at heq
  simp only [List.mem_range, UInt64.size, UInt64.toNat_zero] at hi heq h
  omega

/-- An allocator that gave `s` before has given `ids` in this order, and `last` at the end. -/
structure CountsOn (s : UInt64) (ids : List UInt64) (last : UInt64) : Prop where
  inOrder : ids = idsAfter s ids.length
  last_eq : last = s + UInt64.ofNat ids.length
  distinct : ids.length ≤ UInt64.size → ids.Nodup
  ascending : s.toNat + ids.length < UInt64.size → ids.Pairwise (· < ·)
  nonzero : s.toNat + ids.length < UInt64.size → 0 ∉ ids

namespace CountsOn

variable {s last : UInt64} {ids : List UInt64}

/-- The order decides the rest. -/
theorem intro (inOrder : ids = idsAfter s ids.length)
    (last_eq : last = s + UInt64.ofNat ids.length) : CountsOn s ids last where
  inOrder := inOrder
  last_eq := last_eq
  distinct h := inOrder ▸ nodup_idsAfter s h
  ascending h := inOrder ▸ ascending_idsAfter s h
  nonzero h := inOrder ▸ zero_notMem_idsAfter s h

theorem nil (s : UInt64) : CountsOn s [] s := by
  apply intro
  · rfl
  · simp

/-- One id more. -/
theorem concat (h : CountsOn s ids last) : CountsOn s (ids ++ [last + 1]) (last + 1) := by
  have hnext : last + 1 = s + UInt64.ofNat (ids.length + 1) := by
    rw [h.last_eq, UInt64.ofNat_add, UInt64.add_assoc]
    rfl
  apply intro
  · rw [List.length_append, List.length_singleton, idsAfter_succ, ← h.inOrder, hnext]
  · rw [List.length_append, List.length_singleton, hnext]

end CountsOn

/-! ### The allocators of a client -/

namespace Client

variable {φ μ ω : Type} (c : Client φ μ ω)

@[simp] theorem nextId_fst (a : AllocatorRef) : (c.nextId a).1 = c.lastId a + 1 := rfl

theorem lastId_nextId_self {a : AllocatorRef} (h : a < c.allocators.length) :
    (c.nextId a).2.lastId a = c.lastId a + 1 := by
  simp [lastId, nextId, List.getD_eq_getElem?_getD, h]

/-- No other allocator is touched. -/
theorem lastId_nextId_of_ne {a b : AllocatorRef} (h : b ≠ a) :
    (c.nextId a).2.lastId b = c.lastId b := by
  simp [lastId, nextId, List.getD_eq_getElem?_getD, Ne.symm h]

end Client

end SessionPool
