/-!
# Allocation of session ids

An allocator counts up from the id that it gave last. Ids are words of 64 bits: after the greatest
one comes 0.
-/

namespace SessionPool

/-- An allocator, known by the id that it gave last. A new one has given none, so it holds 0. -/
structure Allocator where
  last : UInt64 := 0
  deriving DecidableEq, Repr, Inhabited

namespace Allocator

/-- The next id, and the allocator that has given it. -/
def next (a : Allocator) : UInt64 × Allocator := (a.last + 1, ⟨a.last + 1⟩)

@[simp] theorem next_fst (a : Allocator) : a.next.1 = a.last + 1 := rfl

@[simp] theorem next_snd_last (a : Allocator) : a.next.2.last = a.last + 1 := rfl

end Allocator

end SessionPool
