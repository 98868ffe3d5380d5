import Enigma.Fault
import Enigma.Number.Integer

/-!
# Symbol/Allocator — handing out addresses

Addresses are handed out one word apart, from a first address on. They stay below 2^32 together with
the one that would come next; an allocator that cannot keep this faults and stays as it is.
-/

namespace Enigma

/-- The address of the first variable. -/
def memoryBase : Nat := 1000

/-- The distance from one address to the next. -/
def wordSize : Nat := 4

/-- The address that comes next. -/
structure Allocator where
  next : Nat := memoryBase
deriving Repr, DecidableEq

namespace Allocator

/-- Hands out the next address. -/
def allocate (a : Allocator) : Except Fault (Nat × Allocator) :=
  if a.next + wordSize < Number.addressLimit then .ok (a.next, ⟨a.next + wordSize⟩)
  else .error .overflow

theorem allocate_eq_ok_iff {a b : Allocator} {n : Nat} :
    a.allocate = .ok (n, b) ↔
      n = a.next ∧ b.next = a.next + wordSize ∧ b.next < Number.addressLimit := by
  obtain ⟨next⟩ := a
  obtain ⟨after⟩ := b
  unfold allocate
  dsimp only
  split <;> rename_i h
  · simp only [Except.ok.injEq, Prod.mk.injEq, Allocator.mk.injEq]
    omega
  · simp only [reduceCtorEq, false_iff]
    omega

end Allocator

end Enigma
