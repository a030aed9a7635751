import Mathlib

/-! Objects by reference. A heap holds one object under every reference below `next`; allocating takes the
    next reference, and writing replaces the object under one. `OnlyAt r` says that two heaps hold the same
    objects everywhere but under `r`: what any number of writes in place through one reference does. -/

universe u

structure Heap (α : Type u) where
  cells : ℕ → α
  next : ℕ

namespace Heap
variable {α : Type u} {h h' h'' : Heap α} {r s : ℕ} {x : α}

def read (h : Heap α) (r : ℕ) : α := h.cells r

def write (h : Heap α) (r : ℕ) (x : α) : Heap α := { h with cells := Function.update h.cells r x }

/-- A fresh reference to the object, and the heap that holds it. -/
def alloc (h : Heap α) (x : α) : ℕ × Heap α :=
  (h.next, { cells := Function.update h.cells h.next x, next := h.next + 1 })

/-- The two heaps differ at most under `r`. -/
structure OnlyAt (r : ℕ) (h h' : Heap α) : Prop where
  next : h'.next = h.next
  read : ∀ s, s ≠ r → h'.read s = h.read s

theorem OnlyAt.refl (r : ℕ) (h : Heap α) : OnlyAt r h h := ⟨rfl, fun _ _ => rfl⟩

theorem OnlyAt.trans (h₁ : OnlyAt r h h') (h₂ : OnlyAt r h' h'') : OnlyAt r h h'' :=
  ⟨h₂.next.trans h₁.next, fun s hs => (h₂.read s hs).trans (h₁.read s hs)⟩

end Heap
