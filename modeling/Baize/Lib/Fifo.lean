import Mathlib.Tactic

namespace Baize.Lib

/-- A byte stream seen from its consumer: everything that was ever pushed, and
how much of it has been taken from the front. -/
structure Fifo (α : Type) where
  pushed : List α
  taken : ℕ
  taken_le : taken ≤ pushed.length

namespace Fifo

variable {α : Type} (q : Fifo α)

def empty : Fifo α := ⟨[], 0, Nat.le_refl 0⟩

def contents : List α := q.pushed.drop q.taken

def push (d : List α) : Fifo α :=
  ⟨q.pushed ++ d, q.taken, by have h := q.taken_le; simp only [List.length_append]; omega⟩

def pop (n : ℕ) : Fifo α := ⟨q.pushed, min (q.taken + n) q.pushed.length, Nat.min_le_right _ _⟩

def clear : Fifo α := ⟨q.pushed, q.pushed.length, Nat.le_refl _⟩

@[simp] theorem contents_push (d : List α) : (q.push d).contents = q.contents ++ d := by
  simp only [contents, push]
  rw [List.drop_append_of_le_length q.taken_le]

@[simp] theorem contents_pop (n : ℕ) : (q.pop n).contents = q.contents.drop n := by
  simp only [contents, pop, List.drop_drop]
  rcases Nat.le_total (q.taken + n) q.pushed.length with h | h
  · rw [Nat.min_eq_left h]
  · rw [Nat.min_eq_right h, List.drop_length, List.drop_eq_nil_of_le h]

@[simp] theorem contents_clear : q.clear.contents = [] := List.drop_length

end Fifo

end Baize.Lib
