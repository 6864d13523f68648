import Baize.Lib.Checked

namespace Baize.Lib

structure Region (α : Type) (n : ℕ) where
  cells : List α
  length_cells : cells.length = n

namespace Region

variable {α : Type} {n : ℕ} {r r' : Region α n} {i : ℕ} {d p : List α}

def filled (a : α) (n : ℕ) : Region α n := ⟨List.replicate n a, List.length_replicate⟩

def store (r : Region α n) (i : ℕ) (d : List α) : Checked (Region α n) :=
  if h : i + d.length ≤ n then
    .ok
      { cells := r.cells.take i ++ d ++ r.cells.drop (i + d.length)
        length_cells := by
          have hlen := r.length_cells
          simp only [List.length_append, List.length_take, List.length_drop]
          omega }
  else .error .outOfBounds

theorem exists_store (r : Region α n) (h : i + d.length ≤ n) : ∃ r', r.store i d = .ok r' :=
  ⟨_, dif_pos h⟩

theorem cells_of_store (h : r.store i d = .ok r') :
    r'.cells = r.cells.take i ++ d ++ r.cells.drop (i + d.length) := by
  unfold store at h
  split at h
  · obtain rfl := Except.ok.inj h
    rfl
  · cases h

theorem prefix_store (h : r.store i d = .ok r') (hp : p <+: r.cells) (hi : p.length ≤ i) : p <+: r'.cells := by
  rw [cells_of_store h, List.append_assoc]
  exact (List.prefix_take_iff.mpr ⟨hp, hi⟩).trans (List.prefix_append _ _)

theorem head?_of_prefix (h : p <+: r.cells) (hp : p ≠ []) : r.cells.head? = p.head? := by
  obtain ⟨rest, hrest⟩ := h
  rw [← hrest, List.head?_append_of_ne_nil _ hp]

theorem append_prefix_store (h : r.store p.length d = .ok r') (hp : p <+: r.cells) : p ++ d <+: r'.cells := by
  rw [cells_of_store h, ← List.prefix_iff_eq_take.mp hp]
  exact List.prefix_append _ _

section Text

variable [DecidableEq α] {stop : α}

def text (stop : α) (r : Region α n) : Checked (List α) :=
  if stop ∈ r.cells then .ok (r.cells.takeWhile (· ≠ stop)) else .error .outOfBounds

theorem text_of_prefix (h : p ++ [stop] <+: r.cells) (hp : stop ∉ p) : r.text stop = .ok p := by
  obtain ⟨rest, hrest⟩ := h
  have hmem : stop ∈ r.cells := by simp [← hrest]
  have hne : ∀ a ∈ p, decide (a ≠ stop) = true := fun a ha ↦ decide_eq_true (ne_of_mem_of_not_mem ha hp)
  rw [text, if_pos hmem, ← hrest, List.append_assoc, List.takeWhile_append_of_pos hne,
    List.singleton_append, List.takeWhile_cons_of_neg (by simp), List.append_nil]

theorem text_eq_nil_iff (r : Region α n) : r.text stop = .ok [] ↔ r.cells.head? = some stop := by
  rw [text]
  cases r.cells with
  | nil => simp
  | cons a l => by_cases ha : a = stop <;> simp [ha, ite_eq_iff]

end Text

end Region

end Baize.Lib
