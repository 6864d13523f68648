import Mathlib.Tactic

namespace Baize.Lib

/-- A format whose messages tell their own size: `size` reads it from the first
`header` elements. -/
structure Format (α : Type*) where
  header : ℕ
  size : List α → ℕ
  header_pos : 0 < header
  header_le : ∀ p, header ≤ size p
  size_append : ∀ p q, header ≤ p.length → size (p ++ q) = size p

namespace Format

variable {α : Type*} (F : Format α)

def Frame (t : List α) : Prop := F.size t = t.length

def split (p : List α) : List (List α) × List α :=
  if F.size p ≤ p.length then
    (p.take (F.size p) :: (split (p.drop (F.size p))).1, (split (p.drop (F.size p))).2)
  else ([], p)
termination_by p.length
decreasing_by
  all_goals
    have := F.header_pos.trans_le (F.header_le p)
    simp only [List.length_drop]
    omega

variable {F}

theorem header_le_length {p : List α} (h : F.size p ≤ p.length) : F.header ≤ p.length :=
  (F.header_le p).trans h

theorem Frame.header_le_length {t : List α} (h : F.Frame t) : F.header ≤ t.length :=
  Format.header_le_length (le_of_eq h)

theorem Frame.size_append {t : List α} (h : F.Frame t) (q : List α) : F.size (t ++ q) = t.length :=
  (F.size_append t q h.header_le_length).trans h

theorem frame_take {p : List α} (h : F.size p ≤ p.length) : F.Frame (p.take (F.size p)) := by
  have hlen : (p.take (F.size p)).length = F.size p := List.length_take_of_le h
  have hsize := F.size_append (p.take (F.size p)) (p.drop (F.size p)) (hlen.symm ▸ F.header_le p)
  rw [List.take_append_drop] at hsize
  rw [Frame, ← hsize, hlen]

theorem split_of_lt {p : List α} (h : p.length < F.size p) : F.split p = ([], p) := by
  rw [split, if_neg (not_le.mpr h)]

theorem split_of_le {p : List α} (h : F.size p ≤ p.length) :
    F.split p = (p.take (F.size p) :: (F.split (p.drop (F.size p))).1,
      (F.split (p.drop (F.size p))).2) := by
  rw [split, if_pos h]

theorem split_nil : F.split ([] : List α) = ([], []) :=
  split_of_lt (F.header_pos.trans_le (F.header_le []))

theorem split_frame_append {t : List α} (h : F.Frame t) (q : List α) :
    F.split (t ++ q) = (t :: (F.split q).1, (F.split q).2) := by
  have hsize := h.size_append q
  rw [split_of_le (by rw [hsize, List.length_append]; omega), hsize, List.take_left, List.drop_left]

theorem split_flatten {ts : List (List α)} (h : ∀ t ∈ ts, F.Frame t) (q : List α) :
    F.split (ts.flatten ++ q) = (ts ++ (F.split q).1, (F.split q).2) := by
  induction ts with
  | nil => rfl
  | cons t ts ih =>
    obtain ⟨ht, hts⟩ := List.forall_mem_cons.mp h
    rw [List.flatten_cons, List.append_assoc, split_frame_append ht, ih hts]
    rfl

theorem split_induction {motive : List α → Prop}
    (rest : ∀ p : List α, p.length < F.size p → motive p)
    (frame : ∀ t q : List α, F.Frame t → motive q → motive (t ++ q)) (p : List α) : motive p := by
  induction hn : p.length using Nat.strong_induction_on generalizing p with
  | _ n ih =>
    by_cases h : F.size p ≤ p.length
    · have hpos := F.header_pos.trans_le (F.header_le p)
      rw [← List.take_append_drop (F.size p) p]
      refine frame _ _ (frame_take h) (ih _ ?_ _ rfl)
      rw [List.length_drop]
      omega
    · exact rest p (not_le.mp h)

theorem split_append (p : List α) : (F.split p).1.flatten ++ (F.split p).2 = p := by
  induction p using F.split_induction with
  | rest p h => rw [split_of_lt h]; rfl
  | frame t q ht ih => rw [split_frame_append ht, List.flatten_cons, List.append_assoc, ih]

theorem frame_of_mem_split {p t : List α} (h : t ∈ (F.split p).1) : F.Frame t := by
  induction p using F.split_induction with
  | rest p hp => rw [split_of_lt hp] at h; cases h
  | frame t' q ht ih =>
    rw [split_frame_append ht] at h
    cases h with
    | head => exact ht
    | tail _ h => exact ih h

end Format

end Baize.Lib
