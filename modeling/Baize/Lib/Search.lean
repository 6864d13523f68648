import Mathlib.Tactic
import Mathlib.Data.List.Infix

namespace Baize.Lib

variable {α : Type} [DecidableEq α]

/-- The index of the first occurrence of `w` in a list, or the list's length
when there is none. -/
def search (w : List α) : List α → ℕ
  | [] => 0
  | a :: s => if w <+: a :: s then 0 else search w s + 1

theorem search_eq_zero {w s : List α} (h : w <+: s) : search w s = 0 := by
  cases s with
  | nil => rfl
  | cons a s => exact if_pos h

theorem search_cons {w s : List α} {a : α} (h : ¬ w <+: a :: s) :
    search w (a :: s) = search w s + 1 := if_neg h

theorem search_append_of_notMem {c : α} {w l : List α} (h : c ∉ l) (s : List α) :
    search (c :: w) (l ++ s) = l.length + search (c :: w) s := by
  induction l with
  | nil => simp
  | cons a l ih =>
    obtain ⟨hne, hmem⟩ := List.ne_and_not_mem_of_not_mem_cons h
    have hp : ¬ c :: w <+: a :: (l ++ s) := fun hp ↦ hne (List.cons_prefix_cons.mp hp).1
    rw [List.cons_append, search_cons hp, ih hmem, List.length_cons]
    omega

theorem search_le_length (w s : List α) : search w s ≤ s.length := by
  induction s with
  | nil => exact Nat.le_refl 0
  | cons a s ih =>
    rw [search]
    split
    · exact Nat.zero_le _
    · exact Nat.succ_le_succ ih

theorem prefix_drop_search {w s : List α} (h : search w s ≠ s.length) :
    w <+: s.drop (search w s) := by
  induction s with
  | nil => exact absurd rfl h
  | cons a s ih =>
    rw [search] at h ⊢
    split
    · assumption
    · next hp =>
      rw [if_neg hp] at h
      exact ih (fun he ↦ h (congrArg (· + 1) he))

theorem search_le {w s : List α} {i : ℕ} (h : w <+: s.drop i) : search w s ≤ i := by
  induction s generalizing i with
  | nil => exact Nat.zero_le i
  | cons a s ih =>
    cases i with
    | zero => exact (search_eq_zero h).le
    | succ i =>
      rw [search]
      split
      · exact Nat.zero_le _
      · exact Nat.succ_le_succ (ih h)

omit [DecidableEq α] in
theorem length_le_of_prefix_drop {w s : List α} {i : ℕ} (hw : w ≠ []) (h : w <+: s.drop i) :
    i + w.length ≤ s.length := by
  have hle := h.length_le
  have hpos := List.length_pos_of_ne_nil hw
  rw [List.length_drop] at hle
  omega

theorem search_ne_length {w s : List α} {i : ℕ} (hw : w ≠ []) (h : w <+: s.drop i) :
    search w s ≠ s.length := by
  have hle := search_le h
  have hlen := length_le_of_prefix_drop hw h
  have hpos := List.length_pos_of_ne_nil hw
  omega

theorem search_eq_length_iff {w s : List α} (hw : w ≠ []) :
    search w s = s.length ↔ ¬ w <:+: s := by
  constructor
  · rintro h ⟨l, r, rfl⟩
    have hp : w <+: (l ++ w ++ r).drop l.length := by
      rw [List.append_assoc, List.drop_left]
      exact List.prefix_append w r
    exact search_ne_length hw hp h
  · intro h
    by_contra hne
    exact h ((prefix_drop_search hne).isInfix.trans (List.drop_suffix _ s).isInfix)

theorem not_infix_take_search {w : List α} (hw : w ≠ []) (s : List α) :
    ¬ w <:+: s.take (search w s) := by
  rintro ⟨l, r, hlr⟩
  have hp : w <+: (s.take (search w s)).drop l.length := by
    rw [← hlr, List.append_assoc, List.drop_left]
    exact List.prefix_append w r
  have hlen := length_le_of_prefix_drop hw hp
  have hle : search w s ≤ l.length := by
    rw [List.drop_take] at hp
    exact search_le (hp.trans (List.take_prefix _ _))
  have hpos := List.length_pos_of_ne_nil hw
  rw [List.length_take] at hlen
  omega

theorem search_le_search {v w s : List α} (hv : v <+: w) (h : search w s ≠ s.length) :
    search v s ≤ search w s :=
  search_le (hv.trans (prefix_drop_search h))

theorem search_append {w s : List α} (h : search w s ≠ s.length) (t : List α) :
    search w (s ++ t) = search w s := by
  induction s with
  | nil => exact absurd rfl h
  | cons a s ih =>
    by_cases hp : w <+: a :: s
    · rw [search_eq_zero hp, search_eq_zero (hp.trans (List.prefix_append _ t))]
    · rw [search_cons hp] at h ⊢
      have hs : search w s ≠ s.length := fun he ↦ h (congrArg (· + 1) he)
      have hlen : w.length ≤ (a :: s).length := by
        have hle := (prefix_drop_search hs).length_le
        rw [List.length_drop] at hle
        rw [List.length_cons]
        omega
      have hp' : ¬ w <+: a :: (s ++ t) := by
        intro hp'
        exact hp (List.prefix_of_prefix_length_le hp' (List.prefix_append (a :: s) t) hlen)
      rw [List.cons_append, search_cons hp', ih hs]

theorem search_drop {w s : List α} {k : ℕ} (h : k ≤ search w s) :
    k + search w (s.drop k) = search w s := by
  induction k generalizing s with
  | zero => rw [List.drop_zero, Nat.zero_add]
  | succ k ih =>
    cases s with
    | nil => exact absurd h (Nat.not_succ_le_zero k)
    | cons a s =>
      have hp : ¬ w <+: a :: s := by
        intro hp
        rw [search_eq_zero hp] at h
        exact Nat.not_succ_le_zero k h
      rw [search_cons hp] at h ⊢
      rw [List.drop_succ_cons, ← ih (Nat.le_of_succ_le_succ h)]
      omega

end Baize.Lib
