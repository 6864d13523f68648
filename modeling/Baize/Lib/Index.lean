import Baize.Lib.SortedMap

namespace Baize.Lib

variable {κ ι : Type} [LinearOrder κ] [DecidableEq ι]

/-- The entries of the map are the objects that have a key, each under its key and no other. -/
def Indexes (m : SortedMap κ ι) (key : ι → Option κ) : Prop := ∀ k i, m.find k = some i ↔ key i = some k

namespace Indexes

variable {m : SortedMap κ ι} {key : ι → Option κ} {i : ι} {k k' : κ}

theorem insert (h : Indexes m key) (hi : key i = none) (hk : m.find k = none) :
    Indexes (m.insert k i) (Function.update key i (some k)) := by
  intro l j
  rw [SortedMap.find_insert, Function.update_apply]
  by_cases hl : l = k <;> by_cases hj : j = i
  · simp only [hl, hj, if_true]
  · rw [if_pos hl, if_neg hj, hl, ← h k j, hk]
    simp only [Option.some.injEq, Ne.symm hj, reduceCtorEq]
  · rw [if_neg hl, if_pos hj, h l j, hj, hi]
    simp only [Option.some.injEq, Ne.symm hl, reduceCtorEq]
  · rw [if_neg hl, if_neg hj, h l j]

theorem erase (h : Indexes m key) (hi : key i = some k) :
    Indexes (m.erase k) (Function.update key i none) := by
  intro l j
  rw [SortedMap.find_erase, Function.update_apply]
  by_cases hl : l = k <;> by_cases hj : j = i
  · simp only [if_pos hl, if_pos hj, reduceCtorEq]
  · rw [if_pos hl, if_neg hj, hl, ← h k j, (h k i).mpr hi]
    simp only [Option.some.injEq, Ne.symm hj, reduceCtorEq]
  · rw [if_neg hl, if_pos hj, h l j, hj, hi]
    simp only [Option.some.injEq, Ne.symm hl, reduceCtorEq]
  · rw [if_neg hl, if_neg hj, h l j]

theorem rekey (h : Indexes m key) (hi : key i = some k) (hk' : m.find k' = none) :
    Indexes ((m.insert k' i).erase k) (Function.update key i (some k')) := by
  have hne : k' ≠ k := fun heq ↦ by simp [heq, (h k i).mpr hi] at hk'
  have hdrop := h.erase hi
  have hnew := hdrop.insert (Function.update_self i none key)
    (by rw [SortedMap.find_erase, if_neg hne, hk'])
  rw [Function.update_idem] at hnew
  intro l j
  rw [← hnew l j]
  simp only [SortedMap.find_erase, SortedMap.find_insert]
  by_cases hl : l = k
  · simp only [hl, if_true, Ne.symm hne, if_false]
  · simp only [hl, if_false]

theorem not_erase (h : Indexes m key) (hi : key i = some k) (hne : k ≠ k') :
    ¬Indexes (m.erase k') (Function.update key i none) := by
  intro h'
  have hfind := (h' k i).mp (by rw [SortedMap.find_erase, if_neg hne, (h k i).mpr hi])
  rw [Function.update_self] at hfind
  cases hfind

end Indexes

end Baize.Lib
