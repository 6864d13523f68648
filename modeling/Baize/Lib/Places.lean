import Mathlib.Tactic

namespace Baize.Lib

variable {ι α : Type}

/-- The elements of `S` are spread over places: each of them is in one place, there once, and nothing
else is in any place. -/
structure Spread (S : α → Prop) (f : ι → List α) : Prop where
  mem_iff : ∀ a, S a ↔ ∃ i, a ∈ f i
  nodup : ∀ i, (f i).Nodup
  place_unique : ∀ i j a, a ∈ f i → a ∈ f j → i = j

variable {S : α → Prop} {f g : ι → List α}

theorem Spread.of_one {i : ι} (hmem : ∀ a, S a ↔ a ∈ f i) (hnodup : (f i).Nodup)
    (hother : ∀ j, j ≠ i → f j = []) : Spread S f := by
  have hplace : ∀ j a, a ∈ f j → j = i := by
    intro j a ha
    by_contra hj
    rw [hother j hj] at ha
    exact List.not_mem_nil ha
  refine ⟨fun a ↦ ⟨fun ha ↦ ⟨i, (hmem a).mp ha⟩, ?_⟩, fun j ↦ ?_, fun j k a ha hb ↦ ?_⟩
  · rintro ⟨j, ha⟩
    obtain rfl := hplace j a ha
    exact (hmem a).mpr ha
  · by_cases hj : j = i
    · exact hj ▸ hnodup
    · rw [hother j hj]
      exact List.nodup_nil
  · rw [hplace j a ha, hplace k a hb]

theorem Spread.move (h : Spread S f) {i j : ι} (hij : i ≠ j) (moved : List α)
    (hi : (f i).Perm (g i ++ moved)) (hj : (g j).Perm (f j ++ moved))
    (hk : ∀ k, k ≠ i → k ≠ j → g k = f k) : Spread S g := by
  have hmoved : ∀ a ∈ moved, a ∈ f i := fun a ha ↦ hi.mem_iff.mpr (List.mem_append_right _ ha)
  have hrest : ∀ a ∈ g i, a ∈ f i := fun a ha ↦ hi.mem_iff.mpr (List.mem_append_left _ ha)
  have hnodup : (g i ++ moved).Nodup := hi.nodup (h.nodup i)
  have hback : ∀ k a, a ∈ g k → a ∈ f k ∨ k = j ∧ a ∈ moved := by
    intro k a ha
    by_cases hki : k = i
    · subst hki
      exact .inl (hrest a ha)
    · by_cases hkj : k = j
      · subst hkj
        rcases List.mem_append.mp (hj.mem_iff.mp ha) with ha | ha
        · exact .inl ha
        · exact .inr ⟨rfl, ha⟩
      · rw [hk k hki hkj] at ha
        exact .inl ha
  have hdisj : ∀ a ∈ moved, a ∉ g i := fun a ha hgi ↦ List.disjoint_of_nodup_append hnodup hgi ha
  constructor
  · intro a
    rw [h.mem_iff a]
    constructor
    · rintro ⟨k, ha⟩
      by_cases hki : k = i
      · subst hki
        rcases List.mem_append.mp (hi.mem_iff.mp ha) with ha | ha
        · exact ⟨k, ha⟩
        · exact ⟨j, hj.mem_iff.mpr (List.mem_append_right _ ha)⟩
      · by_cases hkj : k = j
        · subst hkj
          exact ⟨k, hj.mem_iff.mpr (List.mem_append_left _ ha)⟩
        · exact ⟨k, (hk k hki hkj).symm ▸ ha⟩
    · rintro ⟨k, ha⟩
      rcases hback k a ha with ha | ⟨-, ha⟩
      · exact ⟨k, ha⟩
      · exact ⟨i, hmoved a ha⟩
  · intro k
    by_cases hki : k = i
    · subst hki
      exact (List.nodup_append.mp hnodup).1
    · by_cases hkj : k = j
      · subst hkj
        refine hj.symm.nodup (List.nodup_append.mpr ⟨h.nodup k, (List.nodup_append.mp hnodup).2.1, ?_⟩)
        intro a ha b hb hab
        subst hab
        exact hij (h.place_unique i k a (hmoved a hb) ha)
      · rw [hk k hki hkj]
        exact h.nodup k
  · intro k l a ha hb
    rcases hback k a ha with hk' | ⟨rfl, hm⟩
    · rcases hback l a hb with hl' | ⟨rfl, hm⟩
      · exact h.place_unique k l a hk' hl'
      · obtain rfl := h.place_unique k i a hk' (hmoved a hm)
        exact absurd ha (hdisj a hm)
    · rcases hback l a hb with hl' | ⟨rfl, -⟩
      · obtain rfl := h.place_unique l i a hl' (hmoved a hm)
        exact absurd hb (hdisj a hm)
      · rfl

end Baize.Lib
