import Mathlib.Tactic

namespace Baize.Lib

variable {σ κ : Type}

/-- A loop that gives something out in each turn. `turn` is `none` where the condition of the loop
fails, and the loop is `none` when it has not ended before the fuel is used up. -/
def loop (turn : σ → Option (List κ × σ)) : ℕ → σ → Option (List κ × σ)
  | 0, _ => none
  | fuel + 1, s =>
    match turn s with
    | none => some ([], s)
    | some (out, s') => (loop turn fuel s').map fun r ↦ (out ++ r.1, r.2)

variable {turn : σ → Option (List κ × σ)}

theorem loop_of_none {s : σ} (h : turn s = none) (fuel : ℕ) : loop turn (fuel + 1) s = some ([], s) := by
  rw [loop, h]

theorem loop_of_some {s s' r : σ} {out outs : List κ} {fuel : ℕ} (h : turn s = some (out, s'))
    (hrest : loop turn fuel s' = some (outs, r)) : loop turn (fuel + 1) s = some (out ++ outs, r) := by
  rw [loop, h]
  dsimp only
  rw [hrest]
  rfl

/-- Total correctness: each turn keeps the invariant and lowers the rank, so that the loop ends when its
fuel is above the rank, and what it gives out is put together from the end. -/
theorem loop_total {I : σ → Prop} {P : σ → List κ → σ → Prop} (rank : σ → ℕ)
    (hturn : ∀ s out s', I s → turn s = some (out, s') → I s' ∧ rank s' < rank s)
    (hdone : ∀ s, I s → turn s = none → P s [] s)
    (hback : ∀ s out s' outs r, I s → turn s = some (out, s') → P s' outs r → P s (out ++ outs) r)
    {s : σ} (hs : I s) :
    ∃ outs r, (∀ fuel, rank s < fuel → loop turn fuel s = some (outs, r)) ∧ P s outs r := by
  induction hk : rank s using Nat.strong_induction_on generalizing s with
  | _ k ih =>
    cases ht : turn s with
    | none =>
      refine ⟨[], s, fun fuel hfuel ↦ ?_, hdone s hs ht⟩
      obtain ⟨fuel, rfl⟩ := Nat.exists_eq_succ_of_ne_zero (Nat.ne_zero_of_lt hfuel)
      exact loop_of_none ht fuel
    | some p =>
      obtain ⟨out, s'⟩ := p
      obtain ⟨hs', hlt⟩ := hturn s out s' hs ht
      obtain ⟨outs, r, hloop, hP⟩ := ih (rank s') (hk ▸ hlt) hs' rfl
      refine ⟨out ++ outs, r, fun fuel hfuel ↦ ?_, hback s out s' outs r hs ht hP⟩
      obtain ⟨fuel, rfl⟩ := Nat.exists_eq_succ_of_ne_zero (Nat.ne_zero_of_lt hfuel)
      exact loop_of_some ht (hloop fuel (by omega))

end Baize.Lib
