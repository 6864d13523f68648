import Baize.Time.Schedule

namespace Baize.Time

open Lib

def addMs (us ms : ℕ) : ℕ := us + 1000 * ms

theorem addMs_div (us ms : ℕ) : addMs us ms / 1000 = us / 1000 + ms :=
  Nat.add_mul_div_left us ms (by decide)

namespace TimeWheel

variable {w w' : TimeWheel}

theorem advance_lastMs (h : w.advance = some w') : w'.lastMs = w.lastMs + 1 :=
  (tickCalls_invariant (P := fun v ↦ v.lastMs = w.lastMs + 1) rfl fun _ _ hv _ hmove ↦
    (moveTimerList_lastMs hmove).trans hv).2 w' h

end TimeWheel

namespace Machine

variable {m m' : Machine} {a : Action}

def reading : Action → List ℕ
  | .turn now => [now]
  | _ => []

def ticksLeft : Phase → Option ℕ
  | .idle => some 0
  | .turning left | .draining left | .callback _ left => some left
  | .aborted | .overflow => none

/-- `last_ms_` is on its way to the latest of the readings. -/
def Follows (l : List ℕ) (m : Machine) : Prop :=
  ∀ left, ticksLeft m.phase = some left →
    m.wheel.lastMs + left ∈ l ∧ ∀ r ∈ l, r ≤ m.wheel.lastMs + left

theorem follows_empty (start : ℕ) : Follows [start] (Machine.empty start) := by
  rintro left ⟨⟩
  exact ⟨List.mem_cons_self, fun r hr ↦ (List.mem_singleton.mp hr).le⟩

theorem Follows.congr {l : List ℕ} (h : Follows l m) (hleft : ticksLeft m'.phase = ticksLeft m.phase)
    (hlast : m'.wheel.lastMs = m.wheel.lastMs) : Follows (l ++ []) m' := by
  intro left hm
  rw [List.append_nil, hlast]
  exact h left (hleft ▸ hm)

theorem Transition.follows {l : List ℕ} (ht : Transition m a m') (h : Follows l m) :
    Follows (l ++ reading a) m' := by
  cases ht with
  | @turn w now hlt =>
    rintro left ⟨⟩
    obtain ⟨hmem, hmax⟩ := h 0 rfl
    simp only [reading, List.mem_append, List.mem_singleton]
    rcases le_or_gt w.lastMs now with hle | hgt
    · have heq : w.lastMs + ((now : ℤ) - w.lastMs).toNat = now := by omega
      rw [heq]
      refine ⟨.inr rfl, fun r hr ↦ ?_⟩
      obtain hr | rfl := hr
      · exact (hmax r hr).trans hle
      · exact le_rfl
    · have heq : w.lastMs + ((now : ℤ) - w.lastMs).toNat = w.lastMs := by omega
      rw [heq]
      refine ⟨.inl hmem, fun r hr ↦ ?_⟩
      obtain hr | rfl := hr
      · exact hmax r hr
      · exact hgt.le
  | overflow => rintro left ⟨⟩
  | abort => rintro left ⟨⟩
  | @tick w w' left hadv =>
    rintro _ ⟨⟩
    have hlast := TimeWheel.advance_lastMs hadv
    simp only [hlast, reading, List.append_nil, Nat.add_right_comm _ 1]
    exact h (left + 1) rfl
  | add t us => exact h.congr rfl (TimeWheel.addTimer_lastMs _ t)
  | again => exact h.congr rfl (TimeWheel.addTimer_lastMs _ _)
  | _ => exact h.congr rfl rfl

end Machine

end Baize.Time
