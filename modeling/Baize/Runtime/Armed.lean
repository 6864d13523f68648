import Baize.Runtime.Timeouts
import Baize.Time.Clock

namespace Baize.Runtime

open Baize.Lib
open Baize.Time (TimerId TimeWheel addMs addMs_div)

variable {Task Park : Type} [DecidableEq Park]

/-- `Timer::Start(ms)` at the reading `us` of the clock links the timer when `us / 1000 + ms` is not
behind `last_ms_` and less than `2 ^ 32` ahead of it; and so for `Return(ms, timeout)`. Outside
`TurnWheel`, `last_ms_` is the greatest reading of `TurnWheel` and of the constructor. -/
theorem start_arms_iff (polled : Park → Bool) :
    (∀ {start : ℕ} {as : List Time.Action} {m : Time.Machine},
      Run (fun m a m' ↦ m.step a = some m') (.empty start) as m → Time.Machine.callable m.phase →
      (∀ (t : TimerId) (us ms : ℕ), ∃ m', m.step (.add t (addMs us ms)) = some m' ∧
        (m'.wheel.Linked t ↔
          m.wheel.lastMs ≤ us / 1000 + ms ∧ us / 1000 + ms < m.wheel.lastMs + 2 ^ 32)) ∧
      (∃ r ∈ start :: as.flatMap Time.Machine.reading, m.wheel.lastMs ≤ r) ∧
      (m.phase = .idle → ∀ r ∈ start :: as.flatMap Time.Machine.reading, r ≤ m.wheel.lastMs)) ∧
    ∀ {counter n now : ℕ} {as : List (TimedAction Task Park)} {s s' : TimedLoop Task Park}
      {r : RoutineId} {side : Side} {p : Park} {us ms : ℕ},
      Run (fun s a s' ↦ s.step polled a = some s') (.new Task Park counter n now) as s →
      s.loop.pool.current = some r → s.step polled (.waitFor side p (addMs us ms)) = some s' →
      (s'.wheel.Linked (routineTimer r) ↔
        s.wheel.lastMs ≤ us / 1000 + ms ∧ us / 1000 + ms < s.wheel.lastMs + 2 ^ 32) := by
  refine ⟨fun {start as m} hrun hcall ↦ ⟨fun t us ms ↦ ?_, ?_⟩,
    fun {counter n now as s s' r side p us ms} hrun hr hstep ↦ ?_⟩
  · refine ⟨_, if_pos hcall, ?_⟩
    rw [← addMs_div]
    exact TimeWheel.arm_linked_iff (Time.Machine.run_unique hrun) t (addMs us ms)
  · have hfollows := hrun.invariant_history Time.Machine.reading
      (fun _ _ _ _ hI hstep ↦ (Time.Machine.transition_of_step hstep).follows hI)
      (Time.Machine.follows_empty start)
    obtain ⟨left, hleft⟩ : ∃ left, Time.Machine.ticksLeft m.phase = some left := by
      cases hph : m.phase <;> simp_all [Time.Machine.callable, Time.Machine.ticksLeft]
    obtain ⟨hmem, hmax⟩ := hfollows left hleft
    refine ⟨⟨_, hmem, Nat.le_add_right _ _⟩, fun hidle r hr ↦ ?_⟩
    rw [hidle] at hleft
    obtain rfl := Option.some.inj hleft
    exact hmax r hr
  · obtain ⟨hok, ht⟩ := TimedLoop.transition_of_step hstep
    have h := TimedLoop.run_timed hrun hok
    cases ht with
    | waitFor hk =>
      obtain rfl := Option.some.inj (hr.symm.trans hk)
      rw [← addMs_div]
      exact h.waitFor_linked_iff
    | wheel hb => cases hb

theorem start_arms_tenMs :
    ∃ m', (Time.Machine.empty 1000).step (.add 0 (addMs 1000500 10)) = some m' ∧ m'.wheel.Linked 0 := by
  obtain ⟨m', hstep, hiff⟩ :=
    ((@start_arms_iff Unit Unit _ fun _ ↦ false).1 (.nil (Time.Machine.empty 1000)) rfl).1 0 1000500 10
  exact ⟨m', hstep, hiff.mpr ⟨by decide, by decide⟩⟩

/-- The wheel is made at 1000 ms, and the clock is set back to 500 ms before `Start(10)`. -/
theorem clockSetBack_not_armed :
    ∃ m', (Time.Machine.empty 1000).step (.add 0 (addMs 500000 10)) = some m' ∧ ¬m'.wheel.Linked 0 := by
  have hu := Time.Machine.run_unique (.nil (Time.Machine.empty 1000))
  refine ⟨_, rfl, fun hlinked ↦ ?_⟩
  exact absurd ((TimeWheel.arm_linked_iff hu 0 (addMs 500000 10)).mp hlinked).1 (by decide)

end Baize.Runtime
