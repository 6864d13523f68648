import Baize.Lib.Monitor

namespace Baize.Threads

open Lib

inductive WaitGroup.Call
  | done
  | count
  deriving DecidableEq

namespace WaitGroup

/-- `WaitGroup`: `count_` under `mutex_`. `Wait` is the loop that waits while `count_ > 0`. The `int` is
taken without bounds: more than `2 ^ 31` calls of `Done` would be needed to leave it. -/
def monitor : Monitor ℤ Call where
  go count := !decide (count > 0)
  update
    | .done, count => count - 1
    | .count, count => count
  signals
    | .done, count => decide (count = 0)
    | .count, _ => false
  wakes k count hwait hgo := by
    simp only [Bool.not_eq_false', Bool.not_eq_true', decide_eq_true_eq, decide_eq_false_iff_not] at hwait hgo
    cases k with
    | done => exact decide_eq_true (by dsimp only at hgo ⊢; omega)
    | count => exact absurd hwait hgo
  stays k count hgo := by
    simp only [Bool.not_eq_true', decide_eq_false_iff_not] at hgo ⊢
    cases k with
    | done => dsimp only; omega
    | count => exact hgo

theorem go_iff (count : ℤ) : monitor.go count = true ↔ count ≤ 0 := by
  simp only [monitor, Bool.not_eq_true', decide_eq_false_iff_not, not_lt, gt_iff_lt]

theorem foldl_update (calls : List Call) (n : ℤ) :
    calls.foldl (fun count k ↦ monitor.update k count) n = n - calls.count .done := by
  induction calls generalizing n with
  | nil => simp
  | cons k calls ih =>
    rw [List.foldl_cons, ih]
    cases k with
    | done =>
      rw [List.count_cons_self]
      simp only [monitor]
      push_cast
      ring
    | count => rw [List.count_cons_of_ne (by decide)]; rfl

variable {ι : Type} [DecidableEq ι]

def Steps (s : MonitorState ℤ Call ι) (a : MonitorAction Call ι) (s' : MonitorState ℤ Call ι) : Prop :=
  monitor.step s a = some s'

variable {n : ℤ} {s s' : MonitorState ℤ Call ι} {as : List (MonitorAction Call ι)}

omit [DecidableEq ι] in
theorem data_eq (h : monitor.Inv n s) : s.data = n - s.updates.count .done := by
  rw [h.data, foldl_update]

omit [DecidableEq ι] in
theorem go_data_iff (h : monitor.Inv n s) : monitor.go s.data = true ↔ n ≤ s.updates.count .done := by
  rw [go_iff, data_eq h]
  omega

/-- Whatever the threads do and in whatever order, spurious wake-ups included: `Wait` returns only when
`Done` has been called as often as the constructor was told. From then on a thread that still sleeps is
about to be notified, the calls under way are over after a bounded number of steps, and no thread is
left in one of them when nothing can move any more. -/
theorem run_wait_returns [Fintype ι] (hrun : Run Steps (.init n) as s) :
    (∀ t, s.passed t = true → n ≤ s.updates.count .done) ∧
    (n ≤ s.updates.count .done →
      (∀ t, s.point t = .asleep → ∃ u, s.point u = .signalling .done ∧ s.data = 0) ∧
      ∀ (bs : List (MonitorAction Call ι)) (s' : MonitorState ℤ Call ι), (∀ b ∈ bs, Monitor.Continues b) →
        Run Steps s bs s' →
        bs.length ≤ 4 * Fintype.card ι ∧
          ((∀ t, monitor.step s' (.step t) = none) → ∀ t, s'.point t = .outside)) := by
  have h := Monitor.run_inv hrun (Monitor.init_inv n)
  refine ⟨fun t ht ↦ (go_data_iff h).mp (h.passed t ht), fun hdone ↦ ?_⟩
  have hgo := (go_data_iff h).mpr hdone
  constructor
  · intro t ht
    obtain ⟨u, k, hu, hk⟩ := h.asleep t ht hgo
    cases k with
    | done => exact ⟨u, hu, of_decide_eq_true hk⟩
    | count => cases hk
  · intro bs s' hbs hrun'
    obtain ⟨hlen, hstuck⟩ := h.calls_return hgo hbs hrun'
    have hwork := Monitor.work_le s
    exact ⟨by omega, hstuck⟩

def twoDones : List (MonitorAction Call (Fin 3)) :=
  [.call 0 none, .step 0, .step 0, .call 1 (some .done), .spurious 0, .step 0, .step 0, .step 1,
    .call 2 (some .done),
    .step 1, .step 1, .step 1, .step 2, .step 2, .step 2, .step 2, .step 0, .step 0, .step 0]

theorem run_wait_returns_twoDones : ∃ s : MonitorState ℤ Call (Fin 3),
    Run Steps (.init 2) twoDones s ∧ s.passed 0 = true ∧ 2 ≤ s.updates.count .done := by
  obtain ⟨s, hrun, hpassed⟩ : ∃ s, Run Steps (.init 2) twoDones s ∧ s.passed 0 = true :=
    exists_run_of_steps (fun s : MonitorState ℤ Call (Fin 3) ↦ s.passed 0) (by decide +kernel)
  exact ⟨s, hrun, hpassed, Int.ofNat_le.mp ((run_wait_returns hrun).1 0 hpassed)⟩

end WaitGroup

end Baize.Threads
