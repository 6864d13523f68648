import Baize.Runtime.TimedWait
import Baize.Time.Filing

namespace Baize.Runtime.TimedLoop

open Baize.Lib
open Baize.Time (TimeWheel)

variable {Task Park : Type}

theorem Timed.inTimedWait {s : TimedLoop Task Park} (h : s.Timed) {r : RoutineId}
    (hr : s.wheel.Linked (routineTimer r)) :
    s.armedFor r = s.loop.waits r ∧ InTimedWait s.loop r := by
  obtain ⟨n, hn⟩ := Option.isSome_iff_exists.mp (h.linked r hr)
  obtain ⟨hwaits, hwait⟩ := h.parked.timer r n hn
  exact ⟨(h.armedFor r n hn).trans hwaits.symm, hwait⟩

theorem Timed.stop_linked {s : TimedLoop Task Park} (h : s.Timed) {w : TimeWheel} (hu : w.Unique)
    {r k : RoutineId} (hw : w.Linked (routineTimer r) → s.wheel.Linked (routineTimer r)) :
    (stopTimer w k (s.loop.wait k)).Linked (routineTimer r) ↔ w.Linked (routineTimer r) ∧ r ≠ k := by
  rw [(stopTimer_links hu s.loop k).2 r]
  constructor
  · rintro ⟨hr, hnot⟩
    refine ⟨hr, ?_⟩
    rintro rfl
    exact hnot ⟨rfl, (h.inTimedWait (hw hr)).2⟩
  · rintro ⟨hr, hne⟩
    exact ⟨hr, fun hk ↦ hne hk.1⟩

theorem isSome_update_none {wait : RoutineId → Option (Wait Park)} {r k : RoutineId} (hr : (wait r).isSome) :
    (Function.update wait k none r).isSome ↔ r ≠ k := by
  by_cases hrk : r = k
  · simp [hrk]
  · simp [hr, hrk]

variable [DecidableEq Park] {polled : Park → Bool} {s s' : TimedLoop Task Park} {a : TimedAction Task Park}

/-- The timer of a waiting routine stays linked just as long as the routine waits. -/
theorem Transition.linked_iff (ht : Transition polled s a s') (h : s.Timed) {r : RoutineId}
    (hr : (s.loop.wait r).isSome) : s'.wheel.Linked (routineTimer r) ↔
      s.wheel.Linked (routineTimer r) ∧ (s'.loop.wait r).isSome := by
  cases ht with
  | @loop a loop ha hloop =>
    obtain ⟨w, batch, phase, hcalled, rfl⟩ | ⟨hcalled, -, -, hstays⟩ := hloop.calls_or_stays ha
    · have hwheel : s.wheelAfter a = stopTimer s.wheel w.id (s.loop.wait w.id) := by rw [wheelAfter, hcalled]
      rw [EventLoop.call_wait, isSome_update_none hr, ← h.stop_linked h.unique id, ← hwheel]
      rfl
    · have hwheel : s.wheelAfter a = s.wheel := by rw [wheelAfter, hcalled]
      rw [and_iff_left (hstays r hr), ← hwheel]
      rfl
  | @waitFor k side p us hk =>
    have hne := h.parked.ne_current hk hr
    have hwait : ((s.waitFor k side p us).loop.wait r).isSome := by
      simpa only [TimedLoop.waitFor, EventLoop.waitOn, EventLoop.suspend, Function.update_of_ne hne] using hr
    rw [and_iff_left hwait, (waitFor_links h.unique k side p us).linked, ne_eq, routineTimer_inj]
    simp only [hne, false_and, false_or, not_false_eq_true, true_and]
  | turnWheel hloop hm =>
    cases hloop
    rw [TimedLoop.wheel, turn_wheel_eq hm]
    exact (and_iff_left hr).symm
  | nextTurn hloop hm =>
    cases hloop
    rw [TimedLoop.wheel, endTurn_wheel_eq hm]
    exact (and_iff_left hr).symm
  | @fire k m hcur hphase hm =>
    have hwheel := (linked_of_fire hm).2
    have hlinked : m.wheel.Linked (routineTimer r) ↔ r ≠ k ∧ s.wheel.Linked (routineTimer r) := by
      rw [hwheel, TimeWheel.linked_delTimer h.unique, ne_eq, routineTimer_inj]
    have hstop := h.stop_linked (w := m.wheel) (hwheel ▸ TimeWheel.delTimer_unique h.unique) (k := k)
      fun hm ↦ (hlinked.mp hm).2
    have hwait : ((s.onTimer k m).loop.wait r).isSome ↔ r ≠ k := by
      rw [onTimer, EventLoop.onTimer, EventLoop.call_wait]
      exact isSome_update_none hr
    refine hstop.trans ?_
    rw [hlinked, hwait]
    tauto
  | wheel hb hm =>
    rw [and_iff_left hr]
    exact (sameTimers_of_wheelAction h.unique hb hm).2 r

/-- A routine that comes back from a wait with a time limit learns whether it was the timer. -/
theorem Transition.timeout_iff (ht : Transition polled s a s') (h : s.Timed) {r : RoutineId}
    (hin : InTimedWait s.loop r) (hout : s'.loop.wait r = none) : s'.loop.timeout r = true ↔ a = .fire r := by
  have hold := h.timeout r hin
  obtain ⟨side, p, hwait⟩ := hin
  have hsame (hout : s.loop.wait r = none) : False := by cases hwait.symm.trans hout
  cases ht with
  | @loop a loop ha hloop =>
    obtain ⟨w, batch, phase, -, rfl⟩ | ⟨-, -, -, hstays⟩ := hloop.calls_or_stays ha
    · refine iff_of_false ?_ nofun
      rw [EventLoop.call_timeout, Bool.not_eq_true]
      exact hold
    · have hr := hstays r (Option.isSome_of_eq_some hwait)
      rw [hout] at hr
      cases hr
  | waitFor hr =>
    have hne := h.parked.ne_current hr (Option.isSome_of_eq_some hwait)
    exact (hsame ((Function.update_of_ne hne _ _).symm.trans hout)).elim
  | turnWheel hloop =>
    cases hloop
    exact (hsame hout).elim
  | nextTurn hloop =>
    cases hloop
    exact (hsame hout).elim
  | @fire k m =>
    have hrk : r = k := by
      by_contra hne
      rw [onTimer, EventLoop.onTimer, EventLoop.call_wait, Function.update_of_ne hne] at hout
      exact hsame hout
    refine iff_of_true ?_ (by rw [hrk])
    rw [onTimer, EventLoop.onTimer, EventLoop.call_timeout, hrk]
    exact Function.update_self _ _ _
  | wheel => exact (hsame hout).elim

theorem Timed.waitFor_linked_iff (h : s.Timed) {r : RoutineId} {side : Side} {p : Park} {us : ℕ} :
    (s.waitFor r side p us).wheel.Linked (routineTimer r) ↔
      s.wheel.lastMs ≤ us / 1000 ∧ us / 1000 < s.wheel.lastMs + 2 ^ 32 :=
  TimeWheel.arm_linked_iff h.unique (routineTimer r) us

/-- In every run: a wait with a time limit reports a timeout just when the timer ended it, and its
timer is out of the wheel then; a timer ends no wait but the one for which it was last started; and
a timer that was started in time is linked and stays so for as long as its wait lasts, whether
`Return` was called from inside `OnTimer` or not. -/
theorem timed_wait_reports_own_timeout {counter n now : ℕ} {as : List (TimedAction Task Park)}
    (hrun : Run (fun s a s' ↦ s.step polled a = some s') (new Task Park counter n now) as s)
    (hstep : s.step polled a = some s') (r : RoutineId) :
    (InTimedWait s.loop r → s'.loop.wait r = none →
      (s'.loop.timeout r = true ↔ a = .fire r) ∧ ¬s'.wheel.Linked (routineTimer r)) ∧
    (a = .fire r → InTimedWait s.loop r ∧ s.armedFor r = s.loop.waits r) ∧
    (∀ side p us, a = .waitFor side p us → s.loop.pool.current = some r → s.wheel.lastMs ≤ us / 1000 →
      us / 1000 < s.wheel.lastMs + 2 ^ 32 → s'.wheel.Linked (routineTimer r)) ∧
    ((s.loop.wait r).isSome → (s'.loop.wait r).isSome →
      (s'.wheel.Linked (routineTimer r) ↔ s.wheel.Linked (routineTimer r))) := by
  obtain ⟨hok, ht⟩ := transition_of_step hstep
  have h := run_timed hrun hok
  refine ⟨fun hin hout ↦ ⟨ht.timeout_iff h hin hout, ?_⟩, ?_, ?_, fun hr hr' ↦ ?_⟩
  · obtain ⟨side, p, hwait⟩ := hin
    rw [ht.linked_iff h (Option.isSome_of_eq_some hwait), hout]
    exact fun hl ↦ by cases hl.2
  · rintro rfl
    cases ht with
    | fire _ _ hm => exact (h.inTimedWait (linked_of_fire hm).1).symm
    | wheel hb => cases hb
  · rintro side p us rfl hr hl hu
    cases ht with
    | waitFor hk =>
      obtain rfl := Option.some.inj (hr.symm.trans hk)
      exact h.waitFor_linked_iff.mpr ⟨hl, hu⟩
    | wheel hb => cases hb
  · rw [ht.linked_iff h hr, and_iff_left hr']

def rearmed : List (TimedAction Unit Unit) :=
  [.loop (.submit () "sleeper"), .waitFor .read () 1000, .loop .start, .loop (.poll []), .turnWheel 2, .tick,
    .fire 1, .waitFor .read () 2000, .ret kTimerStop, .tickDone, .tick]

theorem rearmed_times_out :
    ∃ s s', Run (fun s a s' ↦ s.step (fun _ ↦ false) a = some s') (new Unit Unit 1 1 0) rearmed s ∧
      s.step (fun _ ↦ false) (.fire 1) = some s' ∧ s.armedFor 1 = 2 ∧ s.loop.timeout 1 = false ∧
      s'.loop.timeout 1 = true ∧ ¬s'.wheel.Linked (routineTimer 1) := by
  obtain ⟨s, hrun, hobs⟩ : ∃ s,
      Run (fun s a s' ↦ s.step (fun _ ↦ false) a = some s') (new Unit Unit 1 1 0) rearmed s ∧
      ((s.loop.waits 1, s.loop.timeout 1), (s.step (fun _ ↦ false) (.fire 1)).map fun s' ↦ s'.loop.wait 1) =
        ((2, false), some none) :=
    exists_run_of_steps _ (by decide +kernel)
  simp only [Prod.mk.injEq, Option.map_eq_some_iff] at hobs
  obtain ⟨⟨hwaits, htimeout⟩, s', hstep, hwait⟩ := hobs
  obtain ⟨hback, hfire, -, -⟩ := timed_wait_reports_own_timeout hrun hstep 1
  obtain ⟨hin, harmed⟩ := hfire rfl
  obtain ⟨hiff, hout⟩ := hback hin hwait
  exact ⟨s, s', hrun, hstep, harmed.trans hwaits, htimeout, hiff.mpr rfl, hout⟩

end Baize.Runtime.TimedLoop
