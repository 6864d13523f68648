import Baize.Runtime.Bookkeeping
import Baize.Runtime.Transition

namespace Baize.Runtime.EventLoop

open Baize.Lib

variable {Task Park : Type}

/-- The parks and the timers know exactly the routines that are suspended in their waits. -/
structure Parked (s : EventLoop Task Park) : Prop where
  pool : s.pool.Consistent
  wait : ∀ r, (s.wait r).isSome ↔ s.pool.Suspended r
  routine : ∀ side p w, s.routine (side, p) = some w →
    s.waits w.id = w.wait ∧ ∃ timed, s.wait w.id = some (.park side p timed)
  timer : ∀ r n, s.timer r = some n → s.waits r = n ∧ ∃ side p, s.wait r = some (.park side p true)

theorem Parked.func {s : EventLoop Task Park} (h : s.Parked) {r : RoutineId} (hr : (s.wait r).isSome) :
    (s.pool.func r).isSome :=
  ((h.wait r).mp hr).1

theorem Parked.call_fault {s : EventLoop Task Park} (h : s.Parked) {r : RoutineId} (hr : (s.wait r).isSome) :
    (s.pool.call r).fault = none := by
  rw [RoutinePool.call_eq (h.func hr)]
  exact h.pool.fault

theorem Parked.ne_current {s : EventLoop Task Park} (h : s.Parked) {r k : RoutineId}
    (hr : s.pool.current = some r) (hk : (s.wait k).isSome) : k ≠ r :=
  fun heq ↦ ((h.wait k).mp hk).2 (heq ▸ hr)

theorem Parked.requeue {s : EventLoop Task Park} (h : s.Parked) (functions batch : List (FunctionCallBack Task))
    (phase : Phase Park) : Parked { s with functions := functions, batch := batch, phase := phase } :=
  ⟨h.pool, h.wait, h.routine, h.timer⟩

theorem Parked.wait_suspend {s : EventLoop Task Park} (h : s.Parked) {r : RoutineId}
    (hr : s.pool.current = some r) (w : Wait Park) (k : RoutineId) :
    (Function.update s.wait r (some w) k).isSome ↔ s.pool.ret.Suspended k := by
  rw [RoutinePool.ret_suspended h.pool.toSound]
  by_cases hk : k = r
  · simp only [hk, Function.update_self, Option.isSome_some, h.pool.current r hr]
  · have hcur : s.pool.current ≠ some k := fun hc ↦ hk (Option.some.inj (hc.symm.trans hr))
    simp only [Function.update_of_ne hk, h.wait k, RoutinePool.Suspended, ne_eq, hcur, not_false_eq_true,
      and_true]

theorem Parked.not_free {s : EventLoop Task Park} (h : s.Parked) {r : RoutineId} (hr : (s.wait r).isSome) :
    s.pool.freeList.find r = none := by
  by_contra hne
  obtain ⟨ptr, hptr⟩ := Option.ne_none_iff_exists'.mp hne
  have hfunc := h.func hr
  rw [(h.pool.free r ptr hptr).2] at hfunc
  cases hfunc

theorem checkTicks_parked {s : EventLoop Task Park} (h : s.Parked) {r : RoutineId}
    (hr : s.pool.current = some r) : (s.checkTicks r).Parked := by
  unfold checkTicks
  split
  · refine ⟨RoutinePool.ret_consistent h.pool.toSound, h.wait_suspend hr _, fun side p w hw ↦ ?_,
      fun k n hn ↦ ?_⟩
    · obtain ⟨hwaits, timed, hwait⟩ := h.routine side p w hw
      have hne := h.ne_current hr (Option.isSome_of_eq_some hwait)
      simp only [suspend, Function.update_of_ne hne]
      exact ⟨hwaits, timed, hwait⟩
    · obtain ⟨hwaits, side, p, hwait⟩ := h.timer k n hn
      have hne := h.ne_current hr (Option.isSome_of_eq_some hwait)
      simp only [suspend, Function.update_of_ne hne]
      exact ⟨hwaits, side, p, hwait⟩
  · exact ⟨h.pool, h.wait, h.routine, h.timer⟩

theorem Parked.start {s : EventLoop Task Park} (h : s.Parked) (hcur : s.pool.current = none) (func : Task)
    (routineName : String) : Parked { s with pool := s.pool.start func routineName } where
  pool := RoutinePool.start_consistent h.pool.toSound hcur func routineName
  wait r := (h.wait r).trans (RoutinePool.start_suspended h.pool.toSound hcur func routineName r).symm
  routine := h.routine
  timer := h.timer

theorem Parked.finish {s : EventLoop Task Park} (h : s.Parked) {r : RoutineId}
    (hr : s.pool.current = some r) : Parked { s with pool := (s.pool.release r).ret } where
  pool := RoutinePool.ret_consistent (RoutinePool.release_sound h.pool hr).1
  wait k := by
    rw [RoutinePool.ret_suspended (RoutinePool.release_sound h.pool hr).1]
    by_cases hk : k = r
    · refine iff_of_false (fun hw ↦ h.ne_current hr hw hk) ?_
      simp only [RoutinePool.release, hk, Function.update_self, Option.isSome_none, Bool.false_eq_true,
        not_false_eq_true]
    · have hcur : s.pool.current ≠ some k := fun hc ↦ hk (Option.some.inj (hc.symm.trans hr))
      simp only [h.wait k, RoutinePool.Suspended, RoutinePool.release, Function.update_of_ne hk, ne_eq, hcur,
        not_false_eq_true, and_true]
  routine := h.routine
  timer := h.timer

theorem Parked.unlink {s : EventLoop Task Park} (h : s.Parked) (r : RoutineId) (timeout : RoutineId → Bool) :
    Parked { s with timer := Function.update s.timer r none, timeout := timeout } := by
  refine ⟨h.pool, h.wait, h.routine, fun k n hk ↦ ?_⟩
  by_cases hkr : k = r
  · simp [hkr] at hk
  · simp only [Function.update_of_ne hkr] at hk
    exact h.timer k n hk

theorem scheduleRead_parked {s : EventLoop Task Park} (h : s.Parked) (p : Park) : (s.scheduleRead p).Parked := by
  unfold scheduleRead
  split
  · exact h.requeue _ _ _
  · exact h

theorem new_parked (counter n : ℕ) : (new Task Park counter n).Parked :=
  ⟨RoutinePool.new_consistent counter n, fun _ ↦ ⟨nofun, fun h ↦ nomatch h.1⟩, nofun, nofun⟩

variable [DecidableEq Park]

theorem call_wait (s : EventLoop Task Park) (r : RoutineId) :
    (s.call r).wait = Function.update s.wait r none := by
  unfold call
  split <;> rfl

theorem call_waits (s : EventLoop Task Park) (r : RoutineId) : (s.call r).waits = s.waits := by
  unfold call
  split <;> rfl

theorem call_pool (s : EventLoop Task Park) (r : RoutineId) : (s.call r).pool = s.pool.call r := by
  unfold call
  split <;> rfl

theorem routine_of_call {s : EventLoop Task Park} {r : RoutineId} {k : Side × Park} {w : Waiter}
    (h : (s.call r).routine k = some w) :
    s.routine k = some w ∧ ∀ timed, s.wait r ≠ some (.park k.1 k.2 timed) := by
  unfold call at h
  split at h
  · next side p timed hwait =>
    have hne : k ≠ (side, p) := fun hk ↦ by simp only [hk, Function.update_self, reduceCtorEq] at h
    simp only [Function.update_of_ne hne] at h
    refine ⟨h, fun timed' heq ↦ hne ?_⟩
    rw [hwait, Option.some.injEq, Wait.park.injEq] at heq
    exact Prod.ext heq.1.symm heq.2.1.symm
  · next hwait => exact ⟨h, fun timed heq ↦ hwait _ _ _ heq⟩

theorem timer_of_call {s : EventLoop Task Park} {r k : RoutineId} {n : ℕ}
    (h : (s.call r).timer k = some n) :
    s.timer k = some n ∧ ∀ side p, s.wait r = some (.park side p true) → k ≠ r := by
  unfold call at h
  split at h
  · next side p timed hwait =>
    cases timed with
    | false => exact ⟨h, fun side' p' heq ↦ by simp [hwait] at heq⟩
    | true =>
      have hne : k ≠ r := fun hk ↦ by simp [hk] at h
      simp only [if_true, Function.update_of_ne hne] at h
      exact ⟨h, fun _ _ _ ↦ hne⟩
  · next hwait => exact ⟨h, fun side p heq ↦ (hwait side p true heq).elim⟩

theorem call_parked {s : EventLoop Task Park} (h : s.Parked) (hcur : s.pool.current = none) {r : RoutineId}
    (hok : (s.pool.call r).fault = none) : (s.call r).Parked where
  pool := by
    rw [call_pool]
    exact RoutinePool.call_consistent h.pool hok
  wait k := by
    rw [call_pool, call_wait, RoutinePool.call_suspended h.pool.toSound hok]
    by_cases hk : k = r
    · simp only [hk, Function.update_self, Option.isSome_none, Bool.false_eq_true, ne_eq, not_true_eq_false,
        and_false]
    · simp only [Function.update_of_ne hk, h.wait k, RoutinePool.Suspended, hcur, ne_eq, hk,
        not_false_eq_true, and_true, reduceCtorEq]
  routine side p w hw := by
    obtain ⟨hold, hother⟩ := routine_of_call hw
    obtain ⟨hwaits, timed, hwait⟩ := h.routine side p w hold
    have hne : w.id ≠ r := fun heq ↦ hother timed (heq ▸ hwait)
    rw [call_waits, call_wait, Function.update_of_ne hne]
    exact ⟨hwaits, timed, hwait⟩
  timer k n hn := by
    obtain ⟨hold, hother⟩ := timer_of_call hn
    obtain ⟨hwaits, side, p, hwait⟩ := h.timer k n hold
    have hne : k ≠ r := fun heq ↦ hother side p (heq ▸ hwait) heq
    rw [call_waits, call_wait, Function.update_of_ne hne]
    exact ⟨hwaits, side, p, hwait⟩

theorem waitOn_parked {s : EventLoop Task Park} (h : s.Parked) {r : RoutineId}
    (hr : s.pool.current = some r) (side : Side) (p : Park) (timed : Bool) :
    (s.waitOn r side p timed).Parked where
  pool := RoutinePool.ret_consistent h.pool.toSound
  wait := h.wait_suspend hr _
  routine side' p' w hw := by
    simp only [waitOn, suspend, Function.update_apply] at hw ⊢
    split_ifs at hw with hk
    · obtain ⟨rfl, rfl⟩ := Prod.mk.inj hk
      obtain rfl := Option.some.inj hw
      exact ⟨if_pos rfl, timed, if_pos rfl⟩
    · obtain ⟨hwaits, timed', hwait⟩ := h.routine side' p' w hw
      have hne := h.ne_current hr (Option.isSome_of_eq_some hwait)
      rw [if_neg hne, if_neg hne]
      exact ⟨hwaits, timed', hwait⟩
  timer k n hn := by
    have hold (hn : s.timer k = some n) : (s.waitOn r side p timed).waits k = n ∧
        ∃ side' p', (s.waitOn r side p timed).wait k = some (.park side' p' true) := by
      obtain ⟨hwaits, side', p', hwait⟩ := h.timer k n hn
      have hne := h.ne_current hr (Option.isSome_of_eq_some hwait)
      simp only [waitOn, suspend, Function.update_of_ne hne]
      exact ⟨hwaits, side', p', hwait⟩
    cases timed with
    | false => exact hold hn
    | true =>
      by_cases hk : k = r
      · simp only [waitOn, suspend, if_true, hk, Function.update_self, Option.some.injEq] at hn ⊢
        exact ⟨hn, side, p, rfl⟩
      · simp only [waitOn, suspend, if_true, Function.update_of_ne hk] at hn
        exact hold hn

theorem onTimer_parked {s : EventLoop Task Park} (h : s.Parked) (hcur : s.pool.current = none) {r : RoutineId}
    (hok : (s.pool.call r).fault = none) : (s.onTimer r).Parked :=
  call_parked (h.unlink r _) hcur hok

theorem Transition.parked {polled : Park → Bool} {s s' : EventLoop Task Park} {a : Action Task Park}
    (ht : Transition polled s a s') (h : s.Parked) (hok : s'.pool.fault = none) : s'.Parked := by
  cases ht with
  | submit hcur => exact h.start hcur _ _
  | start => exact h.requeue _ _ _
  | nextTurn => exact h.requeue _ _ _
  | @runStart func routineName batch hcur => exact (h.requeue s.functions batch s.phase).start hcur _ _
  | @runCall w batch hcur =>
    rw [call_pool] at hok
    exact call_parked (h.requeue s.functions batch s.phase) hcur hok
  | poll => exact h.requeue _ _ _
  | @scheduleCall k pending w hcur =>
    rw [call_pool] at hok
    exact call_parked (h.requeue s.functions s.batch (.events pending)) hcur hok
  | scheduleNone => exact h.requeue _ _ _
  | turnWheel => exact h.requeue _ _ _
  | expire hcur =>
    unfold onTimer at hok
    rw [call_pool] at hok
    exact onTimer_parked h hcur hok
  | defer => exact h.requeue _ _ _
  | waitOn hr => exact waitOn_parked h hr _ _ _
  | checkTicks hr => exact checkTicks_parked h hr
  | scheduleRead => exact scheduleRead_parked h _
  | finish hr => exact h.finish hr

end Baize.Runtime.EventLoop
