import Baize.Runtime.Control
import Baize.Runtime.WakeUp

namespace Baize.Runtime

variable {Task Park : Type}

def Phase.pending : Phase Park → List (Side × Park)
  | .events pending => pending
  | _ => []

namespace EventLoop

def BatchDone (s : EventLoop Task Park) : Prop := s.phase ≠ .functions → s.batch = []

variable [DecidableEq Park] {polled : Park → Bool}

theorem call_phase (s : EventLoop Task Park) (r : RoutineId) : (s.call r).phase = s.phase := by
  unfold call
  split <;> rfl

theorem Transition.phase_eq {s s' : EventLoop Task Park} {a : Action Task Park} (ht : Transition polled s a s')
    {r : RoutineId} (hr : s.pool.current = some r) : s'.phase = s.phase := by
  cases ht.of_current hr with
  | defer => rfl
  | waitOn => rfl
  | finish => rfl
  | checkTicks =>
    unfold EventLoop.checkTicks
    split <;> rfl
  | scheduleRead =>
    unfold EventLoop.scheduleRead
    split <;> rfl

theorem Transition.pending {s s' : EventLoop Task Park} {a : Action Task Park} (ht : Transition polled s a s')
    {k : Side × Park} (hk : k ∈ s.phase.pending) {w : Waiter} (hw : s.routine k = some w)
    (hwait : (s'.wait w.id).isSome) : k ∈ s'.phase.pending := by
  cases ht with
  | submit _ hphase => rw [hphase] at hk; cases hk
  | start _ hphase => rw [hphase] at hk; cases hk
  | nextTurn _ hphase => rw [hphase] at hk; cases hk
  | runStart _ hphase => rw [hphase] at hk; cases hk
  | runCall _ hphase => rw [hphase] at hk; cases hk
  | poll _ hphase => rw [hphase] at hk; cases hk
  | turnWheel _ hphase => rw [hphase] at hk; cases hk
  | expire _ hphase => rw [hphase] at hk; cases hk
  | @scheduleCall k' pending w' _ hphase hw' =>
    rw [hphase] at hk
    rw [call_phase]
    rcases List.mem_cons.mp hk with rfl | hk
    · obtain rfl := Option.some.inj (hw.symm.trans hw')
      simp [call_wait] at hwait
    · exact hk
  | @scheduleNone k' pending _ hphase hw' =>
    rw [hphase] at hk
    rcases List.mem_cons.mp hk with rfl | hk
    · cases hw.symm.trans hw'
    · exact hk
  | defer => exact hk
  | waitOn => exact hk
  | finish => exact hk
  | checkTicks =>
    unfold EventLoop.checkTicks
    split <;> exact hk
  | scheduleRead =>
    unfold EventLoop.scheduleRead
    split <;> exact hk

theorem Transition.batchDone {s s' : EventLoop Task Park} {a : Action Task Park} (ht : Transition polled s a s')
    (h : s.BatchDone) : s'.BatchDone := by
  cases ht with
  | start => exact fun hne ↦ absurd rfl hne
  | nextTurn => exact fun hne ↦ absurd rfl hne
  | runStart _ hphase => exact fun hne ↦ absurd hphase hne
  | runCall _ hphase =>
    rw [BatchDone, call_phase]
    exact fun hne ↦ absurd hphase hne
  | poll _ _ hbatch => exact fun _ ↦ hbatch
  | scheduleCall _ hphase =>
    rw [BatchDone, call_batch]
    exact fun _ ↦ h (by rw [hphase]; exact fun heq ↦ by cases heq)
  | scheduleNone _ hphase => exact fun _ ↦ h (by rw [hphase]; exact fun heq ↦ by cases heq)
  | turnWheel _ hphase => exact fun _ ↦ h (by rw [hphase]; exact fun heq ↦ by cases heq)
  | expire _ hphase =>
    rw [BatchDone, onTimer, call_batch]
    exact fun _ ↦ h (by rw [hphase]; exact fun heq ↦ by cases heq)
  | checkTicks =>
    unfold EventLoop.checkTicks
    split <;> exact h
  | scheduleRead =>
    unfold EventLoop.scheduleRead
    split <;> exact h
  | _ => exact h

theorem Transition.queued {s s' : EventLoop Task Park} {a : Action Task Park} (ht : Transition polled s a s')
    (hbatch : s.BatchDone) {r : RoutineId} (hr : r ∈ s.queued) (hwait : (s'.wait r).isSome) : r ∈ s'.queued := by
  have hturn (hphase : s.phase ≠ .functions) : r ∈ s.turn.queued := by
    unfold EventLoop.queued at hr ⊢
    rw [hbatch hphase] at hr
    rwa [turn, List.append_nil]
  cases ht with
  | start _ hphase => exact hturn (by rw [hphase]; exact fun heq ↦ by cases heq)
  | nextTurn _ hphase => exact hturn (by rw [hphase]; exact fun heq ↦ by cases heq)
  | runStart _ _ hfs =>
    unfold EventLoop.queued at hr
    rw [hfs] at hr
    exact hr
  | @runCall w batch _ _ hfs =>
    unfold EventLoop.queued at hr ⊢
    rw [hfs] at hr
    rw [call_batch, call_functions]
    rcases List.mem_cons.mp hr with rfl | hr
    · simp [call_wait] at hwait
    · exact hr
  | scheduleCall =>
    unfold EventLoop.queued
    rw [call_batch, call_functions]
    exact hr
  | expire =>
    unfold EventLoop.queued onTimer
    rw [call_batch, call_functions]
    exact hr
  | defer =>
    unfold EventLoop.queued
    rw [calls_append_start]
    exact hr
  | checkTicks =>
    unfold EventLoop.checkTicks
    split
    · simp only [EventLoop.queued, suspend, calls_append_call, List.map_append]
      exact List.mem_append_left _ hr
    · exact hr
  | scheduleRead =>
    unfold EventLoop.scheduleRead
    split
    · simp only [EventLoop.queued, calls_append_call, List.map_append]
      exact List.mem_append_left _ hr
    · exact hr
  | _ => exact hr

end EventLoop

end Baize.Runtime
