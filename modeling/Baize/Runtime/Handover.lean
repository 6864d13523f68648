import Baize.Lib.Board
import Baize.Runtime.Parked

namespace Baize.Runtime

open Baize.Lib

variable {Task Park : Type}

namespace RoutinePool

inductive Hands (p p' : RoutinePool Task) : Prop
  | none (htasks : p'.tasks = p.tasks) (hfunc : p'.func = p.func) (hcur : p'.current = none)
  | one {func : Task} {id : RoutineId} (htasks : p.tasks = func :: p'.tasks) (hfree : p.func id = none)
    (hfunc : p'.func = Function.update p.func id (some func)) (hcur : p'.current = some id)

theorem startLoop_hands {p : RoutinePool Task} (h : p.Sound) (hcur : p.current = none) (routineName : String) :
    p.Hands (p.startLoop routineName) := by
  obtain ⟨-, heq⟩ | ⟨func, tasks, id, htasks, hfind, heq⟩ := startLoop_cases h routineName
  · rw [heq]
    exact .none rfl rfl hcur
  · rw [heq]
    exact .one htasks (h.free id _ hfind).2 rfl rfl

theorem ret_hands {p : RoutinePool Task} (h : p.Sound) : p.Hands p.ret := by
  cases hs : p.starting with
  | none =>
    rw [ret_of_not_starting hs]
    exact .none rfl rfl rfl
  | some routineName =>
    rw [ret_of_starting hs]
    cases startLoop_hands (h.setCurrent none) rfl routineName with
    | none htasks hfunc hcur => exact .none htasks hfunc hcur
    | one htasks hfree hfunc hcur => exact .one htasks hfree hfunc hcur

theorem Hands.func_eq {p p' : RoutinePool Task} (h : p.Hands p') {r : RoutineId} (hr : (p.func r).isSome) :
    p'.func r = p.func r := by
  cases h with
  | none htasks hfunc hcur => rw [hfunc]
  | @one func id htasks hfree hfunc hcur =>
    have hne : r ≠ id := fun heq ↦ by simp [heq, hfree] at hr
    rw [hfunc, Function.update_of_ne hne]

theorem Hands.started {p p' : RoutinePool Task} (h : p.Hands p') {r : RoutineId} (hr : p'.current = some r) :
    ∃ t ∈ p.tasks, p'.func r = some t := by
  cases h with
  | none htasks hfunc hcur => cases hcur.symm.trans hr
  | one htasks hfree hfunc hcur =>
    obtain rfl := Option.some.inj (hcur.symm.trans hr)
    exact ⟨_, htasks ▸ List.mem_cons_self, by rw [hfunc, Function.update_self]⟩

theorem call_func_eq {p : RoutinePool Task} (h : p.Sound) (k : RoutineId) {r : RoutineId}
    (hr : (p.func r).isSome) : (p.call k).func r = p.func r := by
  by_cases hok : (p.call k).fault = none
  · obtain ⟨-, heq⟩ | ⟨func, tasks, -, hfind, heq⟩ := call_cases h hok
    · rw [heq]
    · have hne : r ≠ k := fun hk ↦ by simp [hk, (h.free k _ hfind).2] at hr
      rw [heq]
      exact Function.update_of_ne hne _ _
  · rw [(call_faulted h hok).2.1]

end RoutinePool

theorem RoutinePool.Hands.moves {P : Task → Prop} {p p' : RoutinePool Task} (h : p.Hands p') (q : List Task) :
    Board.Moves P ⟨p.tasks ++ q, p.func⟩ ⟨p'.tasks ++ q, p'.func⟩ := by
  cases h with
  | none htasks hfunc hcur =>
    rw [htasks, hfunc]
  | one htasks hfree hfunc hcur =>
    rw [htasks, hfunc]
    exact .single (.start hfree)

namespace EventLoop

def starts (fs : List (FunctionCallBack Task)) : List Task :=
  fs.filterMap fun
    | .start func _ => some func
    | .call _ => none

def board (s : EventLoop Task Park) : Board RoutineId Task :=
  ⟨s.pool.tasks ++ starts (s.batch ++ s.functions), s.pool.func⟩

theorem starts_append (fs gs : List (FunctionCallBack Task)) : starts (fs ++ gs) = starts fs ++ starts gs :=
  List.filterMap_append

theorem starts_append_call (fs gs : List (FunctionCallBack Task)) (w : Waiter) :
    starts (fs ++ (gs ++ [.call w])) = starts (fs ++ gs) := by
  rw [← List.append_assoc, starts_append]
  exact List.append_nil _

theorem call_board_moves {P : Task → Prop} {p : RoutinePool Task} (h : p.Sound) {r : RoutineId}
    (hok : (p.call r).fault = none) (q : List Task) :
    Board.Moves P ⟨p.tasks ++ q, p.func⟩ ⟨(p.call r).tasks ++ q, (p.call r).func⟩ := by
  obtain ⟨-, heq⟩ | ⟨func, tasks, htasks, hfind, heq⟩ := RoutinePool.call_cases h hok
  · rw [heq]
  · rw [heq, htasks]
    exact .single (.start (h.free r _ hfind).2)

theorem start_board_moves {P : Task → Prop} {p : RoutinePool Task} (h : p.Sound) (hcur : p.current = none)
    (func : Task) (routineName : String) (q : List Task) :
    Board.Moves P ⟨p.tasks ++ func :: q, p.func⟩
      ⟨(p.start func routineName).tasks ++ q, (p.start func routineName).func⟩ := by
  have hmoves := (RoutinePool.startLoop_hands (h.push func) hcur routineName).moves (P := P) q
  rwa [List.append_assoc] at hmoves

variable [DecidableEq Park] {polled : Park → Bool}

theorem call_batch (s : EventLoop Task Park) (r : RoutineId) : (s.call r).batch = s.batch := by
  unfold call
  split <;> rfl

theorem call_functions (s : EventLoop Task Park) (r : RoutineId) : (s.call r).functions = s.functions := by
  unfold call
  split <;> rfl

theorem call_moves {P : Task → Prop} {s : EventLoop Task Park} (h : s.Parked) {r : RoutineId}
    (hok : (s.call r).pool.fault = none) : Board.Moves P s.board (s.call r).board := by
  rw [call_pool] at hok
  rw [board, board, call_pool, call_batch, call_functions]
  exact call_board_moves h.pool.toSound hok _

theorem Transition.moves {s s' : EventLoop Task Park} {a : Action Task Park} (ht : Transition polled s a s')
    (h : s.Parked) (hok : s'.pool.fault = none) :
    Board.Moves (fun t ↦ ∃ routineName, a = .submit t routineName) s.board s'.board := by
  have hsound := h.pool.toSound
  cases ht with
  | @submit func routineName hcur =>
    have hnew : ∃ name, (Action.submit func routineName : Action Task Park) = .submit func name := ⟨_, rfl⟩
    exact .head (.submit hnew) (start_board_moves hsound hcur func routineName _)
  | start =>
    refine .single (.drop (List.Sublist.append_left ?_ _))
    rw [turn, List.append_nil, starts_append]
    exact List.sublist_append_right _ _
  | nextTurn =>
    refine .single (.drop (List.Sublist.append_left ?_ _))
    rw [turn, List.append_nil, starts_append]
    exact List.sublist_append_right _ _
  | @runStart func routineName batch hcur _ hbatch =>
    rw [board, hbatch]
    exact start_board_moves hsound hcur func routineName _
  | @runCall w batch hcur _ hbatch =>
    have hboard : s.board = board { s with batch := batch } := by rw [board, board, hbatch]; rfl
    rw [hboard]
    exact call_moves (h.requeue s.functions batch s.phase) hok
  | poll => exact .refl
  | @scheduleCall k pending w => exact call_moves (h.requeue s.functions s.batch (.events pending)) hok
  | scheduleNone => exact .refl
  | turnWheel => exact .refl
  | @expire r =>
    exact call_moves (h.unlink r (Function.update s.timeout r true)) hok
  | @defer r func routineName hr =>
    have hnew : ∃ name, (Action.submit func routineName : Action Task Park) = .submit func name := ⟨_, rfl⟩
    have hmove :
      Board.Move (fun t ↦ ∃ name, (Action.submit func routineName : Action Task Park) = .submit t name)
        ⟨s.board.pending ++ [], s.pool.func⟩ ⟨s.board.pending ++ [func], s.pool.func⟩ := .submit hnew
    simp only [board, starts_append, List.append_nil, List.append_assoc] at hmove ⊢
    exact .single hmove
  | waitOn => exact (RoutinePool.ret_hands hsound).moves _
  | @checkTicks r hr =>
    unfold EventLoop.checkTicks
    split
    · simp only [board, suspend, starts_append_call]
      exact (RoutinePool.ret_hands hsound).moves _
    · exact .refl
  | @scheduleRead r p =>
    unfold EventLoop.scheduleRead
    split
    · simp only [board, starts_append_call]
      exact .refl
    · exact .refl
  | @finish r hr =>
    exact .head .finish ((RoutinePool.ret_hands (RoutinePool.release_sound h.pool hr).1).moves _)

end EventLoop

end Baize.Runtime
