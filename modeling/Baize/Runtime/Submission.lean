import Baize.Runtime.Bookkeeping

namespace Baize.Runtime.RoutinePool

open Baize.Lib

variable {Task : Type} {counter n : ℕ}

structure Accounted (counter n : ℕ) (p : RoutinePool Task) : Prop where
  mem : ∀ id, (p.freeList.find id).isSome ∨ (p.activeList.find id).isSome ↔ counter ≤ id ∧ id < counter + n
  size : p.freeList.size + p.activeList.size = n

theorem size_foldl_emplace (counter n : ℕ) :
    ((List.range n).foldl (fun m i ↦ m.emplace (counter + i) (some (counter + i)))
      (SortedMap.empty : SortedMap RoutineId (Option RoutineId))).size = n := by
  induction n with
  | zero => rfl
  | succ n ih =>
    have hnew : ¬(counter ≤ counter + n ∧ counter + n < counter + n) := by omega
    rw [List.range_succ, List.foldl_append, List.foldl_cons, List.foldl_nil,
      SortedMap.size_emplace ((find_foldl_emplace counter n _).trans (if_neg hnew)), ih]

theorem new_accounted (counter n : ℕ) : (new Task counter n).Accounted counter n where
  mem id := by
    have hactive : (new Task counter n).activeList.find id = none := rfl
    rw [find_new, hactive]
    split_ifs with h
    · exact iff_of_true (.inl rfl) h
    · exact iff_of_false (by simp) h
  size := size_foldl_emplace counter n

theorem assign_accounted {p : RoutinePool Task} (h : p.Sound) (hacc : p.Accounted counter n) {id : RoutineId}
    (hfind : p.freeList.find id = some (some id)) (routineName : String) (func : Task) (tasks : List Task) :
    (p.assign id routineName func tasks).Accounted counter n where
  mem k := by
    simp only [assign, SortedMap.find_erase, SortedMap.find_emplace (h.active_eq_none hfind)]
    by_cases hk : k = id
    · rw [if_pos hk, if_pos hk, hk, ← hacc.mem, hfind]
      exact iff_of_true (.inr rfl) (.inl rfl)
    · rw [if_neg hk, if_neg hk, hacc.mem]
  size := by
    have hfree := SortedMap.size_erase hfind
    have hactive := SortedMap.size_emplace (h.active_eq_none hfind) (some id)
    have hsize := hacc.size
    simp only [assign]
    omega

theorem release_accounted {p : RoutinePool Task} (h : p.Consistent) (hacc : p.Accounted counter n)
    {r : RoutineId} (hr : p.current = some r) : (p.release r).Accounted counter n where
  mem k := by
    have hfree := h.free_eq_none (h.current r hr)
    simp only [release, SortedMap.find_erase, SortedMap.find_emplace hfree]
    by_cases hk : k = r
    · rw [if_pos hk, if_pos hk, hk, ← hacc.mem, h.active, if_pos (h.current r hr)]
      exact iff_of_true (.inl rfl) (.inr rfl)
    · rw [if_neg hk, if_neg hk, hacc.mem]
  size := by
    have hfind : p.activeList.find r = some (some r) := (h.active r).trans (if_pos (h.current r hr))
    have hactive := SortedMap.size_erase hfind
    have hfree := SortedMap.size_emplace (h.free_eq_none (h.current r hr)) ((p.activeList.find r).getD none)
    have hsize := hacc.size
    simp only [release]
    omega

theorem startLoop_accounted {p : RoutinePool Task} (h : p.Sound) (hacc : p.Accounted counter n)
    (routineName : String) : (p.startLoop routineName).Accounted counter n := by
  obtain ⟨-, heq⟩ | ⟨func, tasks, id, -, hfind, heq⟩ := startLoop_cases h routineName
  · rw [heq]
    exact ⟨hacc.mem, hacc.size⟩
  · rw [heq]
    exact assign_accounted h hacc hfind routineName func tasks

theorem ret_accounted {p : RoutinePool Task} (h : p.Sound) (hacc : p.Accounted counter n) :
    p.ret.Accounted counter n := by
  cases hs : p.starting with
  | none =>
    rw [ret_of_not_starting hs]
    exact ⟨hacc.mem, hacc.size⟩
  | some routineName =>
    rw [ret_of_starting hs]
    exact startLoop_accounted (h.setCurrent none) ⟨hacc.mem, hacc.size⟩ routineName

theorem step_accounted {p p' : RoutinePool Task} {a : Action Task} (h : p.Consistent)
    (hacc : p.Accounted counter n) (hstep : p.step a = some p') : p'.Accounted counter n := by
  obtain ⟨func, routineName, -, -, rfl⟩ | ⟨r, -, -, hr, rfl⟩ | ⟨r, -, -, rfl⟩ | ⟨r, -, hcur, rfl⟩ :=
    step_cases hstep
  · exact startLoop_accounted (h.toSound.push func) ⟨hacc.mem, hacc.size⟩ routineName
  · rw [call_eq hr]
    exact ⟨hacc.mem, hacc.size⟩
  · exact ret_accounted h.toSound hacc
  · exact ret_accounted (release_sound h hcur).1 (release_accounted h hacc hcur)

def Action.submitted : Action Task → List Task
  | .start func _ => [func]
  | _ => []

def Action.isFinish : Action Task → Bool
  | .finish => true
  | _ => false

def running (p : RoutinePool Task) : Option Task := p.current.bind p.func

/-- The task that was started in a step with this label that led to `p`: after any step but a
resumption, the routine in control has just been called by `Start`. -/
def startedBy (a : Action Task) (p : RoutinePool Task) : Option Task :=
  match a with
  | .resume _ => none
  | _ => p.running

def stepTraced (s : RoutinePool Task × List Task) (a : Action Task) : Option (RoutinePool Task × List Task) :=
  (s.1.step a).map fun p ↦ (p, s.2 ++ (startedBy a p).toList)

/-- The main routine hands the first tasks of the queue to free routines, or none. -/
structure Dispatches (p p' : RoutinePool Task) : Prop where
  order : p.tasks = p'.running.toList ++ p'.tasks
  count : p'.activeList.size = p.activeList.size + p'.running.toList.length
  turn : p'.starting = none ∨ p'.tasks.length + 1 = p.tasks.length

theorem startLoop_dispatches {p : RoutinePool Task} (h : p.Sound) (hcur : p.current = none)
    (routineName : String) : p.Dispatches (p.startLoop routineName) := by
  obtain ⟨-, heq⟩ | ⟨func, tasks, id, htasks, hfind, heq⟩ := startLoop_cases h routineName
  · have hrun : running { p with starting := none } = none := by simp only [running, hcur, Option.bind_none]
    rw [heq]
    exact ⟨by rw [hrun]; rfl, by rw [hrun]; rfl, .inl rfl⟩
  · have hrun : (p.assign id routineName func tasks).running = some func := by
      simp only [running, assign, Option.bind_some, Function.update_self]
    rw [heq]
    refine ⟨?_, ?_, .inr ?_⟩
    · rw [htasks, hrun]
      rfl
    · rw [hrun]
      exact SortedMap.size_emplace (h.active_eq_none hfind) _
    · rw [htasks]
      rfl

theorem ret_dispatches {p : RoutinePool Task} (h : p.Sound) : p.Dispatches p.ret := by
  cases hs : p.starting with
  | none =>
    rw [ret_of_not_starting hs]
    exact ⟨rfl, rfl, .inl hs⟩
  | some routineName =>
    rw [ret_of_starting hs]
    obtain ⟨horder, hcount, hturn⟩ := startLoop_dispatches (h.setCurrent none) rfl routineName
    exact ⟨horder, hcount, hturn⟩

theorem step_order {p p' : RoutinePool Task} {a : Action Task} (h : p.Consistent) (hstep : p.step a = some p') :
    p.tasks ++ a.submitted = (startedBy a p').toList ++ p'.tasks := by
  obtain ⟨func, routineName, rfl, hcur, rfl⟩ | ⟨r, rfl, -, hr, rfl⟩ | ⟨r, rfl, -, rfl⟩ | ⟨r, rfl, hcur, rfl⟩ :=
    step_cases hstep
  · exact (startLoop_dispatches (h.toSound.push func) hcur routineName).order
  · rw [call_eq hr]
    exact List.append_nil _
  · exact (List.append_nil _).trans (ret_dispatches h.toSound).order
  · exact (List.append_nil _).trans (ret_dispatches (release_sound h hcur).1).order

theorem step_count {p p' : RoutinePool Task} {a : Action Task} (h : p.Consistent) (hstep : p.step a = some p') :
    p'.activeList.size + a.isFinish.toNat = p.activeList.size + (startedBy a p').toList.length := by
  obtain ⟨func, routineName, rfl, hcur, rfl⟩ | ⟨r, rfl, -, hr, rfl⟩ | ⟨r, rfl, -, rfl⟩ | ⟨r, rfl, hcur, rfl⟩ :=
    step_cases hstep
  · exact (startLoop_dispatches (h.toSound.push func) hcur routineName).count
  · rw [call_eq hr]
    rfl
  · exact (ret_dispatches h.toSound).count
  · have hfind : p.activeList.find r = some (some r) := (h.active r).trans (if_pos (h.current r hcur))
    have hcount := (ret_dispatches (release_sound h hcur).1).count
    have hrelease : (p.release r).activeList.size + 1 = p.activeList.size := SortedMap.size_erase hfind
    simp only [Action.isFinish, Bool.toNat_true, startedBy]
    omega

/-- While a routine called by `Start` is in control no task is submitted, so that each turn of
the loop shortens the queue. -/
theorem step_turn {p p' : RoutinePool Task} {a : Action Task} (h : p.Consistent) (hs : p.starting.isSome)
    (hstep : p.step a = some p') : p'.starting = none ∨ p'.tasks.length + 1 = p.tasks.length := by
  have hbusy : p.current ≠ none := Option.isSome_iff_ne_none.mp (h.starting hs)
  obtain ⟨_, _, -, hcur, -⟩ | ⟨r, -, hcur, -⟩ | ⟨r, -, -, rfl⟩ | ⟨r, -, hcur, rfl⟩ := step_cases hstep
  · exact absurd hcur hbusy
  · exact absurd hcur hbusy
  · exact (ret_dispatches h.toSound).turn
  · exact (ret_dispatches (release_sound h hcur).1).turn

/-- The loop of `Start` makes at most one turn for each task that waits. -/
theorem Consistent.startLoop_terminates {p p' : RoutinePool Task} {as : List (Action Task)} (h : p.Consistent)
    (hs : p.starting.isSome)
    (hrun : Run (fun s a s' ↦ s.step a = some s' ∧ s'.starting.isSome) p as p') :
    as.length ≤ p.tasks.length := by
  induction hrun with
  | nil => exact Nat.zero_le _
  | cons hstep _ ih =>
    obtain hnone | hlen := step_turn h hs hstep.1
    · exact absurd hstep.2 (by simp only [hnone, Option.isSome_none, Bool.false_eq_true, not_false_eq_true])
    · rw [List.length_cons, ← hlen]
      exact Nat.succ_le_succ (ih (step_consistent h hstep.1) hstep.2)

structure Recorded (counter n : ℕ) (as : List (Action Task)) (s : RoutinePool Task × List Task) : Prop where
  consistent : s.1.Consistent
  accounted : s.1.Accounted counter n
  order : as.flatMap Action.submitted = s.2 ++ s.1.tasks
  count : s.2.length = as.countP Action.isFinish + s.1.activeList.size

theorem step_recorded {as : List (Action Task)} {s s' : RoutinePool Task × List Task} {a : Action Task}
    (h : Recorded counter n as s) (hstep : stepTraced s a = some s') : Recorded counter n (as ++ [a]) s' := by
  obtain ⟨p, hp, rfl⟩ := Option.map_eq_some_iff.mp hstep
  refine ⟨step_consistent h.consistent hp, step_accounted h.consistent h.accounted hp, ?_, ?_⟩
  · rw [List.flatMap_append, List.flatMap_singleton, h.order, List.append_assoc,
      step_order h.consistent hp, List.append_assoc]
  · have hcount := step_count h.consistent hp
    have hrec := h.count
    rw [List.length_append, List.countP_append, List.countP_singleton]
    cases hf : a.isFinish
    all_goals simp only [hf, Bool.toNat_true, Bool.toNat_false, if_true, Bool.false_eq_true, if_false]
      at hcount ⊢
    all_goals omega

theorem run_recorded {as : List (Action Task)} {s : RoutinePool Task × List Task}
    (hrun : Run (fun s a s' ↦ stepTraced s a = some s') (new Task counter n, []) as s) :
    Recorded counter n as s := by
  have hnew : Recorded counter n [] (new Task counter n, []) :=
    ⟨new_consistent counter n, new_accounted counter n, rfl, rfl⟩
  have h := hrun.invariant_history (I := Recorded counter n) (fun a ↦ [a]) (fun _ _ _ _ ↦ step_recorded) hnew
  rwa [List.flatMap_singleton', List.nil_append] at h

/-- The bookkeeping of the pool in every run. -/
theorem run_bookkeeping {as : List (Action Task)} {p : RoutinePool Task} {started : List Task}
    (hrun : Run (fun s a s' ↦ stepTraced s a = some s') (new Task counter n, []) as (p, started)) :
    p.fault = none ∧
    (∀ id, p.freeList.find id = none ∨ p.activeList.find id = none) ∧
    (∀ id, (p.freeList.find id).isSome ∨ (p.activeList.find id).isSome ↔ counter ≤ id ∧ id < counter + n) ∧
    (∀ id, p.freeList.find id ≠ some none ∧ p.activeList.find id ≠ some none) ∧
    as.flatMap Action.submitted = started ++ p.tasks ∧
    started.length = as.countP Action.isFinish + p.activeList.size ∧ p.activeList.size ≤ n ∧
    (p.starting.isSome → ∀ bs p', Run (fun s a s' ↦ s.step a = some s' ∧ s'.starting.isSome) p bs p' →
      bs.length ≤ p.tasks.length) := by
  obtain ⟨hcon, hacc, horder, hcount⟩ := run_recorded hrun
  refine ⟨hcon.fault, fun id ↦ ?_, hacc.mem, fun id ↦ ⟨fun hnull ↦ ?_, fun hnull ↦ ?_⟩, horder, hcount, ?_,
    fun hs bs p' ↦ hcon.startLoop_terminates hs⟩
  · cases hfree : p.freeList.find id with
    | none => exact .inl rfl
    | some ptr => exact .inr (hcon.active_eq_none hfree)
  · cases (hcon.free id none hnull).1
  · rw [hcon.active] at hnull
    split_ifs at hnull
    cases hnull
  · exact hacc.size ▸ Nat.le_add_left _ _

/-- A pool of one routine: the second task starts inside the third call of `Start`, in the routine
that the first one has left. -/
theorem run_bookkeeping_reused :
    ∃ p, Run (fun s a s' ↦ stepTraced s a = some s') (new ℕ 1 1, [])
        [.start 0 "first", .suspend, .start 1 "second", .resume 1, .finish, .start 2 "third"] (p, [0, 1]) ∧
      p.tasks = [2] ∧ (p.activeList.find 1).isSome ∧ p.freeList.find 1 = none ∧ p.activeList.size = 1 := by
  obtain ⟨p, hrun, hfree⟩ : ∃ p, Run (fun s a s' ↦ stepTraced s a = some s') (new ℕ 1 1, [])
      [.start 0 "first", .suspend, .start 1 "second", .resume 1, .finish, .start 2 "third"] (p, [0, 1]) ∧
      p.freeList.find 1 = none :=
    ⟨_, .cons rfl (.cons rfl (.cons rfl (.cons rfl (.cons rfl (.cons rfl (.nil _)))))), by decide⟩
  obtain ⟨-, -, hmem, -, horder, hcount, -⟩ := run_bookkeeping hrun
  have htail : p.tasks = [2] := (List.cons.inj (List.cons.inj horder).2).2.symm
  have hactive := (hmem 1).mpr ⟨le_rfl, by decide⟩
  rw [hfree] at hactive
  exact ⟨p, hrun, htail, hactive.resolve_left (by decide), hfree, (Nat.add_left_cancel hcount).symm⟩

end Baize.Runtime.RoutinePool
