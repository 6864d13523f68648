import Baize.Runtime.Bookkeeping

namespace Baize.Runtime.RoutinePool

open Baize.Lib

variable {Task : Type}

def Busy (p : RoutinePool Task) : Prop := p.tasks = [] ∨ p.freeList.entries = []

/-- The claim of a work-conserving pool, about the states with the main routine in control. -/
def WorkConserving (p : RoutinePool Task) : Prop := p.current = none → p.Busy

theorem startLoop_busy {p : RoutinePool Task} (h : p.Sound) (routineName : String) :
    (p.startLoop routineName).starting = none → (p.startLoop routineName).Busy := by
  obtain ⟨hbusy, heq⟩ | ⟨func, tasks, id, -, -, heq⟩ := startLoop_cases h routineName
  · rw [heq]
    exact fun _ ↦ hbusy
  · rw [heq]
    exact nofun

theorem ret_busy {p : RoutinePool Task} (h : p.Sound) (hbusy : p.starting = none → p.Busy) :
    p.ret.starting = none → p.ret.Busy := by
  cases hs : p.starting with
  | none =>
    rw [ret_of_not_starting hs]
    exact fun _ ↦ hbusy hs
  | some routineName =>
    rw [ret_of_starting hs]
    exact startLoop_busy (h.setCurrent none) routineName

/-- A task that ends outside `Start` leaves no other task behind it. -/
def CompletesIdle (p : RoutinePool Task) (a : Action Task) : Prop :=
  a = .finish → p.starting = none → p.tasks = []

theorem release_busy_iff {p : RoutinePool Task} (h : p.Consistent) {r : RoutineId} (hr : p.current = some r) :
    (p.release r).Busy ↔ p.tasks = [] := by
  have hne := SortedMap.entries_ne_nil_of_find (release_sound h hr).2
  exact ⟨fun hb ↦ hb.resolve_right hne, .inl⟩

theorem step_busy {p p' : RoutinePool Task} {a : Action Task} (h : p.Consistent)
    (hbusy : p.starting = none → p.Busy) (hidle : p.CompletesIdle a) (hstep : p.step a = some p') :
    p'.starting = none → p'.Busy := by
  obtain ⟨func, routineName, -, -, rfl⟩ | ⟨r, -, -, hr, rfl⟩ | ⟨r, -, -, rfl⟩ | ⟨r, rfl, hcur, rfl⟩ :=
    step_cases hstep
  · exact startLoop_busy (h.toSound.push func) routineName
  · rw [call_eq hr]
    exact hbusy
  · exact ret_busy h.toSound hbusy
  · exact ret_busy (release_sound h hcur).1 fun hs ↦ (release_busy_iff h hcur).mpr (hidle rfl hs)

theorem completesIdle_of_workConserving {p p' : RoutinePool Task} {a : Action Task} (h : p.Consistent)
    (hstep : p.step a = some p') (hwc : p'.WorkConserving) : p.CompletesIdle a := by
  rintro rfl hs
  obtain ⟨_, _, ha, -⟩ | ⟨r, ha, -⟩ | ⟨r, ha, -⟩ | ⟨r, -, hcur, rfl⟩ := step_cases hstep
  · cases ha
  · cases ha
  · cases ha
  · rw [ret_of_not_starting (p := p.release r) hs] at hwc
    exact (release_busy_iff h hcur).mp (hwc rfl)

theorem Consistent.workConserving {p : RoutinePool Task} (h : p.Consistent)
    (hbusy : p.starting = none → p.Busy) : p.WorkConserving := by
  intro hcur
  refine hbusy (Option.not_isSome_iff_eq_none.mp fun hs ↦ ?_)
  have := h.starting hs
  rw [hcur] at this
  cases this

/-- The runs in which every state that is reached is work-conserving are those in which every
task that ends outside `Start` finds `tasks_` empty. -/
theorem run_workConserving_iff (counter n : ℕ) (as : List (Action Task)) (p : RoutinePool Task) :
    Run (fun s a s' ↦ s.step a = some s' ∧ s'.WorkConserving) (new Task counter n) as p ↔
      Run (Guarded step CompletesIdle) (new Task counter n) as p := by
  refine Run.iff_guarded (I := fun s ↦ s.Consistent ∧ (s.starting = none → s.Busy))
    (fun s a s' hI hstep ↦ ⟨completesIdle_of_workConserving hI.1 hstep, fun hidle ↦ ?_⟩)
    (fun s a s' hI hidle hstep ↦ ?_) ⟨new_consistent counter n, fun _ ↦ .inl rfl⟩
  · exact (step_consistent hI.1 hstep).workConserving (step_busy hI.1 hI.2 hidle hstep)
  · exact ⟨step_consistent hI.1 hstep, step_busy hI.1 hI.2 hidle hstep⟩

def exhausted : List (Action ℕ) := [.start 0 "first", .suspend, .start 1 "second", .resume 1, .finish]

theorem exhausted_leaves_task :
    ∃ p, Run (Guarded step fun _ _ ↦ True) (new ℕ 1 1) exhausted p ∧ p.current = none ∧ p.tasks = [1] ∧
      p.freeList.find 1 = some (some 1) := by
  obtain ⟨p, hrun, hp⟩ : ∃ p, Run (Guarded step fun _ _ ↦ True) (new ℕ 1 1) exhausted p ∧
      (p.current, p.tasks, p.freeList.find 1) = (none, [1], some (some 1)) :=
    exists_run_of_foldlM _ (by decide)
  simp only [Prod.mk.injEq] at hp
  exact ⟨p, hrun, hp⟩

end Baize.Runtime.RoutinePool
