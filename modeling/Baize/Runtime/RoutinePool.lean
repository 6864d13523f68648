import Baize.Lib.Run
import Baize.Lib.SortedMap

namespace Baize.Runtime

open Baize.Lib

abbrev RoutineId := ℕ

/-- What stops the process inside the pool: the three assertions of `RoutineProcess` and a
call through a null pointer. -/
inductive Fault
  | notFree
  | alreadyActive
  | noTask
  | nullRoutine
  deriving DecidableEq, Repr

/-- The pool and the control that moves through it. An entry of the two lists holds the
pointer to its routine; `func` is the task that a routine has on its stack, and `starting`
the name given to the `Start` call that is on the stack of the main routine. -/
structure RoutinePool (Task : Type) where
  freeList : SortedMap RoutineId (Option RoutineId)
  activeList : SortedMap RoutineId (Option RoutineId)
  tasks : List Task
  name : RoutineId → String
  func : RoutineId → Option Task
  current : Option RoutineId
  starting : Option String
  fault : Option Fault

namespace RoutinePool

variable {Task : Type}

def new (Task : Type) (counter poolsize : ℕ) : RoutinePool Task where
  freeList := (List.range poolsize).foldl (fun m i ↦ m.emplace (counter + i) (some (counter + i))) .empty
  activeList := .empty
  tasks := []
  name := fun _ ↦ "routine"
  func := fun _ ↦ none
  current := none
  starting := none
  fault := none

def routineProcess (p : RoutinePool Task) (id : RoutineId) : RoutinePool Task :=
  if (p.freeList.find id).isNone then { p with fault := some .notFree }
  else if (p.activeList.find id).isSome then { p with fault := some .alreadyActive }
  else
    match p.tasks with
    | [] => { p with fault := some .noTask }
    | func :: tasks =>
      { p with
        tasks := tasks
        activeList := p.activeList.emplace id ((p.freeList.find id).getD none)
        freeList := p.freeList.erase id
        func := Function.update p.func id (some func) }

/-- `Routine::Call`: a routine that has no task on its stack stands in `RoutineProcess`. -/
def call (p : RoutinePool Task) (r : RoutineId) : RoutinePool Task :=
  match p.func r with
  | some _ => { p with current := some r }
  | none => { p with current := some r }.routineProcess r

/-- A turn of the loop in `Start`. The turn ends when the routine returns to the main routine. -/
def startLoop (p : RoutinePool Task) (routineName : String) : RoutinePool Task :=
  match p.tasks, p.freeList.entries with
  | _ :: _, (_, some r) :: _ =>
    { p with name := Function.update p.name r routineName, starting := some routineName }.call r
  | _ :: _, (_, none) :: _ => { p with fault := some .nullRoutine }
  | _, _ => { p with starting := none }

def start (p : RoutinePool Task) (func : Task) (routineName : String) : RoutinePool Task :=
  { p with tasks := p.tasks ++ [func] }.startLoop routineName

def ret (p : RoutinePool Task) : RoutinePool Task :=
  match p.starting with
  | some routineName => { p with current := none }.startLoop routineName
  | none => { p with current := none }

def release (p : RoutinePool Task) (id : RoutineId) : RoutinePool Task :=
  { p with
    freeList := p.freeList.emplace id ((p.activeList.find id).getD none)
    activeList := p.activeList.erase id
    func := Function.update p.func id none }

inductive Action (Task : Type)
  | start (func : Task) (routineName : String)
  | suspend
  | resume (r : RoutineId)
  | finish
  deriving DecidableEq, Repr

/-- The main routine starts and resumes tasks, a running routine suspends or finishes its
task; `none` when the action is not possible. -/
def step (p : RoutinePool Task) (a : Action Task) : Option (RoutinePool Task) :=
  if p.fault.isSome then none
  else
    match a, p.current with
    | .start func routineName, none => some (p.start func routineName)
    | .resume r, none => if (p.func r).isSome then some (p.call r) else none
    | .suspend, some _ => some p.ret
    | .finish, some r => some (p.release r).ret
    | _, _ => none

end RoutinePool

end Baize.Runtime
