import Baize.Runtime.RoutinePool

namespace Baize.Runtime

open Baize.Lib

inductive Side
  | read
  | write
  deriving DecidableEq, Repr

/-- A routine that can be resumed, with the number of the wait that the resumption is for. -/
structure Waiter where
  id : RoutineId
  wait : ℕ
  deriving DecidableEq, Repr

/-- Where a suspended task stands: in `WaitRead` or `WatiWrite` of a park, or in `CheckTicks`. -/
inductive Wait (Park : Type)
  | park (side : Side) (p : Park) (timed : Bool)
  | ticks
  deriving DecidableEq, Repr

inductive FunctionCallBack (Task : Type)
  | start (func : Task) (routineName : String)
  | call (w : Waiter)
  deriving DecidableEq, Repr

/-- Where the main routine stands: before `EventLoop::Start`, or at the functions, at the
reported events that are still to be scheduled or at the timers of a turn of its loop. -/
inductive Phase (Park : Type)
  | setup
  | functions
  | events (pending : List (Side × Park))
  | timers
  deriving DecidableEq, Repr

/-- The loop, its pool, the parks and the routines. `batch` is what is left of the vector of
functions being run, `routine` holds `read_routine_` and `write_routine_` of the parks, and
`timer` the wait for which the timer of a routine is linked. `wait` and `waits` record where
each task is suspended and how often it has been. -/
structure EventLoop (Task Park : Type) where
  pool : RoutinePool Task
  functions : List (FunctionCallBack Task)
  batch : List (FunctionCallBack Task)
  phase : Phase Park
  routine : Side × Park → Option Waiter
  wait : RoutineId → Option (Wait Park)
  waits : RoutineId → ℕ
  timer : RoutineId → Option ℕ
  timeout : RoutineId → Bool
  ticksNow : RoutineId → ℕ

inductive Action (Task Park : Type)
  | submit (func : Task) (routineName : String)
  | start
  | runFunction
  | poll (events : List (Park × UInt32))
  | schedule
  | turnWheel
  | expire (r : RoutineId)
  | nextTurn
  | waitOn (side : Side) (p : Park) (timed : Bool)
  | checkTicks
  | scheduleRead (p : Park)
  | finish
  deriving DecidableEq, Repr

def kRoutineTicks : ℕ := 10

/-- The two tests of `AsyncPark::Schedule`: `EPOLLIN | EPOLLPRI | EPOLLRDHUP | EPOLLHUP | EPOLLERR`
and `EPOLLOUT | EPOLLHUP | EPOLLERR`. -/
def scheduled (events : UInt32) : List Side :=
  (if events &&& 0x201b ≠ 0 then [.read] else []) ++ if events &&& 0x1c ≠ 0 then [.write] else []

namespace EventLoop

variable {Task Park : Type} [DecidableEq Park]

def new (Task Park : Type) (counter poolsize : ℕ) : EventLoop Task Park where
  pool := .new Task counter poolsize
  functions := []
  batch := []
  phase := .setup
  routine := fun _ ↦ none
  wait := fun _ ↦ none
  waits := fun _ ↦ 0
  timer := fun _ ↦ none
  timeout := fun _ ↦ false
  ticksNow := fun _ ↦ 0

/-- `Routine::Call`, with what the resumed task does first on its way out of the wait. -/
def call (s : EventLoop Task Park) (r : RoutineId) : EventLoop Task Park :=
  match s.wait r with
  | some (.park side p timed) =>
    { s with
      pool := s.pool.call r
      wait := Function.update s.wait r none
      routine := Function.update s.routine (side, p) none
      timer := if timed then Function.update s.timer r none else s.timer }
  | _ => { s with pool := s.pool.call r, wait := Function.update s.wait r none }

def suspend (s : EventLoop Task Park) (r : RoutineId) (w : Wait Park) : EventLoop Task Park :=
  { s with
    pool := s.pool.ret
    wait := Function.update s.wait r (some w)
    waits := Function.update s.waits r (s.waits r + 1) }

def waitOn (s : EventLoop Task Park) (r : RoutineId) (side : Side) (p : Park) (timed : Bool) :
    EventLoop Task Park :=
  { s with
    routine := Function.update s.routine (side, p) (some ⟨r, s.waits r + 1⟩)
    timeout := if timed then Function.update s.timeout r false else s.timeout
    timer := if timed then Function.update s.timer r (some (s.waits r + 1)) else s.timer }.suspend r
    (.park side p timed)

def checkTicks (s : EventLoop Task Park) (r : RoutineId) : EventLoop Task Park :=
  if kRoutineTicks ≤ s.ticksNow r + 1 then
    { s with
      ticksNow := Function.update s.ticksNow r 0
      functions := s.functions ++ [FunctionCallBack.call ⟨r, s.waits r + 1⟩] }.suspend r .ticks
  else { s with ticksNow := Function.update s.ticksNow r (s.ticksNow r + 1) }

def scheduleRead (s : EventLoop Task Park) (p : Park) : EventLoop Task Park :=
  match s.routine (.read, p) with
  | some w => { s with functions := s.functions ++ [.call w] }
  | none => s

def turn (s : EventLoop Task Park) : EventLoop Task Park :=
  { s with phase := .functions, batch := s.functions, functions := [] }

def runFunction (s : EventLoop Task Park) : Option (EventLoop Task Park) :=
  match s.batch with
  | .start func routineName :: batch => some { s with batch := batch, pool := s.pool.start func routineName }
  | .call w :: batch => some ({ s with batch := batch }.call w.id)
  | [] => none

def schedule (s : EventLoop Task Park) (k : Side × Park) : EventLoop Task Park :=
  match s.routine k with
  | some w => s.call w.id
  | none => s

/-- A timer of `TurnWheel` that is due: it is unlinked and `Routine::OnTimer` is run. -/
def onTimer (s : EventLoop Task Park) (r : RoutineId) : EventLoop Task Park :=
  { s with timer := Function.update s.timer r none, timeout := Function.update s.timeout r true }.call r

/-- A step of the main routine. `epoll_wait` reports on the parks with a file descriptor. -/
def mainStep (polled : Park → Bool) (s : EventLoop Task Park) :
    Action Task Park → Option (EventLoop Task Park)
  | .submit func routineName =>
    if s.phase = .setup then some { s with pool := s.pool.start func routineName } else none
  | .start => if s.phase = .setup then some s.turn else none
  | .runFunction => if s.phase = .functions then s.runFunction else none
  | .poll events =>
    if s.phase = .functions ∧ s.batch = [] ∧ events.all (polled ·.1) then
      some { s with phase := .events (events.flatMap fun e ↦ (scheduled e.2).map (·, e.1)) }
    else none
  | .schedule =>
    match s.phase with
    | .events (k :: pending) => some ({ s with phase := .events pending }.schedule k)
    | _ => none
  | .turnWheel => if s.phase = .events [] then some { s with phase := .timers } else none
  | .expire r => if s.phase = .timers ∧ (s.timer r).isSome then some (s.onTimer r) else none
  | .nextTurn => if s.phase = .timers then some s.turn else none
  | _ => none

/-- A step of the running routine. It schedules only parks that are not polled: those of the
`PeerConnection`s. -/
def routineStep (polled : Park → Bool) (s : EventLoop Task Park) (r : RoutineId) :
    Action Task Park → Option (EventLoop Task Park)
  | .submit func routineName => some { s with functions := s.functions ++ [.start func routineName] }
  | .waitOn side p timed => some (s.waitOn r side p timed)
  | .checkTicks => some (s.checkTicks r)
  | .scheduleRead p => if polled p then none else some (s.scheduleRead p)
  | .finish => some { s with pool := (s.pool.release r).ret }
  | _ => none

def step (polled : Park → Bool) (s : EventLoop Task Park) (a : Action Task Park) :
    Option (EventLoop Task Park) :=
  if s.pool.fault.isSome then none
  else
    match s.pool.current with
    | none => s.mainStep polled a
    | some r => s.routineStep polled r a

/-- The routine that an action of the main loop calls, and the wait for which the call was issued. -/
def called (s : EventLoop Task Park) : Action Task Park → Option Waiter
  | .runFunction =>
    match s.batch with
    | .call w :: _ => some w
    | _ => none
  | .schedule =>
    match s.phase with
    | .events (k :: _) => s.routine k
    | _ => none
  | .expire r => (s.timer r).map (⟨r, ·⟩)
  | _ => none

def SuspendedIn (s : EventLoop Task Park) (w : Waiter) : Prop :=
  (s.wait w.id).isSome ∧ s.waits w.id = w.wait

def calls (fs : List (FunctionCallBack Task)) : List Waiter :=
  fs.filterMap fun
    | .call w => some w
    | .start _ _ => none

def queued (s : EventLoop Task Park) : List RoutineId := (calls (s.batch ++ s.functions)).map Waiter.id

def wakes (s : EventLoop Task Park) : Action Task Park → List RoutineId
  | .scheduleRead p => ((s.routine (.read, p)).map Waiter.id).toList
  | .expire r => [r]
  | _ => []

/-- The action wakes no routine for which a `Call` is already on its way. -/
def Fresh (s : EventLoop Task Park) (a : Action Task Park) : Prop := ∀ r ∈ s.wakes a, r ∉ s.queued

end EventLoop

end Baize.Runtime
