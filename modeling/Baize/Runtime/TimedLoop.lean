import Baize.Runtime.Control
import Baize.Time.Links

namespace Baize.Runtime

open Baize.Lib
open Baize.Time (TimerId TimeWheel)

def routineTimer (r : RoutineId) : TimerId := 2 * r

def otherTimer (k : ℕ) : TimerId := 2 * k + 1

def isOther (t : TimerId) : Bool := t % 2 = 1

def kTimerStop : ℤ := 0

/-- The loop with its `time_wheel_`. `armedFor` records for which of its waits a routine last
started its timer. -/
structure TimedLoop (Task Park : Type) where
  loop : EventLoop Task Park
  timers : Time.Machine
  armedFor : RoutineId → ℕ

/-- `waitFor` is a `Return` with a time limit that ends at `us`; `turnWheel` and `nextTurn` enter and
leave `TurnWheel`, and the actions between them are its steps. -/
inductive TimedAction (Task Park : Type)
  | loop (a : Action Task Park)
  | waitFor (side : Side) (p : Park) (us : ℕ)
  | turnWheel (now : ℕ)
  | tick
  | fire (r : RoutineId)
  | fireOther (k : ℕ)
  | ret (nextMs : ℤ)
  | tickDone
  | nextTurn
  | startOther (k us : ℕ)
  | stopOther (k : ℕ)
  deriving DecidableEq, Repr

namespace TimedLoop

variable {Task Park : Type}

def new (Task Park : Type) (counter poolsize now : ℕ) : TimedLoop Task Park :=
  ⟨.new Task Park counter poolsize, .empty now, fun _ ↦ 0⟩

def wheel (s : TimedLoop Task Park) : TimeWheel := s.timers.wheel

def setWheel (s : TimedLoop Task Park) (w : TimeWheel) : Time.Machine := { s.timers with wheel := w }

def untimed : Action Task Park → Bool
  | .turnWheel | .expire _ | .nextTurn | .waitOn _ _ true => false
  | _ => true

def stopTimer (w : TimeWheel) (r : RoutineId) : Option (Wait Park) → TimeWheel
  | some (.park _ _ true) => w.delTimer (routineTimer r)
  | _ => w

variable [DecidableEq Park]

def wheelAfter (s : TimedLoop Task Park) (a : Action Task Park) : TimeWheel :=
  match s.loop.called a with
  | some w => stopTimer s.wheel w.id (s.loop.wait w.id)
  | none => s.wheel

def inTurnWheel (s : TimedLoop Task Park) : Bool := s.loop.phase = .timers ∧ s.loop.pool.current = none

def returns (s : TimedLoop Task Park) (nextMs : ℤ) : Bool :=
  match s.timers.phase with
  | .callback t _ => isOther t || nextMs = kTimerStop
  | _ => false

/-- The steps of the wheel that do not resume a routine. Other objects start and stop their timers
while they are in control. -/
def wheelAction (s : TimedLoop Task Park) : TimedAction Task Park → Option Time.Action
  | .startOther k us => some (.add (otherTimer k) us)
  | .stopOther k => some (.del (otherTimer k))
  | .tick => if s.inTurnWheel then some .tick else none
  | .tickDone => if s.inTurnWheel then some .tickDone else none
  | .fireOther k => if s.inTurnWheel then some (.fire (otherTimer k)) else none
  | .ret nextMs => if s.inTurnWheel ∧ s.returns nextMs then some (.ret nextMs) else none
  | _ => none

def waitFor (s : TimedLoop Task Park) (r : RoutineId) (side : Side) (p : Park) (us : ℕ) :
    TimedLoop Task Park :=
  ⟨s.loop.waitOn r side p true, s.setWheel ((s.wheel.setUs (routineTimer r) us).addTimer (routineTimer r)),
    Function.update s.armedFor r (s.loop.waits r + 1)⟩

def onTimer (s : TimedLoop Task Park) (r : RoutineId) (m : Time.Machine) : TimedLoop Task Park :=
  ⟨s.loop.onTimer r, { m with wheel := stopTimer m.wheel r (s.loop.wait r) }, s.armedFor⟩

def step (polled : Park → Bool) (s : TimedLoop Task Park) (a : TimedAction Task Park) :
    Option (TimedLoop Task Park) :=
  if s.loop.pool.fault.isSome then none
  else
    match a with
    | .loop a =>
      if untimed a then
        (s.loop.step polled a).map fun loop ↦ ⟨loop, s.setWheel (s.wheelAfter a), s.armedFor⟩
      else none
    | .waitFor side p us => s.loop.pool.current.map fun r ↦ s.waitFor r side p us
    | .turnWheel now =>
      (s.loop.step polled .turnWheel).bind fun loop ↦
        (s.timers.step (.turn now)).map fun m ↦ ⟨loop, m, s.armedFor⟩
    | .nextTurn =>
      (s.loop.step polled .nextTurn).bind fun loop ↦
        (s.timers.step .endTurn).map fun m ↦ ⟨loop, m, s.armedFor⟩
    | .fire r =>
      if s.inTurnWheel then (s.timers.step (.fire (routineTimer r))).map (s.onTimer r) else none
    | a => (s.wheelAction a).bind fun b ↦ (s.timers.step b).map fun m ↦ { s with timers := m }

inductive Transition (polled : Park → Bool) (s : TimedLoop Task Park) :
    TimedAction Task Park → TimedLoop Task Park → Prop
  | loop {a : Action Task Park} {loop : EventLoop Task Park} (ha : untimed a = true)
    (hloop : s.loop.Transition polled a loop) :
    Transition polled s (.loop a) ⟨loop, s.setWheel (s.wheelAfter a), s.armedFor⟩
  | waitFor {r : RoutineId} {side : Side} {p : Park} {us : ℕ} (hr : s.loop.pool.current = some r) :
    Transition polled s (.waitFor side p us) (s.waitFor r side p us)
  | turnWheel {now : ℕ} {loop : EventLoop Task Park} {m : Time.Machine}
    (hloop : s.loop.Transition polled .turnWheel loop) (hm : s.timers.Transition (.turn now) m) :
    Transition polled s (.turnWheel now) ⟨loop, m, s.armedFor⟩
  | nextTurn {loop : EventLoop Task Park} {m : Time.Machine} (hloop : s.loop.Transition polled .nextTurn loop)
    (hm : s.timers.Transition .endTurn m) : Transition polled s .nextTurn ⟨loop, m, s.armedFor⟩
  | fire {r : RoutineId} {m : Time.Machine} (hcur : s.loop.pool.current = none)
    (hphase : s.loop.phase = .timers) (hm : s.timers.Transition (.fire (routineTimer r)) m) :
    Transition polled s (.fire r) (s.onTimer r m)
  | wheel {a : TimedAction Task Park} {b : Time.Action} {m : Time.Machine} (hb : s.wheelAction a = some b)
    (hm : s.timers.Transition b m) : Transition polled s a { s with timers := m }

theorem transition_of_step {polled : Park → Bool} {s s' : TimedLoop Task Park} {a : TimedAction Task Park}
    (h : s.step polled a = some s') : s.loop.pool.fault = none ∧ Transition polled s a s' := by
  obtain ⟨hok, h⟩ := Option.ite_none_left_eq_some.mp h
  refine ⟨by simpa using hok, ?_⟩
  have hwheel {a : TimedAction Task Park}
      (h : ((s.wheelAction a).bind fun b ↦ (s.timers.step b).map fun m ↦ { s with timers := m }) = some s') :
      Transition polled s a s' := by
    obtain ⟨b, hb, hs⟩ := Option.bind_eq_some_iff.mp h
    obtain ⟨m, hm, rfl⟩ := Option.map_eq_some_iff.mp hs
    exact .wheel hb (Time.Machine.transition_of_step hm)
  cases a with
  | loop a =>
    obtain ⟨ha, hs⟩ := Option.ite_none_right_eq_some.mp h
    obtain ⟨loop, hloop, rfl⟩ := Option.map_eq_some_iff.mp hs
    exact .loop ha (EventLoop.transition_of_step hloop)
  | waitFor side p us =>
    obtain ⟨r, hr, rfl⟩ := Option.map_eq_some_iff.mp h
    exact .waitFor hr
  | turnWheel now =>
    obtain ⟨loop, hloop, hs⟩ := Option.bind_eq_some_iff.mp h
    obtain ⟨m, hm, rfl⟩ := Option.map_eq_some_iff.mp hs
    exact .turnWheel (EventLoop.transition_of_step hloop) (Time.Machine.transition_of_step hm)
  | nextTurn =>
    obtain ⟨loop, hloop, hs⟩ := Option.bind_eq_some_iff.mp h
    obtain ⟨m, hm, rfl⟩ := Option.map_eq_some_iff.mp hs
    exact .nextTurn (EventLoop.transition_of_step hloop) (Time.Machine.transition_of_step hm)
  | fire r =>
    obtain ⟨hin, hs⟩ := Option.ite_none_right_eq_some.mp h
    obtain ⟨m, hm, rfl⟩ := Option.map_eq_some_iff.mp hs
    obtain ⟨hphase, hcur⟩ := of_decide_eq_true hin
    exact .fire hcur hphase (Time.Machine.transition_of_step hm)
  | tick => exact hwheel h
  | fireOther k => exact hwheel h
  | ret nextMs => exact hwheel h
  | tickDone => exact hwheel h
  | startOther k us => exact hwheel h
  | stopOther k => exact hwheel h

end TimedLoop

end Baize.Runtime
