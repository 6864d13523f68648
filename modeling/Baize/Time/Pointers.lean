import Baize.Lib.Chain
import Baize.Time.Wheel

namespace Baize.Time

open Lib

/-- A `Timer`: one of the heads in `time_wheel_`, or a timer that is added to their lists. -/
inductive Node
  | head (i k : ℕ)
  | timer (t : TimerId)
  deriving DecidableEq, Repr

structure PointerWheel where
  lastMs : ℕ
  cells : Cells Node
  us : TimerId → ℕ

namespace PointerWheel

variable (w : PointerWheel)

def empty (now : ℕ) : PointerWheel := ⟨now, ⟨fun _ ↦ none, fun _ ↦ none⟩, fun _ ↦ 0⟩

def setPrev (n : Node) (p : Option Node) : PointerWheel :=
  { w with cells := { w.cells with prev := Function.update w.cells.prev n p } }

def setNext (n : Node) (p : Option Node) : PointerWheel :=
  { w with cells := { w.cells with next := Function.update w.cells.next n p } }

@[simp] theorem setPrev_prev (n : Node) (p : Option Node) :
    (w.setPrev n p).cells.prev = Function.update w.cells.prev n p := rfl

@[simp] theorem setPrev_next (n : Node) (p : Option Node) : (w.setPrev n p).cells.next = w.cells.next := rfl

@[simp] theorem setNext_prev (n : Node) (p : Option Node) : (w.setNext n p).cells.prev = w.cells.prev := rfl

@[simp] theorem setNext_next (n : Node) (p : Option Node) :
    (w.setNext n p).cells.next = Function.update w.cells.next n p := rfl

def setUs (t : TimerId) (us : ℕ) : PointerWheel :=
  { w with us := fun t' ↦ if t' = t then us else w.us t' }

def expiration : Node → ℕ
  | .head _ _ => 0
  | .timer t => w.us t / 1000

def findHead (timer : Node) : Option Node :=
  let diff : ℤ := w.expiration timer - w.lastMs
  if diff < 0 then none
  else ((List.range wheelNum).find? fun i ↦ diff < maxTime i).map fun i ↦
    .head i (calcTime (w.expiration timer) i)

def delTimer (timer : Node) : PointerWheel :=
  match w.cells.prev timer with
  | none => w.setNext timer none
  | some prev =>
    let w := match w.cells.next timer with
      | some next => (w.setPrev next (some prev)).setNext prev (some next)
      | none => w.setNext prev none
    (w.setPrev timer none).setNext timer none

def insertBehind (head timer : Node) : PointerWheel :=
  match w.cells.next head with
  | some next =>
    (((w.setNext timer (some next)).setPrev next (some timer)).setNext head (some timer)).setPrev timer
      (some head)
  | none => ((w.setNext timer none).setPrev timer (some head)).setNext head (some timer)

def addTimer (timer : Node) : PointerWheel :=
  let w := w.delTimer timer
  match w.findHead timer with
  | none => w
  | some head => w.insertBehind head timer

/-- `none` when the search for the tail is not over after `rounds`, and `some none` when the
assertion fails. -/
def moveTimerList (rounds : ℕ) (head : Node) : Option (Option PointerWheel) :=
  match w.cells.next head with
  | none => some (some w)
  | some timerListHead =>
    let w := w.setNext head none
    match w.findHead timerListHead with
    | none => some none
    | some moveToHead =>
      match w.cells.tail rounds moveToHead with
      | none => none
      | some moveToTail =>
        some (some ((w.setNext moveToTail (some timerListHead)).setPrev timerListHead (some moveToTail)))

def moveLevels (rounds : ℕ) : List ℕ → PointerWheel → Option (Option PointerWheel)
  | [], w => some (some w)
  | j :: js, w =>
    let movedIndex := calcTime w.lastMs 1
    match w.moveTimerList rounds (.head j movedIndex) with
    | none => none
    | some none => some none
    | some (some w') => if movedIndex ≠ 0 then some (some w') else moveLevels rounds js w'

def advance (rounds : ℕ) : Option (Option PointerWheel) :=
  let w := { w with lastMs := w.lastMs + 1 }
  if calcTime w.lastMs 0 = 0 then moveLevels rounds [1, 2, 3] w else some (some w)

def current : Node := .head 0 (calcTime w.lastMs 0)

end PointerWheel

/-- `endless` says that the search for a tail is not over after the rounds that it was given. -/
structure PointerMachine where
  wheel : PointerWheel
  phase : Phase
  endless : Bool

namespace PointerMachine

def empty (now : ℕ) : PointerMachine := ⟨.empty now, .idle, false⟩

def step (rounds : ℕ) (m : PointerMachine) (a : Action) : Option PointerMachine :=
  if m.endless then none
  else
    match a with
    | .add t us =>
      if Machine.callable m.phase then
        some { m with wheel := (m.wheel.setUs t us).addTimer (.timer t) }
      else none
    | .del t =>
      if Machine.callable m.phase then some { m with wheel := m.wheel.delTimer (.timer t) } else none
    | .turn now =>
      match m.phase with
      | .idle =>
        let updateTimes : ℤ := now - m.wheel.lastMs
        -- the loop counter is an `int`
        if updateTimes < 2147483648 then some { m with phase := .turning updateTimes.toNat }
        else some { m with phase := .overflow }
      | _ => none
    | .endTurn =>
      match m.phase with
      | .turning 0 => some { m with phase := .idle }
      | _ => none
    | .tick =>
      match m.phase with
      | .turning (left + 1) =>
        match m.wheel.advance rounds with
        | none => some { m with endless := true }
        | some none => some { m with phase := .aborted }
        | some (some w) => some { m with wheel := w, phase := .draining left }
      | _ => none
    | .fire t =>
      match m.phase with
      | .draining left =>
        if m.wheel.cells.next m.wheel.current = some (.timer t) then
          some { m with wheel := m.wheel.delTimer (.timer t), phase := .callback t left }
        else none
      | _ => none
    | .ret nextMs =>
      match m.phase with
      | .callback t left =>
        if nextMs ≤ 0 then some { m with phase := .draining left }
        else
          some { m with
            wheel := (m.wheel.setUs t (m.wheel.us t + 1000 * nextMs.toNat)).addTimer (.timer t)
            phase := .draining left }
      | _ => none
    | .tickDone =>
      match m.phase with
      | .draining left =>
        if m.wheel.cells.next m.wheel.current = none then some { m with phase := .turning left } else none
      | _ => none

end PointerMachine

end Baize.Time
