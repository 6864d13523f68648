import Baize.Lib.Run

namespace Baize.Time

abbrev TimerId := ℕ

def wheelNum : ℕ := 4

def maxTime (wheelIndex : ℕ) : ℕ := 1 <<< ((wheelIndex + 1) * 8)

def calcTime (ms wheelIndex : ℕ) : ℕ := (ms >>> (wheelIndex * 8)) % 256

/-- `time::TimeWheel`, with the `expiration_` of the timers in microseconds. Each slot
is the list behind its head; a timer that is in no slot has `prev_` null. -/
structure TimeWheel where
  lastMs : ℕ
  slots : ℕ → ℕ → List TimerId
  us : TimerId → ℕ

namespace TimeWheel

variable (w : TimeWheel)

def empty (now : ℕ) : TimeWheel := ⟨now, fun _ _ ↦ [], fun _ ↦ 0⟩

def expiration (t : TimerId) : ℕ := w.us t / 1000

def setSlot (i k : ℕ) (l : List TimerId) : TimeWheel :=
  { w with slots := fun i' k' ↦ if i' = i ∧ k' = k then l else w.slots i' k' }

def setUs (t : TimerId) (us : ℕ) : TimeWheel :=
  { w with us := fun t' ↦ if t' = t then us else w.us t' }

def findHead (t : TimerId) : Option (ℕ × ℕ) :=
  let diff : ℤ := w.expiration t - w.lastMs
  if diff < 0 then none
  else ((List.range wheelNum).find? fun i ↦ diff < maxTime i).map fun i ↦ (i, calcTime (w.expiration t) i)

def delTimer (t : TimerId) : TimeWheel := { w with slots := fun i k ↦ (w.slots i k).erase t }

def addTimer (t : TimerId) : TimeWheel :=
  let w := w.delTimer t
  match w.findHead t with
  | none => w
  | some (i, k) => w.setSlot i k (t :: w.slots i k)

/-- `none` when the assertion fails. The whole list goes where its first timer belongs. -/
def moveTimerList (i k : ℕ) : Option TimeWheel :=
  match w.slots i k with
  | [] => some w
  | t :: ts =>
    let w := w.setSlot i k []
    match w.findHead t with
    | none => none
    | some (i', k') => some (w.setSlot i' k' (w.slots i' k' ++ t :: ts))

def moveLevels : List ℕ → TimeWheel → Option TimeWheel
  | [], w => some w
  | j :: js, w =>
    let movedIndex := calcTime w.lastMs 1
    match w.moveTimerList j movedIndex with
    | none => none
    | some w' => if movedIndex ≠ 0 then some w' else moveLevels js w'

def advance : Option TimeWheel :=
  let w := { w with lastMs := w.lastMs + 1 }
  if calcTime w.lastMs 0 = 0 then moveLevels [1, 2, 3] w else some w

def current : List TimerId := w.slots 0 (calcTime w.lastMs 0)

def Linked (t : TimerId) : Prop := ∃ i k, t ∈ w.slots i k

end TimeWheel

/-- Where control is: outside `TurnWheel`, in its loop with some turns left, in the
draining loop of a turn, or in the callback of a timer. -/
inductive Phase
  | idle
  | turning (left : ℕ)
  | draining (left : ℕ)
  | callback (t : TimerId) (left : ℕ)
  | aborted
  | overflow
  deriving DecidableEq, Repr

/-- `add` stands for `Timer::Start`, which sets the expiration and calls `AddTimer`. Timers
are added and deleted from outside and by the callbacks. -/
inductive Action
  | add (t : TimerId) (us : ℕ)
  | del (t : TimerId)
  | turn (now : ℕ)
  | endTurn
  | tick
  | fire (t : TimerId)
  | ret (nextMs : ℤ)
  | tickDone
  deriving DecidableEq, Repr

structure Machine where
  wheel : TimeWheel
  phase : Phase

namespace Machine

def empty (now : ℕ) : Machine := ⟨.empty now, .idle⟩

def callable : Phase → Bool
  | .idle | .callback _ _ => true
  | _ => false

def step (m : Machine) : Action → Option Machine
  | .add t us =>
    if callable m.phase then some { m with wheel := (m.wheel.setUs t us).addTimer t } else none
  | .del t => if callable m.phase then some { m with wheel := m.wheel.delTimer t } else none
  | .turn now =>
    match m.phase with
    | .idle =>
      let updateTimes : ℤ := now - m.wheel.lastMs
      -- the loop counter is an `int`
      if updateTimes < 2147483648 then some { m with phase := .turning updateTimes.toNat }
      else some { m with phase := .overflow }
    | _ => none
  | .endTurn =>
    match m.phase with
    | .turning 0 => some { m with phase := .idle }
    | _ => none
  | .tick =>
    match m.phase with
    | .turning (left + 1) =>
      match m.wheel.advance with
      | none => some { m with phase := .aborted }
      | some w => some ⟨w, .draining left⟩
    | _ => none
  | .fire t =>
    match m.phase with
    | .draining left =>
      if m.wheel.current.head? = some t then some ⟨m.wheel.delTimer t, .callback t left⟩ else none
    | _ => none
  | .ret nextMs =>
    match m.phase with
    | .callback t left =>
      if nextMs ≤ 0 then some { m with phase := .draining left }
      else
        some ⟨(m.wheel.setUs t (m.wheel.us t + 1000 * nextMs.toNat)).addTimer t, .draining left⟩
    | _ => none
  | .tickDone =>
    match m.phase with
    | .draining left => if m.wheel.current = [] then some { m with phase := .turning left } else none
    | _ => none

inductive Transition : Machine → Action → Machine → Prop
  | add {w : TimeWheel} {ph : Phase} (t : TimerId) (us : ℕ) (h : callable ph = true) :
    Transition ⟨w, ph⟩ (.add t us) ⟨(w.setUs t us).addTimer t, ph⟩
  | del {w : TimeWheel} {ph : Phase} (t : TimerId) (h : callable ph = true) :
    Transition ⟨w, ph⟩ (.del t) ⟨w.delTimer t, ph⟩
  | turn {w : TimeWheel} (now : ℕ) (h : (now : ℤ) - w.lastMs < 2147483648) :
    Transition ⟨w, .idle⟩ (.turn now) ⟨w, .turning ((now : ℤ) - w.lastMs).toNat⟩
  | overflow {w : TimeWheel} (now : ℕ) (h : ¬(now : ℤ) - w.lastMs < 2147483648) :
    Transition ⟨w, .idle⟩ (.turn now) ⟨w, .overflow⟩
  | endTurn {w : TimeWheel} : Transition ⟨w, .turning 0⟩ .endTurn ⟨w, .idle⟩
  | tick {w w' : TimeWheel} {left : ℕ} (h : w.advance = some w') :
    Transition ⟨w, .turning (left + 1)⟩ .tick ⟨w', .draining left⟩
  | abort {w : TimeWheel} {left : ℕ} (h : w.advance = none) :
    Transition ⟨w, .turning (left + 1)⟩ .tick ⟨w, .aborted⟩
  | fire {w : TimeWheel} {t : TimerId} {left : ℕ} (h : w.current.head? = some t) :
    Transition ⟨w, .draining left⟩ (.fire t) ⟨w.delTimer t, .callback t left⟩
  | stop {w : TimeWheel} {t : TimerId} {left : ℕ} {nextMs : ℤ} (h : nextMs ≤ 0) :
    Transition ⟨w, .callback t left⟩ (.ret nextMs) ⟨w, .draining left⟩
  | again {w : TimeWheel} {t : TimerId} {left : ℕ} {nextMs : ℤ} (h : 0 < nextMs) :
    Transition ⟨w, .callback t left⟩ (.ret nextMs)
      ⟨(w.setUs t (w.us t + 1000 * nextMs.toNat)).addTimer t, .draining left⟩
  | tickDone {w : TimeWheel} {left : ℕ} (h : w.current = []) :
    Transition ⟨w, .draining left⟩ .tickDone ⟨w, .turning left⟩

theorem transition_of_step {m m' : Machine} {a : Action} (h : m.step a = some m') : Transition m a m' := by
  obtain ⟨w, ph⟩ := m
  cases a with
  | add t us =>
    obtain ⟨hcall, hs⟩ := Option.ite_none_right_eq_some.mp h
    obtain rfl := Option.some.inj hs
    exact .add t us hcall
  | del t =>
    obtain ⟨hcall, hs⟩ := Option.ite_none_right_eq_some.mp h
    obtain rfl := Option.some.inj hs
    exact .del t hcall
  | turn now =>
    cases ph with
    | idle =>
      simp only [step] at h
      split at h
      · next hlt =>
        obtain rfl := Option.some.inj h
        exact .turn now hlt
      · next hge =>
        obtain rfl := Option.some.inj h
        exact .overflow now hge
    | _ => cases h
  | endTurn =>
    cases ph with
    | turning left =>
      cases left with
      | zero =>
        obtain rfl := Option.some.inj h
        exact .endTurn
      | succ left => cases h
    | _ => cases h
  | tick =>
    cases ph with
    | turning left =>
      cases left with
      | zero => cases h
      | succ left =>
        simp only [step] at h
        split at h
        · next hadv =>
          obtain rfl := Option.some.inj h
          exact .abort hadv
        · next hadv =>
          obtain rfl := Option.some.inj h
          exact .tick hadv
    | _ => cases h
  | fire t =>
    cases ph with
    | draining left =>
      obtain ⟨hhead, hs⟩ := Option.ite_none_right_eq_some.mp h
      obtain rfl := Option.some.inj hs
      exact .fire hhead
    | _ => cases h
  | ret nextMs =>
    cases ph with
    | callback t left =>
      simp only [step] at h
      split at h
      · next hle =>
        obtain rfl := Option.some.inj h
        exact .stop hle
      · next hlt =>
        obtain rfl := Option.some.inj h
        exact .again (not_le.mp hlt)
    | _ => cases h
  | tickDone =>
    cases ph with
    | draining left =>
      obtain ⟨hempty, hs⟩ := Option.ite_none_right_eq_some.mp h
      obtain rfl := Option.some.inj hs
      exact .tickDone hempty
    | _ => cases h

end Machine

end Baize.Time
