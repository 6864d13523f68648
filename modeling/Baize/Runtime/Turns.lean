import Baize.Runtime.Pending

namespace Baize.Runtime

variable {Task Park : Type}

def Action.isTurn : Action Task Park → Bool
  | .start | .nextTurn => true
  | _ => false

def Action.isCheckTicks : Action Task Park → Bool
  | .checkTicks => true
  | _ => false

namespace EventLoop

open Baize.Lib

def putOff (s : EventLoop Task Park) : Action Task Park → List (FunctionCallBack Task)
  | .submit func routineName => if s.pool.current.isSome then [.start func routineName] else []
  | .checkTicks =>
    match s.pool.current with
    | some r => if kRoutineTicks ≤ s.ticksNow r + 1 then [.call ⟨r, s.waits r + 1⟩] else []
    | none => []
  | .scheduleRead p => ((s.routine (.read, p)).map .call).toList
  | _ => []

def ran (s : EventLoop Task Park) : Action Task Park → List (FunctionCallBack Task)
  | .runFunction => s.batch.take 1
  | _ => []

theorem checkTicks_functions (s : EventLoop Task Park) {r : RoutineId} (hr : s.pool.current = some r) :
    (s.checkTicks r).functions = s.functions ++ s.putOff .checkTicks := by
  unfold checkTicks putOff
  rw [hr]
  dsimp only
  split_ifs
  · rfl
  · exact (List.append_nil _).symm

theorem scheduleRead_functions (s : EventLoop Task Park) (p : Park) :
    (s.scheduleRead p).functions = s.functions ++ s.putOff (.scheduleRead p) := by
  rw [scheduleRead, putOff]
  cases s.routine (.read, p) with
  | none => exact (List.append_nil _).symm
  | some w => rfl

theorem checkTicks_batch (s : EventLoop Task Park) (r : RoutineId) : (s.checkTicks r).batch = s.batch := by
  unfold checkTicks
  split <;> rfl

theorem scheduleRead_batch (s : EventLoop Task Park) (p : Park) : (s.scheduleRead p).batch = s.batch := by
  unfold scheduleRead
  split <;> rfl

theorem checkTicks_ticksNow (s : EventLoop Task Park) (r : RoutineId) : (s.checkTicks r).ticksNow =
    Function.update s.ticksNow r (if kRoutineTicks ≤ s.ticksNow r + 1 then 0 else s.ticksNow r + 1) := by
  unfold checkTicks
  split_ifs <;> rfl

theorem checkTicks_wait (s : EventLoop Task Park) {r : RoutineId} (h : kRoutineTicks ≤ s.ticksNow r + 1) :
    (s.checkTicks r).wait r = some .ticks := by
  rw [checkTicks, if_pos h]
  exact Function.update_self r _ s.wait

/-- Below the limit a routine goes on. At the limit it is suspended, so that it has lost control. -/
theorem checkTicks_current {s : EventLoop Task Park} {r : RoutineId} (h : s.Parked)
    (hr : s.pool.current = some r) :
    (s.checkTicks r).pool.current = some r ↔ s.ticksNow r + 1 < kRoutineTicks := by
  by_cases hmax : kRoutineTicks ≤ s.ticksNow r + 1
  · have hwait : ((s.checkTicks r).wait r).isSome := by
      rw [checkTicks_wait s hmax]
      rfl
    exact iff_of_false (fun hcur ↦ (checkTicks_parked h hr).ne_current hcur hwait rfl) (not_lt.mpr hmax)
  · refine iff_of_true ?_ (not_le.mp hmax)
    rw [checkTicks, if_neg hmax]
    exact hr

variable [DecidableEq Park] {polled : Park → Bool} {s s' s'' : EventLoop Task Park} {a : Action Task Park}
  {as bs : List (Action Task Park)}

/-- But for the beginning of a turn, `functions_` only grows at its end, by what is put off. -/
theorem Transition.functions (ht : Transition polled s a s') (ha : a.isTurn = false) :
    s'.functions = s.functions ++ s.putOff a := by
  cases ht with
  | submit hcur =>
    rw [putOff, hcur]
    exact (List.append_nil _).symm
  | start => cases ha
  | nextTurn => cases ha
  | runStart => exact (List.append_nil _).symm
  | runCall => exact (call_functions _ _).trans (List.append_nil _).symm
  | poll => exact (List.append_nil _).symm
  | scheduleCall => exact (call_functions _ _).trans (List.append_nil _).symm
  | scheduleNone => exact (List.append_nil _).symm
  | turnWheel => exact (List.append_nil _).symm
  | expire => exact (call_functions _ _).trans (List.append_nil _).symm
  | defer hr =>
    rw [putOff, hr]
    rfl
  | waitOn => exact (List.append_nil _).symm
  | checkTicks hr => exact checkTicks_functions s hr
  | scheduleRead => exact scheduleRead_functions s _
  | finish => exact (List.append_nil _).symm

theorem Transition.batch (ht : Transition polled s a s') (ha : a.isTurn = false) :
    s.batch = s.ran a ++ s'.batch := by
  cases ht with
  | start => cases ha
  | nextTurn => cases ha
  | runStart _ _ hbatch =>
    rw [ran, hbatch]
    rfl
  | @runCall w batch _ _ hbatch =>
    rw [ran, hbatch, call_batch]
    rfl
  | scheduleCall =>
    rw [call_batch]
    rfl
  | expire =>
    rw [onTimer, call_batch]
    rfl
  | checkTicks =>
    rw [checkTicks_batch]
    rfl
  | scheduleRead =>
    rw [scheduleRead_batch]
    rfl
  | submit => rfl
  | poll => rfl
  | scheduleNone => rfl
  | turnWheel => rfl
  | defer => rfl
  | waitOn => rfl
  | finish => rfl

theorem turn_of_isTurn (ht : Transition polled s a s') (ha : a.isTurn = true) :
    s' = s.turn ∧ s.phase ≠ .functions ∧ s.putOff a = [] ∧ s.ran a = [] := by
  cases ht with
  | start _ hphase => exact ⟨rfl, by rw [hphase]; exact fun h ↦ (by cases h), rfl, rfl⟩
  | nextTurn _ hphase => exact ⟨rfl, by rw [hphase]; exact fun h ↦ (by cases h), rfl, rfl⟩
  | _ => cases ha

/-- What was run, is being run and is put off is, in this order, what has been put off. -/
theorem Transition.order (ht : Transition polled s a s') (hdone : s.BatchDone) :
    s.ran a ++ (s'.batch ++ s'.functions) = s.batch ++ s.functions ++ s.putOff a := by
  cases ha : a.isTurn with
  | false => rw [ht.functions ha, ht.batch ha, List.append_assoc, List.append_assoc]
  | true =>
    obtain ⟨rfl, hphase, hput, hran⟩ := turn_of_isTurn ht ha
    rw [hput, hran, hdone hphase]
    exact (List.append_nil _).trans (List.append_nil _).symm

theorem run_order (hrun : Run (fun s a s' ↦ s.step polled a = some s') s as s') (hdone : s.BatchDone) :
    observed (step polled) ran s as ++ (s'.batch ++ s'.functions) =
      s.batch ++ s.functions ++ observed (step polled) putOff s as := by
  induction hrun with
  | nil s => exact (List.append_nil _).symm
  | cons hstep _ ih =>
    have ht := transition_of_step hstep
    rw [observed_cons ran hstep, observed_cons putOff hstep, List.append_assoc, ih (ht.batchDone hdone),
      ← List.append_assoc, ht.order hdone, List.append_assoc]

theorem run_collects (hrun : Run (fun s a s' ↦ s.step polled a = some s') s as s')
    (has : ∀ a ∈ as, a.isTurn = false) : s'.functions = s.functions ++ observed (step polled) putOff s as := by
  induction hrun with
  | nil s => exact (List.append_nil _).symm
  | cons hstep _ ih =>
    obtain ⟨ha, has⟩ := List.forall_mem_cons.mp has
    rw [ih has, (transition_of_step hstep).functions ha, observed_cons putOff hstep, List.append_assoc]

theorem run_batchDone (hrun : Run (fun s a s' ↦ s.step polled a = some s') s as s') (hdone : s.BatchDone) :
    s'.BatchDone :=
  hrun.invariant (I := BatchDone) (fun _ _ _ h hstep ↦ (transition_of_step hstep).batchDone h) hdone

theorem new_batchDone (Task Park : Type) (counter n : ℕ) : (new Task Park counter n).BatchDone := fun _ ↦ rfl

/-- In every run the functions that routines put off are run once each and in the order in which they were
put off. Those that the loop has run by the time it polls in a turn are exactly those put off before the
turn began. -/
theorem run_functions_in_order {counter n : ℕ}
    (hrun : Run (fun s a s' ↦ s.step polled a = some s') (new Task Park counter n) as s) :
    observed (step polled) ran (new Task Park counter n) as ++ (s.batch ++ s.functions) =
        observed (step polled) putOff (new Task Park counter n) as ∧
      ∀ bs t cs, as = bs ++ t :: cs → t.isTurn = true → (∀ a ∈ cs, a.isTurn = false) → s.phase ≠ .functions →
        observed (step polled) ran (new Task Park counter n) as =
          observed (step polled) putOff (new Task Park counter n) bs := by
  have hall := run_order hrun (new_batchDone Task Park counter n)
  refine ⟨hall, fun bs t cs has ht hcs hphase ↦ ?_⟩
  subst has
  have hbatch := run_batchDone hrun (new_batchDone Task Park counter n) hphase
  obtain ⟨s₁, hbefore, hafter⟩ := hrun.of_append
  cases hafter with
  | @cons _ s₂ _ _ _ hturn hafter =>
    obtain ⟨rfl, -, hput, -⟩ := turn_of_isTurn (transition_of_step hturn) ht
    rw [hbatch, hbefore.observed_append putOff, observed_cons putOff hturn, hput, List.nil_append] at hall
    rw [run_collects hafter hcs] at hall
    exact List.append_cancel_right hall

/-- A routine puts a task off and ends; the loop starts the task and polls. -/
theorem run_functions_in_order_oneTask : ∃ s,
    Run (fun s a s' ↦ s.step (fun _ ↦ false) a = some s') (new ℕ Unit 1 1)
      ([.submit 7 "first", .submit 8 "second", .finish] ++ .start :: [.runFunction, .finish, .poll []]) s ∧
    observed (step fun _ ↦ false) ran (new ℕ Unit 1 1)
        ([.submit 7 "first", .submit 8 "second", .finish] ++ .start :: [.runFunction, .finish, .poll []]) =
      [.start 8 "second"] := by
  obtain ⟨s, hrun, hphase⟩ : ∃ s, Run (fun s a s' ↦ s.step (fun _ ↦ false) a = some s') (new ℕ Unit 1 1)
      ([.submit 7 "first", .submit 8 "second", .finish] ++ .start :: [.runFunction, .finish, .poll []]) s ∧
      s.phase = .events [] :=
    exists_run_of_steps phase (by decide +kernel)
  have hpolled : s.phase ≠ .functions := by
    rw [hphase]
    exact fun h ↦ by cases h
  refine ⟨s, hrun, ((run_functions_in_order hrun).2 _ _ _ rfl rfl (by decide) hpolled).trans ?_⟩
  decide +kernel

theorem call_ticksNow (s : EventLoop Task Park) (r : RoutineId) : (s.call r).ticksNow = s.ticksNow := by
  unfold call
  split <;> rfl

theorem Transition.ticksNow (ht : Transition polled s a s') (ha : a.isCheckTicks = false) :
    s'.ticksNow = s.ticksNow := by
  cases ht with
  | runCall => exact call_ticksNow _ _
  | scheduleCall => exact call_ticksNow _ _
  | expire => exact call_ticksNow _ _
  | checkTicks => cases ha
  | scheduleRead =>
    unfold EventLoop.scheduleRead
    split <;> rfl
  | submit => rfl
  | start => rfl
  | nextTurn => rfl
  | runStart => rfl
  | poll => rfl
  | scheduleNone => rfl
  | turnWheel => rfl
  | defer => rfl
  | waitOn => rfl
  | finish => rfl

theorem checkTicks_of_isCheckTicks (ht : Transition polled s a s') (ha : a.isCheckTicks = true) :
    ∃ r, s.pool.current = some r ∧ s' = s.checkTicks r := by
  cases ht with
  | checkTicks hr => exact ⟨_, hr, rfl⟩
  | _ => cases ha

theorem Transition.ticks_lt (ht : Transition polled s a s') (h : ∀ r, s.ticksNow r < kRoutineTicks)
    (r : RoutineId) : s'.ticksNow r < kRoutineTicks := by
  cases ha : a.isCheckTicks with
  | false =>
    rw [ht.ticksNow ha]
    exact h r
  | true =>
    obtain ⟨k, -, rfl⟩ := checkTicks_of_isCheckTicks ht ha
    rw [checkTicks_ticksNow]
    by_cases hr : r = k
    · rw [hr, Function.update_self]
      split_ifs with hmax
      · decide
      · exact not_le.mp hmax
    · rw [Function.update_of_ne hr]
      exact h r

/-- The steps in which a routine keeps control. -/
def KeepsControl (polled : Park → Bool) (r : RoutineId) (s : EventLoop Task Park) (a : Action Task Park)
    (s' : EventLoop Task Park) : Prop :=
  s.step polled a = some s' ∧ s'.pool.current = some r ∧ s'.pool.fault = none

theorem run_counts {r : RoutineId} (hrun : Run (KeepsControl polled r) s as s') (h : s.Parked)
    (hr : s.pool.current = some r) : s'.ticksNow r = s.ticksNow r + as.countP Action.isCheckTicks := by
  induction hrun with
  | nil s => rfl
  | @cons s s₁ s₂ a as hstep _ ih =>
    obtain ⟨hstep, hcur, hok⟩ := hstep
    have ht := transition_of_step hstep
    rw [ih (ht.parked h hok) hcur, List.countP_cons]
    cases ha : a.isCheckTicks with
    | false =>
      rw [ht.ticksNow ha, if_neg Bool.false_ne_true]
      rfl
    | true =>
      obtain ⟨k, hk, rfl⟩ := checkTicks_of_isCheckTicks ht ha
      obtain rfl := Option.some.inj (hr.symm.trans hk)
      have hlt := (checkTicks_current h hr).mp hcur
      rw [checkTicks_ticksNow, Function.update_self, if_neg (not_le.mpr hlt), if_pos rfl]
      omega

theorem run_parked {counter n : ℕ}
    (hrun : Run (fun s a s' ↦ s.step polled a = some s') (new Task Park counter n) as s)
    (hok : s.pool.fault = none) : s.Parked := by
  refine hrun.invariant (I := fun s ↦ s.pool.fault = none → s.Parked) (fun s a s' h hstep hok ↦ ?_)
    (fun _ ↦ new_parked counter n) hok
  have hfault : s.pool.fault = none := by
    have hno := (Option.ite_none_left_eq_some.mp hstep).1
    simpa using hno
  exact (transition_of_step hstep).parked (h hfault) hok

theorem run_ticks_lt {counter n : ℕ}
    (hrun : Run (fun s a s' ↦ s.step polled a = some s') (new Task Park counter n) as s) (r : RoutineId) :
    s.ticksNow r < kRoutineTicks :=
  hrun.invariant (I := fun s ↦ ∀ r, s.ticksNow r < kRoutineTicks)
    (fun _ _ _ h hstep ↦ (transition_of_step hstep).ticks_lt h) (fun _ ↦ Nat.succ_pos 9) r

/-- In every run, a routine passes fewer than ten `CheckTicks` while it keeps control, whatever else it does. The
tenth takes control from it and puts its `Call` behind everything that was put off before. -/
theorem run_gives_up_control {counter n : ℕ} {r : RoutineId}
    (hrun : Run (fun s a s' ↦ s.step polled a = some s') (new Task Park counter n) as s)
    (hr : s.pool.current = some r) (hok : s.pool.fault = none) (hkeeps : Run (KeepsControl polled r) s bs s') :
    s.ticksNow r + bs.countP Action.isCheckTicks < kRoutineTicks ∧
      ∀ s'', s'.step polled .checkTicks = some s'' →
        s.ticksNow r + bs.countP Action.isCheckTicks + 1 < kRoutineTicks ∧ s''.pool.current = some r ∧
            s''.functions = s'.functions ∨
          s.ticksNow r + bs.countP Action.isCheckTicks + 1 = kRoutineTicks ∧ s''.pool.current ≠ some r ∧
            s''.functions = s'.functions ++ [.call ⟨r, s'.waits r + 1⟩] := by
  have hreach := hrun.append (hkeeps.mono fun _ _ _ h ↦ h.1)
  have hcount := run_counts hkeeps (run_parked hrun hok) hr
  have hlt : s'.ticksNow r < kRoutineTicks := run_ticks_lt hreach r
  obtain ⟨hr', hok'⟩ : s'.pool.current = some r ∧ s'.pool.fault = none :=
    hkeeps.invariant (I := fun s ↦ s.pool.current = some r ∧ s.pool.fault = none) (fun _ _ _ _ h ↦ h.2) ⟨hr, hok⟩
  have hparked := run_parked hreach hok'
  rw [← hcount]
  refine ⟨hlt, fun s'' hstep ↦ ?_⟩
  obtain ⟨k, hk, rfl⟩ := checkTicks_of_isCheckTicks (transition_of_step hstep) rfl
  obtain rfl := Option.some.inj (hr'.symm.trans hk)
  have hfunctions := checkTicks_functions s' hr'
  rw [putOff, hr'] at hfunctions
  dsimp only at hfunctions
  by_cases hmax : s'.ticksNow r + 1 < kRoutineTicks
  · rw [if_neg (not_le.mpr hmax), List.append_nil] at hfunctions
    exact .inl ⟨hmax, (checkTicks_current hparked hr').mpr hmax, hfunctions⟩
  · rw [if_pos (not_lt.mp hmax)] at hfunctions
    exact .inr ⟨by omega, fun hcur ↦ hmax ((checkTicks_current hparked hr').mp hcur), hfunctions⟩

theorem run_gives_up_control_tenth : ∃ s s' s'' : EventLoop ℕ Unit,
    Run (fun s a s' ↦ s.step (fun _ ↦ false) a = some s') (new ℕ Unit 1 1) [.submit 7 "busy"] s ∧
    Run (KeepsControl (fun _ ↦ false) 1) s (List.replicate 9 .checkTicks) s' ∧
    s'.step (fun _ ↦ false) .checkTicks = some s'' ∧ s''.pool.current ≠ some 1 := by
  let keeps (s : EventLoop ℕ Unit) (a : Action ℕ Unit) : Option (EventLoop ℕ Unit) :=
    (s.step (fun _ ↦ false) a).filter fun s' ↦ s'.pool.current = some 1 ∧ s'.pool.fault = none
  let goesOn (s : EventLoop ℕ Unit) : Option (Option RoutineId × Bool × Bool) :=
    ((List.replicate 9 Action.checkTicks).foldlM keeps s).map fun s' ↦
      (s.pool.current, s.pool.fault.isNone, (s'.step (fun _ ↦ false) .checkTicks).isSome)
  obtain ⟨s, hrun, hgoes⟩ : ∃ s, Run (fun s a s' ↦ s.step (fun _ ↦ false) a = some s') (new ℕ Unit 1 1)
      [.submit 7 "busy"] s ∧ goesOn s = some (some 1, true, true) :=
    exists_run_of_steps goesOn (by decide +kernel)
  obtain ⟨s', hkeeps, hobs⟩ := exists_run_of_steps _ hgoes
  obtain ⟨hcur, hobs⟩ := Prod.mk.inj hobs
  obtain ⟨hok, hnext⟩ := Prod.mk.inj hobs
  obtain ⟨s'', hstep⟩ := Option.isSome_iff_exists.mp hnext
  have hkeeps : Run (KeepsControl (fun _ ↦ false) 1) s (List.replicate 9 .checkTicks) s' := by
    refine hkeeps.mono fun s a s' h ↦ ?_
    obtain ⟨hstep, hkept⟩ := Option.filter_eq_some_iff.mp h
    exact ⟨hstep, of_decide_eq_true hkept⟩
  refine ⟨s, s', s'', hrun, hkeeps, hstep, ?_⟩
  obtain ⟨-, hgives⟩ := run_gives_up_control hrun hcur (Option.isNone_iff_eq_none.mp hok) hkeeps
  rcases hgives s'' hstep with ⟨hlt, -⟩ | ⟨-, hlost, -⟩
  · have hnine : (List.replicate 9 (Action.checkTicks : Action ℕ Unit)).countP Action.isCheckTicks = 9 := by
      decide
    rw [hnine, kRoutineTicks] at hlt
    omega
  · exact hlost

end EventLoop

end Baize.Runtime
