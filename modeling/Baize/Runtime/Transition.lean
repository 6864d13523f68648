import Baize.Runtime.EventLoop

namespace Baize.Runtime.EventLoop

variable {Task Park : Type} [DecidableEq Park] {polled : Park → Bool}

inductive Transition (polled : Park → Bool) (s : EventLoop Task Park) :
    Action Task Park → EventLoop Task Park → Prop
  | submit {func : Task} {routineName : String} (hcur : s.pool.current = none) (hphase : s.phase = .setup) :
    Transition polled s (.submit func routineName) { s with pool := s.pool.start func routineName }
  | start (hcur : s.pool.current = none) (hphase : s.phase = .setup) : Transition polled s .start s.turn
  | nextTurn (hcur : s.pool.current = none) (hphase : s.phase = .timers) : Transition polled s .nextTurn s.turn
  | runStart {func : Task} {routineName : String} {batch : List (FunctionCallBack Task)}
    (hcur : s.pool.current = none) (hphase : s.phase = .functions)
    (hbatch : s.batch = .start func routineName :: batch) :
    Transition polled s .runFunction { s with batch := batch, pool := s.pool.start func routineName }
  | runCall {w : Waiter} {batch : List (FunctionCallBack Task)} (hcur : s.pool.current = none)
    (hphase : s.phase = .functions) (hbatch : s.batch = .call w :: batch) :
    Transition polled s .runFunction ({ s with batch := batch }.call w.id)
  | poll {events : List (Park × UInt32)} (hcur : s.pool.current = none) (hphase : s.phase = .functions)
    (hbatch : s.batch = []) (hall : events.all (polled ·.1) = true) :
    Transition polled s (.poll events)
      { s with phase := .events (events.flatMap fun e ↦ (scheduled e.2).map (·, e.1)) }
  | scheduleCall {k : Side × Park} {pending : List (Side × Park)} {w : Waiter} (hcur : s.pool.current = none)
    (hphase : s.phase = .events (k :: pending)) (hw : s.routine k = some w) :
    Transition polled s .schedule ({ s with phase := .events pending }.call w.id)
  | scheduleNone {k : Side × Park} {pending : List (Side × Park)} (hcur : s.pool.current = none)
    (hphase : s.phase = .events (k :: pending)) (hw : s.routine k = none) :
    Transition polled s .schedule { s with phase := .events pending }
  | turnWheel (hcur : s.pool.current = none) (hphase : s.phase = .events []) :
    Transition polled s .turnWheel { s with phase := .timers }
  | expire {r : RoutineId} (hcur : s.pool.current = none) (hphase : s.phase = .timers)
    (htimer : (s.timer r).isSome) : Transition polled s (.expire r) (s.onTimer r)
  | defer {r : RoutineId} {func : Task} {routineName : String} (hr : s.pool.current = some r) :
    Transition polled s (.submit func routineName)
      { s with functions := s.functions ++ [.start func routineName] }
  | waitOn {r : RoutineId} {side : Side} {p : Park} {timed : Bool} (hr : s.pool.current = some r) :
    Transition polled s (.waitOn side p timed) (s.waitOn r side p timed)
  | checkTicks {r : RoutineId} (hr : s.pool.current = some r) :
    Transition polled s .checkTicks (s.checkTicks r)
  | scheduleRead {r : RoutineId} {p : Park} (hr : s.pool.current = some r) (hp : polled p = false) :
    Transition polled s (.scheduleRead p) (s.scheduleRead p)
  | finish {r : RoutineId} (hr : s.pool.current = some r) :
    Transition polled s .finish { s with pool := (s.pool.release r).ret }

theorem transition_of_mainStep {s s' : EventLoop Task Park} {a : Action Task Park}
    (hcur : s.pool.current = none) (h : s.mainStep polled a = some s') : Transition polled s a s' := by
  cases a with
  | submit func routineName =>
    obtain ⟨hphase, hs⟩ := Option.ite_none_right_eq_some.mp h
    exact Option.some.inj hs ▸ .submit hcur hphase
  | start =>
    obtain ⟨hphase, hs⟩ := Option.ite_none_right_eq_some.mp h
    exact Option.some.inj hs ▸ .start hcur hphase
  | runFunction =>
    obtain ⟨hphase, hs⟩ := Option.ite_none_right_eq_some.mp h
    unfold runFunction at hs
    split at hs
    · next hbatch => exact Option.some.inj hs ▸ .runStart hcur hphase hbatch
    · next hbatch => exact Option.some.inj hs ▸ .runCall hcur hphase hbatch
    · cases hs
  | poll events =>
    obtain ⟨⟨hphase, hbatch, hall⟩, hs⟩ := Option.ite_none_right_eq_some.mp h
    exact Option.some.inj hs ▸ .poll hcur hphase hbatch hall
  | schedule =>
    simp only [mainStep] at h
    split at h
    · next k pending hphase =>
      obtain rfl := Option.some.inj h
      unfold schedule
      split
      · next hw => exact .scheduleCall hcur hphase hw
      · next hw => exact .scheduleNone hcur hphase hw
    · cases h
  | turnWheel =>
    obtain ⟨hphase, hs⟩ := Option.ite_none_right_eq_some.mp h
    exact Option.some.inj hs ▸ .turnWheel hcur hphase
  | expire r =>
    obtain ⟨⟨hphase, htimer⟩, hs⟩ := Option.ite_none_right_eq_some.mp h
    exact Option.some.inj hs ▸ .expire hcur hphase htimer
  | nextTurn =>
    obtain ⟨hphase, hs⟩ := Option.ite_none_right_eq_some.mp h
    exact Option.some.inj hs ▸ .nextTurn hcur hphase
  | _ => cases h

theorem transition_of_routineStep {s s' : EventLoop Task Park} {a : Action Task Park} {r : RoutineId}
    (hr : s.pool.current = some r) (h : s.routineStep polled r a = some s') : Transition polled s a s' := by
  cases a with
  | submit func routineName => exact Option.some.inj h ▸ .defer hr
  | waitOn side p timed => exact Option.some.inj h ▸ .waitOn hr
  | checkTicks => exact Option.some.inj h ▸ .checkTicks hr
  | scheduleRead p =>
    obtain ⟨hp, hs⟩ := Option.ite_none_left_eq_some.mp h
    exact Option.some.inj hs ▸ .scheduleRead hr (Bool.eq_false_iff.mpr hp)
  | finish => exact Option.some.inj h ▸ .finish hr
  | _ => cases h

theorem transition_of_step {s s' : EventLoop Task Park} {a : Action Task Park}
    (h : s.step polled a = some s') : Transition polled s a s' := by
  unfold step at h
  split at h
  · cases h
  · split at h
    · next hcur => exact transition_of_mainStep hcur h
    · next r hr => exact transition_of_routineStep hr h

inductive RoutineTransition (polled : Park → Bool) (s : EventLoop Task Park) (r : RoutineId) :
    Action Task Park → EventLoop Task Park → Prop
  | defer {func : Task} {routineName : String} : RoutineTransition polled s r (.submit func routineName)
      { s with functions := s.functions ++ [.start func routineName] }
  | waitOn {side : Side} {p : Park} {timed : Bool} :
    RoutineTransition polled s r (.waitOn side p timed) (s.waitOn r side p timed)
  | checkTicks : RoutineTransition polled s r .checkTicks (s.checkTicks r)
  | scheduleRead {p : Park} (hp : polled p = false) :
    RoutineTransition polled s r (.scheduleRead p) (s.scheduleRead p)
  | finish : RoutineTransition polled s r .finish { s with pool := (s.pool.release r).ret }

theorem Transition.of_current {s s' : EventLoop Task Park} {a : Action Task Park} (ht : Transition polled s a s')
    {r : RoutineId} (hr : s.pool.current = some r) : RoutineTransition polled s r a s' := by
  have hnone (hcur : s.pool.current = none) : False := Option.some_ne_none r (hr.symm.trans hcur)
  have hsame {k : RoutineId} (hk : s.pool.current = some k) : k = r := Option.some.inj (hk.symm.trans hr)
  cases ht with
  | defer => exact .defer
  | waitOn hk => exact hsame hk ▸ .waitOn
  | checkTicks hk => exact hsame hk ▸ .checkTicks
  | scheduleRead _ hp => exact .scheduleRead hp
  | finish hk => exact hsame hk ▸ .finish
  | submit hcur => exact (hnone hcur).elim
  | start hcur => exact (hnone hcur).elim
  | nextTurn hcur => exact (hnone hcur).elim
  | runStart hcur => exact (hnone hcur).elim
  | runCall hcur => exact (hnone hcur).elim
  | poll hcur => exact (hnone hcur).elim
  | scheduleCall hcur => exact (hnone hcur).elim
  | scheduleNone hcur => exact (hnone hcur).elim
  | turnWheel hcur => exact (hnone hcur).elim
  | expire hcur => exact (hnone hcur).elim

end Baize.Runtime.EventLoop
