import Baize.Runtime.TimedLoop

namespace Baize.Runtime

open Baize.Lib
open Baize.Time (TimerId TimeWheel)

namespace EventLoop

variable {Task Park : Type} [DecidableEq Park] {polled : Park → Bool}

theorem Transition.calls_or_stays {s s' : EventLoop Task Park} {a : Action Task Park}
    (ht : Transition polled s a s') (ha : TimedLoop.untimed a = true) :
    (∃ w batch phase, s.called a = some w ∧ s' = call { s with batch := batch, phase := phase } w.id) ∨
      s.called a = none ∧ s'.timer = s.timer ∧ s'.timeout = s.timeout ∧
        ∀ r, (s.wait r).isSome → (s'.wait r).isSome := by
  have hsuspend (k : RoutineId) (w : Wait Park) (r : RoutineId) (hr : (s.wait r).isSome) :
      (Function.update s.wait k (some w) r).isSome := by
    by_cases hrk : r = k
    · rw [hrk, Function.update_self, Option.isSome_some]
    · rwa [Function.update_of_ne hrk]
  cases ht with
  | @runCall w batch _ _ hbatch => exact .inl ⟨w, batch, s.phase, by rw [called, hbatch], rfl⟩
  | @scheduleCall k pending w _ hphase hw =>
    exact .inl ⟨w, s.batch, .events pending, by rw [called, hphase]; exact hw, rfl⟩
  | runStart _ _ hbatch => exact .inr ⟨by rw [called, hbatch], rfl, rfl, fun _ hr ↦ hr⟩
  | scheduleNone _ hphase hw => exact .inr ⟨by rw [called, hphase]; exact hw, rfl, rfl, fun _ hr ↦ hr⟩
  | expire => cases ha
  | @waitOn k side p timed =>
    cases timed with
    | false => exact .inr ⟨rfl, rfl, rfl, hsuspend k _⟩
    | true => cases ha
  | @checkTicks k =>
    unfold EventLoop.checkTicks
    split
    · exact .inr ⟨rfl, rfl, rfl, hsuspend k _⟩
    · exact .inr ⟨rfl, rfl, rfl, fun _ hr ↦ hr⟩
  | scheduleRead =>
    unfold EventLoop.scheduleRead
    split
    · exact .inr ⟨rfl, rfl, rfl, fun _ hr ↦ hr⟩
    · exact .inr ⟨rfl, rfl, rfl, fun _ hr ↦ hr⟩
  | _ => exact .inr ⟨rfl, rfl, rfl, fun _ hr ↦ hr⟩

end EventLoop

theorem routineTimer_inj {r k : RoutineId} : routineTimer r = routineTimer k ↔ r = k :=
  Nat.mul_right_inj two_ne_zero

theorem routineTimer_ne {r : RoutineId} {t : TimerId} (ht : isOther t = true) : routineTimer r ≠ t := by
  rintro rfl
  simp [isOther, routineTimer] at ht

theorem isOther_otherTimer (k : ℕ) : isOther (otherTimer k) = true := by
  simp [isOther, otherTimer]

namespace TimedLoop

variable {Task Park : Type}

theorem turn_wheel_eq {m m' : Time.Machine} {now : ℕ} (h : m.Transition (.turn now) m') :
    m'.wheel = m.wheel := by
  cases h with
  | turn => rfl
  | overflow => rfl

theorem endTurn_wheel_eq {m m' : Time.Machine} (h : m.Transition .endTurn m') : m'.wheel = m.wheel := by
  cases h
  rfl

def InTimedWait (s : EventLoop Task Park) (r : RoutineId) : Prop := ∃ side p, s.wait r = some (.park side p true)

def SameTimers (w w' : TimeWheel) : Prop :=
  w'.Unique ∧ ∀ r, w'.Linked (routineTimer r) ↔ w.Linked (routineTimer r)

theorem sameTimers_del {w : TimeWheel} (hu : w.Unique) {t : TimerId} (ht : isOther t = true) :
    SameTimers w (w.delTimer t) :=
  ⟨TimeWheel.delTimer_unique hu, fun r ↦ by
    rw [TimeWheel.linked_delTimer hu]
    exact and_iff_right (routineTimer_ne ht)⟩

theorem sameTimers_arm {w : TimeWheel} (hu : w.Unique) {t : TimerId} (ht : isOther t = true) (us : ℕ) :
    SameTimers w ((w.setUs t us).addTimer t) := by
  have hlinks := TimeWheel.addTimer_links (hu.setUs t us) t
  refine ⟨hlinks.toUnique, fun r ↦ (hlinks.linked _).trans ?_⟩
  constructor
  · rintro (⟨heq, -⟩ | ⟨-, hlinked⟩)
    · exact absurd heq (routineTimer_ne ht)
    · exact hlinked
  · exact fun hlinked ↦ .inr ⟨routineTimer_ne ht, hlinked⟩

theorem stopTimer_links {w : TimeWheel} (hu : w.Unique) (s : EventLoop Task Park) (r : RoutineId) :
    (stopTimer w r (s.wait r)).Unique ∧ ∀ k, (stopTimer w r (s.wait r)).Linked (routineTimer k) ↔
      w.Linked (routineTimer k) ∧ ¬(k = r ∧ InTimedWait s r) := by
  unfold stopTimer
  split
  · next side p hwait =>
    refine ⟨TimeWheel.delTimer_unique hu, fun k ↦ ?_⟩
    have hin : InTimedWait s r := ⟨side, p, hwait⟩
    rw [TimeWheel.linked_delTimer hu, ne_eq, routineTimer_inj, and_comm]
    simp only [hin, and_true]
  · next hwait =>
    refine ⟨hu, fun k ↦ ?_⟩
    have hnot : ¬InTimedWait s r := fun ⟨side, p, heq⟩ ↦ hwait side p heq
    simp only [hnot, and_false, not_false_eq_true, and_true]

theorem linked_of_fire {s : TimedLoop Task Park} {t : TimerId} {m : Time.Machine}
    (hm : s.timers.Transition (.fire t) m) :
    s.wheel.Linked t ∧ m.wheel = s.wheel.delTimer t := by
  obtain ⟨loop, ⟨w, ph⟩, armedFor⟩ := s
  cases hm with
  | fire hhead => exact ⟨⟨0, _, List.mem_of_mem_head? hhead⟩, rfl⟩

/-- A timer of a routine is in the wheel only for the wait in which the routine is. -/
structure Timed (s : TimedLoop Task Park) : Prop where
  parked : s.loop.Parked
  unique : s.wheel.Unique
  linked : ∀ r, s.wheel.Linked (routineTimer r) → (s.loop.timer r).isSome
  armedFor : ∀ r n, s.loop.timer r = some n → s.armedFor r = n
  timeout : ∀ r, InTimedWait s.loop r → s.loop.timeout r = false

theorem new_timed (counter n now : ℕ) : (new Task Park counter n now).Timed where
  parked := EventLoop.new_parked counter n
  unique := TimeWheel.empty_unique now
  linked := fun _ ⟨_, _, h⟩ ↦ by cases h
  armedFor := nofun
  timeout := fun _ _ ↦ rfl

variable [DecidableEq Park] {polled : Park → Bool} {s s' : TimedLoop Task Park} {a : TimedAction Task Park}

theorem sameTimers_of_wheelAction {b : Time.Action} {m : Time.Machine} (hu : s.wheel.Unique)
    (hb : s.wheelAction a = some b) (hm : s.timers.Transition b m) : SameTimers s.wheel m.wheel := by
  obtain ⟨loop, ⟨w, ph⟩, armedFor⟩ := s
  have hself : SameTimers w w := ⟨hu, fun _ ↦ Iff.rfl⟩
  cases a with
  | startOther k us =>
    obtain rfl := Option.some.inj hb
    cases hm
    exact sameTimers_arm hu (isOther_otherTimer k) us
  | stopOther k =>
    obtain rfl := Option.some.inj hb
    cases hm
    exact sameTimers_del hu (isOther_otherTimer k)
  | tick =>
    obtain ⟨-, heq⟩ := Option.ite_none_right_eq_some.mp hb
    obtain rfl := Option.some.inj heq
    cases hm with
    | tick hadv =>
      have hlinks := TimeWheel.advance_links hu hadv
      exact ⟨hlinks.toUnique, fun r ↦ hlinks.linked _⟩
    | abort => exact hself
  | tickDone =>
    obtain ⟨-, heq⟩ := Option.ite_none_right_eq_some.mp hb
    obtain rfl := Option.some.inj heq
    cases hm
    exact hself
  | fireOther k =>
    obtain ⟨-, heq⟩ := Option.ite_none_right_eq_some.mp hb
    obtain rfl := Option.some.inj heq
    cases hm
    exact sameTimers_del hu (isOther_otherTimer k)
  | ret nextMs =>
    obtain ⟨⟨-, hret⟩, heq⟩ := Option.ite_none_right_eq_some.mp hb
    obtain rfl := Option.some.inj heq
    cases hm with
    | stop => exact hself
    | again hpos =>
      simp only [returns, Bool.or_eq_true, decide_eq_true_eq] at hret
      rcases hret with ht | hstop
      · exact sameTimers_arm hu ht _
      · rw [hstop] at hpos
        cases hpos
  | _ => cases hb

theorem call_timer_eq {l : EventLoop Task Park} {r k : RoutineId} (h : ¬(k = r ∧ InTimedWait l r)) :
    (l.call r).timer k = l.timer k := by
  unfold EventLoop.call
  split
  · next side p timed hwait =>
    cases timed with
    | false => rfl
    | true =>
      have hne : k ≠ r := fun hk ↦ h ⟨hk, side, p, hwait⟩
      exact Function.update_of_ne hne _ _
  · rfl

theorem Timed.timeout_of_transition (h : s.Timed) {b : Action Task Park} {loop : EventLoop Task Park}
    (hloop : s.loop.Transition polled b loop) {r : RoutineId} (hr : s.loop.pool.current ≠ some r)
    (hin : InTimedWait loop r) : loop.timeout r = false := by
  obtain ⟨side, p, hwait⟩ := hin
  have hsame := hloop.sameWait hr (Option.isSome_of_eq_some hwait)
  exact hsame.timeout.trans (h.timeout r ⟨side, p, hsame.wait.symm.trans hwait⟩)

theorem Timed.fires (h : s.Timed) {r : RoutineId} {m : Time.Machine} (hcur : s.loop.pool.current = none)
    (hphase : s.loop.phase = .timers) (hm : s.timers.Transition (.fire (routineTimer r)) m) :
    s.loop.Transition polled (.expire r) (s.loop.onTimer r) :=
  .expire hcur hphase (h.linked r (linked_of_fire hm).1)

theorem Timed.loop_step (h : s.Timed) {a : Action Task Park} {loop : EventLoop Task Park}
    (ha : untimed a = true) (hloop : s.loop.Transition polled a loop) (hok : loop.pool.fault = none) :
    Timed ⟨loop, s.setWheel (s.wheelAfter a), s.armedFor⟩ := by
  have htimeout (r : RoutineId) (hin : InTimedWait loop r) : loop.timeout r = false := by
    by_cases hr : s.loop.pool.current = some r
    · obtain ⟨side, p, hwait⟩ := hin
      obtain ⟨-, ⟨side', p', timed, rfl, heq⟩ | ⟨-, heq⟩⟩ := hloop.entered h.parked hr hwait
      · obtain ⟨-, -, rfl⟩ := Wait.park.inj heq
        cases ha
      · cases heq
    · exact h.timeout_of_transition hloop hr hin
  have hparked := hloop.parked h.parked hok
  obtain ⟨w, batch, phase, hcalled, rfl⟩ | ⟨hcalled, htimer, -, -⟩ := hloop.calls_or_stays ha
  · have hwheel : s.wheelAfter a = stopTimer s.wheel w.id (s.loop.wait w.id) := by rw [wheelAfter, hcalled]
    obtain ⟨hunique, hlinked⟩ := stopTimer_links h.unique s.loop w.id
    refine ⟨hparked, ?_, fun r hr ↦ ?_, fun r n hn ↦ ?_, htimeout⟩
    · rw [hwheel]
      exact hunique
    · rw [hwheel] at hr
      obtain ⟨hold, hnot⟩ := (hlinked r).mp hr
      exact (call_timer_eq (l := { s.loop with batch := batch, phase := phase }) hnot) ▸ h.linked r hold
    · exact h.armedFor r n (EventLoop.timer_of_call hn).1
  · have hwheel : s.wheelAfter a = s.wheel := by rw [wheelAfter, hcalled]
    refine ⟨hparked, ?_, fun r hr ↦ ?_, fun r n hn ↦ ?_, htimeout⟩
    · rw [hwheel]
      exact h.unique
    · rw [hwheel] at hr
      exact htimer ▸ h.linked r hr
    · exact h.armedFor r n (htimer ▸ hn)

theorem waitFor_links (hu : s.wheel.Unique) (r : RoutineId) (side : Side) (p : Park) (us : ℕ) :
    (s.waitFor r side p us).wheel.Links fun x ↦
      x = routineTimer r ∧ ((s.wheel.setUs (routineTimer r) us).findHead (routineTimer r)).isSome ∨
        x ≠ routineTimer r ∧ s.wheel.Linked x :=
  TimeWheel.addTimer_links (hu.setUs (routineTimer r) us) (routineTimer r)

theorem Timed.waitFor_step (h : s.Timed) {r : RoutineId} (hr : s.loop.pool.current = some r) (side : Side)
    (p : Park) (us : ℕ) : (s.waitFor r side p us).Timed := by
  have hlinks := waitFor_links h.unique r side p us
  have hself : (s.waitFor r side p us).loop.timer r = some (s.loop.waits r + 1) := Function.update_self _ _ _
  have hother {k : RoutineId} (hk : k ≠ r) : (s.waitFor r side p us).loop.timer k = s.loop.timer k :=
    Function.update_of_ne hk _ _
  refine ⟨EventLoop.waitOn_parked h.parked hr side p true, hlinks.toUnique, fun k hk ↦ ?_, fun k n hn ↦ ?_,
    fun k hk ↦ ?_⟩
  · obtain ⟨heq, -⟩ | ⟨hne, hold⟩ := (hlinks.linked _).mp hk
    · rw [routineTimer_inj.mp heq, hself, Option.isSome_some]
    · rw [hother fun heq ↦ hne (routineTimer_inj.mpr heq)]
      exact h.linked k hold
  · by_cases hkr : k = r
    · subst hkr
      exact (Function.update_self _ _ _).trans (Option.some.inj (hself.symm.trans hn))
    · exact (Function.update_of_ne hkr _ _).trans (h.armedFor k n ((hother hkr).symm.trans hn))
  · by_cases hkr : k = r
    · subst hkr
      exact Function.update_self _ _ _
    · have hne : s.loop.pool.current ≠ some k := fun hc ↦ hkr (Option.some.inj (hc.symm.trans hr))
      have hloop : s.loop.Transition (fun _ ↦ false) (.waitOn side p true) (s.loop.waitOn r side p true) :=
        .waitOn hr
      exact h.timeout_of_transition hloop hne hk

theorem Timed.fire_step (h : s.Timed) {r : RoutineId} {m : Time.Machine} (hcur : s.loop.pool.current = none)
    (hphase : s.loop.phase = .timers) (hm : s.timers.Transition (.fire (routineTimer r)) m)
    (hok : (s.onTimer r m).loop.pool.fault = none) : (s.onTimer r m).Timed := by
  have hloop : s.loop.Transition (fun _ ↦ false) (.expire r) (s.loop.onTimer r) := h.fires hcur hphase hm
  have hwheel := (linked_of_fire hm).2
  have hdel := TimeWheel.delTimer_unique (t := routineTimer r) h.unique
  obtain ⟨hunique, hlinked⟩ := stopTimer_links (hwheel ▸ hdel) s.loop r
  have hnone (k : RoutineId) : s.loop.pool.current ≠ some k := fun hc ↦ by cases hcur.symm.trans hc
  refine ⟨hloop.parked h.parked hok, hunique, fun k hk ↦ ?_, fun k n hn ↦ ?_,
    fun k hk ↦ h.timeout_of_transition hloop (hnone k) hk⟩
  · have hold := ((hlinked k).mp hk).1
    rw [hwheel, TimeWheel.linked_delTimer h.unique, ne_eq, routineTimer_inj] at hold
    have htimer : (s.loop.onTimer r).timer k = s.loop.timer k :=
      (call_timer_eq fun hkr ↦ hold.1 hkr.1).trans (Function.update_of_ne hold.1 _ _)
    exact htimer ▸ h.linked k hold.2
  · have hold := (EventLoop.timer_of_call hn).1
    simp only [Function.update_apply] at hold
    split_ifs at hold
    exact h.armedFor k n hold

theorem Timed.turn_step (h : s.Timed) {b : Action Task Park} {loop : EventLoop Task Park} {m : Time.Machine}
    (hloop : s.loop.Transition polled b loop) (hcur : s.loop.pool.current = none)
    (htimer : loop.timer = s.loop.timer) (hm : m.wheel = s.wheel) (hok : loop.pool.fault = none) :
    Timed ⟨loop, m, s.armedFor⟩ where
  parked := hloop.parked h.parked hok
  unique := by
    rw [wheel, hm]
    exact h.unique
  linked r hr := by
    rw [wheel, hm] at hr
    exact htimer ▸ h.linked r hr
  armedFor r n hn := h.armedFor r n (htimer ▸ hn)
  timeout r hr := h.timeout_of_transition hloop (fun hc ↦ by cases hcur.symm.trans hc) hr

theorem Transition.timed (ht : Transition polled s a s') (h : s.Timed) (hok : s'.loop.pool.fault = none) :
    s'.Timed := by
  cases ht with
  | loop ha hloop => exact h.loop_step ha hloop hok
  | waitFor hr => exact h.waitFor_step hr _ _ _
  | turnWheel hloop hm =>
    cases hloop with
    | turnWheel hcur hphase =>
      have hloop : s.loop.Transition polled .turnWheel { s.loop with phase := .timers } := .turnWheel hcur hphase
      exact h.turn_step hloop hcur rfl (turn_wheel_eq hm) hok
  | nextTurn hloop hm =>
    cases hloop with
    | nextTurn hcur hphase =>
      have hloop : s.loop.Transition polled .nextTurn s.loop.turn := .nextTurn hcur hphase
      exact h.turn_step hloop hcur rfl (endTurn_wheel_eq hm) hok
  | fire hcur hphase hm => exact h.fire_step hcur hphase hm hok
  | wheel hb hm =>
    obtain ⟨hunique, hlinked⟩ := sameTimers_of_wheelAction h.unique hb hm
    exact ⟨h.parked, hunique, fun r hr ↦ h.linked r ((hlinked r).mp hr), h.armedFor, h.timeout⟩

theorem run_timed {counter n now : ℕ} {as : List (TimedAction Task Park)}
    (hrun : Run (fun s a s' ↦ s.step polled a = some s') (new Task Park counter n now) as s)
    (hok : s.loop.pool.fault = none) : s.Timed := by
  refine Run.invariant (I := fun s ↦ s.loop.pool.fault = none → s.Timed) (fun s a s' h hstep hok' ↦ ?_) hrun
    (fun _ ↦ new_timed counter n now) hok
  obtain ⟨hok, ht⟩ := transition_of_step hstep
  exact ht.timed (h hok) hok'

end TimedLoop

end Baize.Runtime
