import Baize.Runtime.Handover

namespace Baize.Runtime.EventLoop

variable {Task Park : Type}

inductive Gains (s : EventLoop Task Park) (a : Action Task Park) (s' : EventLoop Task Park) (r : RoutineId) :
    Prop
  | kept (hcur : s.pool.current = some r) (hfunc : s'.pool.func r = s.pool.func r)
  | resumed (hwait : (s.wait r).isSome) (hfunc : s'.pool.func r = s.pool.func r)
    (htimeout : s'.timeout r = true → s.timeout r = true ∨ a = .expire r)
  | started {t : Task} (hfunc : s'.pool.func r = some t)
    (ht : t ∈ s.board.pending ∨ ∃ routineName, a = .submit t routineName)

theorem Gains.of_hands {s s' : EventLoop Task Park} {a : Action Task Park} {p : RoutinePool Task}
    (h : p.Hands s'.pool) (htasks : p.tasks = s.pool.tasks) {r : RoutineId} (hr : s'.pool.current = some r) :
    Gains s a s' r := by
  obtain ⟨t, ht, hfunc⟩ := h.started hr
  exact .started hfunc (.inl (List.mem_append_left _ (htasks ▸ ht)))

/-- The wait in which a routine is, with its number and what the routine will report. -/
structure SameWait (s s' : EventLoop Task Park) (r : RoutineId) : Prop where
  wait : s'.wait r = s.wait r
  waits : s'.waits r = s.waits r
  timeout : s'.timeout r = s.timeout r

theorem suspend_sameWait {s : EventLoop Task Park} {k r : RoutineId} (hne : r ≠ k) (w : Wait Park) :
    s.SameWait (s.suspend k w) r :=
  ⟨Function.update_of_ne hne _ _, Function.update_of_ne hne _ _, rfl⟩

variable [DecidableEq Park] {polled : Park → Bool}

theorem Transition.func_eq {s s' : EventLoop Task Park} {a : Action Task Park} (ht : Transition polled s a s')
    (h : s.Parked) {r : RoutineId} (hr : s.pool.Suspended r) : s'.pool.func r = s.pool.func r := by
  have hsound := h.pool.toSound
  have hstart (hcur : s.pool.current = none) (func : Task) (routineName : String) :
      (s.pool.start func routineName).func r = s.pool.func r :=
    (RoutinePool.startLoop_hands (hsound.push func) hcur routineName).func_eq hr.1
  cases ht with
  | submit hcur => exact hstart hcur _ _
  | runStart hcur => exact hstart hcur _ _
  | runCall =>
    rw [call_pool]
    exact RoutinePool.call_func_eq hsound _ hr.1
  | scheduleCall =>
    rw [call_pool]
    exact RoutinePool.call_func_eq hsound _ hr.1
  | expire =>
    rw [onTimer, call_pool]
    exact RoutinePool.call_func_eq hsound _ hr.1
  | waitOn => exact (RoutinePool.ret_hands hsound).func_eq hr.1
  | checkTicks =>
    unfold EventLoop.checkTicks
    split
    · exact (RoutinePool.ret_hands hsound).func_eq hr.1
    · rfl
  | scheduleRead =>
    unfold EventLoop.scheduleRead
    split <;> rfl
  | @finish k hk =>
    have hne : r ≠ k := fun heq ↦ hr.2 (heq ▸ hk)
    have hfunc : (s.pool.release k).func r = s.pool.func r := Function.update_of_ne hne _ _
    exact ((RoutinePool.ret_hands (RoutinePool.release_sound h.pool hk).1).func_eq (hfunc ▸ hr.1)).trans hfunc
  | _ => rfl

theorem Transition.faulted {s s' : EventLoop Task Park} {a : Action Task Park} (ht : Transition polled s a s')
    (h : s.Parked) (hbad : s'.pool.fault ≠ none) : ∃ r, s'.pool.current = some r ∧ s'.pool.func r = none := by
  have hsound := h.pool.toSound
  have hcall {s₁ : EventLoop Task Park} {k : RoutineId} (hbad : (s₁.call k).pool.fault ≠ none)
      (hpool : s₁.pool = s.pool) :
      ∃ r, (s₁.call k).pool.current = some r ∧ (s₁.call k).pool.func r = none := by
    rw [call_pool, hpool] at hbad ⊢
    obtain ⟨hcur, hfunc, hnone⟩ := RoutinePool.call_faulted hsound hbad
    exact ⟨k, hcur, hfunc ▸ hnone⟩
  cases ht with
  | submit hcur => exact absurd (RoutinePool.start_consistent hsound hcur _ _).fault hbad
  | runStart hcur => exact absurd (RoutinePool.start_consistent hsound hcur _ _).fault hbad
  | runCall => exact hcall hbad rfl
  | scheduleCall => exact hcall hbad rfl
  | expire => exact hcall hbad rfl
  | waitOn => exact absurd (RoutinePool.ret_consistent hsound).fault hbad
  | checkTicks =>
    unfold EventLoop.checkTicks at hbad
    split at hbad
    · exact absurd (RoutinePool.ret_consistent hsound).fault hbad
    · exact absurd hsound.fault hbad
  | scheduleRead =>
    unfold EventLoop.scheduleRead at hbad
    split at hbad
    · exact absurd hsound.fault hbad
    · exact absurd hsound.fault hbad
  | finish hr => exact absurd (RoutinePool.ret_consistent (RoutinePool.release_sound h.pool hr).1).fault hbad
  | _ => exact absurd hsound.fault hbad

theorem call_timeout (s : EventLoop Task Park) (r : RoutineId) : (s.call r).timeout = s.timeout := by
  unfold call
  split <;> rfl

theorem call_sameWait {s : EventLoop Task Park} {k r : RoutineId} (h : ((s.call k).wait r).isSome) :
    s.SameWait (s.call k) r := by
  rw [call_wait] at h
  have hne : r ≠ k := fun hk ↦ by simp [hk] at h
  exact ⟨by rw [call_wait, Function.update_of_ne hne], by rw [call_waits], by rw [call_timeout]⟩

theorem Transition.sameWait {s s' : EventLoop Task Park} {a : Action Task Park} (ht : Transition polled s a s')
    {r : RoutineId} (hr : s.pool.current ≠ some r) (hwait : (s'.wait r).isSome) : s.SameWait s' r := by
  have hself : s.SameWait s r := ⟨rfl, rfl, rfl⟩
  cases ht with
  | @runCall w batch =>
    obtain ⟨h₁, h₂, h₃⟩ := call_sameWait hwait
    exact ⟨h₁, h₂, h₃⟩
  | @scheduleCall k pending w =>
    obtain ⟨h₁, h₂, h₃⟩ := call_sameWait hwait
    exact ⟨h₁, h₂, h₃⟩
  | @expire k =>
    obtain ⟨h₁, h₂, h₃⟩ := call_sameWait hwait
    have hne : r ≠ k := fun hk ↦ by simp [hk, onTimer, call_wait] at hwait
    exact ⟨h₁, h₂, h₃.trans (Function.update_of_ne hne _ _)⟩
  | @waitOn k side p timed hk =>
    have hne : r ≠ k := fun heq ↦ hr (heq ▸ hk)
    obtain ⟨h₁, h₂, h₃⟩ := suspend_sameWait (s := { s with
      routine := Function.update s.routine (side, p) (some ⟨k, s.waits k + 1⟩)
      timeout := if timed then Function.update s.timeout k false else s.timeout
      timer := if timed then Function.update s.timer k (some (s.waits k + 1)) else s.timer }) hne
      (.park side p timed)
    refine ⟨h₁, h₂, h₃.trans ?_⟩
    cases timed
    · rfl
    · exact Function.update_of_ne hne _ _
  | @checkTicks k hk =>
    have hne : r ≠ k := fun heq ↦ hr (heq ▸ hk)
    unfold EventLoop.checkTicks
    split
    · obtain ⟨h₁, h₂, h₃⟩ := suspend_sameWait (s := s) hne .ticks
      exact ⟨h₁, h₂, h₃⟩
    · exact ⟨rfl, rfl, rfl⟩
  | @scheduleRead k p =>
    unfold EventLoop.scheduleRead
    split
    · exact ⟨rfl, rfl, rfl⟩
    · exact hself
  | _ => exact ⟨rfl, rfl, rfl⟩

theorem call_gains {s : EventLoop Task Park} {a : Action Task Park} (h : s.Parked) {k r : RoutineId}
    (hcur : s.pool.current = none) (hok : (s.call k).pool.fault = none)
    (hr : (s.call k).pool.current = some r) : r = k ∧ Gains s a (s.call k) r := by
  rw [call_pool] at hok hr
  obtain ⟨hk, heq⟩ | ⟨func, tasks, htasks, -, heq⟩ := RoutinePool.call_cases h.pool.toSound hok
  · rw [heq] at hr
    obtain rfl := Option.some.inj hr
    have hsus : s.pool.Suspended k := ⟨hk, fun hc ↦ Option.some_ne_none k (hc.symm.trans hcur)⟩
    refine ⟨rfl, .resumed ((h.wait k).mpr hsus) ?_ fun ht ↦ .inl ?_⟩
    · rw [call_pool, heq]
    · rwa [call_timeout] at ht
  · rw [heq] at hr
    obtain rfl := Option.some.inj hr
    refine ⟨rfl, .started (t := func) ?_ (.inl (List.mem_append_left _ (htasks ▸ List.mem_cons_self)))⟩
    rw [call_pool, heq]
    exact Function.update_self k _ _

theorem Transition.gains {s s' : EventLoop Task Park} {a : Action Task Park} (ht : Transition polled s a s')
    (h : s.Parked) (hok : s'.pool.fault = none) {r : RoutineId} (hr : s'.pool.current = some r) :
    Gains s a s' r := by
  have hsound := h.pool.toSound
  have hnone (hcur : s.pool.current = none) (hr : s.pool.current = some r) : Gains s a s' r := by
    cases hcur.symm.trans hr
  cases ht with
  | @submit func routineName hcur =>
    obtain ⟨t, ht, hfunc⟩ := (RoutinePool.startLoop_hands (hsound.push func) hcur routineName).started hr
    rcases List.mem_append.mp ht with ht | ht
    · exact .started hfunc (.inl (List.mem_append_left _ ht))
    · exact .started hfunc (.inr ⟨routineName, by rw [List.mem_singleton.mp ht]⟩)
  | start hcur => exact hnone hcur hr
  | nextTurn hcur => exact hnone hcur hr
  | @runStart func routineName batch hcur _ hbatch =>
    obtain ⟨t, ht, hfunc⟩ := (RoutinePool.startLoop_hands (hsound.push func) hcur routineName).started hr
    refine .started hfunc (.inl ?_)
    rw [board, hbatch]
    rcases List.mem_append.mp ht with ht | ht
    · exact List.mem_append_left _ ht
    · rw [List.mem_singleton.mp ht]
      exact List.mem_append_right _ List.mem_cons_self
  | @runCall w batch hcur _ hbatch =>
    have hboard : board { s with batch := batch } = s.board := by rw [board, board, hbatch]; rfl
    obtain ⟨-, hg⟩ := call_gains (a := .runFunction) (h.requeue s.functions batch s.phase) hcur hok hr
    cases hg with
    | kept hc => cases hcur.symm.trans hc
    | resumed hwait hfunc htimeout => exact .resumed hwait hfunc htimeout
    | started hfunc ht => exact .started hfunc (hboard ▸ ht)
  | @scheduleCall k pending w hcur =>
    obtain ⟨-, hg⟩ := call_gains (a := .schedule) (h.requeue s.functions s.batch (.events pending)) hcur hok hr
    cases hg with
    | kept hc => cases hcur.symm.trans hc
    | resumed hwait hfunc htimeout => exact .resumed hwait hfunc htimeout
    | started hfunc ht => exact .started hfunc ht
  | @expire k hcur =>
    obtain ⟨rfl, hg⟩ := call_gains (a := .expire k) (h.unlink k (Function.update s.timeout k true)) hcur hok hr
    cases hg with
    | kept hc => cases hcur.symm.trans hc
    | resumed hwait hfunc htimeout => exact .resumed hwait hfunc fun _ ↦ .inr rfl
    | started hfunc ht => exact .started hfunc ht
  | scheduleNone hcur => exact hnone hcur hr
  | poll hcur => exact hnone hcur hr
  | turnWheel hcur => exact hnone hcur hr
  | defer => exact .kept hr rfl
  | waitOn => exact .of_hands (RoutinePool.ret_hands hsound) rfl hr
  | checkTicks =>
    unfold EventLoop.checkTicks at hr ⊢
    split at hr
    · next hticks =>
      rw [if_pos hticks]
      exact .of_hands (RoutinePool.ret_hands hsound) rfl hr
    · next hticks =>
      rw [if_neg hticks]
      exact .kept hr rfl
  | scheduleRead =>
    unfold EventLoop.scheduleRead at hr ⊢
    split at hr
    · exact .kept hr rfl
    · exact .kept hr rfl
  | @finish k hk =>
    have hhands := RoutinePool.ret_hands (RoutinePool.release_sound h.pool hk).1
    exact .of_hands (p := s.pool.release k) hhands rfl hr

theorem Transition.entered {s s' : EventLoop Task Park} {a : Action Task Park} (ht : Transition polled s a s')
    (h : s.Parked) {r : RoutineId} (hr : s.pool.current = some r) {w : Wait Park} (hw : s'.wait r = some w) :
    s'.pool.func r = s.pool.func r ∧
      ((∃ side p timed, a = .waitOn side p timed ∧ w = .park side p timed) ∨ a = .checkTicks ∧ w = .ticks) := by
  have hold (hw : s.wait r = some w) : False := h.ne_current hr (Option.isSome_of_eq_some hw) rfl
  have hret : s.pool.ret.func r = s.pool.func r :=
    (RoutinePool.ret_hands h.pool.toSound).func_eq (h.pool.current r hr)
  cases ht.of_current hr with
  | @waitOn side p timed =>
    simp only [EventLoop.waitOn, suspend, Function.update_self] at hw
    exact ⟨hret, .inl ⟨side, p, timed, rfl, (Option.some.inj hw).symm⟩⟩
  | checkTicks =>
    unfold EventLoop.checkTicks at hw ⊢
    split at hw
    · next hticks =>
      simp only [suspend, Function.update_self] at hw
      rw [if_pos hticks]
      exact ⟨hret, .inr ⟨rfl, (Option.some.inj hw).symm⟩⟩
    · exact (hold hw).elim
  | scheduleRead =>
    unfold EventLoop.scheduleRead at hw
    split at hw
    · exact (hold hw).elim
    · exact (hold hw).elim
  | defer => exact (hold hw).elim
  | finish => exact (hold hw).elim

theorem call_routine_eq {s : EventLoop Task Park} {r : RoutineId} {k : Side × Park}
    (h : ∀ timed, s.wait r = some (.park k.1 k.2 timed) → ((s.call r).wait r).isSome) :
    (s.call r).routine k = s.routine k := by
  have hnone : ¬((s.call r).wait r).isSome := by simp [call_wait]
  unfold call
  split
  · next side p timed hwait =>
    have hne : k ≠ (side, p) := by
      rintro rfl
      exact hnone (h timed hwait)
    exact Function.update_of_ne hne _ _
  · rfl

theorem Transition.routine_eq {s s' : EventLoop Task Park} {a : Action Task Park} (ht : Transition polled s a s')
    {k : Side × Park} (hwait : ∀ r timed, s.wait r = some (.park k.1 k.2 timed) → (s'.wait r).isSome)
    (ha : ∀ timed, a ≠ .waitOn k.1 k.2 timed) : s'.routine k = s.routine k := by
  cases ht with
  | @runCall w batch => exact call_routine_eq (hwait w.id)
  | @scheduleCall k' pending w => exact call_routine_eq (hwait w.id)
  | @expire r => exact call_routine_eq (hwait r)
  | @waitOn r side p timed =>
    have hne : k ≠ (side, p) := fun hk ↦ ha timed (by rw [hk])
    exact Function.update_of_ne hne _ _
  | checkTicks =>
    unfold EventLoop.checkTicks
    split <;> rfl
  | scheduleRead =>
    unfold EventLoop.scheduleRead
    split <;> rfl
  | _ => rfl

end Baize.Runtime.EventLoop
