import Baize.Runtime.Parked

namespace Baize.Runtime.EventLoop

open Baize.Lib

variable {Task Park : Type} {polled : Park → Bool}

/-- A `Call` is put off only for a routine in `CheckTicks` or at a park that is not polled. -/
def Deferrable (polled : Park → Bool) : Option (Wait Park) → Prop
  | some .ticks => True
  | some (.park _ p _) => polled p = false
  | none => False

/-- Each of the calls is for the wait in which its routine is, and no routine has two. -/
def Deferred (polled : Park → Bool) (s : EventLoop Task Park) (ws : List Waiter) : Prop :=
  (∀ w ∈ ws, s.waits w.id = w.wait ∧ Deferrable polled (s.wait w.id)) ∧ (ws.map Waiter.id).Nodup

theorem Deferred.sublist {s : EventLoop Task Park} {ws ws' : List Waiter} (h : Deferred polled s ws)
    (hsub : ws'.Sublist ws) : Deferred polled s ws' :=
  ⟨fun w hw ↦ h.1 w (hsub.subset hw), (hsub.map Waiter.id).nodup h.2⟩

theorem Deferred.append {s : EventLoop Task Park} {w : Waiter} {ws : List Waiter}
    (h : Deferred polled s ws) (hwait : s.waits w.id = w.wait) (hdef : Deferrable polled (s.wait w.id))
    (hnot : w.id ∉ ws.map Waiter.id) : Deferred polled s (ws ++ [w]) := by
  constructor
  · intro v hv
    rcases List.mem_append.mp hv with hv | hv
    · exact h.1 v hv
    · rw [List.mem_singleton.mp hv]
      exact ⟨hwait, hdef⟩
  · rw [List.map_append, List.nodup_append]
    refine ⟨h.2, List.nodup_singleton _, fun a ha b hb hab ↦ hnot ?_⟩
    rwa [← List.mem_singleton.mp hb, ← hab]

theorem Deferred.congr {s s' : EventLoop Task Park} {ws : List Waiter} {r : RoutineId}
    (h : Deferred polled s ws) (hnot : r ∉ ws.map Waiter.id) (hwait : ∀ k ≠ r, s'.wait k = s.wait k)
    (hwaits : ∀ k ≠ r, s'.waits k = s.waits k) : Deferred polled s' ws := by
  refine ⟨fun w hw ↦ ?_, h.2⟩
  have hne : w.id ≠ r := fun heq ↦ hnot (heq ▸ List.mem_map_of_mem hw)
  rw [hwait _ hne, hwaits _ hne]
  exact h.1 w hw

structure Inv (polled : Park → Bool) (s : EventLoop Task Park) : Prop where
  parked : s.Parked
  deferred : Deferred polled s (calls (s.batch ++ s.functions))
  events : ∀ pending, s.phase = .events pending → ∀ k ∈ pending, polled k.2 = true

theorem calls_append_call (fs gs : List (FunctionCallBack Task)) (w : Waiter) :
    calls (fs ++ (gs ++ [.call w])) = calls (fs ++ gs) ++ [w] := by
  rw [← List.append_assoc, calls, List.filterMap_append]
  rfl

theorem calls_append_start (fs gs : List (FunctionCallBack Task)) (func : Task) (routineName : String) :
    calls (fs ++ (gs ++ [.start func routineName])) = calls (fs ++ gs) := by
  rw [← List.append_assoc, calls, List.filterMap_append]
  exact List.append_nil _

theorem Inv.not_queued {s : EventLoop Task Park} (h : s.Inv polled) {r : RoutineId}
    (hr : ¬Deferrable polled (s.wait r)) : r ∉ s.queued := by
  intro hmem
  obtain ⟨w, hw, rfl⟩ := List.mem_map.mp hmem
  exact hr (h.deferred.1 w hw).2

theorem isSome_of_deferrable {w : Option (Wait Park)} (h : Deferrable polled w) : w.isSome := by
  cases w with
  | none => exact h.elim
  | some w => rfl

theorem new_inv (counter n : ℕ) : (new Task Park counter n).Inv polled where
  parked := new_parked counter n
  deferred := ⟨nofun, List.nodup_nil⟩
  events _ h := nomatch h

theorem turn_inv {s : EventLoop Task Park} (h : s.Inv polled) : s.turn.Inv polled where
  parked := h.parked.requeue _ _ _
  deferred := by
    refine h.deferred.sublist (List.Sublist.filterMap _ ?_)
    rw [turn, List.append_nil]
    exact List.sublist_append_right s.batch s.functions
  events _ hp := nomatch hp

theorem start_inv {s : EventLoop Task Park} (h : s.Inv polled) (hcur : s.pool.current = none) (func : Task)
    (routineName : String) : Inv polled { s with pool := s.pool.start func routineName } :=
  ⟨h.parked.start hcur func routineName, h.deferred, h.events⟩

theorem finish_inv {s : EventLoop Task Park} (h : s.Inv polled) {r : RoutineId}
    (hr : s.pool.current = some r) : Inv polled { s with pool := (s.pool.release r).ret } :=
  ⟨h.parked.finish hr, h.deferred, h.events⟩

theorem Inv.not_queued_current {s : EventLoop Task Park} (h : s.Inv polled) {r : RoutineId}
    (hr : s.pool.current = some r) : r ∉ s.queued :=
  h.not_queued fun hd ↦ h.parked.ne_current hr (isSome_of_deferrable hd) rfl

theorem checkTicks_inv {s : EventLoop Task Park} (h : s.Inv polled) {r : RoutineId}
    (hr : s.pool.current = some r) : (s.checkTicks r).Inv polled := by
  refine ⟨checkTicks_parked h.parked hr, ?_, ?_⟩
  · unfold checkTicks
    split
    · have hq := h.not_queued_current hr
      simp only [suspend, calls_append_call]
      refine Deferred.append (h.deferred.congr hq (fun k hk ↦ ?_) (fun k hk ↦ ?_)) ?_ ?_ hq
      · exact Function.update_of_ne hk _ _
      · exact Function.update_of_ne hk _ _
      · exact Function.update_self r _ _
      · simp only [Function.update_self, Deferrable]
    · exact h.deferred
  · unfold checkTicks
    split
    · exact h.events
    · exact h.events

theorem scheduleRead_inv {s : EventLoop Task Park} (h : s.Inv polled) {p : Park} (hp : polled p = false)
    (hfresh : s.Fresh (.scheduleRead p)) : (s.scheduleRead p).Inv polled := by
  unfold scheduleRead
  split
  · next w hw =>
    obtain ⟨hwaits, timed, hwait⟩ := h.parked.routine .read p w hw
    refine ⟨h.parked.requeue _ _ _, ?_, h.events⟩
    rw [calls_append_call]
    refine Deferred.append h.deferred hwaits ?_ (hfresh w.id (by simp [wakes, hw]))
    simp only [hwait, Deferrable, hp]
  · exact h

theorem Inv.suspendedIn {s : EventLoop Task Park} (h : s.Inv polled) {a : Action Task Park} {w : Waiter}
    (hw : s.called a = some w) : s.SuspendedIn w := by
  cases a with
  | runFunction =>
    simp only [called] at hw
    split at hw
    · next v batch hbatch =>
      obtain rfl := Option.some.inj hw
      have hdef := h.deferred
      rw [hbatch] at hdef
      obtain ⟨hwaits, hd⟩ := hdef.1 v List.mem_cons_self
      exact ⟨isSome_of_deferrable hd, hwaits⟩
    · cases hw
  | schedule =>
    simp only [called] at hw
    split at hw
    · next k pending hp =>
      obtain ⟨hwaits, timed, hwait⟩ := h.parked.routine k.1 k.2 w hw
      exact ⟨Option.isSome_of_eq_some hwait, hwaits⟩
    · cases hw
  | expire r =>
    obtain ⟨n, hn, rfl⟩ := Option.map_eq_some_iff.mp hw
    obtain ⟨hwaits, side, p, hwait⟩ := h.parked.timer r n hn
    exact ⟨Option.isSome_of_eq_some hwait, hwaits⟩
  | _ => cases hw

theorem Inv.pending {s : EventLoop Task Park} (h : s.Inv polled) {k : Side × Park} {pending : List (Side × Park)}
    (hphase : s.phase = .events (k :: pending)) : Inv polled { s with phase := .events pending } := by
  refine ⟨h.parked.requeue _ _ _, h.deferred, fun pending' hp' k' hk' ↦ ?_⟩
  obtain rfl := Phase.events.inj hp'
  exact h.events _ hphase k' (List.mem_cons_of_mem k hk')

/-- No assertion has failed, and every `Call` by the main loop resumes a routine that is still in
the wait for which it was issued, and so not a free one. -/
theorem Inv.called {s : EventLoop Task Park} (h : s.Inv polled) :
    s.pool.fault = none ∧ ∀ a w, s.called a = some w → s.SuspendedIn w ∧ s.pool.freeList.find w.id = none :=
  ⟨h.parked.pool.fault, fun _ _ hw ↦ ⟨h.suspendedIn hw, h.parked.not_free (h.suspendedIn hw).1⟩⟩

variable [DecidableEq Park]

theorem call_inv {s : EventLoop Task Park} (h : s.Inv polled) (hcur : s.pool.current = none) {r : RoutineId}
    (hr : (s.wait r).isSome) (hq : r ∉ s.queued) : (s.call r).Inv polled := by
  have hframe : (s.call r).batch = s.batch ∧ (s.call r).functions = s.functions ∧
      (s.call r).phase = s.phase := by
    unfold call
    split <;> exact ⟨rfl, rfl, rfl⟩
  refine ⟨call_parked h.parked hcur (h.parked.call_fault hr), ?_, ?_⟩
  · rw [hframe.1, hframe.2.1]
    refine h.deferred.congr hq (fun k hk ↦ ?_) (fun k _ ↦ ?_)
    · rw [call_wait, Function.update_of_ne hk]
    · rw [call_waits]
  · rw [hframe.2.2]
    exact h.events

theorem waitOn_inv {s : EventLoop Task Park} (h : s.Inv polled) {r : RoutineId}
    (hr : s.pool.current = some r) (side : Side) (p : Park) (timed : Bool) :
    (s.waitOn r side p timed).Inv polled where
  parked := waitOn_parked h.parked hr side p timed
  deferred := h.deferred.congr (h.not_queued_current hr) (fun _ hk ↦ Function.update_of_ne hk _ _)
    (fun _ hk ↦ Function.update_of_ne hk _ _)
  events := h.events

theorem onTimer_inv {s : EventLoop Task Park} (h : s.Inv polled) (hcur : s.pool.current = none)
    {r : RoutineId} (hr : (s.timer r).isSome) (hq : r ∉ s.queued) : (s.onTimer r).Inv polled := by
  obtain ⟨n, hn⟩ := Option.isSome_iff_exists.mp hr
  obtain ⟨-, side, p, hwait⟩ := h.parked.timer r n hn
  have hinv : Inv polled { s with
      timer := Function.update s.timer r none, timeout := Function.update s.timeout r true } :=
    ⟨h.parked.unlink r _, h.deferred, h.events⟩
  exact call_inv hinv hcur (Option.isSome_of_eq_some hwait) hq

theorem Transition.inv {s s' : EventLoop Task Park} {a : Action Task Park} (ht : Transition polled s a s')
    (h : s.Inv polled) (hfresh : s.Fresh a) : s'.Inv polled := by
  cases ht with
  | submit hcur => exact start_inv h hcur _ _
  | start => exact turn_inv h
  | nextTurn => exact turn_inv h
  | @runStart func routineName batch hcur _ hbatch =>
    have hdef := h.deferred
    rw [hbatch] at hdef
    have hinv : Inv polled { s with batch := batch } := ⟨h.parked.requeue _ _ _, hdef, h.events⟩
    exact start_inv hinv hcur func routineName
  | @runCall w batch hcur _ hbatch =>
    have hdef := h.deferred
    rw [hbatch] at hdef
    have hw := hdef.1 w List.mem_cons_self
    have hinv : Inv polled { s with batch := batch } :=
      ⟨h.parked.requeue _ _ _, hdef.sublist (List.sublist_cons_self _ _), h.events⟩
    exact call_inv hinv hcur (isSome_of_deferrable hw.2) (List.nodup_cons.mp hdef.2).1
  | @poll events hcur _ _ hall =>
    refine ⟨h.parked.requeue _ _ _, h.deferred, fun pending hp k hk ↦ ?_⟩
    obtain rfl := Phase.events.inj hp
    obtain ⟨e, he, hmem⟩ := List.mem_flatMap.mp hk
    obtain ⟨side, -, rfl⟩ := List.mem_map.mp hmem
    exact List.all_eq_true.mp hall e he
  | @scheduleCall k pending w hcur hphase hw =>
    obtain ⟨-, timed, hwait⟩ := h.parked.routine k.1 k.2 w hw
    refine call_inv (h.pending hphase) hcur (Option.isSome_of_eq_some hwait) (h.not_queued fun hd ↦ ?_)
    rw [hwait] at hd
    exact Bool.false_ne_true (hd.symm.trans (h.events _ hphase k List.mem_cons_self))
  | scheduleNone hcur hphase => exact h.pending hphase
  | turnWheel => exact ⟨h.parked.requeue _ _ _, h.deferred, nofun⟩
  | @expire r hcur _ hr => exact onTimer_inv h hcur hr (hfresh r List.mem_cons_self)
  | defer =>
    refine ⟨h.parked.requeue _ _ _, ?_, h.events⟩
    rw [calls_append_start]
    exact h.deferred
  | waitOn hr => exact waitOn_inv h hr _ _ _
  | checkTicks hr => exact checkTicks_inv h hr
  | scheduleRead _ hp => exact scheduleRead_inv h hp hfresh
  | finish hr => exact finish_inv h hr

theorem step_inv {s s' : EventLoop Task Park} {a : Action Task Park} (h : s.Inv polled)
    (hstep : Guarded (step polled) Fresh s a s') : s'.Inv polled :=
  (transition_of_step hstep.2).inv h hstep.1

end Baize.Runtime.EventLoop
