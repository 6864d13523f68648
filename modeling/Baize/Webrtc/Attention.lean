import Baize.Net.Readiness
import Baize.Webrtc.Ownership

namespace Baize.Webrtc

open Baize.Lib Baize.Runtime Baize.Net

namespace MediaServer

variable {Packet : Type}

/-- A routine that waits in `AsyncRead` while packets are there has a `Call` on its way. -/
structure Called (s : MediaServer Packet) : Prop where
  batchDone : s.loop.BatchDone
  queued : ∀ r pc, s.board.func r = some pc → (s.loop.wait r).isSome → s.packets pc ≠ [] → r ∈ s.loop.queued

theorem new_called (counter n : ℕ) : (new Packet counter n).Called :=
  ⟨fun _ ↦ rfl, fun _ _ h ↦ by cases h⟩

theorem Owned.still_waiting {s : MediaServer Packet} (h : s.Owned) {a : LoopAction}
    {loop : EventLoop ServerTask ServerPark} (ht : s.loop.Transition ServerPark.polled a loop) {r : RoutineId}
    (hr : s.loop.pool.current ≠ some r) (hwait : (loop.wait r).isSome) :
    (s.loop.wait r).isSome ∧ (loop.board.keyed ServerTask.peer).func r = s.board.func r := by
  have hsame := ht.sameWait hr hwait
  have hwait' : (s.loop.wait r).isSome := hsame.wait ▸ hwait
  exact ⟨hwait', congrArg (Option.bind · ServerTask.peer) (ht.func_eq h.parked ((h.parked.wait r).mp hwait'))⟩

theorem Called.loopStep {s : MediaServer Packet} (hcalled : s.Called) (h : s.Owned) {a : LoopAction}
    {loop : EventLoop ServerTask ServerPark} (ht : s.loop.Transition ServerPark.polled a loop)
    {packets : ℕ → List Packet} {media : ℕ → Media Packet}
    (hself : ∀ r pc, s.loop.pool.current = some r → (loop.wait r).isSome → s.board.func r = some pc →
      packets pc = [])
    (hkept : ∀ r pc, s.board.func r = some pc → (s.loop.wait r).isSome → packets pc ≠ [] →
      s.packets pc ≠ [] ∨ r ∈ loop.queued) : Called ⟨loop, packets, media⟩ := by
  refine ⟨ht.batchDone hcalled.batchDone, fun r pc hr hwait hne ↦ ?_⟩
  by_cases hcur : s.loop.pool.current = some r
  · obtain ⟨w, hw⟩ := Option.isSome_iff_exists.mp hwait
    have hfunc : (loop.board.keyed ServerTask.peer).func r = s.board.func r :=
      congrArg (Option.bind · ServerTask.peer) (ht.entered h.parked hcur hw).1
    exact absurd (hself r pc hcur hwait (hfunc.symm.trans hr)) hne
  · obtain ⟨hwait', hfunc⟩ := h.still_waiting ht hcur hwait
    have hheld : s.board.func r = some pc := hfunc.symm.trans hr
    rcases hkept r pc hheld hwait' hne with hpackets | hqueued
    · exact ht.queued hcalled.batchDone (hcalled.queued r pc hheld hwait' hpackets) hwait
    · exact hqueued

theorem Owned.not_entered {s : MediaServer Packet} (h : s.Owned) {loop : EventLoop ServerTask ServerPark}
    (hloop : s.loop.step ServerPark.polled .finish = some loop) {r : RoutineId}
    (hr : s.loop.pool.current = some r) (hwait : (loop.wait r).isSome) : False := by
  obtain ⟨w, hw⟩ := Option.isSome_iff_exists.mp hwait
  obtain ⟨-, ⟨_, _, _, ha, -⟩ | ⟨ha, -⟩⟩ := (EventLoop.transition_of_step hloop).entered h.parked hr hw
  · cases ha
  · cases ha

theorem Called.take {s : MediaServer Packet} (h : s.Called) {packets : ℕ → List Packet}
    (media : ℕ → Media Packet)
    (hpackets : ∀ pc, packets pc ≠ [] → s.packets pc ≠ []) : Called ⟨s.loop, packets, media⟩ :=
  ⟨h.batchDone, fun r pc hr hwait hne ↦ h.queued r pc hr hwait (hpackets pc hne)⟩

theorem ne_nil_of_update {packets : ℕ → List Packet} {pc' pc : ℕ} (h : Function.update packets pc' [] pc ≠ []) :
    packets pc ≠ [] := by
  by_cases hpc : pc = pc'
  · subst hpc
    rw [Function.update_self] at h
    exact absurd rfl h
  · rwa [Function.update_of_ne hpc] at h

theorem Transition.called {s s' : MediaServer Packet} {a : ServerAction Packet} (ht : Transition s a s')
    (h : s.Owned) (hcalled : s.Called) : s'.Called := by
  have hother {k : RoutineId} {task : ServerTask} (hrun : s.running = some (k, task)) (htask : task.peer = none)
      (r : RoutineId) (pc : ℕ) (hr : s.loop.pool.current = some r) : s.board.func r ≠ some pc := by
    obtain ⟨hcur, hfunc⟩ := running_eq_some hrun
    obtain rfl := Option.some.inj (hcur.symm.trans hr)
    rw [board_func hfunc, htask]
    exact (Option.some_ne_none pc).symm
  cases ht with
  | main hrun _ hloop =>
    refine hcalled.loopStep h (EventLoop.transition_of_step hloop) (fun r pc hr ↦ ?_) fun _ _ _ _ hne ↦ .inl hne
    cases (current_eq_none h.parked hrun).symm.trans hr
  | routine hrun hasks hloop =>
    exact hcalled.loopStep h (EventLoop.transition_of_step hloop)
      (fun r pc hr _ hpc ↦ absurd hpc (hother hrun (asks_cases hasks).1 r pc hr)) fun _ _ _ _ hne ↦ .inl hne
  | publish hrun _ hloop =>
    exact hcalled.loopStep h (EventLoop.transition_of_step hloop)
      (fun r pc hr _ hpc ↦ absurd hpc (hother hrun rfl r pc hr)) fun _ _ _ _ hne ↦ .inl hne
  | @recv k pc' packet loop hrun _ _ hloop =>
    refine hcalled.loopStep h (EventLoop.transition_of_step hloop)
      (fun r pc hr _ hpc ↦ absurd hpc (hother hrun rfl r pc hr)) fun r pc hr hwait hne ↦ ?_
    by_cases hpc : pc = pc'
    · subst hpc
      obtain ⟨-, -, -, hroutine⟩ := (h.own r).waiting pc hr hwait
      refine .inr ?_
      cases EventLoop.transition_of_step hloop with
      | scheduleRead =>
        simp only [EventLoop.scheduleRead, hroutine, EventLoop.queued, EventLoop.calls_append_call,
          List.map_append, List.map_cons, List.map_nil]
        exact List.mem_append_right _ List.mem_cons_self
    · rw [Function.update_of_ne hpc] at hne
      exact .inl hne
  | wait hrun _ hempty hloop =>
    obtain ⟨hcur, hfunc⟩ := running_eq_some hrun
    refine hcalled.loopStep h (EventLoop.transition_of_step hloop) (fun r pc hr _ hpc ↦ ?_)
      fun _ _ _ _ hne ↦ .inl hne
    obtain rfl := Option.some.inj (hcur.symm.trans hr)
    obtain rfl := Option.some.inj ((board_func hfunc).symm.trans hpc)
    exact hempty
  | read => exact hcalled.take _ fun _ ↦ ne_nil_of_update
  | woken => exact hcalled.take _ fun _ ↦ ne_nil_of_update
  | timedOut hrun _ _ hloop =>
    refine hcalled.loopStep h (EventLoop.transition_of_step hloop) (fun r pc hr hwait _ ↦ ?_)
      fun _ _ _ _ hne ↦ .inl (ne_nil_of_update hne)
    exact (h.not_entered hloop hr hwait).elim
  | processed => exact hcalled.take _ fun _ hne ↦ hne
  | process => exact hcalled.take _ fun _ hne ↦ hne
  | failed hrun _ hloop =>
    refine hcalled.loopStep h (EventLoop.transition_of_step hloop) (fun r pc hr hwait _ ↦ ?_)
      fun _ _ _ _ hne ↦ .inl hne
    exact (h.not_entered hloop hr hwait).elim

theorem run_called {counter n : ℕ} {as : List (ServerAction Packet)} {s : MediaServer Packet}
    (hrun : Run (fun s a s' ↦ s.step a = some s') (new Packet counter n) as s) : s.Called := by
  refine (hrun.invariant (I := fun s ↦ s.Reached ∧ s.Called) (fun s a s' h hstep ↦ ?_)
    ⟨.inl (new_owned counter n), new_called counter n⟩).2
  have ht := transition_of_step hstep
  exact ⟨step_reached h.1 hstep, ht.called (ht.owned_of_reached h.1) h.2⟩

end MediaServer

/-- No wake-up is lost. What there is to read for a routine in `WaitRead` is announced by an event
that is recorded, or that was reported and is about to be scheduled. The routine of a
`PeerConnection` that waits while packets are there has a `Call` in `functions_` or in the vector of
functions that is being run. -/
theorem no_lost_wakeUp {Task Park Packet : Type} [DecidableEq Park] {polled : Park → Bool}
    {counter n counter' n' : ℕ} {as : List (SocketAction Task Park)} {s : Sockets Task Park}
    {bs : List (ServerAction Packet)} {t : MediaServer Packet}
    (hs : Run (fun s a s' ↦ s.step polled a = some s') (Sockets.new Task Park counter n) as s)
    (ht : Run (fun t a t' ↦ t.step a = some t') (MediaServer.new Packet counter' n') bs t) :
    (∀ r p timed, s.loop.wait r = some (.park .read p timed) → polled p = true →
      s.unread p = 0 ∨ s.recorded p = true ∨ (.read, p) ∈ s.loop.phase.pending) ∧
    ∀ r pc, t.loop.pool.func r = some (.handleMedia pc) → (t.loop.wait r).isSome → t.packets pc ≠ [] →
      ∃ w ∈ EventLoop.calls (t.loop.batch ++ t.loop.functions), w.id = r := by
  refine ⟨fun r p timed hwait hp ↦ ?_, fun r pc hr hwait hne ↦ ?_⟩
  · exact ((Sockets.run_inv hs).watched r p timed hwait hp).attended
  · exact List.mem_map.mp ((MediaServer.run_called ht).queued r pc (MediaServer.board_func hr) hwait hne)

def twoReaders : List (SocketAction ℕ ℕ) :=
  [.main (.submit 0 "first"), .enter .asyncRead 0 false, .checkTicks, .syscall .again, .waitRead,
    .main (.submit 1 "second"), .enter .asyncRead 1 false, .checkTicks, .syscall .again, .waitRead,
    .main .start, .arrive 0 0, .arrive 1 0, .main (.poll [(0, 1), (1, 1)]), .main .schedule]

def publishedBefore : List (ServerAction Bytes) :=
  MediaServer.waitingPeer.take 19 ++ [.main (.poll [(.stream 0, 1), (.udp, 1)]), .main .schedule, .publish 1,
    .routine (.waitOn .read (.stream 0) true), .main .schedule, .recv 0 [0, 1],
    .routine (.waitOn .read .udp true), .main .turnWheel, .main .nextTurn, .main .runFunction]

theorem no_lost_wakeUp_twoReaders :
    ∃ s t, Run (fun s a s' ↦ s.step (fun _ ↦ true) a = some s') (Sockets.new ℕ ℕ 1 2) twoReaders s ∧
      Run (fun t a t' ↦ t.step a = some t') (MediaServer.new Bytes 1 10) publishedBefore t ∧
      (s.unread 1 = 0 ∨ s.recorded 1 = true ∨ (.read, 1) ∈ s.loop.phase.pending) ∧
      ∃ w ∈ EventLoop.calls (t.loop.batch ++ t.loop.functions), w.id = 4 := by
  obtain ⟨s, hs, hwait⟩ : ∃ s, Run (fun s a s' ↦ s.step (fun _ ↦ true) a = some s') (Sockets.new ℕ ℕ 1 2)
      twoReaders s ∧ s.loop.wait 2 = some (.park .read 1 false) :=
    exists_run_of_steps _ (by decide +kernel)
  obtain ⟨t, ht, htask⟩ : ∃ t, Run (fun t a t' ↦ t.step a = some t') (MediaServer.new Bytes 1 10)
      publishedBefore t ∧ (t.loop.pool.func 4, (t.loop.wait 4).isSome, t.packets 0) =
        (some (.handleMedia 0), true, [[0, 1]]) :=
    exists_run_of_steps _ (by decide +kernel)
  simp only [Prod.mk.injEq] at htask
  obtain ⟨hfunc, hsus, hpackets⟩ := htask
  obtain ⟨hread, hcall⟩ := no_lost_wakeUp hs ht
  exact ⟨s, t, hs, ht, hread 2 1 false hwait rfl,
    hcall 4 0 hfunc hsus (by rw [hpackets]; exact List.cons_ne_nil _ _)⟩

/-- Inside a turn the event is reported and not yet scheduled, and the `Call` is no longer in
`functions_`, while the routines wait. -/
theorem wakeUp_in_transit :
    (∃ s, Run (fun s a s' ↦ s.step (fun _ ↦ true) a = some s') (Sockets.new ℕ ℕ 1 2) twoReaders s ∧
      s.loop.wait 2 = some (.park .read 1 false) ∧ s.unread 1 = 1 ∧ s.recorded 1 = false) ∧
    ∃ t, Run (fun t a t' ↦ t.step a = some t') (MediaServer.new Bytes 1 10) publishedBefore t ∧
      t.running = some (5, .handleMedia 1) ∧ t.loop.pool.func 4 = some (.handleMedia 0) ∧
      (t.loop.wait 4).isSome = true ∧ t.packets 0 = [[0, 1]] ∧ t.loop.functions = [] := by
  obtain ⟨s, hs, hobs⟩ : ∃ s, Run (fun s a s' ↦ s.step (fun _ ↦ true) a = some s') (Sockets.new ℕ ℕ 1 2)
      twoReaders s ∧ (s.loop.wait 2, s.unread 1, s.recorded 1) = (some (.park .read 1 false), 1, false) :=
    exists_run_of_steps _ (by decide +kernel)
  obtain ⟨t, ht, hobs'⟩ : ∃ t, Run (fun t a t' ↦ t.step a = some t') (MediaServer.new Bytes 1 10)
      publishedBefore t ∧
      ((t.running, t.loop.pool.func 4), (t.loop.wait 4).isSome, t.packets 0, t.loop.functions.isEmpty) =
        ((some (5, .handleMedia 1), some (.handleMedia 0)), true, [[0, 1]], true) :=
    exists_run_of_steps _ (by decide +kernel)
  simp only [Prod.mk.injEq, List.isEmpty_iff, and_assoc] at hobs hobs'
  exact ⟨⟨s, hs, hobs⟩, t, ht, hobs'⟩

end Baize.Webrtc
