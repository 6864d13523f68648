import Baize.Runtime.Control
import Baize.Webrtc.MediaServer

namespace Baize.Webrtc

open Baize.Lib Baize.Runtime

def ServerTask.peer : ServerTask → Option ℕ
  | .handleMedia pc => some pc
  | _ => none

namespace MediaServer

variable {Packet : Type}

def board (s : MediaServer Packet) : Board RoutineId ℕ := s.loop.board.keyed ServerTask.peer

def Live : Media Packet → Prop
  | .absent | .deleted => False
  | _ => True

theorem live_of_reading {m : Media Packet} (h : m = .reading) : Live m := by
  rw [h]
  trivial

/-- A routine that handles a `PeerConnection` waits only in `AsyncRead`, and nobody else there. -/
structure WaitsOwn (s : MediaServer Packet) (r : RoutineId) : Prop where
  park : ∀ side pc timed, s.loop.wait r = some (.park side (.pc pc) timed) → s.board.func r = some pc
  waiting : ∀ pc, s.board.func r = some pc → (s.loop.wait r).isSome →
    s.media pc = .waiting ∧ s.loop.timeout r = false ∧ s.loop.wait r = some (.park .read (.pc pc) true) ∧
      s.loop.routine (.read, .pc pc) = some ⟨r, s.loop.waits r⟩

/-- Each `PeerConnection` is handled by one routine. This holds in every run, also in those in
which a routine is called when it should not be. -/
structure Owned (s : MediaServer Packet) : Prop where
  parked : s.loop.Parked
  exclusive : s.board.Exclusive
  all : s.board.All (s.media · = .reading) (Live <| s.media ·)
  own : ∀ r, s.WaitsOwn r

theorem running_eq_some {s : MediaServer Packet} {r : RoutineId} {task : ServerTask}
    (h : s.running = some (r, task)) : s.loop.pool.current = some r ∧ s.loop.pool.func r = some task := by
  obtain ⟨k, hcur, hmap⟩ := Option.bind_eq_some_iff.mp h
  obtain ⟨t, hfunc, heq⟩ := Option.map_eq_some_iff.mp hmap
  obtain ⟨rfl, rfl⟩ := Prod.mk.inj heq
  exact ⟨hcur, hfunc⟩

theorem current_eq_none {s : MediaServer Packet} (h : s.loop.Parked) (hrun : s.running = none) :
    s.loop.pool.current = none := by
  cases hcur : s.loop.pool.current with
  | none => rfl
  | some r =>
    obtain ⟨task, hfunc⟩ := Option.isSome_iff_exists.mp (h.pool.current r hcur)
    simp [running, hcur, hfunc] at hrun

theorem board_func {s : MediaServer Packet} {r : RoutineId} {task : ServerTask}
    (h : s.loop.pool.func r = some task) : s.board.func r = task.peer :=
  congrArg (Option.bind · ServerTask.peer) h

theorem new_owned (counter n : ℕ) : (new Packet counter n).Owned where
  parked := EventLoop.new_parked counter n
  exclusive := ⟨List.nodup_nil, nofun, nofun⟩
  all := ⟨nofun, nofun⟩
  own _ := ⟨nofun, nofun⟩

theorem Owned.waitsOwn {s : MediaServer Packet} (h : s.Owned) {a : LoopAction}
    {loop : EventLoop ServerTask ServerPark} (ht : EventLoop.Transition ServerPark.polled s.loop a loop)
    (hok : loop.pool.fault = none)
    (hwaitOn : ∀ r side pc timed, s.loop.pool.current = some r → a = .waitOn side (.pc pc) timed →
      s.board.func r = some pc) {r : RoutineId} (hr : s.loop.pool.current ≠ some r) :
    WaitsOwn { s with loop := loop } r := by
  have hkept (hwait : (loop.wait r).isSome) : s.loop.SameWait loop r ∧
      (loop.board.keyed ServerTask.peer).func r = s.board.func r := by
    have hsame := ht.sameWait hr hwait
    have hsus := (h.parked.wait r).mp (hsame.wait ▸ hwait)
    exact ⟨hsame, congrArg (Option.bind · ServerTask.peer) (ht.func_eq h.parked hsus)⟩
  refine ⟨fun side pc timed hwait ↦ ?_, fun pc hpc hwait ↦ ?_⟩
  · obtain ⟨hsame, hfunc⟩ := hkept (Option.isSome_of_eq_some hwait)
    exact hfunc.trans ((h.own r).park side pc timed (hsame.wait.symm.trans hwait))
  · obtain ⟨hsame, hfunc⟩ := hkept hwait
    have hheld : s.board.func r = some pc := hfunc.symm.trans hpc
    obtain ⟨hmedia, htimeout, hw, hroutine⟩ := (h.own r).waiting pc hheld (hsame.wait ▸ hwait)
    refine ⟨hmedia, hsame.timeout.trans htimeout, hsame.wait.trans hw, ?_⟩
    have hkey : loop.routine (.read, .pc pc) = s.loop.routine (.read, .pc pc) := by
      refine ht.routine_eq (fun k timed hk ↦ ?_) (fun timed ha ↦ ?_)
      · rw [h.exclusive.unique k r pc ((h.own k).park _ pc timed hk) hheld]
        exact hwait
      · obtain ⟨k, hk⟩ : ∃ k, s.loop.pool.current = some k := by
          subst ha
          cases ht with
          | waitOn hk => exact ⟨_, hk⟩
        exact hr (h.exclusive.unique k r pc (hwaitOn k _ pc timed hk ha) hheld ▸ hk)
    rw [hkey, hroutine, hsame.waits]

theorem Owned.loopStep {s : MediaServer Packet} (h : s.Owned) {a : LoopAction}
    {loop : EventLoop ServerTask ServerPark} (ht : EventLoop.Transition ServerPark.polled s.loop a loop)
    (hok : loop.pool.fault = none) (hsubmit : ∀ t routineName, a = .submit t routineName → t.peer = none)
    (hwaitOn : ∀ r side pc timed, s.loop.pool.current = some r → a = .waitOn side (.pc pc) timed →
      s.board.func r = some pc)
    (hself : ∀ r, s.loop.pool.current = some r → WaitsOwn { s with loop := loop } r) :
    Owned { s with loop := loop } := by
  have hmoves : Board.Moves (fun _ ↦ False) s.board (loop.board.keyed ServerTask.peer) :=
    (ht.moves h.parked hok).keyed fun t ⟨routineName, ha⟩ ↦ hsubmit t routineName ha
  refine ⟨ht.parked h.parked hok, hmoves.exclusive h.exclusive, hmoves.all (fun _ ↦ live_of_reading) h.all,
    fun r ↦ ?_⟩
  by_cases hr : s.loop.pool.current = some r
  · exact hself r hr
  · exact h.waitsOwn ht hok hwaitOn hr

theorem Owned.otherStep {s : MediaServer Packet} (h : s.Owned) {a : LoopAction}
    {loop : EventLoop ServerTask ServerPark} (ht : EventLoop.Transition ServerPark.polled s.loop a loop)
    (hok : loop.pool.fault = none) (hsubmit : ∀ t routineName, a = .submit t routineName → t.peer = none)
    (hpark : ∀ side pc timed, a ≠ .waitOn side (.pc pc) timed)
    (hother : ∀ r, s.loop.pool.current = some r → s.board.func r = none) : Owned { s with loop := loop } := by
  refine h.loopStep ht hok hsubmit (fun r side pc timed _ ha ↦ absurd ha (hpark side pc timed)) fun r hr ↦
    ⟨fun side pc timed hwait ↦ ?_, fun pc hpc hwait ↦ ?_⟩
  · obtain ⟨-, ⟨side', p, timed', rfl, heq⟩ | ⟨-, heq⟩⟩ := ht.entered h.parked hr hwait
    · obtain ⟨-, rfl, -⟩ := Wait.park.inj heq
      exact absurd rfl (hpark side' pc timed')
    · cases heq
  · obtain ⟨w, hw⟩ := Option.isSome_iff_exists.mp hwait
    have hsame : (loop.board.keyed ServerTask.peer).func r = s.board.func r :=
      congrArg (Option.bind · ServerTask.peer) (ht.entered h.parked hr hw).1
    cases (hsame.symm.trans hpc).symm.trans (hother r hr)

theorem Owned.not_waiting {s : MediaServer Packet} (h : s.Owned) {r : RoutineId} {pc : ℕ}
    (hcur : s.loop.pool.current = some r) (hr : s.board.func r = some pc) (k : RoutineId)
    (hk : s.board.func k = some pc) : ¬(s.loop.wait k).isSome := by
  rw [h.exclusive.unique k r pc hk hr]
  exact fun hwait ↦ h.parked.ne_current hcur hwait rfl

theorem Owned.setMedia {s : MediaServer Packet} (h : s.Owned) {r : RoutineId} {pc : ℕ}
    (hcur : s.loop.pool.current = some r) (hr : s.board.func r = some pc) {m : Media Packet} (hm : Live m)
    (packets : ℕ → List Packet) :
    Owned { s with media := Function.update s.media pc m, packets := packets } where
  parked := h.parked
  exclusive := h.exclusive
  all := by
    refine ⟨fun k hk ↦ ?_, fun i k hi ↦ ?_⟩
    · have hne : k ≠ pc := fun heq ↦ h.exclusive.apart k hk r (heq ▸ hr)
      exact (Function.update_of_ne hne _ _).trans (h.all.pending k hk)
    · simp only [Function.update_apply]
      split_ifs
      · exact hm
      · exact h.all.func i k hi
  own k := by
    refine ⟨(h.own k).park, fun pc' hk hwait ↦ ?_⟩
    have hne : pc' ≠ pc := fun heq ↦ h.not_waiting hcur hr k (heq ▸ hk) hwait
    simp only [Function.update_of_ne hne]
    exact (h.own k).waiting pc' hk hwait

theorem Owned.publish {s : MediaServer Packet} (h : s.Owned) {pc : ℕ} (hmedia : s.media pc = .absent)
    (routineName : String) :
    Owned { s with
      media := Function.update s.media pc .reading
      loop := { s.loop with functions := s.loop.functions ++ [.start (.handleMedia pc) routineName] } } := by
  have hpending : pc ∉ s.board.pending := fun hmem ↦ by cases hmedia.symm.trans (h.all.pending pc hmem)
  have hfunc (r : RoutineId) : s.board.func r ≠ some pc := fun hr ↦ by
    have hlive := h.all.func r pc hr
    rw [hmedia] at hlive
    exact hlive
  have hboard : board { s with
      media := Function.update s.media pc .reading
      loop := { s.loop with functions := s.loop.functions ++ [.start (.handleMedia pc) routineName] } } =
      ⟨s.board.pending ++ [pc], s.board.func⟩ := by
    simp only [board, EventLoop.board, EventLoop.starts_append, Board.keyed, List.filterMap_append,
      List.append_assoc]
    rfl
  refine ⟨h.parked.requeue _ _ _, ?_, ?_, fun r ↦ ⟨(h.own r).park, fun k hr hwait ↦ ?_⟩⟩
  · rw [hboard]
    exact h.exclusive.submit hpending hfunc
  · rw [hboard]
    refine ⟨fun k hk ↦ ?_, fun r k hr ↦ ?_⟩
    · simp only [Function.update_apply]
      split_ifs with hkpc
      · rfl
      · exact h.all.pending k
          ((List.mem_append.mp hk).resolve_right fun hmem ↦ hkpc (List.mem_singleton.mp hmem))
    · have hne : k ≠ pc := fun heq ↦ hfunc r (heq ▸ hr)
      simp only [Function.update_of_ne hne]
      exact h.all.func r k hr
  · have hne : k ≠ pc := fun heq ↦ hfunc r (heq ▸ hr)
    simp only [Function.update_of_ne hne]
    exact (h.own r).waiting k hr hwait

theorem Owned.wait {s : MediaServer Packet} (h : s.Owned) {r : RoutineId} {pc : ℕ}
    (hcur : s.loop.pool.current = some r) (hr : s.board.func r = some pc) :
    Owned { s with
      media := Function.update s.media pc .waiting
      loop := s.loop.waitOn r .read (.pc pc) true } := by
  have ht : EventLoop.Transition ServerPark.polled s.loop (.waitOn .read (.pc pc) true)
      (s.loop.waitOn r .read (.pc pc) true) := .waitOn hcur
  have hok : (s.loop.waitOn r .read (.pc pc) true).pool.fault = none :=
    (RoutinePool.ret_consistent h.parked.pool.toSound).fault
  refine (h.setMedia hcur hr (m := .waiting) trivial s.packets).loopStep ht hok nofun
    (fun k side pc' timed hk ha ↦ ?_) fun k hk ↦ ?_
  · obtain ⟨-, hpc, -⟩ := Action.waitOn.inj ha
    obtain rfl := Option.some.inj (hcur.symm.trans hk)
    obtain rfl := ServerPark.pc.inj hpc
    exact hr
  · obtain rfl := Option.some.inj (hcur.symm.trans hk)
    have hwait : (s.loop.waitOn r .read (.pc pc) true).wait r = some (.park .read (.pc pc) true) :=
      Function.update_self r _ _
    have hfunc : ((s.loop.waitOn r .read (.pc pc) true).board.keyed ServerTask.peer).func r = s.board.func r :=
      congrArg (Option.bind · ServerTask.peer) (ht.entered h.parked hcur hwait).1
    refine ⟨fun side pc' timed hw ↦ ?_, fun pc' hpc' _ ↦ ?_⟩
    · obtain ⟨-, hpark, -⟩ := Wait.park.inj (Option.some.inj (hwait.symm.trans hw))
      obtain rfl := ServerPark.pc.inj hpark
      exact hfunc.trans hr
    · obtain rfl := Option.some.inj (hr.symm.trans (hfunc.symm.trans hpc'))
      simp only [EventLoop.waitOn, EventLoop.suspend, Function.update_self, if_true, and_self]

theorem Owned.finish {s : MediaServer Packet} (h : s.Owned) {r : RoutineId} {pc : ℕ}
    (hcur : s.loop.pool.current = some r) (hr : s.board.func r = some pc) (packets : ℕ → List Packet) :
    Owned ⟨{ s.loop with pool := (s.loop.pool.release r).ret }, packets,
      Function.update s.media pc .deleted⟩ := by
  have ht : EventLoop.Transition ServerPark.polled s.loop .finish
      { s.loop with pool := (s.loop.pool.release r).ret } := .finish hcur
  have hsound := (RoutinePool.release_sound h.parked.pool hcur).1
  have hmoves : Board.Moves (fun _ ↦ False) ⟨s.board.pending, Function.update s.board.func r none⟩
      (EventLoop.board { s.loop with pool := (s.loop.pool.release r).ret } |>.keyed ServerTask.peer) := by
    have hstart : (⟨s.board.pending, Function.update s.board.func r none⟩ : Board RoutineId ℕ) =
        Board.keyed ServerTask.peer ⟨(s.loop.pool.release r).tasks ++
          EventLoop.starts (s.loop.batch ++ s.loop.functions), (s.loop.pool.release r).func⟩ := by
      rw [RoutinePool.release, Board.keyed_update]
      rfl
    rw [hstart]
    exact ((RoutinePool.ret_hands hsound).moves (P := fun _ ↦ False) _).keyed fun _ ↦ False.elim
  have hall : Board.All (Function.update s.media pc .deleted · = .reading)
      (Live <| Function.update s.media pc .deleted ·)
      ⟨s.board.pending, Function.update s.board.func r none⟩ := by
    refine ⟨fun k hk ↦ ?_, fun i k hi ↦ ?_⟩
    · have hne : k ≠ pc := fun heq ↦ h.exclusive.apart k hk r (heq ▸ hr)
      exact (Function.update_of_ne hne _ _).trans (h.all.pending k hk)
    · simp only [Function.update_apply] at hi
      split_ifs at hi with hir
      have hne : k ≠ pc := fun heq ↦ hir (h.exclusive.unique i r pc (heq ▸ hi) hr)
      rw [Function.update_of_ne hne]
      exact h.all.func i k hi
  have hall' := hmoves.all (fun _ ↦ live_of_reading) hall
  refine ⟨h.parked.finish hcur, hmoves.exclusive (h.exclusive.finish r), hall', fun k ↦ ?_⟩
  by_cases hk : s.loop.pool.current = some k
  · have hnone (hwait : (s.loop.wait k).isSome) : False := h.parked.ne_current hk hwait rfl
    exact ⟨fun side pc' timed hw ↦ (hnone (Option.isSome_of_eq_some hw)).elim, fun pc' _ hw ↦ (hnone hw).elim⟩
  · obtain ⟨hpark, hwaiting⟩ := h.waitsOwn ht (RoutinePool.ret_consistent hsound).fault
      (fun _ _ _ _ _ ha ↦ by cases ha) hk
    refine ⟨hpark, fun pc' hpc' hwait ↦ ?_⟩
    have hne : pc' ≠ pc := fun heq ↦ by
      have hlive := hall'.func k pc' hpc'
      rw [heq, Function.update_self] at hlive
      exact hlive
    simp only [Function.update_of_ne hne]
    exact hwaiting pc' hpc' hwait

theorem Owned.setPackets {s : MediaServer Packet} (h : s.Owned) (packets : ℕ → List Packet) :
    Owned { s with packets := packets } :=
  ⟨h.parked, h.exclusive, h.all, fun r ↦ ⟨(h.own r).park, (h.own r).waiting⟩⟩

theorem asks_cases {task : ServerTask} {a : LoopAction} (h : asks task a = true) :
    task.peer = none ∧ (∀ t routineName, a = .submit t routineName → t.peer = none) ∧
      ∀ side pc timed, a ≠ .waitOn side (.pc pc) timed := by
  refine ⟨?_, fun t routineName ha ↦ ?_, fun side pc timed ha ↦ ?_⟩
  · cases task with
    | handleMedia pc => cases h
    | _ => rfl
  · subst ha
    cases t with
    | handleMedia pc => cases task <;> cases h
    | _ => rfl
  · subst ha
    cases task <;> cases side <;> cases timed <;> cases h

theorem mainAsks_cases {a : LoopAction} (h : mainAsks a = true) :
    (∀ t routineName, a = .submit t routineName → t.peer = none) ∧
      ∀ side pc timed, a ≠ .waitOn side (.pc pc) timed := by
  refine ⟨fun t routineName ha ↦ ?_, fun side pc timed ha ↦ ?_⟩
  · subst ha
    cases t with
    | handleMedia pc => cases h
    | _ => rfl
  · subst ha
    cases h

theorem Transition.owned {s s' : MediaServer Packet} {a : ServerAction Packet} (ht : Transition s a s')
    (h : s.Owned) (hok : s'.loop.pool.fault = none) : s'.Owned := by
  cases ht with
  | main hrun hasks hloop =>
    obtain ⟨hsubmit, hpark⟩ := mainAsks_cases hasks
    refine h.otherStep (EventLoop.transition_of_step hloop) hok hsubmit hpark fun r hr ↦ ?_
    cases (current_eq_none h.parked hrun).symm.trans hr
  | routine hrun hasks hloop =>
    obtain ⟨htask, hsubmit, hpark⟩ := asks_cases hasks
    obtain ⟨hcur, hfunc⟩ := running_eq_some hrun
    refine h.otherStep (EventLoop.transition_of_step hloop) hok hsubmit hpark fun r hr ↦ ?_
    obtain rfl := Option.some.inj (hcur.symm.trans hr)
    exact (board_func hfunc).trans htask
  | publish hrun hmedia hloop =>
    obtain ⟨hcur, hfunc⟩ := running_eq_some hrun
    cases EventLoop.transition_of_step hloop with
    | submit hnone => cases hnone.symm.trans hcur
    | defer => exact h.publish hmedia _
  | recv hrun _ _ hloop =>
    obtain ⟨hcur, hfunc⟩ := running_eq_some hrun
    refine (h.otherStep (EventLoop.transition_of_step hloop) hok (fun _ _ ha ↦ by cases ha)
      (fun _ _ _ ha ↦ by cases ha) fun r hr ↦ ?_).setPackets _
    obtain rfl := Option.some.inj (hcur.symm.trans hr)
    exact board_func hfunc
  | wait hrun _ _ hloop =>
    obtain ⟨hcur, hfunc⟩ := running_eq_some hrun
    cases EventLoop.transition_of_step hloop with
    | waitOn hk =>
      obtain rfl := Option.some.inj (hcur.symm.trans hk)
      exact h.wait hcur (board_func hfunc)
  | read hrun =>
    obtain ⟨hcur, hfunc⟩ := running_eq_some hrun
    exact h.setMedia hcur (board_func hfunc) (by trivial) _
  | woken hrun =>
    obtain ⟨hcur, hfunc⟩ := running_eq_some hrun
    exact h.setMedia hcur (board_func hfunc) (by trivial) _
  | timedOut hrun _ _ hloop =>
    obtain ⟨hcur, hfunc⟩ := running_eq_some hrun
    cases EventLoop.transition_of_step hloop with
    | finish hk =>
      obtain rfl := Option.some.inj (hcur.symm.trans hk)
      exact h.finish hcur (board_func hfunc) _
  | processed hrun =>
    obtain ⟨hcur, hfunc⟩ := running_eq_some hrun
    exact h.setMedia hcur (board_func hfunc) (by trivial) _
  | process hrun =>
    obtain ⟨hcur, hfunc⟩ := running_eq_some hrun
    exact h.setMedia hcur (board_func hfunc) (by trivial) _
  | failed hrun _ hloop =>
    obtain ⟨hcur, hfunc⟩ := running_eq_some hrun
    cases EventLoop.transition_of_step hloop with
    | finish hk =>
      obtain rfl := Option.some.inj (hcur.symm.trans hk)
      exact h.finish hcur (board_func hfunc) _

/-- The states of all runs: after a failed assertion nothing is possible any more. -/
def Reached (s : MediaServer Packet) : Prop := s.Owned ∨ s.loop.pool.fault ≠ none ∧ s.running = none

theorem Transition.owned_of_reached {s s' : MediaServer Packet} {a : ServerAction Packet}
    (ht : Transition s a s') (h : s.Reached) : s.Owned := by
  rcases h with h | ⟨hfault, hrun⟩
  · exact h
  · cases ht with
    | main _ _ hloop =>
      rw [EventLoop.step, if_pos (Option.isSome_iff_ne_none.mpr hfault)] at hloop
      cases hloop
    | routine hr => cases hrun.symm.trans hr
    | publish hr => cases hrun.symm.trans hr
    | recv hr => cases hrun.symm.trans hr
    | wait hr => cases hrun.symm.trans hr
    | read hr => cases hrun.symm.trans hr
    | woken hr => cases hrun.symm.trans hr
    | timedOut hr => cases hrun.symm.trans hr
    | processed hr => cases hrun.symm.trans hr
    | process hr => cases hrun.symm.trans hr
    | failed hr => cases hrun.symm.trans hr

theorem step_reached {s s' : MediaServer Packet} {a : ServerAction Packet} (h : s.Reached)
    (hstep : s.step a = some s') : s'.Reached := by
  have ht := transition_of_step hstep
  have howned := ht.owned_of_reached h
  by_cases hok : s'.loop.pool.fault = none
  · exact .inl (ht.owned howned hok)
  · obtain heq | ⟨b, hloop, -⟩ := step_loopStep hstep
    · exact absurd (heq ▸ howned.parked.pool.fault) hok
    · obtain ⟨r, hcur, hfunc⟩ := (EventLoop.transition_of_step hloop).faulted howned.parked hok
      refine .inr ⟨hok, ?_⟩
      simp only [running, hcur, Option.bind_some, hfunc, Option.map_none]

theorem board_func_iff {s : MediaServer Packet} {r : RoutineId} {pc : ℕ} :
    s.board.func r = some pc ↔ s.loop.pool.func r = some (.handleMedia pc) := by
  refine ⟨fun h ↦ ?_, board_func⟩
  obtain ⟨task, hfunc, hpeer⟩ := Option.bind_eq_some_iff.mp h
  cases task with
  | handleMedia i => exact Option.some.inj hpeer ▸ hfunc
  | _ => cases hpeer

/-- How `HandleMedia` came into control in a step of the loop. -/
theorem Owned.control {s : MediaServer Packet} (h : s.Owned) {a : LoopAction}
    {loop : EventLoop ServerTask ServerPark} (ht : EventLoop.Transition ServerPark.polled s.loop a loop)
    (hok : loop.pool.fault = none) (hsubmit : ∀ t routineName, a = .submit t routineName → t.peer = none)
    {r : RoutineId} {pc : ℕ} (hr : loop.pool.current = some r)
    (hpc : loop.pool.func r = some (.handleMedia pc)) :
    s.loop.pool.current = some r ∧ s.board.func r = some pc ∨
      s.board.func r = some pc ∧ (loop.timeout r = true → a = .expire r) ∨
      pc ∈ s.board.pending ∧ s.media pc = .reading := by
  cases ht.gains h.parked hok hr with
  | kept hcur hfunc => exact .inl ⟨hcur, board_func (hfunc.symm.trans hpc)⟩
  | resumed hwait hfunc htimeout =>
    have hheld : s.board.func r = some pc := board_func (hfunc.symm.trans hpc)
    obtain ⟨-, hfalse, -⟩ := (h.own r).waiting pc hheld hwait
    refine .inr (.inl ⟨hheld, fun ht ↦ (htimeout ht).resolve_left ?_⟩)
    rw [hfalse]
    exact Bool.false_ne_true
  | @started t hfunc ht =>
    obtain rfl := Option.some.inj (hfunc.symm.trans hpc)
    rcases ht with ht | ⟨routineName, ha⟩
    · have hpending : pc ∈ s.board.pending := List.mem_filterMap.mpr ⟨_, ht, rfl⟩
      exact .inr (.inr ⟨hpending, h.all.pending pc hpending⟩)
    · cases hsubmit _ routineName ha

end MediaServer

end Baize.Webrtc
