import Baize.Runtime.WakeUp
import Baize.Util.Types

namespace Baize.Webrtc

open Baize.Lib Baize.Runtime

/-- The tasks of the server: the two that are submitted before the loop starts, one for each
accepted stream and one for each `PeerConnection`. -/
inductive ServerTask
  | startMediaServer
  | startSignalServer
  | handleSignal (stream : ℕ)
  | handleMedia (pc : ℕ)
  deriving DecidableEq, Repr

inductive ServerPark
  | udp
  | listener
  | stream (i : ℕ)
  | pc (i : ℕ)
  deriving DecidableEq, Repr

def ServerPark.polled : ServerPark → Bool
  | .pc _ => false
  | _ => true

abbrev LoopAction := Action ServerTask ServerPark

/-- Where the `HandleMedia` of a `PeerConnection` stands: in front of `AsyncRead`, inside its
`WaitRead`, or at the packets it has read. -/
inductive Media (Packet : Type)
  | absent
  | reading
  | waiting
  | processing (packets : List Packet)
  | deleted
  deriving DecidableEq, Repr

structure MediaServer (Packet : Type) where
  loop : EventLoop ServerTask ServerPark
  packets : ℕ → List Packet
  media : ℕ → Media Packet

inductive ServerAction (Packet : Type)
  | main (a : LoopAction)
  | routine (a : LoopAction)
  | publish (pc : ℕ)
  | recv (pc : ℕ) (packet : Packet)
  | asyncRead
  | woken
  | processPacket (ok : Bool)
  deriving DecidableEq, Repr

namespace MediaServer

variable {Packet : Type}

def new (Packet : Type) (counter poolsize : ℕ) : MediaServer Packet where
  loop := .new ServerTask ServerPark counter poolsize
  packets := fun _ ↦ []
  media := fun _ ↦ .absent

def asks : ServerTask → LoopAction → Bool
  | .handleMedia _, _ => false
  | _, .checkTicks => true
  | .startMediaServer, .waitOn .read .udp true => true
  | .startMediaServer, .waitOn .write .udp false => true
  | .startSignalServer, .waitOn .read .listener false => true
  | .startSignalServer, .submit (.handleSignal _) _ => true
  | .startSignalServer, .finish => true
  | .handleSignal i, .waitOn _ (.stream j) _ => i == j
  | .handleSignal _, .finish => true
  | _, _ => false

def mainAsks : LoopAction → Bool
  | .submit .startMediaServer _ => true
  | .submit .startSignalServer _ => true
  | .start | .runFunction | .poll _ | .schedule | .turnWheel | .expire _ | .nextTurn => true
  | _ => false

def running (s : MediaServer Packet) : Option (RoutineId × ServerTask) :=
  s.loop.pool.current.bind fun r ↦ (s.loop.pool.func r).map (r, ·)

def loopStep (s : MediaServer Packet) (a : LoopAction) : Option (MediaServer Packet) :=
  (s.loop.step ServerPark.polled a).map fun loop ↦ { s with loop := loop }

def close (s : MediaServer Packet) (pc : ℕ) : Option (MediaServer Packet) :=
  { s with media := Function.update s.media pc .deleted }.loopStep .finish

def publish (s : MediaServer Packet) (pc : ℕ) : Option (MediaServer Packet) :=
  match s.media pc with
  | .absent =>
    { s with media := Function.update s.media pc .reading }.loopStep
      (.submit (.handleMedia pc) "baize-routine")
  | _ => none

def recv (s : MediaServer Packet) (pc : ℕ) (packet : Packet) : Option (MediaServer Packet) :=
  match s.media pc with
  | .absent | .deleted => none
  | _ =>
    { s with packets := Function.update s.packets pc (s.packets pc ++ [packet]) }.loopStep
      (.scheduleRead (.pc pc))

def take (s : MediaServer Packet) (pc : ℕ) : MediaServer Packet :=
  { s with
    media := Function.update s.media pc (.processing (s.packets pc))
    packets := Function.update s.packets pc [] }

def asyncRead (s : MediaServer Packet) (pc : ℕ) : Option (MediaServer Packet) :=
  match s.media pc, s.packets pc with
  | .reading, [] =>
    { s with media := Function.update s.media pc .waiting }.loopStep (.waitOn .read (.pc pc) true)
  | .reading, _ :: _ => some (s.take pc)
  | _, _ => none

/-- `AsyncRead` behind its `WaitRead`; on a timeout `HandleMedia` ends. -/
def woken (s : MediaServer Packet) (r : RoutineId) (pc : ℕ) : Option (MediaServer Packet) :=
  match s.media pc with
  | .waiting => if s.loop.timeout r then (s.take pc).close pc else some (s.take pc)
  | _ => none

def processPacket (s : MediaServer Packet) (pc : ℕ) (ok : Bool) : Option (MediaServer Packet) :=
  match s.media pc with
  | .processing [] => some { s with media := Function.update s.media pc .reading }
  | .processing (_ :: packets) =>
    if ok then some { s with media := Function.update s.media pc (.processing packets) } else s.close pc
  | _ => none

def step (s : MediaServer Packet) (a : ServerAction Packet) : Option (MediaServer Packet) :=
  match s.running, a with
  | none, .main a => if mainAsks a then s.loopStep a else none
  | some (_, task), .routine a => if asks task a then s.loopStep a else none
  | some (_, .handleSignal _), .publish pc => s.publish pc
  | some (_, .startMediaServer), .recv pc packet => s.recv pc packet
  | some (_, .handleMedia pc), .asyncRead => s.asyncRead pc
  | some (r, .handleMedia pc), .woken => s.woken r pc
  | some (_, .handleMedia pc), .processPacket ok => s.processPacket pc ok
  | _, _ => none

def wakes (s : MediaServer Packet) : ServerAction Packet → List RoutineId
  | .main a => s.loop.wakes a
  | .recv pc _ => s.loop.wakes (.scheduleRead (.pc pc))
  | _ => []

/-- The timer of a waiting routine expires, and a datagram is dispatched to a `PeerConnection`,
only while no `Call` of the routine is on its way. -/
def Fresh (s : MediaServer Packet) (a : ServerAction Packet) : Prop := ∀ r ∈ s.wakes a, r ∉ s.loop.queued

instance (s : MediaServer Packet) (a : ServerAction Packet) : Decidable (s.Fresh a) :=
  inferInstanceAs (Decidable (∀ r ∈ s.wakes a, r ∉ s.loop.queued))

inductive Transition (s : MediaServer Packet) : ServerAction Packet → MediaServer Packet → Prop
  | main {a : LoopAction} {loop : EventLoop ServerTask ServerPark} (hrun : s.running = none)
    (hasks : mainAsks a = true) (hloop : s.loop.step ServerPark.polled a = some loop) :
    Transition s (.main a) { s with loop := loop }
  | routine {r : RoutineId} {task : ServerTask} {a : LoopAction} {loop : EventLoop ServerTask ServerPark}
    (hrun : s.running = some (r, task)) (hasks : asks task a = true)
    (hloop : s.loop.step ServerPark.polled a = some loop) : Transition s (.routine a) { s with loop := loop }
  | publish {r : RoutineId} {i pc : ℕ} {loop : EventLoop ServerTask ServerPark}
    (hrun : s.running = some (r, .handleSignal i)) (hmedia : s.media pc = .absent)
    (hloop : s.loop.step ServerPark.polled (.submit (.handleMedia pc) "baize-routine") = some loop) :
    Transition s (.publish pc) { s with media := Function.update s.media pc .reading, loop := loop }
  | recv {r : RoutineId} {pc : ℕ} {packet : Packet} {loop : EventLoop ServerTask ServerPark}
    (hrun : s.running = some (r, .startMediaServer)) (habsent : s.media pc ≠ .absent)
    (hdeleted : s.media pc ≠ .deleted)
      (hloop : s.loop.step ServerPark.polled (.scheduleRead (.pc pc)) = some loop) :
    Transition s (.recv pc packet)
      { s with packets := Function.update s.packets pc (s.packets pc ++ [packet]), loop := loop }
  | wait {r : RoutineId} {pc : ℕ} {loop : EventLoop ServerTask ServerPark}
    (hrun : s.running = some (r, .handleMedia pc)) (hmedia : s.media pc = .reading) (hempty : s.packets pc = [])
    (hloop : s.loop.step ServerPark.polled (.waitOn .read (.pc pc) true) = some loop) :
    Transition s .asyncRead { s with media := Function.update s.media pc .waiting, loop := loop }
  | read {r : RoutineId} {pc : ℕ} (hrun : s.running = some (r, .handleMedia pc)) (hmedia : s.media pc = .reading)
    (hne : s.packets pc ≠ []) : Transition s .asyncRead (s.take pc)
  | woken {r : RoutineId} {pc : ℕ} (hrun : s.running = some (r, .handleMedia pc))
    (hmedia : s.media pc = .waiting) (htimeout : s.loop.timeout r = false) : Transition s .woken (s.take pc)
  | timedOut {r : RoutineId} {pc : ℕ} {loop : EventLoop ServerTask ServerPark}
    (hrun : s.running = some (r, .handleMedia pc)) (hmedia : s.media pc = .waiting)
    (htimeout : s.loop.timeout r = true) (hloop : s.loop.step ServerPark.polled .finish = some loop) :
    Transition s .woken
      ⟨loop, Function.update s.packets pc [], Function.update s.media pc .deleted⟩
  | processed {r : RoutineId} {pc : ℕ} {ok : Bool} (hrun : s.running = some (r, .handleMedia pc))
    (hmedia : s.media pc = .processing []) :
    Transition s (.processPacket ok) { s with media := Function.update s.media pc .reading }
  | process {r : RoutineId} {pc : ℕ} {packet : Packet} {packets : List Packet}
    (hrun : s.running = some (r, .handleMedia pc)) (hmedia : s.media pc = .processing (packet :: packets)) :
    Transition s (.processPacket true) { s with media := Function.update s.media pc (.processing packets) }
  | failed {r : RoutineId} {pc : ℕ} {packet : Packet} {packets : List Packet}
    {loop : EventLoop ServerTask ServerPark} (hrun : s.running = some (r, .handleMedia pc))
    (hmedia : s.media pc = .processing (packet :: packets))
    (hloop : s.loop.step ServerPark.polled .finish = some loop) :
    Transition s (.processPacket false) { s with media := Function.update s.media pc .deleted, loop := loop }

theorem transition_of_step {s s' : MediaServer Packet} {a : ServerAction Packet} (h : s.step a = some s') :
    Transition s a s' := by
  unfold step at h
  split at h
  · next hrun =>
    obtain ⟨hasks, hs⟩ := Option.ite_none_right_eq_some.mp h
    obtain ⟨loop, hloop, rfl⟩ := Option.map_eq_some_iff.mp hs
    exact .main hrun hasks hloop
  · next hrun =>
    obtain ⟨hasks, hs⟩ := Option.ite_none_right_eq_some.mp h
    obtain ⟨loop, hloop, rfl⟩ := Option.map_eq_some_iff.mp hs
    exact .routine hrun hasks hloop
  · next hrun =>
    unfold publish at h
    split at h
    · next hmedia =>
      obtain ⟨loop, hloop, rfl⟩ := Option.map_eq_some_iff.mp h
      exact .publish hrun hmedia hloop
    · cases h
  · next hrun =>
    unfold recv at h
    split at h
    · cases h
    · cases h
    · next habsent hdeleted =>
      obtain ⟨loop, hloop, rfl⟩ := Option.map_eq_some_iff.mp h
      exact .recv hrun habsent hdeleted hloop
  · next hrun =>
    unfold asyncRead at h
    split at h
    · next hmedia hempty =>
      obtain ⟨loop, hloop, rfl⟩ := Option.map_eq_some_iff.mp h
      exact .wait hrun hmedia hempty hloop
    · next hmedia hpackets =>
      obtain rfl := Option.some.inj h
      exact .read hrun hmedia (by rw [hpackets]; exact List.cons_ne_nil _ _)
    · cases h
  · next hrun =>
    unfold woken at h
    split at h
    · next hmedia =>
      split at h
      · next htimeout =>
        obtain ⟨loop, hloop, rfl⟩ := Option.map_eq_some_iff.mp h
        simp only [take, Function.update_idem]
        exact .timedOut hrun hmedia htimeout hloop
      · next htimeout =>
        obtain rfl := Option.some.inj h
        exact .woken hrun hmedia (Bool.eq_false_iff.mpr htimeout)
    · cases h
  · next hrun =>
    unfold processPacket at h
    split at h
    · next hmedia =>
      obtain rfl := Option.some.inj h
      exact .processed hrun hmedia
    · next hmedia =>
      split at h
      · next hok =>
        obtain rfl := Option.some.inj h
        obtain rfl := hok
        exact .process hrun hmedia
      · next hok =>
        obtain ⟨loop, hloop, rfl⟩ := Option.map_eq_some_iff.mp h
        obtain rfl := Bool.eq_false_iff.mpr hok
        exact .failed hrun hmedia hloop
    · cases h
  · cases h

def LoopStep (s : MediaServer Packet) (a : ServerAction Packet) (s' : MediaServer Packet) : Prop :=
  s'.loop = s.loop ∨ ∃ b, s.loop.step ServerPark.polled b = some s'.loop ∧ (s.Fresh a → s.loop.Fresh b)

theorem fresh_of_asks {s : MediaServer Packet} {task : ServerTask} {b : LoopAction}
    (hasks : asks task b = true) : s.loop.Fresh b := by
  cases b with
  | expire r => cases task <;> cases hasks
  | scheduleRead p => cases task <;> cases hasks
  | _ => nofun

theorem step_loopStep {s s' : MediaServer Packet} {a : ServerAction Packet} (h : s.step a = some s') :
    s.LoopStep a s' := by
  cases transition_of_step h with
  | main _ _ hloop => exact .inr ⟨_, hloop, id⟩
  | routine _ hasks hloop => exact .inr ⟨_, hloop, fun _ ↦ fresh_of_asks hasks⟩
  | publish _ _ hloop => exact .inr ⟨_, hloop, nofun⟩
  | recv _ _ _ hloop => exact .inr ⟨_, hloop, id⟩
  | wait _ _ _ hloop => exact .inr ⟨_, hloop, nofun⟩
  | timedOut _ _ _ hloop => exact .inr ⟨_, hloop, nofun⟩
  | failed _ _ hloop => exact .inr ⟨_, hloop, nofun⟩
  | _ => exact .inl rfl

theorem step_inv {s s' : MediaServer Packet} {a : ServerAction Packet} (h : s.loop.Inv ServerPark.polled)
    (hstep : Guarded step Fresh s a s') : s'.loop.Inv ServerPark.polled := by
  obtain ⟨hfresh, hs⟩ := hstep
  obtain heq | ⟨b, hloop, hb⟩ := step_loopStep hs
  · rwa [heq]
  · exact EventLoop.step_inv h ⟨hb hfresh, hloop⟩

/-- In the runs in which every wake-up is fresh no assertion of `RoutineProcess` fails, and a
`Call` by the main loop resumes a routine that is still suspended in the wait for which it was
issued. -/
theorem run_calls_suspended {counter n : ℕ} {as : List (ServerAction Packet)} {s : MediaServer Packet}
    (hrun : Run (Guarded step Fresh) (new Packet counter n) as s) :
    s.loop.pool.fault = none ∧ ∀ a w, s.loop.called a = some w →
      s.loop.SuspendedIn w ∧ s.loop.pool.freeList.find w.id = none := by
  have hinv : s.loop.Inv ServerPark.polled :=
    hrun.invariant (fun _ _ _ h hstep ↦ step_inv h hstep) (EventLoop.new_inv counter n)
  exact hinv.called

def waitingPeer : List (ServerAction Bytes) :=
  [.main (.submit .startSignalServer "signal-server"), .routine (.waitOn .read .listener false),
    .main (.submit .startMediaServer "media-server"), .routine (.waitOn .read .udp true), .main .start,
    .main (.poll [(.listener, 1)]), .main .schedule, .routine (.submit (.handleSignal 0) "http"),
    .routine (.waitOn .read .listener false), .main .turnWheel, .main .nextTurn,
    .main .runFunction, .publish 0, .routine (.waitOn .read (.stream 0) true),
    .main (.poll []), .main .turnWheel, .main .nextTurn, .main .runFunction, .asyncRead,
    .main (.poll [(.udp, 1)]), .main .schedule, .recv 0 [0, 1], .routine (.waitOn .read .udp true),
    .main .turnWheel]

theorem run_calls_suspended_waitingPeer :
    ∃ s, Run (Guarded step Fresh) (new Bytes 1 10) (waitingPeer ++ [.main .nextTurn]) s ∧
      s.loop.called .runFunction = some ⟨4, 1⟩ ∧ s.loop.SuspendedIn ⟨4, 1⟩ := by
  obtain ⟨s, hrun, hs⟩ : ∃ s, Run (Guarded step Fresh) (new Bytes 1 10) (waitingPeer ++ [.main .nextTurn]) s ∧
      s.loop.called .runFunction = some ⟨4, 1⟩ :=
    exists_run_of_foldlM _ (by decide +kernel)
  exact ⟨s, hrun, hs, ((run_calls_suspended hrun).2 _ _ hs).1⟩

/-- The timer of the routine expires while the `Call` for the datagram is on its way. -/
theorem waitingPeer_timeout_fault :
    ∃ s, Run (Guarded step fun _ _ ↦ True) (new Bytes 1 10)
        (waitingPeer ++ [.main (.expire 4), .woken, .main .nextTurn, .main .runFunction]) s ∧
      s.loop.pool.fault = some .noTask :=
  exists_run_of_foldlM _ (by decide +kernel)

end MediaServer

end Baize.Webrtc
