import Baize.Runtime.Control

namespace Baize.Net

open Baize.Lib Baize.Runtime

/-- The calls that read from a descriptor: `TcpStream::AsyncRead`, `UdpStream::AsyncRecvFrom` and
`TcpListener::AsyncAccept`. -/
inductive ReadOp
  | asyncRead
  | asyncRecvFrom
  | asyncAccept
  deriving DecidableEq, Repr

def ReadOp.takes : ReadOp → ℕ → Bool
  | .asyncRead, _ => true
  | _, n => n ≤ 1

/-- Where a call stands in its loop: in front of `CheckTicks`, at the system call, behind an
`EAGAIN`, or in `WaitRead`. -/
inductive Stage
  | top
  | syscall
  | blocked
  | waiting
  deriving DecidableEq, Repr

structure ReadCall (Park : Type) where
  op : ReadOp
  park : Park
  timed : Bool
  stage : Stage

/-- What the system call gives: `EINTR`, `EAGAIN`, or the end of the call with the amount that was
taken, none at an error or at the end of the stream. -/
inductive Outcome
  | interrupted
  | again
  | returned (n : ℕ)
  deriving DecidableEq, Repr

/-- The loop with what the kernel has for its descriptors. `recorded` says that `epoll` has an event
for the descriptor that it has not reported; `reader` is the routine that is in a call for it. -/
structure Sockets (Task Park : Type) where
  loop : EventLoop Task Park
  unread : Park → ℕ
  recorded : Park → Bool
  reading : RoutineId → Option (ReadCall Park)
  reader : Park → Option RoutineId

inductive SocketAction (Task Park : Type)
  | arrive (p : Park) (n : ℕ)
  | main (a : Action Task Park)
  | enter (op : ReadOp) (p : Park) (timed : Bool)
  | checkTicks
  | syscall (o : Outcome)
  | waitRead
  | woken
  | other (a : Action Task Park)
  deriving DecidableEq, Repr

namespace Sockets

variable {Task Park : Type} [DecidableEq Park]

def new (Task Park : Type) (counter poolsize : ℕ) : Sockets Task Park where
  loop := .new Task Park counter poolsize
  unread := fun _ ↦ 0
  recorded := fun _ ↦ false
  reading := fun _ ↦ none
  reader := fun _ ↦ none

def arrive (s : Sockets Task Park) (p : Park) (n : ℕ) : Sockets Task Park :=
  { s with
    unread := Function.update s.unread p (s.unread p + n + 1)
    recorded := Function.update s.recorded p true }

def recordedAfter (s : Sockets Task Park) : Action Task Park → Park → Bool
  | .poll events, p => s.recorded p && !events.any fun e ↦ e.1 = p ∧ .read ∈ scheduled e.2
  | _, p => s.recorded p

def setStage (s : Sockets Task Park) (r : RoutineId) (c : ReadCall Park) (stage : Stage) : Sockets Task Park :=
  { s with reading := Function.update s.reading r (some { c with stage := stage }) }

def leave (s : Sockets Task Park) (r : RoutineId) (c : ReadCall Park) : Sockets Task Park :=
  { s with reading := Function.update s.reading r none, reader := Function.update s.reader c.park none }

def enter (polled : Park → Bool) (s : Sockets Task Park) (r : RoutineId) (op : ReadOp) (p : Park)
    (timed : Bool) : Option (Sockets Task Park) :=
  match s.reading r, s.reader p with
  | none, none =>
    if polled p then
      some { s with
        reading := Function.update s.reading r (some ⟨op, p, timed, .top⟩)
        reader := Function.update s.reader p (some r) }
    else none
  | _, _ => none

def syscall (s : Sockets Task Park) (r : RoutineId) (c : ReadCall Park) : Outcome → Option (Sockets Task Park)
  | .interrupted => some (s.setStage r c .top)
  | .again => if s.unread c.park = 0 then some (s.setStage r c .blocked) else none
  | .returned n =>
    if n ≤ s.unread c.park ∧ c.op.takes n then
      some { s.leave r c with unread := Function.update s.unread c.park (s.unread c.park - n) }
    else none

/-- The loop of the reading calls, in the words of
`while (1) { CheckTicks(); ...; if (errno == EAGAIN) { WaitRead(ms, timeout); ... } }`. -/
def readStep (polled : Park → Bool) (s : Sockets Task Park) (r : RoutineId) (c : ReadCall Park) :
    SocketAction Task Park → Option (Sockets Task Park)
  | .checkTicks =>
    if c.stage = .top then (s.loop.step polled .checkTicks).map fun loop ↦
    { s.setStage r c .syscall with loop := loop } else none
  | .syscall o => if c.stage = .syscall then s.syscall r c o else none
  | .waitRead =>
    if c.stage = .blocked then
      (s.loop.step polled (.waitOn .read c.park c.timed)).map fun loop ↦
        { s.setStage r c .waiting with loop := loop }
    else none
  | .woken =>
    if c.stage = .waiting then
      if c.timed ∧ s.loop.timeout r then some (s.leave r c) else some (s.setStage r c .top)
    else none
  | _ => none

def otherAsks (polled : Park → Bool) : Action Task Park → Bool
  | .waitOn .read p _ => !polled p
  | .waitOn .write _ _ | .submit _ _ | .checkTicks | .scheduleRead _ | .finish => true
  | _ => false

def step (polled : Park → Bool) (s : Sockets Task Park) (a : SocketAction Task Park) :
    Option (Sockets Task Park) :=
  if s.loop.pool.fault.isSome then none
  else
    match a, s.loop.pool.current with
    | .arrive p n, _ => if polled p then some (s.arrive p n) else none
    | .main a, none => (s.loop.step polled a).map fun loop ↦
        { s with loop := loop, recorded := s.recordedAfter a }
    | .enter op p timed, some r => s.enter polled r op p timed
    | .other a, some r =>
      if otherAsks polled a ∧ (s.reading r).isNone then (s.loop.step polled a).map fun loop ↦
        { s with loop := loop }
      else none
    | a, some r => (s.reading r).bind fun c ↦ s.readStep polled r c a
    | _, none => none

inductive Transition (polled : Park → Bool) (s : Sockets Task Park) :
    SocketAction Task Park → Sockets Task Park → Prop
  | arrive {p : Park} {n : ℕ} (hp : polled p = true) : Transition polled s (.arrive p n) (s.arrive p n)
  | main {a : Action Task Park} {loop : EventLoop Task Park} (hcur : s.loop.pool.current = none)
    (hloop : s.loop.Transition polled a loop) :
    Transition polled s (.main a) { s with loop := loop, recorded := s.recordedAfter a }
  | enter {r : RoutineId} {op : ReadOp} {p : Park} {timed : Bool} (hcur : s.loop.pool.current = some r)
    (hreading : s.reading r = none) (hreader : s.reader p = none) (hp : polled p = true) :
    Transition polled s (.enter op p timed) { s with
      reading := Function.update s.reading r (some ⟨op, p, timed, .top⟩)
      reader := Function.update s.reader p (some r) }
  | other {r : RoutineId} {a : Action Task Park} {loop : EventLoop Task Park}
    (hcur : s.loop.pool.current = some r) (hasks : otherAsks polled a = true) (hreading : s.reading r = none)
    (hloop : s.loop.Transition polled a loop) : Transition polled s (.other a) { s with loop := loop }
  | checkTicks {r : RoutineId} {c : ReadCall Park} {loop : EventLoop Task Park}
    (hcur : s.loop.pool.current = some r) (hc : s.reading r = some c)
    (hloop : s.loop.Transition polled .checkTicks loop) :
    Transition polled s .checkTicks { s.setStage r c .syscall with loop := loop }
  | interrupted {r : RoutineId} {c : ReadCall Park} (hcur : s.loop.pool.current = some r)
    (hc : s.reading r = some c) : Transition polled s (.syscall .interrupted) (s.setStage r c .top)
  | again {r : RoutineId} {c : ReadCall Park} (hcur : s.loop.pool.current = some r) (hc : s.reading r = some c)
    (hempty : s.unread c.park = 0) : Transition polled s (.syscall .again) (s.setStage r c .blocked)
  | returned {r : RoutineId} {c : ReadCall Park} {n : ℕ} (hcur : s.loop.pool.current = some r)
    (hc : s.reading r = some c) : Transition polled s (.syscall (.returned n))
      { s.leave r c with unread := Function.update s.unread c.park (s.unread c.park - n) }
  | waitRead {r : RoutineId} {c : ReadCall Park} {loop : EventLoop Task Park}
    (hcur : s.loop.pool.current = some r) (hc : s.reading r = some c) (hstage : c.stage = .blocked)
    (hloop : s.loop.Transition polled (.waitOn .read c.park c.timed) loop) :
    Transition polled s .waitRead { s.setStage r c .waiting with loop := loop }
  | timedOut {r : RoutineId} {c : ReadCall Park} (hcur : s.loop.pool.current = some r)
    (hc : s.reading r = some c) : Transition polled s .woken (s.leave r c)
  | woken {r : RoutineId} {c : ReadCall Park} (hcur : s.loop.pool.current = some r) (hc : s.reading r = some c) :
    Transition polled s .woken (s.setStage r c .top)

variable {polled : Park → Bool}

theorem transition_of_readStep {s s' : Sockets Task Park} {r : RoutineId} {c : ReadCall Park}
    {a : SocketAction Task Park} (hcur : s.loop.pool.current = some r) (hc : s.reading r = some c)
    (h : s.readStep polled r c a = some s') : Transition polled s a s' := by
  cases a with
  | checkTicks =>
    obtain ⟨-, hs⟩ := Option.ite_none_right_eq_some.mp h
    obtain ⟨loop, hloop, rfl⟩ := Option.map_eq_some_iff.mp hs
    exact .checkTicks hcur hc (EventLoop.transition_of_step hloop)
  | syscall o =>
    obtain ⟨-, hs⟩ := Option.ite_none_right_eq_some.mp h
    cases o with
    | interrupted => exact Option.some.inj hs ▸ .interrupted hcur hc
    | again =>
      obtain ⟨hempty, hs⟩ := Option.ite_none_right_eq_some.mp hs
      exact Option.some.inj hs ▸ .again hcur hc hempty
    | returned n =>
      obtain ⟨-, hs⟩ := Option.ite_none_right_eq_some.mp hs
      exact Option.some.inj hs ▸ .returned hcur hc
  | waitRead =>
    obtain ⟨hstage, hs⟩ := Option.ite_none_right_eq_some.mp h
    obtain ⟨loop, hloop, rfl⟩ := Option.map_eq_some_iff.mp hs
    exact .waitRead hcur hc hstage (EventLoop.transition_of_step hloop)
  | woken =>
    obtain ⟨-, hs⟩ := Option.ite_none_right_eq_some.mp h
    split at hs
    · exact Option.some.inj hs ▸ .timedOut hcur hc
    · exact Option.some.inj hs ▸ .woken hcur hc
  | _ => cases h

theorem transition_of_step {s s' : Sockets Task Park} {a : SocketAction Task Park}
    (h : s.step polled a = some s') : s.loop.pool.fault = none ∧ Transition polled s a s' := by
  unfold step at h
  split at h
  · cases h
  · next hfault =>
    refine ⟨Option.not_isSome_iff_eq_none.mp hfault, ?_⟩
    split at h
    · obtain ⟨hp, hs⟩ := Option.ite_none_right_eq_some.mp h
      exact Option.some.inj hs ▸ .arrive hp
    · next hcur =>
      obtain ⟨loop, hloop, rfl⟩ := Option.map_eq_some_iff.mp h
      exact .main hcur (EventLoop.transition_of_step hloop)
    · next hcur =>
      unfold enter at h
      split at h
      · next hreading hreader =>
        obtain ⟨hp, hs⟩ := Option.ite_none_right_eq_some.mp h
        exact Option.some.inj hs ▸ .enter hcur hreading hreader hp
      · cases h
    · next hcur =>
      obtain ⟨⟨hasks, hnone⟩, hs⟩ := Option.ite_none_right_eq_some.mp h
      obtain ⟨loop, hloop, rfl⟩ := Option.map_eq_some_iff.mp hs
      exact .other hcur hasks (Option.isNone_iff_eq_none.mp hnone) (EventLoop.transition_of_step hloop)
    · next hcur =>
      obtain ⟨c, hc, hs⟩ := Option.bind_eq_some_iff.mp h
      exact transition_of_readStep hcur hc hs
    · cases h

end Sockets

end Baize.Net
