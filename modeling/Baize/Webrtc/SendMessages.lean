import Baize.Lib.Run
import Baize.Net.InetAddress

namespace Baize.Webrtc

open Baize.Lib Baize.Net

structure Message where
  addr : InetAddress
  packet : Bytes
  deriving DecidableEq

/-- Where the dispatch routine stands: outside the sending loop, in the `AsyncSendto` of message
`i` of the `last` over which the loop runs, or nowhere once the iterators of the loop dangle. -/
inductive Sending
  | outside
  | sending (i last : ℕ) (suspended : Bool)
  | dangling
  deriving DecidableEq, Repr

/-- `send_messages_` with its capacity and the loop over it, and three records: the messages
pushed to the vector, handed to `AsyncSendto` and removed from the vector. -/
structure SendMessages where
  messages : List Message
  capacity : ℕ
  loop : Sending
  pushed : List Message
  handed : List Message
  removed : List Message

inductive SendMessages.Action
  | asyncSend (message : Message) (wn : ℤ)
  | enterLoop
  | suspend
  | resume
  | sent

namespace SendMessages

def empty : SendMessages := ⟨[], 0, .outside, [], [], []⟩

/-- `push_back`: a full vector moves to a block of twice the size, and iterators into it dangle. -/
def pushBack (s : SendMessages) (message : Message) : SendMessages :=
  { s with
    messages := s.messages ++ [message]
    pushed := s.pushed ++ [message]
    capacity := if s.messages.length = s.capacity then max 1 (2 * s.capacity) else s.capacity
    loop :=
      match s.loop with
      | .sending i last suspended =>
        if s.messages.length = s.capacity then .dangling else .sending i last suspended
      | loop => loop }

def turn (s : SendMessages) (i last : ℕ) : SendMessages :=
  if i < last then
    { s with loop := .sending i last false, handed := s.handed ++ s.messages[i]?.toList }
  else { s with loop := .outside, messages := [], removed := s.removed ++ s.messages }

/-- `WebRTCServer::AsyncSend` runs in other routines and in timers, so only while the dispatch
routine is suspended; `wn` is what the direct `SendTo` returned. -/
def step (s : SendMessages) : Action → Option SendMessages
  | .asyncSend message wn =>
    match s.loop with
    | .sending _ _ false => none
    | _ => some (if wn = message.packet.length then s else s.pushBack message)
  | .enterLoop =>
    match s.loop with
    | .outside => some (if s.messages = [] then s else s.turn 0 s.messages.length)
    | _ => none
  | .suspend =>
    match s.loop with
    | .sending i last false => some { s with loop := .sending i last true }
    | _ => none
  | .resume =>
    match s.loop with
    | .sending i last true => some { s with loop := .sending i last false }
    | _ => none
  | .sent =>
    match s.loop with
    | .sending i last false => some (s.turn (i + 1) last)
    | _ => none

/-- Every message is handed to `AsyncSendto` once, in the order in which it was pushed, and
before it is removed. -/
structure InOrder (s : SendMessages) : Prop where
  loop : s.loop ≠ .dangling
  queue : s.pushed = s.removed ++ s.messages
  handed : s.handed <+: s.pushed
  removed : s.removed <+: s.handed

def PushesOutside (s : SendMessages) : Action → Prop
  | .asyncSend message wn => wn ≠ message.packet.length → s.loop = .outside
  | _ => True

instance (s : SendMessages) : ∀ a, Decidable (s.PushesOutside a)
  | .asyncSend message wn =>
    inferInstanceAs (Decidable (wn ≠ message.packet.length → s.loop = .outside))
  | .enterLoop | .suspend | .resume | .sent => inferInstanceAs (Decidable True)

def Progress (s : SendMessages) : Sending → Prop
  | .outside => s.handed = s.removed
  | .sending i last _ =>
    last = s.messages.length ∧ i < last ∧ s.handed = s.removed ++ s.messages.take (i + 1)
  | .dangling => False

structure Inv (s : SendMessages) : Prop where
  queue : s.pushed = s.removed ++ s.messages
  progress : s.Progress s.loop

theorem Inv.inOrder {s : SendMessages} (h : s.Inv) : s.InOrder := by
  have hprogress := h.progress
  cases hloop : s.loop with
  | outside =>
    rw [hloop] at hprogress
    refine ⟨by rw [hloop]; nofun, h.queue, ?_, ?_⟩
    · rw [hprogress, h.queue]
      exact List.prefix_append _ _
    · rw [hprogress]
  | sending i last suspended =>
    rw [hloop] at hprogress
    obtain ⟨-, -, hhanded⟩ := hprogress
    refine ⟨by rw [hloop]; nofun, h.queue, ?_, ?_⟩
    · rw [hhanded, h.queue]
      exact (List.prefix_append_right_inj _).mpr (List.take_prefix _ _)
    · rw [hhanded]
      exact List.prefix_append _ _
  | dangling =>
    rw [hloop] at hprogress
    exact hprogress.elim

theorem turn_inv {s : SendMessages} (hqueue : s.pushed = s.removed ++ s.messages) {i : ℕ}
    (hi : i ≤ s.messages.length) (hhanded : s.handed = s.removed ++ s.messages.take i) :
    (s.turn i s.messages.length).Inv := by
  unfold turn
  split
  · next hlt =>
    refine ⟨hqueue, rfl, hlt, ?_⟩
    rw [hhanded, List.append_assoc, List.take_add_one]
  · next hge =>
    obtain rfl := le_antisymm hi (not_lt.mp hge)
    refine ⟨hqueue.trans (List.append_nil _).symm, ?_⟩
    rw [Progress, hhanded, List.take_length]

theorem pushBack_inv {s : SendMessages} (h : s.Inv) (hout : s.loop = .outside) (message : Message) :
    (s.pushBack message).Inv := by
  obtain ⟨hqueue, hprogress⟩ := h
  rw [hout] at hprogress
  refine ⟨?_, ?_⟩
  · simp only [pushBack, hqueue, List.append_assoc]
  · simp only [pushBack, hout]
    exact hprogress

theorem setSuspended_inv {s : SendMessages} (h : s.Inv) {i last : ℕ} {b : Bool}
    (hloop : s.loop = .sending i last b) (c : Bool) : Inv { s with loop := .sending i last c } := by
  obtain ⟨hqueue, hprogress⟩ := h
  rw [hloop] at hprogress
  exact ⟨hqueue, hprogress⟩

theorem step_inv {s s' : SendMessages} {a : Action} (h : s.Inv)
    (hstep : Guarded step PushesOutside s a s') : s'.Inv := by
  obtain ⟨hpush, hs⟩ := hstep
  have hprogress := h.progress
  cases a with
  | asyncSend message wn =>
    simp only [step] at hs
    split at hs
    · cases hs
    · obtain rfl := Option.some.inj hs
      split_ifs with hwn
      · exact h
      · exact pushBack_inv h (hpush hwn) message
  | enterLoop =>
    simp only [step] at hs
    split at hs
    · next hout =>
      obtain rfl := Option.some.inj hs
      rw [hout] at hprogress
      split_ifs with hempty
      · exact h
      · exact turn_inv h.queue (Nat.zero_le _) (hprogress.trans (List.append_nil _).symm)
    · cases hs
  | suspend =>
    simp only [step] at hs
    split at hs
    · next hloop =>
      obtain rfl := Option.some.inj hs
      exact setSuspended_inv h hloop true
    · cases hs
  | resume =>
    simp only [step] at hs
    split at hs
    · next hloop =>
      obtain rfl := Option.some.inj hs
      exact setSuspended_inv h hloop false
    · cases hs
  | sent =>
    simp only [step] at hs
    split at hs
    · next i last hloop =>
      obtain rfl := Option.some.inj hs
      rw [hloop] at hprogress
      obtain ⟨rfl, hlt, hhanded⟩ := hprogress
      exact turn_inv h.queue hlt hhanded
    · cases hs

/-- In the runs that push only outside the sending loop no message is lost, sent twice or sent
out of order. -/
theorem run_inOrder {as : List Action} {s : SendMessages}
    (hrun : Run (Guarded step PushesOutside) empty as s) : s.InOrder :=
  (hrun.invariant (fun _ _ _ h hstep ↦ step_inv h hstep) ⟨rfl, rfl⟩ : s.Inv).inOrder

def datagram (b : UInt8) : Message := ⟨.zero, [b]⟩

def twoMessages : List Action :=
  [.asyncSend (datagram 0) (-1), .asyncSend (datagram 1) (-1), .enterLoop, .suspend, .resume, .sent, .sent]

theorem run_inOrder_twoMessages :
    ∃ s, Run (Guarded step PushesOutside) empty twoMessages s ∧ s.removed = [datagram 0, datagram 1] ∧
      s.InOrder := by
  obtain ⟨s, hrun, hs⟩ : ∃ s, Run (Guarded step PushesOutside) empty twoMessages s ∧
      s.removed = [datagram 0, datagram 1] :=
    exists_run_of_foldlM _ (by decide +kernel)
  exact ⟨s, hrun, hs, run_inOrder hrun⟩

def pushInLoop : List Action :=
  [.asyncSend (datagram 0) (-1), .asyncSend (datagram 1) (-1), .asyncSend (datagram 2) (-1), .enterLoop,
    .suspend, .asyncSend (datagram 3) (-1), .resume, .sent, .sent, .sent]

theorem pushInLoop_loses_message :
    ∃ s, Run (Guarded step fun _ _ ↦ True) empty pushInLoop s ∧
      s.handed = [datagram 0, datagram 1, datagram 2] ∧
      s.removed = [datagram 0, datagram 1, datagram 2, datagram 3] := by
  obtain ⟨s, hrun, hs⟩ : ∃ s, Run (Guarded step fun _ _ ↦ True) empty pushInLoop s ∧
      (s.handed, s.removed) = ([datagram 0, datagram 1, datagram 2],
        [datagram 0, datagram 1, datagram 2, datagram 3]) :=
    exists_run_of_foldlM _ (by decide +kernel)
  simp only [Prod.mk.injEq] at hs
  exact ⟨s, hrun, hs⟩

end SendMessages

end Baize.Webrtc
