import Baize.Lib.Run
import Baize.Net.InetAddress

namespace Baize.Net

open Lib

inductive AcceptErrno
  | eagain
  | econnaborted
  | eintr
  | eproto
  | eperm
  | emfile
  | ebadf
  | efault
  | einval
  | enfile
  | enobufs
  | enomem
  | enotsock
  | eopnotsupp
  | other (code : ℕ)
  deriving DecidableEq, Repr

structure TcpStream where
  fd : ℕ
  peeraddr : InetAddress
  deriving DecidableEq

inductive AcceptResult
  | conn (stream : TcpStream)
  | error (errno : AcceptErrno)
  deriving DecidableEq

/-- The errors that `Socket::Accept` gives to its caller; at the others `LOG_FATAL` aborts the process. -/
def AcceptErrno.returns : AcceptErrno → Bool
  | .eagain | .econnaborted | .eintr | .eproto | .eperm | .emfile => true
  | .ebadf | .efault | .einval | .enfile | .enobufs | .enomem | .enotsock | .eopnotsupp | .other _ => false

def Socket.accept : AcceptResult → Option AcceptResult
  | .conn stream => some (.conn stream)
  | .error errno => if errno.returns then some (.error errno) else none

/-- Where a call of `AsyncAccept` is: in front of `CheckTicks`, at `accept4`, in `WaitRead`, or back with
its pointer. -/
inductive AcceptStage
  | top
  | syscall
  | waiting
  | returned (stream : Option TcpStream)
  deriving DecidableEq

def TcpListener.asyncAccept : AcceptResult → AcceptStage
  | .conn stream => .returned (some stream)
  | .error errno =>
    if errno = .eintr then .top
    else if errno = .eagain then .waiting
    else .returned none

/-- The loop of `StartSignalServer` is in `AsyncAccept`; or it has called `peer_ip_port` through a null
pointer; or the process was aborted. -/
inductive ListenStage
  | accepting (stage : AcceptStage)
  | nullPointer
  | aborted
  deriving DecidableEq

structure SignalListener where
  stage : ListenStage
  streams : List TcpStream
  deriving DecidableEq

inductive SignalListener.Action
  | checkTicks
  | result (r : AcceptResult)
  | woken
  deriving DecidableEq

namespace SignalListener

def start : SignalListener := ⟨.accepting .top, []⟩

def proceed (s : SignalListener) : AcceptStage → SignalListener
  | .returned (some stream) => ⟨.accepting .top, s.streams ++ [stream]⟩
  | .returned none => { s with stage := .nullPointer }
  | stage => { s with stage := .accepting stage }

def step (s : SignalListener) : Action → Option SignalListener
  | .checkTicks => if s.stage = .accepting .top then some { s with stage := .accepting .syscall } else none
  | .woken => if s.stage = .accepting .waiting then some { s with stage := .accepting .top } else none
  | .result r =>
    if s.stage = .accepting .syscall then
      match Socket.accept r with
      | none => some { s with stage := .aborted }
      | some r => some (s.proceed (TcpListener.asyncAccept r))
    else none

def accepted : Action → Option TcpStream
  | .result (.conn stream) => some stream
  | _ => none

def Dropped (e : AcceptErrno) : Prop := e.returns = true ∧ e ≠ .eintr ∧ e ≠ .eagain

/-- What has to have happened for the loop to be where it is. -/
structure Inv (as : List Action) (s : SignalListener) : Prop where
  streams : s.streams = as.filterMap accepted
  nullPointer : s.stage = .nullPointer ↔ ∃ e, .result (.error e) ∈ as ∧ Dropped e
  aborted : s.stage = .aborted ↔ ∃ e, .result (.error e) ∈ as ∧ e.returns = false

section

variable {as : List Action} {s s' : SignalListener} {a : Action}

theorem start_inv : Inv [] start := ⟨rfl, by simp [start], by simp [start]⟩

theorem Inv.go_on (h : Inv as s) {stage : AcceptStage} (hstage : s.stage = .accepting stage)
    (ha : ∀ e, a = .result (.error e) → e = .eintr ∨ e = .eagain) {stage' : AcceptStage}
    (hs' : s'.stage = .accepting stage') (hstreams : s'.streams = s.streams ++ (accepted a).toList) :
    Inv (as ++ [a]) s' := by
  have hnone : ∀ P : AcceptErrno → Prop, (¬∃ e, .result (.error e) ∈ as ∧ P e) → (¬P .eintr) → (¬P .eagain) →
      ¬∃ e, .result (.error e) ∈ as ++ [a] ∧ P e := by
    rintro P hno hintr hagain ⟨e, hmem, hP⟩
    rw [List.mem_append, List.mem_singleton] at hmem
    obtain hmem | heq := hmem
    · exact hno ⟨e, hmem, hP⟩
    · obtain rfl | rfl := ha e heq.symm
      · exact hintr hP
      · exact hagain hP
  refine ⟨?_, ?_, ?_⟩
  · rw [hstreams, h.streams, List.filterMap_append]
    cases hacc : accepted a with
    | none => rw [List.filterMap_cons_none hacc]; rfl
    | some stream => rw [List.filterMap_cons_some hacc]; rfl
  · rw [hs']
    refine iff_of_false (fun heq ↦ by cases heq) (hnone Dropped ?_ (by simp [Dropped]) (by simp [Dropped]))
    rw [← h.nullPointer, hstage]
    exact fun heq ↦ by cases heq
  · rw [hs']
    refine iff_of_false (fun heq ↦ by cases heq)
      (hnone _ ?_ (by simp [AcceptErrno.returns]) (by simp [AcceptErrno.returns]))
    rw [← h.aborted, hstage]
    exact fun heq ↦ by cases heq

theorem Inv.stop (h : Inv as s) (hstage : s.stage = .accepting .syscall) {e : AcceptErrno}
    (hstreams : s'.streams = s.streams) (hnull : s'.stage = .nullPointer ↔ Dropped e)
    (haborted : s'.stage = .aborted ↔ e.returns = false) : Inv (as ++ [.result (.error e)]) s' := by
  have hlast : ∀ P : AcceptErrno → Prop, (¬∃ e', .result (.error e') ∈ as ∧ P e') →
      ((∃ e', .result (.error e') ∈ as ++ [.result (.error e)] ∧ P e') ↔ P e) := by
    intro P hno
    constructor
    · rintro ⟨e', hmem, hP⟩
      rw [List.mem_append, List.mem_singleton] at hmem
      obtain hmem | heq := hmem
      · exact absurd ⟨e', hmem, hP⟩ hno
      · cases heq
        exact hP
    · intro hP
      exact ⟨e, List.mem_append_right _ (List.mem_singleton_self _), hP⟩
  refine ⟨?_, ?_, ?_⟩
  · rw [hstreams, h.streams, List.filterMap_append, List.filterMap_cons_none rfl, List.filterMap_nil,
      List.append_nil]
  · rw [hnull, hlast]
    rw [← h.nullPointer, hstage]
    exact fun heq ↦ by cases heq
  · rw [haborted, hlast]
    rw [← h.aborted, hstage]
    exact fun heq ↦ by cases heq

theorem Inv.result (h : Inv as s) (hstage : s.stage = .accepting .syscall) {r : AcceptResult}
    (hstep : step s (.result r) = some s') : Inv (as ++ [.result r]) s' := by
  simp only [step, if_pos hstage] at hstep
  cases r with
  | conn stream =>
    cases hstep
    exact h.go_on hstage (fun e he ↦ by cases he) rfl rfl
  | error e =>
    by_cases hret : e.returns = true
    · rw [Socket.accept, if_pos hret] at hstep
      cases hstep
      by_cases hintr : e = .eintr
      · subst hintr
        exact h.go_on hstage (fun e he ↦ by cases he; exact .inl rfl) rfl (List.append_nil _).symm
      by_cases hagain : e = .eagain
      · subst hagain
        exact h.go_on hstage (fun e he ↦ by cases he; exact .inr rfl) rfl (List.append_nil _).symm
      rw [TcpListener.asyncAccept, if_neg hintr, if_neg hagain]
      exact h.stop hstage rfl (iff_of_true rfl ⟨hret, hintr, hagain⟩)
        (iff_of_false (fun heq ↦ by cases heq) (by rw [hret]; exact Bool.noConfusion))
    · rw [Socket.accept, if_neg hret] at hstep
      cases hstep
      exact h.stop hstage rfl (iff_of_false (fun heq ↦ by cases heq) (fun hdropped ↦ hret hdropped.1))
        (iff_of_true rfl (Bool.eq_false_iff.mpr hret))

theorem step_inv (h : Inv as s) (hstep : step s a = some s') : Inv (as ++ [a]) s' := by
  cases a with
  | checkTicks =>
    obtain ⟨hstage, heq⟩ := Option.ite_none_right_eq_some.mp hstep
    cases heq
    exact h.go_on hstage (fun e he ↦ by cases he) rfl (List.append_nil _).symm
  | woken =>
    obtain ⟨hstage, heq⟩ := Option.ite_none_right_eq_some.mp hstep
    cases heq
    exact h.go_on hstage (fun e he ↦ by cases he) rfl (List.append_nil _).symm
  | result r =>
    obtain ⟨hstage, -⟩ := Option.ite_none_right_eq_some.mp hstep
    exact h.result hstage hstep

end

end SignalListener

end Baize.Net
