import Baize.Lib.Run
import Baize.Util.Types

namespace Baize.Net

open Lib

inductive Errno
  | ok
  | eintr
  | eagain
  | other (code : ℕ)
  deriving DecidableEq, Repr

inductive WriteStage
  | top
  | syscall
  | waiting
  | returned (ret : ℤ)
  deriving DecidableEq, Repr

/-- The variables of `AsyncWrite(buf, count)`, `buf` as an index into the caller's bytes, together
with what has been accepted since the call began. -/
structure WriteCall where
  buf : ℤ
  count : ℤ
  ret : ℤ
  stage : WriteStage
  accepted : Bytes
  deriving DecidableEq, Repr

namespace WriteCall

def start (data : Bytes) : WriteCall := ⟨0, data.length, 0, .top, []⟩

def advance (c : WriteCall) (wn : ℤ) : WriteCall :=
  { c with buf := c.buf + wn, count := c.count - wn, ret := c.ret + wn, stage := .top }

def finish (c : WriteCall) (wn : ℤ) : WriteCall :=
  { c with ret := c.ret + wn, stage := .returned (c.ret + wn) }

def failed (c : WriteCall) (errno : Errno) : WriteCall :=
  if errno = .eintr then { c with stage := .top }
  else if errno = .eagain then { c with stage := .waiting }
  else { c with stage := .returned c.ret }

end WriteCall

def TcpStream.asyncWrite (c : WriteCall) (wn : ℤ) (errno : Errno) : WriteCall :=
  if wn < 0 then c.failed errno
  else if wn = 0 ∧ errno ≠ .ok then { c with stage := .returned c.ret }
  else if wn < c.count then c.advance wn
  else c.finish wn

def TlsStream.asyncWrite (c : WriteCall) (wn : ℤ) (errno : Errno) : WriteCall :=
  if wn ≤ 0 then c.failed errno
  else if wn < c.count then c.advance wn
  else c.finish wn

inductive Transport
  | tcp
  | tls
  deriving DecidableEq, Repr

def Transport.asyncWrite : Transport → WriteCall → ℤ → Errno → WriteCall
  | .tcp => TcpStream.asyncWrite
  | .tls => TlsStream.asyncWrite

def Transport.HardError : Transport → ℤ → Errno → Prop
  | .tcp, wn, errno => wn < 0 ∧ errno ≠ .eintr ∧ errno ≠ .eagain ∨ wn = 0 ∧ errno ≠ .ok
  | .tls, wn, errno => wn ≤ 0 ∧ errno ≠ .eintr ∧ errno ≠ .eagain

instance (t : Transport) (wn : ℤ) (errno : Errno) : Decidable (t.HardError wn errno) := by
  cases t <;> unfold Transport.HardError <;> infer_instance

/-- The routine passes `CheckTicks`, `write` or `SSL_write` comes back, or the wait is over. The
loops set `errno` to zero before they call, so it is `ok` unless the call sets it. -/
inductive WriteAction
  | checkTicks
  | result (wn : ℤ) (errno : Errno)
  | woken
  deriving DecidableEq, Repr

namespace WriteCall

def step (t : Transport) (data : Bytes) (c : WriteCall) : WriteAction → Option WriteCall
  | .checkTicks => if c.stage = .top then some { c with stage := .syscall } else none
  | .result wn errno =>
    if c.stage = .syscall ∧ wn ≤ c.count then
      let accepted := c.accepted ++ (data.drop c.buf.toNat).take wn.toNat
      some { t.asyncWrite c wn errno with accepted := accepted }
    else none
  | .woken => if c.stage = .waiting then some { c with stage := .top } else none

/-- What the two loops can do with a result. -/
inductive Answered (t : Transport) (c : WriteCall) (wn : ℤ) (errno : Errno) : WriteCall → Prop
  | again (stage : WriteStage) (hstage : stage = .top ∨ stage = .waiting) (hwn : wn ≤ 0) :
    Answered t c wn errno { c with stage := stage }
  | stop (hhard : t.HardError wn errno) (hwn : wn ≤ 0) :
    Answered t c wn errno { c with stage := .returned c.ret }
  | advance (hwn : 0 ≤ wn) (hlt : wn < c.count) : Answered t c wn errno (c.advance wn)
  | finish (hwn : 0 ≤ wn) (hle : c.count ≤ wn) : Answered t c wn errno (c.finish wn)

section

variable {t : Transport} {data : Bytes} {c c' : WriteCall} {wn : ℤ} {errno : Errno}

theorem answered_failed (hwn : wn ≤ 0) (hhard : errno ≠ .eintr → errno ≠ .eagain → t.HardError wn errno) :
    Answered t c wn errno (c.failed errno) := by
  unfold failed
  split
  · exact .again _ (.inl rfl) hwn
  · split
    · exact .again _ (.inr rfl) hwn
    · exact .stop (hhard ‹_› ‹_›) hwn

theorem asyncWrite_answered (t : Transport) (c : WriteCall) (wn : ℤ) (errno : Errno) :
    Answered t c wn errno (t.asyncWrite c wn errno) := by
  cases t with
  | tcp =>
    simp only [Transport.asyncWrite, TcpStream.asyncWrite]
    split
    · next hneg => exact answered_failed hneg.le fun hi ha ↦ .inl ⟨hneg, hi, ha⟩
    · next hneg =>
      split
      · next hzero => exact .stop (.inr hzero) hzero.1.le
      · split
        · next hlt => exact .advance (not_lt.mp hneg) hlt
        · next hlt => exact .finish (not_lt.mp hneg) (not_lt.mp hlt)
  | tls =>
    simp only [Transport.asyncWrite, TlsStream.asyncWrite]
    split
    · next hneg => exact answered_failed hneg fun hi ha ↦ ⟨hneg, hi, ha⟩
    · next hneg =>
      split
      · next hlt => exact .advance (not_le.mp hneg).le hlt
      · next hlt => exact .finish (not_le.mp hneg).le (not_lt.mp hlt)

end

/-- The pointer, the rest and the total move together: what was accepted is what lies in front of
`buf`, and as many bytes as `ret` says. -/
structure Inv (data : Bytes) (c : WriteCall) : Prop where
  ret_nonneg : 0 ≤ c.ret
  ret_le : c.ret ≤ data.length
  accepted_eq : c.accepted = data.take c.ret.toNat
  returned_eq : ∀ r, c.stage = .returned r → r = c.ret
  going : (∀ r, c.stage ≠ .returned r) →
    c.buf = c.ret ∧ c.ret + c.count = data.length ∧ (data = [] ∨ 0 < c.count)

section

variable {t : Transport} {data : Bytes} {c c' : WriteCall}

theorem start_inv (data : Bytes) : Inv data (start data) where
  ret_nonneg := le_refl 0
  ret_le := Int.natCast_nonneg _
  accepted_eq := rfl
  returned_eq := fun _ h ↦ by cases h
  going := fun _ ↦ ⟨rfl, zero_add _, or_iff_not_imp_left.mpr fun h ↦
    Int.natCast_pos.mpr (List.length_pos_of_ne_nil h)⟩

theorem Inv.goto (h : Inv data c) (hgoing : ∀ r, c.stage ≠ .returned r) {stage : WriteStage}
    (hstage : ∀ r, stage ≠ .returned r) : Inv data { c with stage := stage } where
  ret_nonneg := h.ret_nonneg
  ret_le := h.ret_le
  accepted_eq := h.accepted_eq
  returned_eq := fun r hr ↦ absurd hr (hstage r)
  going := fun _ ↦ h.going hgoing

theorem Inv.accept (h : Inv data c) (hgoing : ∀ r, c.stage ≠ .returned r) {wn : ℤ} (hwn : 0 ≤ wn) :
    c.accepted ++ (data.drop c.buf.toNat).take wn.toNat = data.take (c.ret + wn).toNat := by
  rw [h.accepted_eq, (h.going hgoing).1, Int.toNat_add h.ret_nonneg hwn, List.take_add]

theorem Inv.result (h : Inv data c) (hstage : c.stage = .syscall) {wn : ℤ} {errno : Errno} (hle : wn ≤ c.count)
    (ha : Answered t c wn errno c') :
    Inv data { c' with accepted := c.accepted ++ (data.drop c.buf.toNat).take wn.toNat } ∧
      ∀ r, c'.stage = .returned r → r = data.length ∨ t.HardError wn errno := by
  have hgoing : ∀ r, c.stage ≠ .returned r := by
    intro r hr
    cases hstage.symm.trans hr
  obtain ⟨hbuf, hcount, -⟩ := h.going hgoing
  have hnone : wn ≤ 0 → c.accepted ++ (data.drop c.buf.toNat).take wn.toNat = c.accepted := by
    intro hwn
    rw [Int.toNat_eq_zero.mpr hwn, List.take_zero, List.append_nil]
  have hret := h.ret_nonneg
  cases ha with
  | again stage hto hwn =>
    have hne : ∀ r, stage ≠ .returned r := by
      rintro r rfl
      cases hto with
      | inl heq => cases heq
      | inr heq => cases heq
    refine ⟨?_, fun r hr ↦ absurd hr (hne r)⟩
    rw [hnone hwn]
    exact h.goto hgoing hne
  | stop hhard hwn =>
    rw [hnone hwn]
    refine ⟨⟨h.ret_nonneg, h.ret_le, h.accepted_eq, ?_, fun hnot ↦ absurd rfl (hnot c.ret)⟩,
      fun _ _ ↦ .inr hhard⟩
    intro r hr
    exact (WriteStage.returned.inj hr).symm
  | advance hwn hlt =>
    refine ⟨⟨?_, ?_, h.accept hgoing hwn, fun r hr ↦ ?_, fun _ ↦ ⟨?_, ?_, .inr ?_⟩⟩, fun r hr ↦ ?_⟩
    · simp only [WriteCall.advance]; omega
    · simp only [WriteCall.advance]; omega
    · cases hr
    · simp only [WriteCall.advance]; omega
    · simp only [WriteCall.advance]; omega
    · simp only [WriteCall.advance]; omega
    · cases hr
  | finish hwn hge =>
    refine ⟨⟨?_, ?_, h.accept hgoing hwn, fun r hr ↦ ?_, fun hnot ↦ absurd rfl (hnot (c.ret + wn))⟩,
      fun r hr ↦ ?_⟩
    · simp only [WriteCall.finish]; omega
    · simp only [WriteCall.finish]; omega
    · exact (WriteStage.returned.inj hr).symm
    · left
      rw [← WriteStage.returned.inj hr]
      omega

def After (t : Transport) (data : Bytes) (as : List WriteAction) (c : WriteCall) : Prop :=
  Inv data c ∧ ∀ r, c.stage = .returned r →
    r = data.length ∨ ∃ wn errno, WriteAction.result wn errno ∈ as ∧ t.HardError wn errno

theorem After.goto {as as' : List WriteAction} (h : After t data as c) (hgoing : ∀ r, c.stage ≠ .returned r)
    {stage : WriteStage} (hstage : ∀ r, stage ≠ .returned r) : After t data as' { c with stage := stage } :=
  ⟨h.1.goto hgoing hstage, fun r hr ↦ absurd hr (hstage r)⟩

theorem step_after {as : List WriteAction} {a : WriteAction} (h : After t data as c)
    (hs : step t data c a = some c') : After t data (as ++ [a]) c' := by
  cases a with
  | checkTicks =>
    simp only [step] at hs
    split at hs
    · next hstage =>
      obtain rfl := Option.some.inj hs
      exact h.goto (by simp [hstage]) (by simp)
    · cases hs
  | result wn errno =>
    simp only [step] at hs
    split at hs
    · next hcall =>
      obtain rfl := Option.some.inj hs
      obtain ⟨hinv, hend⟩ := h.1.result hcall.1 hcall.2 (asyncWrite_answered t c wn errno)
      refine ⟨hinv, fun r hr ↦ (hend r hr).imp_right fun hhard ↦ ⟨wn, errno, ?_, hhard⟩⟩
      exact List.mem_append_right _ List.mem_cons_self
    · cases hs
  | woken =>
    simp only [step] at hs
    split at hs
    · next hstage =>
      obtain rfl := Option.some.inj hs
      exact h.goto (by simp [hstage]) (by simp)
    · cases hs

theorem run_after {as : List WriteAction}
    (hrun : Run (fun c a c' ↦ step t data c a = some c') (start data) as c) : After t data as c := by
  have hstart : After t data [] (start data) := ⟨start_inv data, fun _ h ↦ by cases h⟩
  have hend := hrun.invariant_history (fun a ↦ [a]) (fun _ _ _ _ h hs ↦ step_after h hs) hstart
  rwa [List.nil_append, List.flatMap_singleton'] at hend

/-- Whatever `write` or `SSL_write` answer and however often the routine is suspended: a call that
returns `r` has sent the first `r` bytes, all of them unless there was an error that is not retried. -/
theorem run_sends_front (t : Transport) (data : Bytes) {as : List WriteAction} {c : WriteCall} {r : ℤ}
    (hrun : Run (fun c a c' ↦ step t data c a = some c') (start data) as c) (hret : c.stage = .returned r) :
    0 ≤ r ∧ r ≤ data.length ∧ c.accepted = data.take r.toNat ∧
      (r = data.length ∨ ∃ wn errno, WriteAction.result wn errno ∈ as ∧ t.HardError wn errno) := by
  obtain ⟨hinv, hend⟩ := run_after hrun
  obtain rfl := hinv.returned_eq r hret
  exact ⟨hinv.ret_nonneg, hinv.ret_le, hinv.accepted_eq, hend _ hret⟩

def twoParts : List WriteAction :=
  [.checkTicks, .result 1 .ok, .checkTicks, .result (-1) .eintr, .checkTicks, .result (-1) .eagain, .woken,
    .checkTicks, .result 2 .ok]

theorem run_sends_front_twoParts :
    ∃ c, Run (fun c a c' ↦ step .tls [1, 2, 3] c a = some c') (start [1, 2, 3]) twoParts c ∧
      c.stage = .returned 3 ∧ c.accepted = [1, 2, 3] := by
  have hsteps : (twoParts.foldlM (step .tls [1, 2, 3]) (start [1, 2, 3])).map stage = some (.returned 3) := rfl
  obtain ⟨c, hrun, hret⟩ := exists_run_of_steps stage hsteps
  exact ⟨c, hrun, hret, (run_sends_front .tls [1, 2, 3] hrun hret).2.2.1⟩

end

end WriteCall

end Baize.Net
