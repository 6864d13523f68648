import Baize.Net.AsyncWrite
import Baize.Net.BufferQueue

namespace Baize.Net

open Lib

inductive ReadStage
  | top
  | syscall
  | waiting
  deriving DecidableEq, Repr

inductive EchoStage
  | reading (stage : ReadStage)
  | writing (call : WriteCall)
  | closed
  | failed (fault : Fault)
  deriving DecidableEq, Repr

/-- A call of `echo_connection`. `received` is what the reads have put into `read_buf`, and `written` what
the stream has accepted in the writes that are back. -/
structure EchoConnection where
  readBuf : Buffer
  stage : EchoStage
  received : Bytes
  written : Bytes
  deriving DecidableEq

inductive EchoAction
  | checkTicks
  | read (r : Except Errno Bytes)
  | woken
  | write (a : WriteAction)

namespace EchoConnection

def start (buf : Buffer) : EchoConnection := ⟨buf, .reading .top, [], []⟩

def afterRead (s : EchoConnection) : Except Errno Bytes → EchoConnection
  | .error .eintr => { s with stage := .reading .top }
  | .error .eagain => { s with stage := .reading .waiting }
  | .error .ok | .error (.other _) => { s with stage := .closed }
  | .ok d =>
    match s.readBuf.readFd (some d) with
    | .error fault => { s with stage := .failed fault }
    | .ok readBuf =>
      if d = [] then { s with readBuf := readBuf, stage := .closed }
      else { s with readBuf := readBuf, stage := .writing (.start readBuf.slice), received := s.received ++ d }

def afterWrite (s : EchoConnection) (call : WriteCall) : EchoConnection :=
  match call.stage with
  | .returned wn =>
    if wn ≠ s.readBuf.readableBytes then { s with stage := .closed, written := s.written ++ call.accepted }
    else { s with readBuf := s.readBuf.takeAll, stage := .reading .top, written := s.written ++ call.accepted }
  | _ => { s with stage := .writing call }

def step (s : EchoConnection) : EchoAction → Option EchoConnection
  | .checkTicks => if s.stage = .reading .top then some { s with stage := .reading .syscall } else none
  | .read r => if s.stage = .reading .syscall then some (s.afterRead r) else none
  | .woken => if s.stage = .reading .waiting then some { s with stage := .reading .top } else none
  | .write a =>
    match s.stage with
    | .writing call => (call.step .tcp s.readBuf.slice a).map s.afterWrite
    | _ => none

def Pre (s : EchoConnection) : EchoAction → Prop
  | .read (.ok d) => (d.length : ℤ) ≤ s.readBuf.readvLimit
  | .read (.error _) | .checkTicks | .woken | .write _ => True

instance (s : EchoConnection) : DecidablePred s.Pre
  | .read (.ok d) => inferInstanceAs (Decidable ((d.length : ℤ) ≤ s.readBuf.readvLimit))
  | .read (.error _) | .checkTicks | .woken | .write _ => inferInstanceAs (Decidable True)

def sent (s : EchoConnection) : Bytes :=
  match s.stage with
  | .writing call => s.written ++ call.accepted
  | _ => s.written

/-- Some write has failed for good. -/
def WriteFails (as : List EchoAction) : Prop :=
  ∃ wn errno, .write (.result wn errno) ∈ as ∧ Transport.HardError .tcp wn errno

/-- The most that `read_buf` can grow to: a read beyond the room that is left takes 65536 bytes more at
most, and only when less than that was left. -/
def kMaxSize : ℕ := 8 + 65535 + 65536

/-- The invariant, by the place where the connection is. -/
inductive Serves (as : List EchoAction) (s : EchoConnection) : Prop
  | reading {stage : ReadStage} (hstage : s.stage = .reading stage) (hbuf : s.readBuf.Holds [])
    (hindex : s.readBuf.writerIndex = 8) (hsize : s.readBuf.buffer.length ≤ kMaxSize)
    (hwritten : s.written = s.received)
  | writing {call : WriteCall} {p : Bytes} {ws : List WriteAction} (hstage : s.stage = .writing call)
    (hbuf : s.readBuf.Holds p) (hsize : s.readBuf.buffer.length ≤ kMaxSize)
      (hreceived : s.received = s.written ++ p)
    (hafter : WriteCall.After .tcp p ws call) (hws : ∀ a ∈ ws, .write a ∈ as)
  | closed (hstage : s.stage = .closed) (hsize : s.readBuf.buffer.length ≤ kMaxSize)
    (hwritten : s.written <+: s.received) (hall : s.written = s.received ∨ WriteFails as)

section

variable {as : List EchoAction} {a : EchoAction} {s s' : EchoConnection}

theorem start_serves {buf : Buffer} (hbuf : Buffer.make Buffer.kInitialSize = .ok buf) :
    Serves [] (start buf) := by
  obtain ⟨b, hmake, hb, -⟩ := Buffer.make_spec (n := 1508) (by decide)
  obtain rfl : b = buf := Except.ok.inj (hmake.symm.trans hbuf)
  have hbytes : b = ⟨List.replicate 1516 0, 8, 8⟩ := Except.ok.inj (hmake.symm.trans (by decide +kernel))
  refine .reading rfl hb ?_ ?_ rfl
  · rw [start, hbytes]
  · rw [start, hbytes, List.length_replicate]
    decide

theorem readFd_bounded {b : Buffer} {d : Bytes} (hb : b.Holds []) (hindex : b.writerIndex = 8)
    (hsize : b.buffer.length ≤ kMaxSize) (hd : (d.length : ℤ) ≤ b.readvLimit) :
    ∃ b', b.readFd (some d) = .ok b' ∧ b'.Holds d ∧ b'.buffer.length ≤ kMaxSize := by
  have hfor : b.readFdSize d ≤ kMaxSize := by
    unfold Buffer.readFdSize
    split_ifs with hfit
    · exact Int.ofNat_le.mpr hsize
    · have hwritable : b.writableBytes = b.buffer.length - 8 := by rw [Buffer.writableBytes, hindex]
      unfold Buffer.readvLimit Buffer.iovcnt Buffer.extrabufSize at hd
      unfold Buffer.sizeFor
      split_ifs at hd ⊢ <;> simp only [kMaxSize] at * <;> omega
  obtain ⟨b', hread, hholds, hlen⟩ := Buffer.readFd_spec hb (hfor.trans_lt (by decide))
  exact ⟨b', hread, hholds, Int.ofNat_le.mp (hlen.trans_le hfor)⟩

theorem Serves.goto (h : Serves as s) {stage : ReadStage} (hstage : s.stage = .reading stage)
    (stage' : ReadStage) : Serves (as ++ [a]) { s with stage := .reading stage' } := by
  cases h with
  | reading _ hbuf hindex hsize hwritten => exact .reading rfl hbuf hindex hsize hwritten
  | writing hstage' => cases hstage.symm.trans hstage'
  | closed hstage' => cases hstage.symm.trans hstage'

theorem Serves.afterRead (h : Serves as s) (hstage : s.stage = .reading .syscall) {r : Except Errno Bytes}
    (hpre : s.Pre (.read r)) : Serves (as ++ [.read r]) (s.afterRead r) := by
  cases h with
  | writing hstage' => cases hstage.symm.trans hstage'
  | closed hstage' => cases hstage.symm.trans hstage'
  | reading _ hbuf hindex hsize hwritten =>
    have hclosed : Serves (as ++ [.read r]) { s with stage := .closed } :=
      .closed rfl hsize (hwritten ▸ List.prefix_rfl) (.inl hwritten)
    cases r with
    | error errno =>
      cases errno with
      | eintr => exact .reading rfl hbuf hindex hsize hwritten
      | eagain => exact .reading rfl hbuf hindex hsize hwritten
      | ok => exact hclosed
      | other code => exact hclosed
    | ok d =>
      obtain ⟨b, hread, hholds, hlen⟩ := readFd_bounded hbuf hindex hsize hpre
      rw [EchoConnection.afterRead, hread]
      dsimp only
      split_ifs with hd
      · exact .closed rfl hlen (hwritten ▸ List.prefix_rfl) (.inl hwritten)
      · refine .writing rfl hholds hlen ?_ ⟨?_, fun _ hr ↦ (by cases hr)⟩ (List.forall_mem_nil _)
        · rw [hwritten]
        · rw [hholds.slice_eq]
          exact WriteCall.start_inv d

theorem Serves.afterWrite (h : Serves as s) {call call' : WriteCall} (hstage : s.stage = .writing call)
    {w : WriteAction} (hstep : call.step .tcp s.readBuf.slice w = some call') :
    Serves (as ++ [.write w]) (s.afterWrite call') := by
  cases h with
  | reading hstage' => cases hstage.symm.trans hstage'
  | closed hstage' => cases hstage.symm.trans hstage'
  | @writing call₀ p ws hstage' hbuf hsize hreceived hafter hws =>
    obtain rfl := EchoStage.writing.inj (hstage.symm.trans hstage')
    rw [hbuf.slice_eq] at hstep
    have hafter' := WriteCall.step_after hafter hstep
    have hws' : ∀ a ∈ ws ++ [w], EchoAction.write a ∈ as ++ [.write w] := by
      intro a ha
      rw [List.mem_append, List.mem_singleton] at ha
      obtain ha | rfl := ha
      · exact List.mem_append_left _ (hws a ha)
      · exact List.mem_append_right _ (List.mem_singleton_self _)
    have hgoing : Serves (as ++ [.write w]) { s with stage := .writing call' } :=
      .writing rfl hbuf hsize hreceived hafter' hws'
    have haccepted := hafter'.1.accepted_eq
    unfold EchoConnection.afterWrite
    cases hend : call'.stage with
    | top => exact hgoing
    | syscall => exact hgoing
    | waiting => exact hgoing
    | returned wn =>
      obtain rfl := hafter'.1.returned_eq wn hend
      dsimp only
      rw [hbuf.readable_eq]
      split_ifs with hwn
      · refine .closed rfl hsize ?_ (.inr ?_)
        · rw [hreceived, haccepted]
          exact (List.prefix_append_right_inj _).mpr (List.take_prefix _ _)
        · obtain hall | ⟨n, errno, hmem, hhard⟩ := hafter'.2 _ hend
          · exact absurd hall hwn
          · exact ⟨n, errno, hws' _ hmem, hhard⟩
      · refine .reading rfl (Buffer.takeAll_holds hbuf) rfl hsize ?_
        have hall : p.take call'.ret.toNat = p := List.take_of_length_le (by omega)
        rw [haccepted, hall]
        exact hreceived.symm

theorem step_serves (h : Serves as s) (hpre : s.Pre a) (hstep : step s a = some s') : Serves (as ++ [a]) s' := by
  cases a with
  | checkTicks =>
    obtain ⟨hstage, heq⟩ := Option.ite_none_right_eq_some.mp hstep
    exact Option.some.inj heq ▸ h.goto hstage .syscall
  | woken =>
    obtain ⟨hstage, heq⟩ := Option.ite_none_right_eq_some.mp hstep
    exact Option.some.inj heq ▸ h.goto hstage .top
  | read r =>
    obtain ⟨hstage, heq⟩ := Option.ite_none_right_eq_some.mp hstep
    exact Option.some.inj heq ▸ h.afterRead hstage hpre
  | write w =>
    unfold step at hstep
    cases hstage : s.stage with
    | writing call =>
      rw [hstage] at hstep
      obtain ⟨call', hcall, rfl⟩ := Option.map_eq_some_iff.mp hstep
      exact h.afterWrite hstage hcall
    | reading stage | closed | failed fault =>
      rw [hstage] at hstep
      cases hstep

/-- Whatever the reads and writes answer: the connection sends back the bytes it has received, in their
order and none twice; whenever it waits for more it has sent back all of them, and it never ends short of
that unless a write has failed. No access faults, and the buffer stays below its bound. -/
theorem run_sends_back {buf : Buffer} (hbuf : Buffer.make Buffer.kInitialSize = .ok buf)
    (hrun : Run (Guarded step Pre) (start buf) as s) :
    s.sent <+: s.received ∧ (∀ stage, s.stage = .reading stage → s.sent = s.received) ∧
      (s.stage = .closed → s.sent = s.received ∨ WriteFails as) ∧ (∀ fault, s.stage ≠ .failed fault) ∧
      s.readBuf.buffer.length ≤ kMaxSize := by
  have hinv := hrun.invariant_history (fun a ↦ [a]) (l := []) (I := Serves)
    (fun _ _ _ _ h hstep ↦ step_serves h hstep.1 hstep.2) (start_serves hbuf)
  rw [List.nil_append, List.flatMap_singleton'] at hinv
  cases hinv with
  | reading hstage _ _ hsize hwritten =>
    have hsent : s.sent = s.received := by simp only [sent, hstage, hwritten]
    refine ⟨hsent ▸ List.prefix_rfl, fun _ _ ↦ hsent, fun _ ↦ .inl hsent, fun fault hfault ↦ ?_, hsize⟩
    cases hstage.symm.trans hfault
  | @writing call p ws hstage _ hsize hreceived hafter _ =>
    have hsent : s.sent = s.written ++ p.take call.ret.toNat := by
      simp only [sent, hstage, hafter.1.accepted_eq]
    refine ⟨?_, fun stage hreading ↦ ?_, fun hclosed ↦ ?_, fun fault hfault ↦ ?_, hsize⟩
    · rw [hsent, hreceived]
      exact (List.prefix_append_right_inj _).mpr (List.take_prefix _ _)
    · cases hstage.symm.trans hreading
    · cases hstage.symm.trans hclosed
    · cases hstage.symm.trans hfault
  | closed hstage hsize hwritten hall =>
    have hsent : s.sent = s.written := by simp only [sent, hstage]
    refine ⟨hsent ▸ hwritten, fun stage hreading ↦ ?_, fun _ ↦ hsent ▸ hall, fun fault hfault ↦ ?_, hsize⟩
    · cases hstage.symm.trans hreading
    · cases hstage.symm.trans hfault

end

def threeBack : List EchoAction :=
  [.checkTicks, .read (.error .eagain), .woken, .checkTicks, .read (.ok [1, 2, 3]), .write .checkTicks,
    .write (.result 2 .ok), .write .checkTicks, .write (.result 1 .ok)]

theorem run_sends_back_threeBack : ∃ buf s, Buffer.make Buffer.kInitialSize = .ok buf ∧
    Run (Guarded step Pre) (start buf) threeBack s ∧ s.received = [1, 2, 3] ∧ s.sent = s.received := by
  have hmake : Buffer.make Buffer.kInitialSize = .ok ⟨List.replicate 1516 0, 8, 8⟩ := by decide +kernel
  have hsteps : (threeBack.foldlM (fun s a ↦ if Pre s a then step s a else none)
      (start ⟨List.replicate 1516 0, 8, 8⟩)).map (fun s ↦ (s.stage, s.received)) =
        some (.reading .top, [1, 2, 3]) := by
    decide +kernel
  obtain ⟨s, hrun, hobs⟩ := exists_run_of_foldlM _ hsteps
  obtain ⟨hstage, hreceived⟩ := Prod.mk.inj hobs
  exact ⟨_, s, hmake, hrun, hreceived, (run_sends_back hmake hrun).2.1 _ hstage⟩

end EchoConnection

end Baize.Net
