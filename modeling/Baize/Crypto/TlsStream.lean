import Baize.Net.AsyncWrite

namespace Baize.Net.TlsStream

/-- What `SSL_read`, `SSL_accept` or `SSL_connect` come back with: the value, what `errno` is set to
if a system call fails in it, and whether the wait that may follow ends by its timeout. -/
structure Answer where
  ret : ℤ
  errno : Option Errno
  timeout : Bool
  deriving DecidableEq, Repr

def Answer.ProtocolFailure (a : Answer) : Prop := a.ret < 0 ∧ a.errno = none

instance (a : Answer) : Decidable a.ProtocolFailure := inferInstanceAs (Decidable (_ ∧ _))

inductive Decision
  | returned (ret : ℤ)
  | retry
  | wait
  | waitedOut (ret : ℤ)
  deriving DecidableEq, Repr

def Decision.goesOn : Decision → Bool
  | .retry | .wait => true
  | .returned _ | .waitedOut _ => false

structure Turn where
  errno : Errno
  answer : Answer
  decision : Decision
  deriving DecidableEq, Repr

/-- `errno` when the library is called. `left` is what the routines that ran while this one was
suspended have put there, if they have; a loop with `reset` sets it to zero. -/
def entering (reset : Bool) (errno : Errno) (left : Option Errno) : Errno :=
  if reset then .ok else left.getD errno

def loop (reset : Bool) (decision : Errno → Answer → Decision) (errno : Errno) (left : ℕ → Option Errno) :
    List Answer → List Turn
  | [] => []
  | a :: as =>
    let errno := entering reset errno (left 0)
    let seen := a.errno.getD errno
    let d := decision seen a
    ⟨errno, a, d⟩ :: if d.goesOn then loop reset decision seen (fun n ↦ left (n + 1)) as else []

/-- What both `AsyncRead` do behind `SSL_read`; `timed` tells the one with `ms` and `timeout`. -/
def readDecision (timed : Bool) (errno : Errno) (a : Answer) : Decision :=
  if a.ret < 0 then
    if errno = .eintr then .retry
    else if errno = .eagain then
      if timed ∧ a.timeout then .waitedOut a.ret else .wait
    else .returned a.ret
  else .returned a.ret

def asyncRead (timed : Bool) : Errno → (ℕ → Option Errno) → List Answer → List Turn :=
  loop false (readDecision timed)

def handshakeDecision (errno : Errno) (a : Answer) : Decision :=
  if a.ret ≤ 0 then
    if errno = .eintr then .retry
    else if errno = .eagain then .wait
    else .returned a.ret
  else .returned a.ret

def handshake : Errno → (ℕ → Option Errno) → List Answer → List Turn := loop true handshakeDecision

def decisions (turns : List Turn) : List Decision := turns.map Turn.decision

def Reported (turns : List Turn) : Prop :=
  ∀ u ∈ turns, u.answer.ProtocolFailure → u.decision = .returned u.answer.ret

/-- Where the protocol fails, `errno` does not happen to ask for another try. -/
def Clean (turns : List Turn) : Prop :=
  ∀ u ∈ turns, u.answer.ProtocolFailure → u.errno ≠ .eintr ∧ u.errno ≠ .eagain

section Loop

variable {reset : Bool} {decision : Errno → Answer → Decision} {answers : List Answer}

theorem turn_spec {errno : Errno} {left : ℕ → Option Errno} {u : Turn}
    (h : u ∈ loop reset decision errno left answers) :
    u.decision = decision (u.answer.errno.getD u.errno) u.answer ∧ (reset = true → u.errno = .ok) := by
  induction answers generalizing errno left with
  | nil => cases h
  | cons a as ih =>
    rw [loop, List.mem_cons] at h
    obtain rfl | h := h
    · exact ⟨rfl, fun hr ↦ if_pos hr⟩
    · split at h
      · exact ih h
      · cases h

theorem decisions_eq_of_agree {e₁ e₂ : Errno} {left₁ left₂ : ℕ → Option Errno}
    (h : ∀ u ∈ loop reset decision e₁ left₁ answers, ∀ v ∈ loop reset decision e₂ left₂ answers,
      u.answer = v.answer → u.decision = v.decision) :
    decisions (loop reset decision e₁ left₁ answers) = decisions (loop reset decision e₂ left₂ answers) := by
  induction answers generalizing e₁ e₂ left₁ left₂ with
  | nil => rfl
  | cons a as ih =>
    rw [loop, loop] at h ⊢
    have hhead := h _ List.mem_cons_self _ List.mem_cons_self rfl
    dsimp only at h hhead ⊢
    rw [hhead] at h ⊢
    rw [decisions, List.map_cons, decisions, List.map_cons, List.cons.injEq]
    refine ⟨rfl, ?_⟩
    split
    · next hgo =>
      rw [if_pos hgo, if_pos hgo] at h
      exact ih fun u hu v hv ↦ h u (List.mem_cons_of_mem _ hu) v (List.mem_cons_of_mem _ hv)
    · rfl

end Loop

theorem handshake_independent (answers : List Answer) (e₁ e₂ : Errno) (left₁ left₂ : ℕ → Option Errno) :
    decisions (handshake e₁ left₁ answers) = decisions (handshake e₂ left₂ answers) ∧
      Reported (handshake e₁ left₁ answers) := by
  constructor
  · refine decisions_eq_of_agree fun u hu v hv hans ↦ ?_
    obtain ⟨hu, hok⟩ := turn_spec hu
    obtain ⟨hv, hok'⟩ := turn_spec hv
    rw [hu, hv, hok rfl, hok' rfl, hans]
  · intro u hu hfail
    obtain ⟨hu, hok⟩ := turn_spec hu
    rw [hu, hok rfl, hfail.2, handshakeDecision, if_pos hfail.1.le]
    rfl

theorem readDecision_eq_returned_iff (timed : Bool) (errno : Errno) {a : Answer} (h : a.ret < 0) :
    readDecision timed errno a = .returned a.ret ↔ errno ≠ .eintr ∧ errno ≠ .eagain := by
  rw [readDecision, if_pos h]
  split_ifs with hi ha ht
  · simp [hi]
  · simp [ha]
  · simp [ha]
  · simp [hi, ha]

theorem reported_iff_clean {timed : Bool} {errno : Errno} {left : ℕ → Option Errno} {answers : List Answer} :
    Reported (asyncRead timed errno left answers) ↔ Clean (asyncRead timed errno left answers) := by
  refine forall₂_congr fun u hu ↦ forall_congr' fun hfail ↦ ?_
  rw [(turn_spec hu).1, hfail.2]
  exact readDecision_eq_returned_iff timed u.errno hfail.1

/-- Two reads that `SSL_read` answers alike decide alike and report every failure of the protocol,
exactly if neither `EINTR` nor `EAGAIN` is left in `errno` where the protocol fails. -/
theorem asyncRead_independent_iff (timed : Bool) (answers : List Answer) (e₁ e₂ : Errno)
    (left₁ left₂ : ℕ → Option Errno) :
    (decisions (asyncRead timed e₁ left₁ answers) = decisions (asyncRead timed e₂ left₂ answers) ∧
        Reported (asyncRead timed e₁ left₁ answers) ∧ Reported (asyncRead timed e₂ left₂ answers)) ↔
      Clean (asyncRead timed e₁ left₁ answers) ∧ Clean (asyncRead timed e₂ left₂ answers) := by
  rw [reported_iff_clean, reported_iff_clean]
  refine ⟨And.right, fun hclean ↦ ⟨?_, hclean⟩⟩
  rw [← reported_iff_clean, ← reported_iff_clean] at hclean
  refine decisions_eq_of_agree fun u hu v hv hans ↦ ?_
  by_cases hfail : u.answer.ProtocolFailure
  · rw [hclean.1 u hu hfail, hclean.2 v hv (hans ▸ hfail), hans]
  · obtain ⟨hdu, -⟩ := turn_spec hu
    obtain ⟨hdv, -⟩ := turn_spec hv
    rw [hdu, hdv, ← hans]
    cases he : u.answer.errno with
    | some e => rfl
    | none =>
      have hret : ¬u.answer.ret < 0 := fun hneg ↦ hfail ⟨hneg, he⟩
      rw [readDecision, if_neg hret, readDecision, if_neg hret]

/-- A record that does not decrypt, with `EAGAIN` left by another routine or by the loop's own turn
before: the read waits, where it returns the failure when `errno` is clear. -/
theorem asyncRead_stale :
    let failure : Answer := ⟨-1, none, false⟩
    let blocked : Answer := ⟨-1, some .eagain, false⟩
    (∀ timed, decisions (asyncRead timed .ok (fun _ ↦ none) [failure]) = [.returned (-1)]) ∧
      (∀ timed, decisions (asyncRead timed .eagain (fun _ ↦ none) [failure]) = [.wait]) ∧
      ∀ timed, decisions (asyncRead timed .ok (fun _ ↦ none) [blocked, failure]) = [.wait, .wait] := by
  decide

end Baize.Net.TlsStream
