import Baize.Dtls.Persistence

namespace Baize.Dtls

open Lib

def SslCall.Due (c : SslCall) : Prop := c.ret = 1 ∨ c.ret = -1

instance (c : SslCall) : Decidable c.Due := inferInstanceAs (Decidable (_ ∨ _))

namespace DtlsTransport

/-- Whenever `timer_` runs or no time is left, the library agrees that the timeout was due. -/
def Action.Due : Action → Prop
  | .packet s => ∀ a ∈ s.timeouts, a.handled.Due
  | .timer c timeouts => c.Due ∧ ∀ a ∈ timeouts, a.handled.Due

instance : DecidablePred Action.Due
  | .packet s => inferInstanceAs (Decidable (∀ a ∈ s.timeouts, a.handled.Due))
  | .timer c timeouts => inferInstanceAs (Decidable (c.Due ∧ ∀ a ∈ timeouts, a.handled.Due))

def Quiet (t : DtlsTransport) : Prop := t.extractSrtpKey_ = true → t.handshakeDone = true ∧ t.timer = none

variable {t t' : DtlsTransport} {a : Action}

theorem extractSrtpKey_timer (t : DtlsTransport) (s : SslRead) : (t.extractSrtpKey s).2.timer = t.timer := by
  unfold extractSrtpKey
  split
  · rfl
  · split
    · rfl
    · dsimp only
      split <;> rfl

theorem sendBioData_timer (t : DtlsTransport) : t.sendBioData.timer = t.timer := by
  unfold sendBioData
  split
  · rfl
  · rfl

theorem handleTimeout_key {update : DtlsTransport → DtlsTransport}
    (hupdate : ∀ t, (update t).extractSrtpKey_ = t.extractSrtpKey_) (c : SslCall) (t : DtlsTransport) :
    (handleTimeout update c t).extractSrtpKey_ = t.extractSrtpKey_ := by
  unfold handleTimeout
  split_ifs
  · rfl
  · rw [hupdate, (sendBioData_same _).key]
    rfl
  · rfl
  · rfl

theorem updateTimeout_key (as : List SslTimeout) (t : DtlsTransport) :
    (updateTimeout as t).extractSrtpKey_ = t.extractSrtpKey_ := by
  induction as generalizing t with
  | nil =>
    rw [updateTimeout]
    split_ifs
    · rfl
    · rfl
  | cons a as ih =>
    rw [updateTimeout]
    split_ifs
    · rfl
    · exact handleTimeout_key ih a.handled t
    · rfl
    · rfl

theorem Quiet.updateTimeout (h : t.Quiet) (as : List SslTimeout) : (updateTimeout as t).Quiet := by
  intro hkey
  rw [updateTimeout_key] at hkey
  rw [updateTimeout_of_done _ (h hkey).1]
  exact h hkey

theorem Quiet.checkStatus (h : t.Quiet) (s : SslRead) : (t.checkStatus s).2.Quiet := by
  unfold DtlsTransport.checkStatus
  split_ifs with hextract
  · obtain ⟨hdone, -⟩ := (Bool.and_eq_true _ _).mp hextract
    have hframe := (extractSrtpKey_spec { t with extractSrtpKey_ := true, timer := none } s).1
    exact fun _ ↦ ⟨hframe.done.trans hdone, extractSrtpKey_timer _ s⟩
  · exact h
  · exact h
  · exact h

theorem Quiet.step (h : t.Quiet) (hstep : t.step a = some t') : t'.Quiet := by
  obtain ⟨-, hstep⟩ := Option.ite_none_left_eq_some.mp hstep
  cases a with
  | packet s =>
    obtain rfl := Option.some.inj hstep
    have hread : (t.ssl s.read).sendBioData.Quiet := by
      intro hkey
      rw [(sendBioData_same _).key] at hkey
      obtain ⟨hdone, htimer⟩ := h hkey
      refine ⟨(sendBioData_same _).done ((ssl_same t s.read).done hdone), ?_⟩
      rw [sendBioData_timer]
      exact htimer
    unfold processDtlsPacket
    split_ifs
    · exact h
    · dsimp only
      split_ifs
      · exact (hread.checkStatus s).updateTimeout s.timeouts
      · exact hread.checkStatus s
  | timer c timeouts =>
    obtain rfl := Option.some.inj hstep
    intro hkey
    rw [onTimer, handleTimeout_key (updateTimeout_key timeouts)] at hkey
    obtain ⟨hdone, -⟩ := h hkey
    rw [onTimer, handleTimeout, if_pos hdone]
    exact ⟨hdone, rfl⟩

end DtlsTransport

end Baize.Dtls
