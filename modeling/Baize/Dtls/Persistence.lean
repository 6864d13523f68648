import Baize.Dtls.States

namespace Baize.Dtls.DtlsTransport

variable {t t' : DtlsTransport}

theorem handleTimeout_failed {update : DtlsTransport → DtlsTransport}
    (hupdate : ∀ t, t.state = .failed → (update t).state = .failed) (h : t.state = .failed) (c : SslCall) :
    (handleTimeout update c t).state = .failed := by
  unfold handleTimeout
  split_ifs
  · exact h
  · exact hupdate _ ((sendBioData_same _).state.trans h)
  · rfl
  · exact h

theorem updateTimeout_failed (as : List SslTimeout) (h : t.state = .failed) :
    (updateTimeout as t).state = .failed := by
  induction as generalizing t with
  | nil =>
    rw [updateTimeout]
    split_ifs
    · exact h
    · exact h
  | cons a as ih =>
    rw [updateTimeout]
    split_ifs
    · exact h
    · exact handleTimeout_failed (fun _ ht ↦ ih ht) h a.handled
    · exact h
    · rfl

theorem onTimer_of_done (hdone : t.handshakeDone = true) (c : SslCall) (timeouts : List SslTimeout) :
    t.onTimer c timeouts = { t with timer := none } :=
  if_pos hdone

theorem processDtlsPacket_of_stopped (h : t.isRunning = false) (s : SslRead) : t.processDtlsPacket s = t := by
  rw [processDtlsPacket, h]
  rfl

theorem Stage.of_connected (ht : Stage t) (h : t.state = .connected) :
    t.extractSrtpKey_ = true ∧ t.handshakeDone = true := by
  cases ht with
  | connected _ _ hkey hdone => exact ⟨hkey, hdone⟩
  | handshaking hstate => cases h.symm.trans hstate
  | keyless hstate => cases h.symm.trans hstate
  | closed hstate => cases h.symm.trans hstate
  | failed n hstate => cases h.symm.trans hstate

theorem Stage.of_closed (ht : Stage t) (h : t.state = .closed) : t.handshakeDone = true := by
  cases ht with
  | closed _ _ hdone => exact hdone
  | handshaking hstate => cases h.symm.trans hstate
  | keyless hstate => cases h.symm.trans hstate
  | connected hstate => cases h.symm.trans hstate
  | failed n hstate => cases h.symm.trans hstate

theorem Stage.onTimer_state (ht : Stage t) (h : t.state = .failed ∨ t.state = .closed) (c : SslCall)
    (timeouts : List SslTimeout) : (t.onTimer c timeouts).state = t.state := by
  rcases h with h | h
  · have hfailed : { t with timer := none }.state = .failed := h
    exact (handleTimeout_failed (fun _ hs ↦ updateTimeout_failed timeouts hs) hfailed c).trans h.symm
  · rw [onTimer_of_done (ht.of_closed h)]

structure Keyed (useSrtp : String) (localMaster remoteMaster : Bytes) (t : DtlsTransport) : Prop where
  state : t.state = .connected ∨ t.state = .closed
  done : t.handshakeDone = true
  useSrtp : t.useSrtp = useSrtp
  localMaster : t.srtpLocalMaster = localMaster
  remoteMaster : t.srtpRemoteMaster = remoteMaster

theorem Stage.keyed (ht : Stage t) (h : t.state = .connected) :
    Keyed t.useSrtp t.srtpLocalMaster t.srtpRemoteMaster t :=
  ⟨.inl h, (ht.of_connected h).2, rfl, rfl, rfl⟩

variable {useSrtp : String} {localMaster remoteMaster : Bytes}

theorem SameStage.keyed (h : SameStage t t') (ht : Keyed useSrtp localMaster remoteMaster t) :
    Keyed useSrtp localMaster remoteMaster t' where
  state := by
    rw [h.state]
    exact ht.state
  done := h.done ht.done
  useSrtp := h.useSrtp.trans ht.useSrtp
  localMaster := by
    rw [srtpLocalMaster, h.localMaster, h.masterLen]
    exact ht.localMaster
  remoteMaster := by
    rw [srtpRemoteMaster, h.remoteMaster, h.masterLen]
    exact ht.remoteMaster

theorem updateTimeout_of_done (as : List SslTimeout) (hdone : t.handshakeDone = true) :
    updateTimeout as t = t := by
  cases as with
  | nil => exact if_pos hdone
  | cons a as => exact if_pos hdone

theorem checkStatus_of_key (hkey : t.extractSrtpKey_ = true) (h : t.state = .connected) (s : SslRead) :
    (t.checkStatus s).2 = t ∨ (t.checkStatus s).2 = t.setState .closed := by
  rw [checkStatus, hkey, Bool.not_true, Bool.and_false, if_neg Bool.false_ne_true, if_pos h]
  split_ifs
  · exact .inr rfl
  · exact .inl rfl

theorem Keyed.processDtlsPacket (ht : Stage t) (h : Keyed useSrtp localMaster remoteMaster t) (s : SslRead) :
    Keyed useSrtp localMaster remoteMaster (t.processDtlsPacket s) := by
  rcases h.state with hconn | hclosed
  · have hsame := (ssl_same t s.read).trans (sendBioData_same _)
    have hcur := hsame.keyed h
    have hcheck : Keyed useSrtp localMaster remoteMaster ((t.ssl s.read).sendBioData.checkStatus s).2 := by
      obtain heq | heq := checkStatus_of_key (hsame.key.trans (ht.of_connected hconn).1)
        (hsame.state.trans hconn) s
      · rw [heq]
        exact hcur
      · rw [heq]
        exact ⟨.inr rfl, hcur.done, hcur.useSrtp, hcur.localMaster, hcur.remoteMaster⟩
    have hrun : t.isRunning = true := by rw [isRunning, hconn]; rfl
    rw [DtlsTransport.processDtlsPacket, hrun]
    generalize checkStatus (t.ssl s.read).sendBioData s = x at hcheck
    obtain ⟨ok, t'⟩ := x
    cases ok with
    | true =>
      show Keyed useSrtp localMaster remoteMaster (updateTimeout s.timeouts t')
      rw [updateTimeout_of_done s.timeouts hcheck.done]
      exact hcheck
    | false => exact hcheck
  · rw [processDtlsPacket_of_stopped (by rw [isRunning, hclosed]; rfl)]
    exact h

theorem Keyed.onTimer (h : Keyed useSrtp localMaster remoteMaster t) (c : SslCall) (timeouts : List SslTimeout) :
    Keyed useSrtp localMaster remoteMaster (t.onTimer c timeouts) := by
  rw [onTimer_of_done h.done]
  exact (setTimer_same t none t.inCall).keyed h

end Baize.Dtls.DtlsTransport
