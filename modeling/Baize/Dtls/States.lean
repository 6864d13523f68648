import Baize.Dtls.Transport

namespace Baize.Dtls.DtlsTransport

open Baize.Lib

def KeyOk (t : DtlsTransport) : Prop :=
  t.useSrtp = "SRTP_AEAD_AES_128_GCM" ∧ t.srtpMasterLen = 28 ∨
    t.useSrtp = "SRTP_AES128_CM_SHA1_80" ∧ t.srtpMasterLen = 30

inductive Stage (t : DtlsTransport) : Prop
  | handshaking (hstate : t.state = .connecting) (htrace : t.trace = [.connecting])
    (hkey : t.extractSrtpKey_ = false) (hext : t.extractions = [])
  | keyless (hstate : t.state = .connecting) (htrace : t.trace = [.connecting]) (hkey : t.extractSrtpKey_ = true)
    (hdone : t.handshakeDone = true) (hext : t.extractions = [false])
  | connected (hstate : t.state = .connected) (htrace : t.trace = [.connecting, .connected])
    (hkey : t.extractSrtpKey_ = true) (hdone : t.handshakeDone = true) (hext : t.extractions = [true])
    (hok : t.KeyOk)
  | closed (hstate : t.state = .closed) (htrace : t.trace = [.connecting, .connected, .closed])
    (hdone : t.handshakeDone = true) (hext : t.extractions = [true])
  | failed (n : ℕ) (hstate : t.state = .failed)
      (htrace : t.trace = .connecting :: List.replicate (n + 1) .failed)
    (hext : t.extractions = [] ∨ t.extractions = [false])

/-- What the stage depends on. -/
structure SameStage (t t' : DtlsTransport) : Prop where
  state : t'.state = t.state
  trace : t'.trace = t.trace
  key : t'.extractSrtpKey_ = t.extractSrtpKey_
  extractions : t'.extractions = t.extractions
  done : t.handshakeDone = true → t'.handshakeDone = true
  useSrtp : t'.useSrtp = t.useSrtp
  masterLen : t'.srtpMasterLen = t.srtpMasterLen
  localMaster : t'.srtpLocalMaster_ = t.srtpLocalMaster_
  remoteMaster : t'.srtpRemoteMaster_ = t.srtpRemoteMaster_

variable {t t' t'' : DtlsTransport}

theorem SameStage.refl (t : DtlsTransport) : SameStage t t := ⟨rfl, rfl, rfl, rfl, id, rfl, rfl, rfl, rfl⟩

theorem SameStage.trans (h : SameStage t t') (h' : SameStage t' t'') : SameStage t t'' where
  state := h'.state.trans h.state
  trace := h'.trace.trans h.trace
  key := h'.key.trans h.key
  extractions := h'.extractions.trans h.extractions
  done := h'.done ∘ h.done
  useSrtp := h'.useSrtp.trans h.useSrtp
  masterLen := h'.masterLen.trans h.masterLen
  localMaster := h'.localMaster.trans h.localMaster
  remoteMaster := h'.remoteMaster.trans h.remoteMaster

theorem SameStage.stage (h : SameStage t t') (ht : Stage t) : Stage t' := by
  cases ht with
  | handshaking hstate htrace hkey hext =>
    exact .handshaking (h.state.trans hstate) (h.trace.trans htrace) (h.key.trans hkey)
      (h.extractions.trans hext)
  | keyless hstate htrace hkey hdone hext =>
    exact .keyless (h.state.trans hstate) (h.trace.trans htrace) (h.key.trans hkey) (h.done hdone)
      (h.extractions.trans hext)
  | connected hstate htrace hkey hdone hext hok =>
    refine .connected (h.state.trans hstate) (h.trace.trans htrace) (h.key.trans hkey) (h.done hdone)
      (h.extractions.trans hext) ?_
    rw [KeyOk, h.useSrtp, h.masterLen]
    exact hok
  | closed hstate htrace hdone hext =>
    exact .closed (h.state.trans hstate) (h.trace.trans htrace) (h.done hdone) (h.extractions.trans hext)
  | failed n hstate htrace hext =>
    exact .failed n (h.state.trans hstate) (h.trace.trans htrace) (h.extractions ▸ hext)

theorem setTimer_same (t : DtlsTransport) (timer : Option ℕ) (inCall : Bool) :
    SameStage t { t with timer := timer, inCall := inCall } :=
  ⟨rfl, rfl, rfl, rfl, id, rfl, rfl, rfl, rfl⟩

theorem ssl_same (t : DtlsTransport) (c : SslCall) : SameStage t (t.ssl c) :=
  ⟨rfl, rfl, rfl, rfl, fun h ↦ by rw [ssl, h, Bool.true_or], rfl, rfl, rfl, rfl⟩

theorem sendBioData_same (t : DtlsTransport) : SameStage t t.sendBioData := by
  unfold sendBioData
  split
  · exact .refl t
  · exact ⟨rfl, rfl, rfl, rfl, id, rfl, rfl, rfl, rfl⟩

theorem Stage.state_of_not_done (h : Stage t) (hdone : t.handshakeDone = false) :
    t.state = .connecting ∨ t.state = .failed := by
  cases h with
  | handshaking hstate => exact .inl hstate
  | keyless hstate => exact .inl hstate
  | connected _ _ _ hdone' => cases hdone.symm.trans hdone'
  | closed _ _ hdone' => cases hdone.symm.trans hdone'
  | failed n hstate => exact .inr hstate

theorem Stage.fail (h : Stage t) (hstate : t.state = .connecting ∨ t.state = .failed) :
    Stage (t.setState .failed) := by
  have htrace (ht : t.trace = [.connecting]) :
      (t.setState .failed).trace = .connecting :: List.replicate (0 + 1) .failed := by rw [setState, ht]; rfl
  cases h with
  | handshaking _ ht _ hext => exact .failed 0 rfl (htrace ht) (.inl hext)
  | keyless _ ht _ _ hext => exact .failed 0 rfl (htrace ht) (.inr hext)
  | connected hs => simp [hs] at hstate
  | closed hs => simp [hs] at hstate
  | failed n _ ht hext =>
    refine .failed (n + 1) rfl ?_ hext
    rw [setState, ht, List.cons_append, ← List.replicate_succ']

theorem handleTimeout_stage {update : DtlsTransport → DtlsTransport} (hupdate : ∀ t, Stage t → Stage (update t))
    (h : Stage t) (c : SslCall) : Stage (handleTimeout update c t) := by
  unfold handleTimeout
  split_ifs with hdone hone hminus
  · exact h
  · exact hupdate _ (((ssl_same t c).trans (sendBioData_same _)).stage h)
  · exact ((ssl_same t c).stage h).fail (h.state_of_not_done (Bool.eq_false_iff.mpr hdone))
  · exact (ssl_same t c).stage h

theorem updateTimeout_stage (as : List SslTimeout) (h : Stage t) : Stage (updateTimeout as t) := by
  induction as generalizing t with
  | nil =>
    rw [updateTimeout]
    split_ifs
    · exact h
    · exact (setTimer_same t t.timer true).stage h
  | cons a as ih =>
    rw [updateTimeout]
    split_ifs with hdone hzero hshort
    · exact h
    · exact handleTimeout_stage (fun _ ht ↦ ih ht) h a.handled
    · exact (setTimer_same t (some a.timeout.ms) t.inCall).stage h
    · exact h.fail (h.state_of_not_done (Bool.eq_false_iff.mpr hdone))

/-- What `ExtractSrtpKey` leaves alone whether it succeeds or not. -/
structure Extracts (t t' : DtlsTransport) : Prop where
  key : t'.extractSrtpKey_ = t.extractSrtpKey_
  done : t'.handshakeDone = t.handshakeDone
  extractions : t'.extractions = t.extractions

theorem extractSrtpKey_spec (t : DtlsTransport) (s : SslRead) : Extracts t (t.extractSrtpKey s).2 ∧
    if (t.extractSrtpKey s).1 then
      (t.extractSrtpKey s).2.state = .connected ∧ (t.extractSrtpKey s).2.trace = t.trace ++ [.connected] ∧
        (t.extractSrtpKey s).2.KeyOk
    else (t.extractSrtpKey s).2.state = t.state ∧ (t.extractSrtpKey s).2.trace = t.trace := by
  unfold extractSrtpKey
  split
  · exact ⟨⟨rfl, rfl, rfl⟩, rfl, rfl⟩
  · next name _ =>
    split
    · exact ⟨⟨rfl, rfl, rfl⟩, rfl, rfl⟩
    · next keyLen saltLen hlens =>
      dsimp only
      split
      · exact ⟨⟨rfl, rfl, rfl⟩, rfl, rfl⟩
      · refine ⟨⟨rfl, rfl, rfl⟩, rfl, rfl, ?_⟩
        unfold srtpLens at hlens
        split_ifs at hlens with hgcm hcm
        · obtain ⟨rfl, rfl⟩ := Prod.mk.inj (Option.some.inj hlens)
          exact .inl ⟨hgcm, rfl⟩
        · obtain ⟨rfl, rfl⟩ := Prod.mk.inj (Option.some.inj hlens)
          exact .inr ⟨hcm, rfl⟩

theorem Stage.handshaking_of_key (h : Stage t) (hrun : t.isRunning = true) (hkey : t.extractSrtpKey_ = false) :
    t.state = .connecting ∧ t.trace = [.connecting] ∧ t.extractions = [] := by
  cases h with
  | handshaking hstate htrace _ hext => exact ⟨hstate, htrace, hext⟩
  | keyless _ _ hkey' => cases hkey.symm.trans hkey'
  | connected _ _ hkey' => cases hkey.symm.trans hkey'
  | closed hstate => simp [isRunning, hstate] at hrun
  | failed n hstate => simp [isRunning, hstate] at hrun

theorem checkStatus_stage (h : Stage t) (hrun : t.isRunning = true) (s : SslRead) :
    Stage (t.checkStatus s).2 := by
  unfold checkStatus
  split_ifs with hkey hbad hconn
  · obtain ⟨hdone, hkey⟩ := (Bool.and_eq_true _ _).mp hkey
    obtain ⟨hstate, htrace, hext⟩ := h.handshaking_of_key hrun (by simpa using hkey)
    obtain ⟨hframe, hspec⟩ := extractSrtpKey_spec { t with extractSrtpKey_ := true, timer := none } s
    generalize extractSrtpKey { t with extractSrtpKey_ := true, timer := none } s = x at hframe hspec
    obtain ⟨ok, t'⟩ := x
    have hext' : t'.extractions ++ [ok] = [ok] := by rw [hframe.extractions, hext]; rfl
    cases ok with
    | true =>
      obtain ⟨hstate', htrace', hok⟩ := hspec
      rw [htrace] at htrace'
      exact .connected hstate' htrace' hframe.key (hframe.done.trans hdone) hext' hok
    | false =>
      obtain ⟨hstate', htrace'⟩ := hspec
      exact .keyless (hstate'.trans hstate) (htrace'.trans htrace) hframe.key (hframe.done.trans hdone) hext'
  · cases h with
    | connected _ htrace _ hdone hext =>
      refine .closed rfl ?_ hdone hext
      rw [setState, htrace]
      rfl
    | handshaking hstate => cases hconn.symm.trans hstate
    | keyless hstate => cases hconn.symm.trans hstate
    | closed hstate => cases hconn.symm.trans hstate
    | failed n hstate => cases hconn.symm.trans hstate
  · refine h.fail (.inl ?_)
    simpa [isRunning, hconn] using hrun
  · exact h

theorem processDtlsPacket_stage (h : Stage t) (s : SslRead) : Stage (t.processDtlsPacket s) := by
  unfold processDtlsPacket
  split_ifs with hrun
  · exact h
  · have hsame := (ssl_same t s.read).trans (sendBioData_same _)
    have hrunning : t.isRunning = true := by simpa using hrun
    have hrun' : (t.ssl s.read).sendBioData.isRunning = true := by
      rw [isRunning, hsame.state]
      exact hrunning
    have hcheck := checkStatus_stage (hsame.stage h) hrun' s
    generalize checkStatus (t.ssl s.read).sendBioData s = x at hcheck
    obtain ⟨ok, t'⟩ := x
    cases ok with
    | true => exact updateTimeout_stage s.timeouts hcheck
    | false => exact hcheck

theorem onTimer_stage (h : Stage t) (c : SslCall) (timeouts : List SslTimeout) : Stage (t.onTimer c timeouts) :=
  handleTimeout_stage (fun _ ht ↦ updateTimeout_stage timeouts ht) ((setTimer_same t none t.inCall).stage h) c

theorem initializeAs_stage (r role : Role) (c : SslCall) (timeouts : List SslTimeout) :
    Stage ((fresh r).initializeAs role c timeouts) := by
  have hconnecting : Stage ({ fresh r with role := role }.setState .connecting) := .handshaking rfl rfl rfl rfl
  have hssl := (ssl_same _ c).stage hconnecting
  cases role with
  | client => exact updateTimeout_stage timeouts ((sendBioData_same _).stage hssl)
  | server => exact hssl

theorem step_stage {a : Action} (h : Stage t) (hstep : t.step a = some t') : Stage t' := by
  obtain ⟨-, hstep⟩ := Option.ite_none_left_eq_some.mp hstep
  cases a with
  | packet s => exact Option.some.inj hstep ▸ processDtlsPacket_stage h s
  | timer c timeouts => exact Option.some.inj hstep ▸ onTimer_stage h c timeouts

/-- In every run after `Initialize`, and also inside the calls of the library: `state_` went from
CONNECTING to CONNECTED and CLOSED or to FAILED, it was CONNECTED only after the one `ExtractSrtpKey`,
which followed the end of the handshake, had succeeded, and the masters are as long as the profile
says. -/
theorem run_moves {r role : Role} {c : SslCall} {timeouts : List SslTimeout} {as : List Action}
    (hrun : Run (fun t a t' ↦ t.step a = some t') ((fresh r).initializeAs role c timeouts) as t) :
    (t.trace = [.connecting] ∨ t.trace = [.connecting, .connected] ∨
      t.trace = [.connecting, .connected, .closed] ∨
      ∃ n, t.trace = .connecting :: List.replicate (n + 1) .failed) ∧
    t.trace.getLast? = some t.state ∧
    (.connected ∈ t.trace → t.handshakeDone = true ∧ t.extractions = [true]) ∧ t.extractions.length ≤ 1 ∧
    (t.state = .connected → t.useSrtp = "SRTP_AEAD_AES_128_GCM" ∧ t.srtpMasterLen = 28 ∨
      t.useSrtp = "SRTP_AES128_CM_SHA1_80" ∧ t.srtpMasterLen = 30) := by
  have h : Stage t :=
    hrun.invariant (fun _ _ _ h hstep ↦ step_stage h hstep) (initializeAs_stage r role c timeouts)
  cases h with
  | handshaking hstate htrace _ hext => simp [hstate, htrace, hext]
  | keyless hstate htrace _ _ hext => simp [hstate, htrace, hext]
  | connected hstate htrace _ hdone hext hok =>
    refine ⟨.inr (.inl htrace), ?_, fun _ ↦ ⟨hdone, hext⟩, by rw [hext]; rfl, fun _ ↦ hok⟩
    rw [htrace, hstate]
    rfl
  | closed hstate htrace hdone hext => simp [hstate, htrace, hdone, hext]
  | failed n hstate htrace hext =>
    have hlen : t.extractions.length ≤ 1 := by
      rcases hext with hext | hext <;> simp [hext]
    refine ⟨.inr (.inr (.inr ⟨n, htrace⟩)), ?_, ?_, hlen, ?_⟩
    · rw [htrace, hstate, List.replicate_succ', ← List.cons_append, List.getLast?_concat]
    · simp [htrace]
    · simp [hstate]

def openedAndClosed : List Action :=
  [.packet ⟨⟨[0x10, 0x20], [22], -1⟩, 2, 0, some "SRTP_AES128_CM_SHA1_80", 1, List.replicate 60 7, []⟩,
    .timer ⟨[], [], 0⟩ [], .packet ⟨⟨[], [], 0⟩, 6, 2, none, 0, [], []⟩]

theorem run_moves_openedAndClosed :
    ∃ t, Run (fun t a t' ↦ t.step a = some t') ((fresh .server).initializeAs .server ⟨[], [], -1⟩ [])
        openedAndClosed t ∧
      .connected ∈ t.trace ∧ t.trace.getLast? = some .closed ∧ t.handshakeDone = true ∧
      t.extractions = [true] := by
  obtain ⟨t, hrun, hobs⟩ : ∃ t, Run (fun t a t' ↦ t.step a = some t')
      ((fresh .server).initializeAs .server ⟨[], [], -1⟩ []) openedAndClosed t ∧
        (t.state, t.trace) = (.closed, [.connecting, .connected, .closed]) :=
    exists_run_of_steps _ (by decide +kernel)
  obtain ⟨hstate, htrace⟩ := Prod.mk.inj hobs
  obtain ⟨-, hlast, hconnected, -, -⟩ := run_moves hrun
  have hmem : .connected ∈ t.trace := by rw [htrace]; decide
  exact ⟨t, hrun, hmem, hstate ▸ hlast, hconnected hmem⟩

end Baize.Dtls.DtlsTransport
