import Baize.Dtls.Persistence
import Baize.Webrtc.Handled

namespace Baize.Webrtc.PeerConnection

open Baize.Lib Baize.Net Baize.Stun Baize.Dtls

variable {hmacSha1 : Bytes → Bytes → Bytes} {atoi : Bytes → UInt32} {pc pc' : PeerConnection} {lib : Answers}
  {packet : Bytes} {o : Outcome}

/-- ICE is connected by a datagram, DTLS runs behind ICE, and the sessions have the keys of DTLS. -/
structure Gated (datagrams : List Bytes) (pc : PeerConnection) : Prop where
  ice : pc.iceServer.isConnected = true → ∃ p ∈ datagrams, Nominates p
  dtls : ∀ d, pc.dtls = some d → d.Stage ∧ pc.iceServer.isConnected = true
  send : ∀ s, pc.srtpSendSession = some s →
    ∃ d remote, pc.dtls = some d ∧ s.type = .outBound ∧ d.Keyed s.useSrtp s.key remote
  recv : ∀ s, pc.srtpRecvSession = some s →
    ∃ d local_, pc.dtls = some d ∧ s.type = .inBound ∧ d.Keyed s.useSrtp local_ s.key

theorem new_gated (addr : InetAddress) (tracks : List (List Bytes)) : Gated [] (new addr tracks) :=
  ⟨nofun, nofun, nofun, nofun⟩

variable {datagrams : List Bytes} {d d' : DtlsTransport}

theorem Gated.mono (h : Gated datagrams pc) (more : List Bytes) : Gated (datagrams ++ more) pc where
  ice hice := by
    obtain ⟨p, hp, hn⟩ := h.ice hice
    exact ⟨p, List.mem_append_left _ hp, hn⟩
  dtls := h.dtls
  send := h.send
  recv := h.recv

theorem Gated.setDtls (h : Gated datagrams pc) (hd : ∀ d₀, pc.dtls = some d₀ → d₀ = d) (hstage : d'.Stage)
    (hconn : pc.iceServer.isConnected = true) (hkeyed : ∀ u l r, d.Keyed u l r → d'.Keyed u l r)
    (ice : Option IceServer) (hice : ice.getD ⟨.new, localPwd⟩ = pc.iceServer) :
    Gated datagrams { pc with ice := ice, dtls := some d' } where
  ice hc := h.ice ((congrArg IceServer.isConnected hice).symm.trans hc)
  dtls d₁ hd₁ := by
    obtain rfl := Option.some.inj hd₁
    exact ⟨hstage, (congrArg IceServer.isConnected hice).trans hconn⟩
  send s hs := by
    obtain ⟨d₀, remote, hd₀, htype, hk⟩ := h.send s hs
    exact ⟨d', remote, rfl, htype, hkeyed _ _ _ (hd d₀ hd₀ ▸ hk)⟩
  recv s hs := by
    obtain ⟨d₀, local_, hd₀, htype, hk⟩ := h.recv s hs
    exact ⟨d', local_, rfl, htype, hkeyed _ _ _ (hd d₀ hd₀ ▸ hk)⟩

theorem Gated.dtlsTransport (h : Gated datagrams pc) (hd : pc.dtlsTransport lib = some d) :
    d.Stage ∧ (pc.dtls = some d ∨ pc.dtls = none ∧ d.state = .connecting) := by
  unfold PeerConnection.dtlsTransport at hd
  split at hd
  · next d₀ hd₀ =>
    obtain rfl := Option.some.inj hd
    exact ⟨(h.dtls d₀ hd₀).1, .inl hd₀⟩
  · next hnone =>
    obtain ⟨-, hd⟩ := Option.ite_none_right_eq_some.mp hd
    obtain rfl := Option.some.inj hd
    exact ⟨DtlsTransport.initializeAs_stage _ _ _ _, .inr ⟨hnone, rfl⟩⟩

theorem Handled.gated (h : Gated datagrams pc) (hh : Handled hmacSha1 atoi pc lib packet o) :
    Gated (datagrams ++ [packet]) o.pc := by
  have hold := h.mono [packet]
  have hsame {d : DtlsTransport} (hd : pc.dtlsTransport lib = some d) (d₀ : DtlsTransport)
      (hd₀ : pc.dtls = some d₀) : d₀ = d := by
    rcases (h.dtlsTransport hd).2 with hs | ⟨hn, -⟩
    · exact Option.some.inj (hd₀.symm.trans hs)
    · cases hn.symm.trans hd₀
  cases hh with
  | stun _ hprocess =>
    rcases processStunPacket_state hprocess with rfl | ⟨hconn, hn⟩
    · exact ⟨hold.ice, hold.dtls, hold.send, hold.recv⟩
    · exact ⟨fun _ ↦ ⟨packet, by simp, hn⟩, fun d hd ↦ ⟨(h.dtls d hd).1, hconn⟩, hold.send, hold.recv⟩
  | waiting => exact ⟨hold.ice, hold.dtls, hold.send, hold.recv⟩
  | dtls hice hd =>
    have hstage := (h.dtlsTransport hd).1
    exact hold.setDtls (hsame hd) (DtlsTransport.processDtlsPacket_stage hstage lib.sslRead) hice
      (fun _ _ _ hk ↦ hk.processDtlsPacket hstage lib.sslRead) _ rfl
  | refused hice hd => exact hold.setDtls (hsame hd) (h.dtlsTransport hd).1 hice (fun _ _ _ hk ↦ hk) _ rfl
  | @media d o hice hd hconn hsrtp =>
    have hstage := (h.dtlsTransport hd).1
    have hset := hold.setDtls (hsame hd) hstage hice (fun _ _ _ hk ↦ hk) (some pc.iceServer) rfl
    have hkeyed := hstage.keyed hconn
    obtain ⟨hice', hdtls', hsend, hrecv⟩ := handleSrtp_spec hsrtp
    have hserver : o.pc.iceServer = pc.iceServer := by rw [iceServer, hice']; rfl
    refine ⟨fun hc ↦ hold.ice (hserver ▸ hc), fun d₁ hd₁ ↦ ?_, fun s hs ↦ ?_, fun s hs ↦ ?_⟩
    · rw [hserver]
      exact hset.dtls d₁ (hdtls' ▸ hd₁)
    · rw [hdtls']
      rcases hsend s hs with hs | rfl
      · exact hset.send s hs
      · exact ⟨d, _, rfl, rfl, hkeyed⟩
    · rw [hdtls']
      rcases hrecv s hs with hs | rfl
      · exact hset.recv s hs
      · exact ⟨d, _, rfl, rfl, hkeyed⟩

def Action.datagram : Action → List Bytes
  | .packet _ packet => [packet]
  | _ => []

theorem step_gated {a : Action} (h : Gated datagrams pc) (hstep : pc.step hmacSha1 atoi a = some pc') :
    Gated (datagrams ++ a.datagram) pc' := by
  obtain ⟨-, hstep⟩ := Option.ite_none_left_eq_some.mp hstep
  cases a with
  | packet lib packet =>
    obtain ⟨o, ho, rfl⟩ := Option.map_eq_some_iff.mp hstep
    exact (handled_of_processPacket ho).gated h
  | dtlsTimer c timeouts =>
    obtain ⟨d, hd, rfl⟩ := Option.map_eq_some_iff.mp hstep
    obtain ⟨hstage, hconn⟩ := h.dtls d hd
    exact (h.mono []).setDtls (fun _ hd₀ ↦ Option.some.inj (hd₀.symm.trans hd))
      (DtlsTransport.onTimer_stage hstage c timeouts) hconn (fun _ _ _ hk ↦ hk.onTimer c timeouts) _ rfl
  | pliTimer lib =>
    obtain ⟨-, hstep⟩ := Option.ite_none_right_eq_some.mp hstep
    obtain ⟨_, -, rfl⟩ := Option.map_eq_some_iff.mp hstep
    exact h.mono []

def Ended (pc : PeerConnection) : Prop :=
  ∃ d, pc.dtls = some d ∧ d.Stage ∧ (d.state = .failed ∨ d.state = .closed) ∧ pc.iceServer.isConnected = true

theorem stopped_of_ended (h : d.state = .failed ∨ d.state = .closed) : d.isRunning = false := by
  rcases h with h | h
  · rw [DtlsTransport.isRunning, h]
    rfl
  · rw [DtlsTransport.isRunning, h]
    rfl

theorem Ended.dtlsTransport (hd : pc.dtls = some d) (lib : Answers) : pc.dtlsTransport lib = some d := by
  rw [PeerConnection.dtlsTransport, hd]

theorem Handled.ended (h : pc.Ended) (hh : Handled hmacSha1 atoi pc lib packet o) : o.pc.Ended := by
  obtain ⟨d, hd, hstage, hstate, hice⟩ := h
  have hsame {d₀ : DtlsTransport} (hd₀ : pc.dtlsTransport lib = some d₀) : d = d₀ :=
    Option.some.inj ((Ended.dtlsTransport hd lib).symm.trans hd₀)
  cases hh with
  | stun _ hprocess =>
    rcases processStunPacket_state hprocess with rfl | ⟨hconn, -⟩
    · exact ⟨d, hd, hstage, hstate, hice⟩
    · exact ⟨d, hd, hstage, hstate, hconn⟩
  | waiting => exact ⟨d, hd, hstage, hstate, hice⟩
  | dtls _ hd₀ =>
    obtain rfl := hsame hd₀
    rw [DtlsTransport.processDtlsPacket_of_stopped (stopped_of_ended hstate)]
    exact ⟨d, rfl, hstage, hstate, hice⟩
  | refused _ hd₀ =>
    obtain rfl := hsame hd₀
    exact ⟨d, rfl, hstage, hstate, hice⟩
  | media _ hd₀ hconn =>
    obtain rfl := hsame hd₀
    simp [hconn] at hstate

theorem step_ended {a : Action} (h : pc.Ended) (hstep : pc.step hmacSha1 atoi a = some pc') : pc'.Ended := by
  obtain ⟨-, hstep⟩ := Option.ite_none_left_eq_some.mp hstep
  cases a with
  | packet lib packet =>
    obtain ⟨o, ho, rfl⟩ := Option.map_eq_some_iff.mp hstep
    exact (handled_of_processPacket ho).ended h
  | dtlsTimer c timeouts =>
    obtain ⟨d, hd, hstage, hstate, hice⟩ := h
    obtain ⟨d₀, hd₀, rfl⟩ := Option.map_eq_some_iff.mp hstep
    obtain rfl := Option.some.inj (hd.symm.trans hd₀)
    refine ⟨_, rfl, DtlsTransport.onTimer_stage hstage c timeouts, ?_, hice⟩
    rw [hstage.onTimer_state hstate]
    exact hstate
  | pliTimer lib =>
    obtain ⟨-, hstep⟩ := Option.ite_none_right_eq_some.mp hstep
    obtain ⟨_, -, rfl⟩ := Option.map_eq_some_iff.mp hstep
    exact h

theorem ice_eq_some (h : pc.iceServer.isConnected = true) : pc.ice = some pc.iceServer := by
  unfold iceServer at h ⊢
  cases hice : pc.ice with
  | none =>
    rw [hice] at h
    cases h
  | some ice => rfl

theorem Ended.processPacket (h : pc.Ended) (lib : Answers) (hstun : StunPacket.isStun packet = false)
    (hdtls : isDtls packet = false) :
    pc.processPacket hmacSha1 atoi lib packet = some ⟨-1, [], pc⟩ := by
  obtain ⟨d, hd, -, hstate, hice⟩ := h
  have hself : { pc with ice := some pc.iceServer, dtls := some d } = pc := by rw [← ice_eq_some hice, ← hd]
  have htransport : PeerConnection.dtlsTransport { pc with ice := some pc.iceServer } lib = some d :=
    Ended.dtlsTransport hd lib
  simp only [PeerConnection.processPacket, hstun, hice, Bool.false_eq_true, if_false, Bool.not_true, handleDtls,
    htransport, Option.bind_some, hdtls, stopped_of_ended hstate, Bool.not_false, if_true, hself]

theorem processPacket_media (h : Gated datagrams pc) (ho : pc.processPacket hmacSha1 atoi lib packet = some o)
    (hmedia : o.pc.srtpSendSession ≠ pc.srtpSendSession ∨ o.pc.srtpRecvSession ≠ pc.srtpRecvSession ∨
      ∃ e ∈ o.effects, e.isMedia = true) :
    pc.iceServer.isConnected = true ∧ ∃ d, pc.dtls = some d ∧ d.state = .connected := by
  cases handled_of_processPacket ho with
  | @stun response ice =>
    cases response with
    | none => simp at hmedia
    | some response => simp [Effect.isMedia] at hmedia
  | waiting => simp at hmedia
  | dtls => simp at hmedia
  | refused => simp at hmedia
  | @media d _ hice hd hconn =>
    refine ⟨hice, d, ?_, hconn⟩
    rcases (h.dtlsTransport hd).2 with hs | ⟨-, hconnecting⟩
    · exact hs
    · cases hconn.symm.trans hconnecting

/-- In every run: `dtls_` exists only after a binding request with USE-CANDIDATE was accepted, the
sessions are keyed with the masters of `dtls_`, which was CONNECTED when they were created, media is
handled only while ICE and DTLS are connected, and after the end of DTLS nothing but STUN and DTLS
is accepted. -/
theorem media_gated {addr : InetAddress} {tracks : List (List Bytes)} {as : List Action}
    (hrun : Run (fun pc a pc' ↦ pc.step hmacSha1 atoi a = some pc') (new addr tracks) as pc) :
    (pc.dtls.isSome → ∃ p ∈ as.flatMap Action.datagram, Nominates p) ∧
    (∀ s, pc.srtpSendSession = some s → ∃ d, pc.dtls = some d ∧ (d.state = .connected ∨ d.state = .closed) ∧
      s = ⟨.outBound, d.useSrtp, d.srtpLocalMaster⟩) ∧
    (∀ s, pc.srtpRecvSession = some s → ∃ d, pc.dtls = some d ∧ (d.state = .connected ∨ d.state = .closed) ∧
      s = ⟨.inBound, d.useSrtp, d.srtpRemoteMaster⟩) ∧
    (∀ lib packet o, pc.processPacket hmacSha1 atoi lib packet = some o →
      (o.pc.srtpSendSession ≠ pc.srtpSendSession ∨ o.pc.srtpRecvSession ≠ pc.srtpRecvSession ∨
        ∃ e ∈ o.effects, e.isMedia = true) →
      pc.iceServer.isConnected = true ∧ ∃ d, pc.dtls = some d ∧ d.state = .connected) ∧
    ∀ d, pc.dtls = some d → (d.state = .failed ∨ d.state = .closed) → ∀ as' pc',
      Run (fun pc a pc' ↦ pc.step hmacSha1 atoi a = some pc') pc as' pc' → ∀ lib packet,
      StunPacket.isStun packet = false → isDtls packet = false →
      pc'.processPacket hmacSha1 atoi lib packet = some ⟨-1, [], pc'⟩ := by
  have h : Gated (as.flatMap Action.datagram) pc :=
    hrun.invariant_history Action.datagram (fun _ _ _ _ h hstep ↦ step_gated h hstep) (new_gated addr tracks)
  refine ⟨fun hd ↦ ?_, fun s hs ↦ ?_, fun s hs ↦ ?_, fun lib packet o ho ↦ processPacket_media h ho,
    fun d hd hstate as' pc' hrun' lib packet ↦ ?_⟩
  · obtain ⟨d, hd⟩ := Option.isSome_iff_exists.mp hd
    exact h.ice (h.dtls d hd).2
  · obtain ⟨d, remote, hd, htype, hk⟩ := h.send s hs
    refine ⟨d, hd, hk.state, ?_⟩
    rw [hk.useSrtp, hk.localMaster, ← htype]
  · obtain ⟨d, local_, hd, htype, hk⟩ := h.recv s hs
    refine ⟨d, hd, hk.state, ?_⟩
    rw [hk.useSrtp, hk.remoteMaster, ← htype]
  · obtain ⟨hstage, hice⟩ := h.dtls d hd
    have hended : pc'.Ended :=
      hrun'.invariant (fun _ _ _ h hstep ↦ step_ended h hstep) ⟨d, hd, hstage, hstate, hice⟩
    exact hended.processPacket lib

def nominating : Bytes := [
    0, 1, 0, 52, 33, 18, 164, 66, 1, 2, 3, 4, 5, 6, 7, 8, 9, 10, 11, 12, 0, 6, 0, 3,
    97, 58, 98, 0, 0, 36, 0, 4, 0, 0, 0, 1, 0, 37, 0, 0, 0, 8, 0, 20, 0, 0, 0, 0,
    0, 0, 0, 0, 0, 0, 0, 0, 0, 0, 0, 0, 0, 0, 0, 0, 128, 40, 0, 4, 202, 54, 176, 48]

def friendly : Answers where
  sslNew := true
  sslDoHandshake := ⟨[], [], -1⟩
  sslRead := ⟨⟨[0x20], [], -1⟩, 2, 0, some "SRTP_AES128_CM_SHA1_80", 1, List.replicate 60 7, []⟩
  srtpCreate := fun _ ↦ true
  srtpProtect := fun _ packet ↦ some packet
  srtpUnprotect := fun _ packet ↦ some packet
  srtpProtectRtcp := fun _ packet ↦ some packet
  srtpUnprotectRtcp := fun _ packet ↦ some packet

def firstMedia : List Action :=
  [.packet friendly nominating, .packet friendly (22 :: List.replicate 12 0),
    .packet friendly (0x80 :: 96 :: List.replicate 10 0)]

theorem media_gated_firstMedia :
    ∃ pc, Run (fun pc a pc' ↦ pc.step (fun _ _ ↦ List.replicate 20 0) (fun _ ↦ 0) a = some pc')
        (new .zero [[[49]]]) firstMedia pc ∧
      (∃ p ∈ firstMedia.flatMap Action.datagram, Nominates p) ∧
      ∃ d, pc.dtls = some d ∧ pc.srtpSendSession = some ⟨.outBound, d.useSrtp, d.srtpLocalMaster⟩ := by
  obtain ⟨pc, hrun, hobs⟩ : ∃ pc,
      Run (fun pc a pc' ↦ pc.step (fun _ _ ↦ List.replicate 20 0) (fun _ ↦ 0) a = some pc')
      (new .zero [[[49]]]) firstMedia pc ∧ (pc.dtls.isSome, pc.srtpSendSession.isSome) = (true, true) :=
    exists_run_of_steps _ (by decide +kernel)
  obtain ⟨hdtls, hsend⟩ := Prod.mk.inj hobs
  obtain ⟨hnominated, hkeyed, -⟩ := media_gated hrun
  obtain ⟨s, hs⟩ := Option.isSome_iff_exists.mp hsend
  obtain ⟨d, hd, -, rfl⟩ := hkeyed s hs
  exact ⟨pc, hrun, hnominated hdtls, d, hd, hs⟩

end Baize.Webrtc.PeerConnection
