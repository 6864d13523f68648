import Baize.Webrtc.PeerConnection

namespace Baize.Webrtc

open Baize.Lib Baize.Net Baize.Stun Baize.Dtls

theorem SrtpSession.new_eq_some {srtpCreate : Bool} {type : Bound} {useSrtp : String} {key : Bytes}
    {session : SrtpSession} (h : SrtpSession.new srtpCreate type useSrtp key = some session) :
    session = ⟨type, useSrtp, key⟩ := by
  unfold SrtpSession.new at h
  split at h
  · cases h
  · split_ifs at h
    exact (Option.some.inj h).symm

namespace PeerConnection

/-- What the packets behind DTLS leave alone. -/
structure Frame (pc pc' : PeerConnection) : Prop where
  ice : pc'.ice = pc.ice
  dtls : pc'.dtls = pc.dtls
  send : pc'.srtpSendSession = pc.srtpSendSession
  recv : pc'.srtpRecvSession = pc.srtpRecvSession

variable {hmacSha1 : Bytes → Bytes → Bytes} {atoi : Bytes → UInt32} {pc pc' : PeerConnection} {lib : Answers}
  {packet : Bytes} {o : Outcome}

theorem processRtcp_pc (pc : PeerConnection) (lib : Answers) (recv : SrtpSession) (packet : Bytes) :
    (pc.processRtcp lib recv packet).pc = pc := by
  unfold processRtcp
  split <;> rfl

theorem processRtp_pc {send recv : SrtpSession} (h : pc.processRtp lib send recv packet = some o) :
    o.pc = pc := by
  unfold processRtp at h
  split at h
  · obtain rfl := Option.some.inj h
    rfl
  · split at h
    · cases h
    · split_ifs at h
      · obtain rfl := Option.some.inj h
        rfl
      · split at h
        · obtain rfl := Option.some.inj h
          rfl
        · obtain rfl := Option.some.inj h
          rfl

theorem establish_eq_some {send : SrtpSession} {effects : List Effect}
    (h : pc.establish atoi lib send = some (effects, pc')) :
    pc.established = true ∧ effects = [] ∧ pc' = pc ∨
      pc.established = false ∧ ∃ e, pc.sendPli atoi lib send = some e ∧ effects = [e] ∧
        pc' = { pc with pliTimer := true, established := true } := by
  unfold establish at h
  split_ifs at h with hest
  · obtain ⟨rfl, rfl⟩ := Prod.mk.inj (Option.some.inj h)
    exact .inl ⟨hest, rfl, rfl⟩
  · obtain ⟨e, he, heq⟩ := Option.map_eq_some_iff.mp h
    obtain ⟨rfl, rfl⟩ := Prod.mk.inj heq
    exact .inr ⟨Bool.eq_false_iff.mpr hest, e, he, rfl, rfl⟩

theorem establish_frame {send : SrtpSession} {effects : List Effect}
    (h : pc.establish atoi lib send = some (effects, pc')) : Frame pc pc' := by
  obtain ⟨-, -, rfl⟩ | ⟨-, e, -, -, rfl⟩ := establish_eq_some h
  · exact ⟨rfl, rfl, rfl, rfl⟩
  · exact ⟨rfl, rfl, rfl, rfl⟩

theorem handleMedia_pc {send recv : SrtpSession} (h : pc.handleMedia atoi lib send recv packet = some o) :
    ∃ effects, pc.establish atoi lib send = some (effects, o.pc) := by
  obtain ⟨⟨effects, pc₁⟩, hest, h⟩ := Option.bind_eq_some_iff.mp h
  obtain ⟨o₁, ho₁, rfl⟩ := Option.map_eq_some_iff.mp h
  have hpc : o₁.pc = pc₁ := by
    split_ifs at ho₁
    · obtain rfl := Option.some.inj ho₁
      exact processRtcp_pc pc₁ lib recv packet
    · split at ho₁
      · cases ho₁
      · exact processRtp_pc ho₁
      · obtain rfl := Option.some.inj ho₁
        rfl
  exact ⟨effects, hpc ▸ hest⟩

theorem handleMedia_frame {send recv : SrtpSession} (h : pc.handleMedia atoi lib send recv packet = some o) :
    Frame pc o.pc := by
  obtain ⟨effects, hest⟩ := handleMedia_pc h
  exact establish_frame hest

theorem handleSrtp_spec {dtls : DtlsTransport} (h : pc.handleSrtp atoi lib dtls packet = some o) :
    o.pc.ice = pc.ice ∧ o.pc.dtls = pc.dtls ∧
      (∀ s, o.pc.srtpSendSession = some s →
        pc.srtpSendSession = some s ∨ s = ⟨.outBound, dtls.useSrtp, dtls.srtpLocalMaster⟩) ∧
      ∀ s, o.pc.srtpRecvSession = some s →
        pc.srtpRecvSession = some s ∨ s = ⟨.inBound, dtls.useSrtp, dtls.srtpRemoteMaster⟩ := by
  have hcases {old : Option SrtpSession} {created : Bool} {type : Bound} {key : Bytes} {session : SrtpSession}
      (heq : (old <|> SrtpSession.new created type dtls.useSrtp key) = some session) :
      old = some session ∨ session = ⟨type, dtls.useSrtp, key⟩ := by
    cases old with
    | none => exact .inr (SrtpSession.new_eq_some heq)
    | some s => exact .inl heq
  unfold handleSrtp at h
  split at h
  · obtain rfl := Option.some.inj h
    exact ⟨rfl, rfl, fun _ hs ↦ .inl hs, fun _ hs ↦ .inl hs⟩
  · next send hsend =>
    dsimp only at h
    split at h
    · obtain rfl := Option.some.inj h
      refine ⟨rfl, rfl, fun s hs ↦ ?_, fun _ hs ↦ .inl hs⟩
      exact Option.some.inj hs ▸ hcases hsend
    · next recv hrecv =>
      obtain ⟨hice, hdtls, hsend', hrecv'⟩ := handleMedia_frame h
      refine ⟨hice, hdtls, fun s hs ↦ ?_, fun s hs ↦ ?_⟩
      · exact Option.some.inj (hsend'.symm.trans hs) ▸ hcases hsend
      · exact Option.some.inj (hrecv'.symm.trans hs) ▸ hcases hrecv

/-- What `ProcessPacket` comes to, case by case. -/
inductive Handled (hmacSha1 : Bytes → Bytes → Bytes) (atoi : Bytes → UInt32) (pc : PeerConnection)
    (lib : Answers) (packet : Bytes) : Outcome → Prop
  | stun {response : Option Bytes} {ice : IceServer} (hstun : StunPacket.isStun packet = true)
    (h : pc.iceServer.processStunPacket hmacSha1 pc.addr packet = some (response, ice)) :
    Handled hmacSha1 atoi pc lib packet ⟨0, (response.map .stunResponse).toList, { pc with ice := some ice }⟩
  | waiting (hice : pc.iceServer.isConnected = false) :
    Handled hmacSha1 atoi pc lib packet ⟨0, [], { pc with ice := some pc.iceServer }⟩
  | dtls {d : DtlsTransport} (hice : pc.iceServer.isConnected = true) (hd : pc.dtlsTransport lib = some d) :
    Handled hmacSha1 atoi pc lib packet
      ⟨0, [], { pc with ice := some pc.iceServer, dtls := some (d.processDtlsPacket lib.sslRead) }⟩
  | refused {d : DtlsTransport} {ret : ℤ} (hice : pc.iceServer.isConnected = true)
    (hd : pc.dtlsTransport lib = some d) :
    Handled hmacSha1 atoi pc lib packet ⟨ret, [], { pc with ice := some pc.iceServer, dtls := some d }⟩
  | media {d : DtlsTransport} {o : Outcome} (hice : pc.iceServer.isConnected = true)
    (hd : pc.dtlsTransport lib = some d) (hconn : d.state = .connected)
    (h : handleSrtp atoi { pc with ice := some pc.iceServer, dtls := some d } lib d packet = some o)
    (hstun : StunPacket.isStun packet = false) (hdtls : isDtls packet = false) :
    Handled hmacSha1 atoi pc lib packet o

theorem handled_of_processPacket (h : pc.processPacket hmacSha1 atoi lib packet = some o) :
    Handled hmacSha1 atoi pc lib packet o := by
  simp only [processPacket] at h
  split_ifs at h with hstun hice
  · obtain ⟨⟨response, ice⟩, hprocess, rfl⟩ := Option.map_eq_some_iff.mp h
    exact .stun hstun hprocess
  · obtain rfl := Option.some.inj h
    exact .waiting (by simpa using hice)
  · have hice : pc.iceServer.isConnected = true := by simpa using hice
    obtain ⟨d, hd, h⟩ := Option.bind_eq_some_iff.mp h
    dsimp only at h
    split_ifs at h with hdtls hrun hconn
    · exact Option.some.inj h ▸ .dtls hice hd
    · exact Option.some.inj h ▸ .refused hice hd
    · exact Option.some.inj h ▸ .refused hice hd
    · exact .media hice hd (by simpa [DtlsTransport.isConnected] using hconn) h (Bool.eq_false_iff.mpr hstun)
        (Bool.eq_false_iff.mpr hdtls)

def Nominates (packet : Bytes) : Prop :=
  ∃ stunPacket, IceServer.parsed packet = some (some stunPacket) ∧ stunPacket.klass = .request ∧
    stunPacket.method = Method.binding ∧ stunPacket.hasUseCandidate = true ∧ IceServer.answers stunPacket = true

theorem processStunPacket_state {ice ice' : IceServer} {addr : InetAddress} {response : Option Bytes}
    (h : ice.processStunPacket hmacSha1 addr packet = some (response, ice')) :
    ice' = ice ∨ ice'.isConnected = true ∧ Nominates packet := by
  obtain ⟨parsed, hparsed, heq⟩ := Option.map_eq_some_iff.mp h
  cases parsed with
  | none => exact .inl (Prod.mk.inj heq).2.symm
  | some stunPacket =>
    dsimp only at heq
    split_ifs at heq with hanswers hcandidate
    · obtain ⟨-, rfl⟩ := Prod.mk.inj heq
      have hchecks := hanswers
      simp only [IceServer.answers, Bool.and_eq_true, decide_eq_true_eq] at hchecks
      obtain ⟨⟨⟨⟨hmethod, -⟩, hklass⟩, -⟩, -⟩ := hchecks
      exact .inr ⟨rfl, stunPacket, hparsed, hklass, hmethod, hcandidate, hanswers⟩
    · exact .inl (Prod.mk.inj heq).2.symm
    · exact .inl (Prod.mk.inj heq).2.symm

end PeerConnection

end Baize.Webrtc
