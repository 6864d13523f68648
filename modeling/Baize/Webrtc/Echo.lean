import Baize.Webrtc.Established

namespace Baize.Rtp

open Lib Dtls

namespace RtpPacket

variable {this m : RtpPacket} {data : Bytes} {header : Header} {ptr size : ℕ} {val : ℤ}

theorem assignPayload_val {payloadLength : ℤ} {payloadPadding : UInt8}
    (h : assignPayload this data ptr size payloadLength payloadPadding = .ok (val, m)) : val = 0 ∨ val = -1 := by
  obtain ⟨-, -, h⟩ := bind_eq_ok.mp h
  dsimp only at h
  split_ifs at h
  · cases h
    exact .inr rfl
  · cases h
    exact .inl rfl

theorem decodePayload_val (h : decodePayload this data header ptr size = .ok (val, m)) : val = 0 ∨ val = -1 := by
  unfold decodePayload at h
  dsimp only at h
  split at h
  · split at h
    · cases h
      exact .inr rfl
    · obtain ⟨payloadPadding, -, h⟩ := bind_eq_ok.mp h
      split_ifs at h
      · cases h
        exact .inr rfl
      · cases h
        exact .inr rfl
      · exact assignPayload_val h
  · exact assignPayload_val h

theorem decodeExtension_val (h : decodeExtension this data header ptr size = .ok (val, m)) :
    val = 0 ∨ val = -1 := by
  unfold decodeExtension at h
  split at h
  · split at h
    · cases h
      exact .inr rfl
    · obtain ⟨length, -, h⟩ := bind_eq_ok.mp h
      dsimp only at h
      split at h
      · cases h
        exact .inr rfl
      · obtain ⟨profile, -, h⟩ := bind_eq_ok.mp h
        exact decodePayload_val h
  · exact decodePayload_val h

theorem decode_val (h : decode this data = .ok (val, m)) : val = 0 ∨ val = -1 := by
  rw [decode_eq] at h
  split at h
  · split at h
    · cases h
      exact .inr rfl
    · obtain ⟨csrcs, -, h⟩ := bind_eq_ok.mp h
      exact decodeExtension_val h
  · cases h
    exact .inr rfl

end RtpPacket

namespace Datagram

def withSsrc (r : Datagram) (ssrc : UInt32) : Datagram := { r with ssrc := ssrc }

theorem memcpy_ssrc (r : Datagram) (ssrc : UInt32) : memcpy r.bytes 8 (net4 ssrc) = (r.withSsrc ssrc).bytes := by
  rfl

theorem length_withSsrc (r : Datagram) (ssrc : UInt32) : (r.withSsrc ssrc).bytes.length = r.bytes.length := by
  rfl

end Datagram

end Baize.Rtp

namespace Baize.Webrtc.PeerConnection

open Baize.Lib Baize.Net Baize.Stun Baize.Dtls Baize.Rtp

variable {hmacSha1 : Bytes → Bytes → Bytes} {atoi : Bytes → UInt32} {pc pc' : PeerConnection} {lib : Answers}
  {packet secured : Bytes} {o : Outcome} {send recv : SrtpSession}

/-- `DecryptRtp` leaves an RTP packet, and `EncryptRtp` makes `secured` of it under the SSRC 1234. -/
def Echoes (lib : Answers) (send recv : SrtpSession) (packet secured : Bytes) : Prop :=
  ∃ r : Datagram, recv.apply lib.srtpUnprotect packet = some r.bytes ∧
    send.apply lib.srtpProtect (r.withSsrc 1234).bytes = some secured

/-- The packet that the bytes belong to does not matter, as the SSRC always lies at the same place. -/
theorem echoes_iff {r : Datagram} (h : recv.apply lib.srtpUnprotect packet = some r.bytes) :
    Echoes lib send recv packet secured ↔ send.apply lib.srtpProtect (r.withSsrc 1234).bytes = some secured := by
  constructor
  · rintro ⟨r', hr', hsecured⟩
    rw [h] at hr'
    rw [← Datagram.memcpy_ssrc, Option.some.inj hr', Datagram.memcpy_ssrc]
    exact hsecured
  · exact fun hsecured ↦ ⟨r, h, hsecured⟩

theorem processRtp_forwards (h : pc.processRtp lib send recv packet = some o) :
    .forwardRtp secured ∈ o.effects ↔ Echoes lib send recv packet secured := by
  unfold processRtp at h
  cases hplain : recv.apply lib.srtpUnprotect packet with
  | none =>
    rw [hplain] at h
    cases h
    simp [Echoes, hplain]
  | some plain =>
    rw [hplain] at h
    dsimp only at h
    cases hdecode : RtpPacket.decode .fresh plain with
    | error fault =>
      rw [hdecode] at h
      cases h
    | ok r =>
      obtain ⟨val, m⟩ := r
      rw [hdecode] at h
      dsimp only at h
      obtain rfl | rfl := RtpPacket.decode_val hdecode
      · obtain ⟨r, rfl, -⟩ := Datagram.exists_of_decode hdecode
        rw [if_neg (by decide), Datagram.memcpy_ssrc] at h
        rw [echoes_iff hplain]
        cases hprotect : send.apply lib.srtpProtect (r.withSsrc 1234).bytes with
        | none =>
          rw [hprotect] at h
          cases h
          simp
        | some s =>
          rw [hprotect] at h
          cases h
          simp [eq_comm]
      · rw [if_pos (by decide)] at h
        cases h
        refine iff_of_false (by simp) ?_
        rintro ⟨r, hr, -⟩
        rw [hplain] at hr
        rw [Option.some.inj hr, Datagram.decode_bytes] at hdecode
        cases hdecode

theorem establish_forwards {effects : List Effect} (h : pc.establish atoi lib send = some (effects, pc')) :
    .forwardRtp secured ∉ effects := by
  obtain ⟨-, rfl, -⟩ | ⟨-, e, he, rfl, -⟩ := establish_eq_some h
  · exact List.not_mem_nil
  · obtain ⟨mediaSsrc, -, rfl⟩ := Option.map_eq_some_iff.mp he
    simp

theorem processRtcp_forwards : .forwardRtp secured ∉ (pc.processRtcp lib recv packet).effects := by
  unfold processRtcp
  split
  · simp
  · simp

theorem handleMedia_forwards (h : pc.handleMedia atoi lib send recv packet = some o) :
    .forwardRtp secured ∈ o.effects ↔
      Rtcp.isRtcp packet = false ∧ isRtp packet = .ok true ∧ Echoes lib send recv packet secured := by
  obtain ⟨⟨effects, pc₁⟩, hest, h⟩ := Option.bind_eq_some_iff.mp h
  obtain ⟨o₁, ho₁, rfl⟩ := Option.map_eq_some_iff.mp h
  rw [List.mem_append, or_iff_right (establish_forwards hest)]
  cases hrtcp : Rtcp.isRtcp packet with
  | true =>
    rw [hrtcp, if_pos rfl] at ho₁
    cases ho₁
    exact iff_of_false processRtcp_forwards (fun hr ↦ Bool.noConfusion hr.1)
  | false =>
    rw [hrtcp, if_neg Bool.false_ne_true] at ho₁
    cases hrtp : isRtp packet with
    | error fault =>
      rw [hrtp] at ho₁
      cases ho₁
    | ok rtp =>
      rw [hrtp] at ho₁
      cases rtp with
      | true => rw [processRtp_forwards ho₁, and_iff_right rfl, and_iff_right rfl]
      | false =>
        cases ho₁
        refine iff_of_false List.not_mem_nil ?_
        rintro ⟨-, htrue, -⟩
        cases htrue

theorem processPacket_forwards (h : pc.processPacket hmacSha1 atoi lib packet = some o) :
    .forwardRtp secured ∈ o.effects ↔
      Rtcp.isRtcp packet = false ∧ isRtp packet = .ok true ∧ pc.ReachesMedia lib packet ∧
      ∃ d send recv, pc.dtlsTransport lib = some d ∧ d.isConnected = true ∧
        pc.sessions lib d = some (send, recv) ∧ Echoes lib send recv packet secured := by
  by_cases hreach : pc.ReachesMedia lib packet
  · obtain ⟨d, send, recv, hd, hconn, hs, heq⟩ := hreach.processPacket hmacSha1 atoi
    rw [handleMedia_forwards (heq.symm.trans h), and_iff_right hreach]
    refine and_congr_right fun _ ↦ and_congr_right fun _ ↦ ?_
    constructor
    · exact fun hechoes ↦ ⟨d, send, recv, hd, hconn, hs, hechoes⟩
    · rintro ⟨d', send', recv', hd', -, hs', hechoes⟩
      obtain rfl := Option.some.inj (hd.symm.trans hd')
      obtain ⟨rfl, rfl⟩ := Prod.mk.inj (Option.some.inj (hs.symm.trans hs'))
      exact hechoes
  · refine iff_of_false (fun hmem ↦ ?_) fun hr ↦ hreach hr.2.2.1
    cases (processPacket_of_not_reaches hreach h).1 _ hmem

theorem Gated.sessions_eq {datagrams : List Bytes} {d : DtlsTransport} (hgated : Gated datagrams pc)
    (hd : pc.dtls = some d) (h : pc.sessions lib d = some (send, recv)) :
    send = ⟨.outBound, d.useSrtp, d.srtpLocalMaster⟩ ∧ recv = ⟨.inBound, d.useSrtp, d.srtpRemoteMaster⟩ := by
  obtain ⟨send', hsend, h⟩ := Option.bind_eq_some_iff.mp h
  obtain ⟨recv', hrecv, heq⟩ := Option.map_eq_some_iff.mp h
  obtain ⟨rfl, rfl⟩ := Prod.mk.inj heq
  constructor
  · cases hs : pc.srtpSendSession with
    | none =>
      rw [hs] at hsend
      exact SrtpSession.new_eq_some hsend
    | some s =>
      rw [hs] at hsend
      obtain rfl := Option.some.inj hsend
      obtain ⟨d', remote, hd', htype, hk⟩ := hgated.send s hs
      obtain rfl := Option.some.inj (hd.symm.trans hd')
      rw [hk.useSrtp, hk.localMaster, ← htype]
  · cases hr : pc.srtpRecvSession with
    | none =>
      rw [hr] at hrecv
      exact SrtpSession.new_eq_some hrecv
    | some s =>
      rw [hr] at hrecv
      obtain rfl := Option.some.inj hrecv
      obtain ⟨d', local_, hd', htype, hk⟩ := hgated.recv s hr
      obtain rfl := Option.some.inj (hd.symm.trans hd')
      rw [hk.useSrtp, hk.remoteMaster, ← htype]

theorem reachesMedia_of_connected {d : DtlsTransport} (hstun : StunPacket.isStun packet = false)
    (hdtls : isDtls packet = false) (hice : pc.iceServer.isConnected = true) (hd : pc.dtls = some d)
    (hstate : d.state = .connected) (hs : pc.sessions lib d = some (send, recv)) :
    pc.ReachesMedia lib packet := by
  have hrun : d.isRunning = true := by rw [DtlsTransport.isRunning, hstate]; rfl
  have hconn : d.isConnected = true := by rw [DtlsTransport.isConnected, hstate]; rfl
  exact ⟨hstun, hice, hdtls, d, Ended.dtlsTransport hd lib, hrun, hconn, Option.isSome_of_eq_some hs⟩

def SameTag (lib : Answers) : Prop :=
  ∃ tag, (∀ s p c, lib.srtpProtect s p = some c → c.length = p.length + tag) ∧
    ∀ s c p, lib.srtpUnprotect s c = some p → c.length = p.length + tag

theorem apply_eq_some {session : SrtpSession} {f : SrtpSession → Bytes → Option Bytes} {p q : Bytes}
    (h : session.apply f p = some q) : f session p = some q := (Option.filter_eq_some_iff.mp h).1

theorem Echoes.length (h : Echoes lib send recv packet secured) (htag : SameTag lib) :
    secured.length = packet.length := by
  obtain ⟨r, hplain, hsecured⟩ := h
  obtain ⟨tag, hprotect, hunprotect⟩ := htag
  rw [hprotect _ _ _ (apply_eq_some hsecured), hunprotect _ _ _ (apply_eq_some hplain), Datagram.length_withSsrc]

/-- In every run, a datagram makes the peer get a packet back exactly when it is an RTP packet that comes
while ICE and DTLS are connected and the sessions are there or can be created, when the first track has an
SSRC for `SendPli`, and when the packet decrypts under the remote master to a well-formed one that
encrypts under the local master with 1234 as its SSRC and nothing else changed. The answer is then written
over the datagram and ends where that ended. -/
theorem run_echoes {addr : InetAddress} {tracks : List (List Bytes)} {as : List Action}
    (hrun : Run (fun pc a pc' ↦ pc.step hmacSha1 atoi a = some pc') (new addr tracks) as pc) :
    ((∃ o, pc.processPacket hmacSha1 atoi lib packet = some o ∧ .forwardRtp secured ∈ o.effects) ↔
      (StunPacket.isStun packet = false ∧ isDtls packet = false ∧ Rtcp.isRtcp packet = false ∧
        isRtp packet = .ok true) ∧
      pc.iceServer.isConnected = true ∧ Indexed tracks ∧ ∃ d, pc.dtls = some d ∧ d.state = .connected ∧
        pc.sessions lib d = some (⟨.outBound, d.useSrtp, d.srtpLocalMaster⟩,
          ⟨.inBound, d.useSrtp, d.srtpRemoteMaster⟩) ∧
        Echoes lib ⟨.outBound, d.useSrtp, d.srtpLocalMaster⟩ ⟨.inBound, d.useSrtp, d.srtpRemoteMaster⟩ packet
          secured) ∧
    (SameTag lib → ∀ o, pc.processPacket hmacSha1 atoi lib packet = some o → .forwardRtp secured ∈ o.effects →
      secured.length = packet.length) := by
  have hgated : Gated (as.flatMap Action.datagram) pc :=
    hrun.invariant_history Action.datagram (fun _ _ _ _ h hstep ↦ step_gated h hstep) (new_gated addr tracks)
  refine ⟨⟨?_, ?_⟩, fun htag o ho hmem ↦ ?_⟩
  · rintro ⟨o, ho, hmem⟩
    obtain ⟨hrtcp, hrtp, hreach, d, send, recv, hd, hconn, hs, hechoes⟩ := (processPacket_forwards ho).mp hmem
    have hstate : d.state = .connected := by simpa [DtlsTransport.isConnected] using hconn
    have hd : pc.dtls = some d := by
      rcases (hgated.dtlsTransport hd).2 with hd | ⟨-, hconnecting⟩
      · exact hd
      · cases hstate.symm.trans hconnecting
    obtain ⟨hest, hflagged⟩ := processPacket_established ho
    have hindexed : Indexed o.pc.tracks := (hflagged (run_flagged hrun)).indexed (hest.mpr (.inr hreach))
    rw [(handled_of_processPacket ho).tracks, run_tracks hrun] at hindexed
    obtain ⟨rfl, rfl⟩ := hgated.sessions_eq hd hs
    exact ⟨⟨hreach.1, hreach.2.2.1, hrtcp, hrtp⟩, hreach.2.1, hindexed, d, hd, hstate, hs, hechoes⟩
  · rintro ⟨⟨hstun, hdtls, hrtcp, hrtp⟩, hice, hindexed, d, hd, hstate, hs, hechoes⟩
    have hreach : pc.ReachesMedia lib packet := reachesMedia_of_connected hstun hdtls hice hd hstate hs
    obtain ⟨o, ho⟩ := hreach.total (.inr ((run_tracks hrun).symm ▸ hindexed)) hmacSha1 atoi
    have hconn : d.isConnected = true := by rw [DtlsTransport.isConnected, hstate]; rfl
    exact ⟨o, ho, (processPacket_forwards ho).mpr
      ⟨hrtcp, hrtp, hreach, d, _, _, Ended.dtlsTransport hd lib, hconn, hs, hechoes⟩⟩
  · obtain ⟨-, -, -, _, _, _, -, -, -, hechoes⟩ := (processPacket_forwards ho).mp hmem
    exact hechoes.length htag

def secondMedia : Bytes := 0x80 :: 96 :: List.replicate 10 5

def secondMediaBack : Bytes := 0x80 :: 96 :: (List.replicate 6 5 ++ [0, 0, 4, 210])

theorem run_echoes_firstMedia : ∃ pc o,
    Run (fun pc a pc' ↦ pc.step (fun _ _ ↦ List.replicate 20 0) (fun _ ↦ 0) a = some pc') (new .zero [[[49]]])
      firstMedia pc ∧
    pc.processPacket (fun _ _ ↦ List.replicate 20 0) (fun _ ↦ 0) friendly secondMedia = some o ∧
    .forwardRtp secondMediaBack ∈ o.effects ∧ ∃ d, pc.dtls = some d ∧ d.state = .connected := by
  let back (pc : PeerConnection) : Bool :=
    (pc.processPacket (fun _ _ ↦ List.replicate 20 0) (fun _ ↦ 0) friendly secondMedia).any fun o ↦
      decide (Effect.forwardRtp secondMediaBack ∈ o.effects)
  have hsteps :
      (firstMedia.foldlM (step (fun _ _ ↦ List.replicate 20 0) (fun _ ↦ 0)) (new .zero [[[49]]])).map back =
        some true := by
    decide +kernel
  obtain ⟨pc, hrun, hback⟩ := exists_run_of_steps back hsteps
  obtain ⟨o, ho, hmem⟩ := (Option.any_eq_true _ _).mp hback
  have hmem := of_decide_eq_true hmem
  obtain ⟨-, -, -, d, hd, hconn, -⟩ := (run_echoes hrun).1.mp ⟨o, ho, hmem⟩
  exact ⟨pc, o, hrun, ho, hmem, d, hd, hconn⟩

end Baize.Webrtc.PeerConnection
