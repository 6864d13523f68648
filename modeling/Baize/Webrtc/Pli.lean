import Baize.Sdp.Tracks
import Baize.Webrtc.MediaGate
import Baize.Webrtc.Room

namespace Baize.Webrtc

open Baize.Lib Baize.Net Baize.Stun Baize.Dtls

def ssrcGroups (body : Bytes) : List (List Bytes) :=
  (Sdp.SdpMessage.fresh.decode body).2.tracks.map Sdp.TrackSdp.ssrcGroup

/-- The connection that `HandleSignal` makes of a publish request, bound to `addr`. -/
def published (body : Bytes) (addr : InetAddress) : Option PeerConnection :=
  if (Sdp.SdpMessage.fresh.decode body).2.net.iceUfrag = [] then none
  else some (.new addr (ssrcGroups body))

theorem decode_iceUfrag (body : Bytes) :
    (Sdp.SdpMessage.fresh.decode body).2.net.iceUfrag = iceUfrag body := by
  change Sdp.SdpMessage.assign [] (iceUfrag body) = iceUfrag body
  unfold Sdp.SdpMessage.assign
  split
  · next h => exact h.symm
  · rfl

namespace PeerConnection

def sessions (pc : PeerConnection) (lib : Answers) (dtls : DtlsTransport) : Option (SrtpSession × SrtpSession) :=
  (pc.srtpSendSession <|>
      SrtpSession.new (lib.srtpCreate .outBound) .outBound dtls.useSrtp dtls.srtpLocalMaster).bind fun send ↦
    (pc.srtpRecvSession <|>
      SrtpSession.new (lib.srtpCreate .inBound) .inBound dtls.useSrtp dtls.srtpRemoteMaster).map fun recv ↦
    (send, recv)

theorem handleSrtp_of_sessions {pc : PeerConnection} {atoi : Bytes → UInt32} {lib : Answers} {packet : Bytes}
    {d : DtlsTransport} {send recv : SrtpSession} (h : pc.sessions lib d = some (send, recv)) :
    pc.handleSrtp atoi lib d packet =
      handleMedia atoi { pc with srtpSendSession := some send, srtpRecvSession := some recv }
        lib send recv packet := by
  obtain ⟨send', hsend, h⟩ := Option.bind_eq_some_iff.mp h
  obtain ⟨recv', hrecv, heq⟩ := Option.map_eq_some_iff.mp h
  obtain ⟨rfl, rfl⟩ := Prod.mk.inj heq
  rw [handleSrtp, hsend]
  dsimp only
  rw [hrecv]

theorem handleSrtp_of_no_sessions (pc : PeerConnection) {lib : Answers} {d : DtlsTransport}
    (h : pc.sessions lib d = none) (atoi : Bytes → UInt32) (packet : Bytes) :
    ∃ send, pc.handleSrtp atoi lib d packet = some ⟨-1, [], { pc with srtpSendSession := send }⟩ ∧
      (pc.srtpSendSession.isSome = true → send.isSome = true) := by
  unfold sessions at h
  unfold handleSrtp
  cases hsend : (pc.srtpSendSession <|>
      SrtpSession.new (lib.srtpCreate .outBound) .outBound d.useSrtp d.srtpLocalMaster) with
  | none => exact ⟨pc.srtpSendSession, rfl, id⟩
  | some send =>
    rw [hsend, Option.bind_some, Option.map_eq_none_iff] at h
    dsimp only
    rw [h]
    exact ⟨some send, rfl, fun _ ↦ rfl⟩

/-- The packet gets as far as the test of `established_`. -/
def ReachesMedia (pc : PeerConnection) (lib : Answers) (packet : Bytes) : Prop :=
  StunPacket.isStun packet = false ∧ pc.iceServer.isConnected = true ∧ isDtls packet = false ∧
    ∃ d ∈ pc.dtlsTransport lib, d.isRunning = true ∧ d.isConnected = true ∧ (pc.sessions lib d).isSome = true

def ready (pc : PeerConnection) (d : DtlsTransport) (send recv : SrtpSession) : PeerConnection :=
  { pc with
    ice := some pc.iceServer
    dtls := some d
    srtpSendSession := some send
    srtpRecvSession := some recv }

section Reaches

variable {pc : PeerConnection} {lib : Answers} {packet : Bytes} {o : Outcome} {d : DtlsTransport}

theorem processPacket_eq_handleSrtp (hmacSha1 : Bytes → Bytes → Bytes) (atoi : Bytes → UInt32)
    (hstun : StunPacket.isStun packet = false) (hice : pc.iceServer.isConnected = true)
    (hdtls : isDtls packet = false)
    (hd : pc.dtlsTransport lib = some d) (hrun : d.isRunning = true) (hconn : d.isConnected = true) :
    pc.processPacket hmacSha1 atoi lib packet =
      handleSrtp atoi { pc with ice := some pc.iceServer, dtls := some d } lib d packet := by
  have htransport : dtlsTransport { pc with ice := some pc.iceServer } lib = some d := hd
  simp only [processPacket, hstun, hice, Bool.false_eq_true, if_false, Bool.not_true, handleDtls, htransport,
    Option.bind_some, hdtls, hrun, hconn]

theorem ReachesMedia.processPacket (h : pc.ReachesMedia lib packet) (hmacSha1 : Bytes → Bytes → Bytes)
    (atoi : Bytes → UInt32) :
    ∃ d send recv, pc.dtlsTransport lib = some d ∧ d.isConnected = true ∧
      pc.sessions lib d = some (send, recv) ∧
      pc.processPacket hmacSha1 atoi lib packet =
        (pc.ready d send recv).handleMedia atoi lib send recv packet := by
  obtain ⟨hstun, hice, hdtls, d, hd, hrun, hconn, hsessions⟩ := h
  obtain ⟨⟨send, recv⟩, hs⟩ := Option.isSome_iff_exists.mp hsessions
  refine ⟨d, send, recv, hd, hconn, hs, ?_⟩
  rw [processPacket_eq_handleSrtp hmacSha1 atoi hstun hice hdtls hd hrun hconn]
  exact handleSrtp_of_sessions hs

theorem processPacket_of_not_reaches {hmacSha1 : Bytes → Bytes → Bytes} {atoi : Bytes → UInt32}
    (h : ¬pc.ReachesMedia lib packet) (ho : pc.processPacket hmacSha1 atoi lib packet = some o) :
    (∀ e ∈ o.effects, e.isMedia = false) ∧ o.pc.established = pc.established ∧ o.pc.pliTimer = pc.pliTimer ∧
      (pc.srtpSendSession.isSome = true → o.pc.srtpSendSession.isSome = true) := by
  cases handled_of_processPacket ho with
  | @stun response ice =>
    refine ⟨fun e he ↦ ?_, rfl, rfl, id⟩
    cases response with
    | none => cases he
    | some response =>
      obtain rfl := List.mem_singleton.mp he
      rfl
  | waiting => exact ⟨fun _ he ↦ absurd he List.not_mem_nil, rfl, rfl, id⟩
  | dtls => exact ⟨fun _ he ↦ absurd he List.not_mem_nil, rfl, rfl, id⟩
  | refused => exact ⟨fun _ he ↦ absurd he List.not_mem_nil, rfl, rfl, id⟩
  | @media d _ hice hd hstate hsrtp hstun hdtls =>
    cases hs : pc.sessions lib d with
    | none =>
      obtain ⟨send, heq, hsend⟩ :=
        handleSrtp_of_no_sessions { pc with ice := some pc.iceServer, dtls := some d } hs atoi packet
      obtain rfl := Option.some.inj (heq.symm.trans hsrtp)
      exact ⟨fun _ he ↦ absurd he List.not_mem_nil, rfl, rfl, hsend⟩
    | some s =>
      have hrun : d.isRunning = true := by rw [DtlsTransport.isRunning, hstate]; rfl
      have hconn : d.isConnected = true := by rw [DtlsTransport.isConnected, hstate]; rfl
      exact absurd ⟨hstun, hice, hdtls, d, hd, hrun, hconn, Option.isSome_of_eq_some hs⟩ h

end Reaches

/-- `SendPli` is executed: by the first packet that gets through, or by the timer. -/
def SendsPli (pc : PeerConnection) : Action → Prop
  | .packet lib packet => pc.stuck = false ∧ pc.established = false ∧ pc.ReachesMedia lib packet
  | .dtlsTimer _ _ => False
  | .pliTimer _ => pc.stuck = false ∧ pc.pliTimer = true

instance (pc : PeerConnection) (lib : Answers) (packet : Bytes) : Decidable (pc.ReachesMedia lib packet) :=
  inferInstanceAs (Decidable (_ ∧ _))

instance (pc : PeerConnection) (a : Action) : Decidable (pc.SendsPli a) :=
  match a with
  | .packet lib packet => inferInstanceAs (Decidable (_ ∧ _ ∧ pc.ReachesMedia lib packet))
  | .dtlsTimer _ _ => .isFalse id
  | .pliTimer _ => inferInstanceAs (Decidable (_ ∧ _))

theorem not_sendsPli_of_stun {lib : Answers} {packet : Bytes} (h : StunPacket.isStun packet = true)
    (pc : PeerConnection) : ¬pc.SendsPli (.packet lib packet) := by
  intro hsends
  obtain ⟨-, -, hstun, -⟩ := hsends
  cases hstun.symm.trans h

theorem not_sendsPli_of_dtls {lib : Answers} {packet : Bytes} (h : isDtls packet = true) (pc : PeerConnection) :
    ¬pc.SendsPli (.packet lib packet) := by
  intro hsends
  obtain ⟨-, -, -, -, hdtls, -⟩ := hsends
  cases hdtls.symm.trans h

/-- `sdp_.tracks_[0].ssrc_group_[0]` exists. -/
def Indexed (tracks : List (List Bytes)) : Prop := ∃ group rest, tracks = group :: rest ∧ group ≠ []

theorem indexed_iff {tracks : List (List Bytes)} : Indexed tracks ↔ tracks.head?.bind List.head? ≠ none := by
  cases tracks with
  | nil => exact iff_of_false (fun h ↦ by obtain ⟨_, _, h, -⟩ := h; cases h) (fun h ↦ h rfl)
  | cons group rest =>
    cases group with
    | nil =>
      refine iff_of_false (fun h ↦ ?_) (fun h ↦ h rfl)
      obtain ⟨_, _, heq, hne⟩ := h
      exact hne (List.cons.inj heq).1.symm
    | cons ssrc group => exact iff_of_true ⟨_, _, rfl, List.cons_ne_nil _ _⟩ (Option.some_ne_none _)

def moved (pc : PeerConnection) (addr : InetAddress) (tracks : List (List Bytes)) : PeerConnection :=
  { pc with addr := addr, tracks := tracks }

section Moved

variable {hmacSha1 hmacSha1' : Bytes → Bytes → Bytes} {atoi atoi' : Bytes → UInt32} {lib : Answers}
  {packet : Bytes} {addr : InetAddress} {tracks : List (List Bytes)}

theorem processStunPacket_snd (hmacSha1 hmacSha1' : Bytes → Bytes → Bytes) (ice : IceServer)
    (addr addr' : InetAddress) (packet : Bytes) :
    (ice.processStunPacket hmacSha1' addr' packet).map Prod.snd =
      (ice.processStunPacket hmacSha1 addr packet).map Prod.snd := by
  rw [IceServer.processStunPacket, IceServer.processStunPacket, Option.map_map, Option.map_map]
  refine Option.map_congr fun stunPacket _ ↦ ?_
  -- the responses differ, so each side is reduced before the two are compared
  rw [Function.comp_apply, Function.comp_apply]
  cases stunPacket with
  | none => simp only
  | some stunPacket =>
    by_cases h : IceServer.answers stunPacket = true
    · simp only [if_pos h]
    · simp only [if_neg h]

theorem processRtp_moved (pc : PeerConnection) (send recv : SrtpSession) :
    ((pc.moved addr tracks).processRtp lib send recv packet).map Outcome.pc =
      ((pc.processRtp lib send recv packet).map Outcome.pc).map (moved · addr tracks) := by
  unfold processRtp
  cases recv.apply lib.srtpUnprotect packet with
  | none => rfl
  | some plain =>
    dsimp only
    cases Rtp.RtpPacket.decode .fresh plain with
    | error fault => rfl
    | ok r =>
      dsimp only
      split
      · rfl
      · cases send.apply lib.srtpProtect (memcpy plain 8 (net4 1234)) with
        | none => rfl
        | some secured => rfl

theorem handleMedia_moved (pc : PeerConnection) {send recv : SrtpSession} (h : pc.established = true) :
    ((pc.moved addr tracks).handleMedia atoi' lib send recv packet).map Outcome.pc =
      ((pc.handleMedia atoi lib send recv packet).map Outcome.pc).map (moved · addr tracks) := by
  have hest : pc.establish atoi lib send = some ([], pc) := if_pos h
  have hest' : (pc.moved addr tracks).establish atoi' lib send = some ([], pc.moved addr tracks) := if_pos h
  have hpc : ∀ x : Option Outcome,
      (x.map fun o ↦ { o with effects := [] ++ o.effects }).map Outcome.pc = x.map Outcome.pc := by
    intro x
    cases x <;> rfl
  rw [handleMedia, handleMedia, hest, hest', Option.bind_some, Option.bind_some]
  dsimp only
  rw [hpc, hpc]
  split
  · simp only [Option.map_some, processRtcp_pc]
  · cases Rtp.isRtp packet with
    | error fault => rfl
    | ok isRtp =>
      cases isRtp with
      | false => rfl
      | true => exact processRtp_moved pc send recv

theorem handleSrtp_moved (pc : PeerConnection) {d : DtlsTransport}
    (h : (pc.sessions lib d).isSome = true → pc.established = true) :
    ((pc.moved addr tracks).handleSrtp atoi' lib d packet).map Outcome.pc =
      ((pc.handleSrtp atoi lib d packet).map Outcome.pc).map (moved · addr tracks) := by
  have hsend' : (pc.moved addr tracks).srtpSendSession = pc.srtpSendSession := rfl
  have hrecv' : (pc.moved addr tracks).srtpRecvSession = pc.srtpRecvSession := rfl
  unfold handleSrtp
  unfold sessions at h
  rw [hsend']
  cases hsend : (pc.srtpSendSession <|>
      SrtpSession.new (lib.srtpCreate .outBound) .outBound d.useSrtp d.srtpLocalMaster) with
  | none => rfl
  | some send =>
    dsimp only
    rw [hrecv']
    cases hrecv : (pc.srtpRecvSession <|>
        SrtpSession.new (lib.srtpCreate .inBound) .inBound d.useSrtp d.srtpRemoteMaster) with
    | none => rfl
    | some recv =>
      rw [hsend, hrecv] at h
      exact handleMedia_moved { pc with srtpSendSession := some send, srtpRecvSession := some recv } (h rfl)

theorem handleDtls_moved (pc : PeerConnection)
    (h : isDtls packet = false → ∀ d ∈ pc.dtlsTransport lib, d.isRunning = true →
      d.isConnected = true → (pc.sessions lib d).isSome = true → pc.established = true) :
    ((pc.moved addr tracks).handleDtls atoi' lib packet).map Outcome.pc =
      ((pc.handleDtls atoi lib packet).map Outcome.pc).map (moved · addr tracks) := by
  unfold handleDtls
  change Option.map Outcome.pc ((pc.dtlsTransport lib).bind _) = _
  cases hd : pc.dtlsTransport lib with
  | none => rfl
  | some d =>
    simp only [Option.bind_some]
    split_ifs with hdtls hrun hconn
    · rfl
    · rfl
    · rfl
    · exact handleSrtp_moved { pc with dtls := some d }
        (h (by simpa using hdtls) d hd (by simpa using hrun) (by simpa using hconn))

theorem processPacket_moved (pc : PeerConnection) (h : pc.ReachesMedia lib packet → pc.established = true) :
    ((pc.moved addr tracks).processPacket hmacSha1' atoi' lib packet).map Outcome.pc =
      ((pc.processPacket hmacSha1 atoi lib packet).map Outcome.pc).map (moved · addr tracks) := by
  have hice' : (pc.moved addr tracks).iceServer = pc.iceServer := rfl
  unfold processPacket
  dsimp only
  rw [hice']
  by_cases hstun : StunPacket.isStun packet = true
  · have hstate := processStunPacket_snd hmacSha1 hmacSha1' pc.iceServer pc.addr addr packet
    rw [if_pos hstun, if_pos hstun, Option.map_map, Option.map_map, Option.map_map]
    have hcong :=
      congrArg (Option.map fun ice ↦ { pc with ice := some ice, addr := addr, tracks := tracks }) hstate
    rw [Option.map_map, Option.map_map] at hcong
    exact hcong
  rw [if_neg hstun, if_neg hstun]
  by_cases hice : pc.iceServer.isConnected = true
  · rw [hice, Bool.not_true, if_neg Bool.false_ne_true, if_neg Bool.false_ne_true]
    refine handleDtls_moved { pc with ice := some pc.iceServer } fun hdtls d hd hrun hconn hsessions ↦ ?_
    exact h ⟨by simpa using hstun, hice, hdtls, d, hd, hrun, hconn, hsessions⟩
  · rw [if_pos (by simpa using hice), if_pos (by simpa using hice)]
    rfl

/-- No step but one that executes `SendPli` depends on the address, the tracks
or the functions that the packets are built with. -/
theorem step_moved {pc : PeerConnection} {a : Action} (h : ¬pc.SendsPli a) :
    (pc.moved addr tracks).step hmacSha1' atoi' a =
    (pc.step hmacSha1 atoi a).map (moved · addr tracks) := by
  have hstuck' : (pc.moved addr tracks).stuck = pc.stuck := rfl
  unfold step
  rw [hstuck']
  by_cases hstuck : pc.stuck = true
  · rw [if_pos hstuck, if_pos hstuck]
    rfl
  rw [if_neg hstuck, if_neg hstuck]
  have hstuck : pc.stuck = false := by simpa using hstuck
  cases a with
  | packet lib packet =>
    refine processPacket_moved pc fun hreach ↦ ?_
    by_contra hest
    exact h ⟨hstuck, by simpa using hest, hreach⟩
  | dtlsTimer c timeouts =>
    change Option.map _ pc.dtls = _
    rw [Option.map_map]
    rfl
  | pliTimer lib =>
    have htimer : ¬pc.pliTimer = true := fun htimer ↦ h ⟨hstuck, htimer⟩
    have htimer' : ¬(pc.moved addr tracks).pliTimer = true := htimer
    dsimp only
    rw [if_neg htimer, if_neg htimer']
    rfl

theorem run_moved {as : List Action} {s s' : PeerConnection}
    (has : ∀ a ∈ as, ∀ pc : PeerConnection, ¬pc.SendsPli a)
    (hrun : Run (fun pc a pc' ↦ pc.step hmacSha1 atoi a = some pc') s as s') :
    Run (fun pc a pc' ↦ pc.step hmacSha1' atoi' a = some pc') (s.moved addr tracks) as
      (s'.moved addr tracks) := by
  induction hrun with
  | nil s => exact .nil _
  | cons hstep _ ih =>
    obtain ⟨ha, has⟩ := List.forall_mem_cons.mp has
    exact .cons ((step_moved (ha _)).trans (congrArg (Option.map (moved · addr tracks)) hstep)) (ih has)

end Moved

section Range

variable {hmacSha1 : Bytes → Bytes → Bytes} {atoi : Bytes → UInt32} {pc pc' : PeerConnection} {lib : Answers}
  {packet : Bytes} {o : Outcome}

theorem sendPli_eq_none (h : ¬Indexed pc.tracks) (send : SrtpSession) : pc.sendPli atoi lib send = none := by
  rw [sendPli, not_not.mp (mt indexed_iff.mpr h)]
  rfl

theorem handleMedia_eq_none (pc : PeerConnection) (hest : pc.established = false) (h : ¬Indexed pc.tracks)
    (send recv : SrtpSession) :
    pc.handleMedia atoi lib send recv packet = none := by
  rw [handleMedia, establish, hest, if_neg Bool.false_ne_true, sendPli_eq_none h]
  rfl

theorem step_eq_none_of_sendsPli {a : Action} (ha : pc.SendsPli a) (h : ¬Indexed pc.tracks) :
    pc.step hmacSha1 atoi a = none := by
  cases a with
  | dtlsTimer => exact ha.elim
  | pliTimer lib =>
    obtain ⟨hstuck, htimer⟩ := ha
    rw [step, hstuck, if_neg Bool.false_ne_true, if_pos htimer]
    cases pc.srtpSendSession with
    | none => rfl
    | some send => rw [Option.bind_some, sendPli_eq_none h, Option.map_none]
  | packet lib packet =>
    obtain ⟨hstuck, hest, hreach⟩ := ha
    obtain ⟨d, send, recv, -, -, -, heq⟩ := hreach.processPacket hmacSha1 atoi
    rw [step, hstuck, if_neg Bool.false_ne_true, heq, handleMedia_eq_none (pc.ready d send recv) hest h,
      Option.map_none]

theorem establish_tracks {send : SrtpSession} {effects : List Effect}
    (h : pc.establish atoi lib send = some (effects, pc')) : pc'.tracks = pc.tracks := by
  obtain ⟨-, -, rfl⟩ | ⟨-, e, -, -, rfl⟩ := establish_eq_some h
  · rfl
  · rfl

theorem handleSrtp_tracks {d : DtlsTransport} (h : pc.handleSrtp atoi lib d packet = some o) :
    o.pc.tracks = pc.tracks := by
  unfold handleSrtp at h
  split at h
  · obtain rfl := Option.some.inj h
    rfl
  · dsimp only at h
    split at h
    · obtain rfl := Option.some.inj h
      rfl
    · obtain ⟨effects, hest⟩ := handleMedia_pc h
      have htracks := establish_tracks hest
      exact htracks

theorem Handled.tracks (h : Handled hmacSha1 atoi pc lib packet o) : o.pc.tracks = pc.tracks := by
  cases h with
  | stun => rfl
  | waiting => rfl
  | dtls => rfl
  | refused => rfl
  | media _ _ _ hsrtp =>
    have htracks := handleSrtp_tracks hsrtp
    exact htracks

theorem step_tracks {a : Action} (h : pc.step hmacSha1 atoi a = some pc') : pc'.tracks = pc.tracks := by
  obtain ⟨-, h⟩ := Option.ite_none_left_eq_some.mp h
  cases a with
  | packet lib packet =>
    obtain ⟨o, ho, rfl⟩ := Option.map_eq_some_iff.mp h
    exact (handled_of_processPacket ho).tracks
  | dtlsTimer c timeouts =>
    obtain ⟨d, -, rfl⟩ := Option.map_eq_some_iff.mp h
    rfl
  | pliTimer lib =>
    obtain ⟨-, h⟩ := Option.ite_none_right_eq_some.mp h
    obtain ⟨_, -, rfl⟩ := Option.map_eq_some_iff.mp h
    rfl

theorem run_tracks {addr : InetAddress} {tracks : List (List Bytes)} {as : List Action}
    (hrun : Run (fun pc a pc' ↦ pc.step hmacSha1 atoi a = some pc') (new addr tracks) as pc) :
    pc.tracks = tracks :=
  hrun.invariant (I := fun pc ↦ pc.tracks = tracks) (fun _ _ _ hi hstep ↦ (step_tracks hstep).trans hi) rfl

/-- Nomination and handshake bring every connection to a packet that executes `SendPli`. -/
theorem exists_sendsPli (hmacSha1 : Bytes → Bytes → Bytes) (atoi : Bytes → UInt32) (addr : InetAddress)
    (tracks : List (List Bytes)) : ∃ as pc a,
      Run (fun pc a pc' ↦ pc.step hmacSha1 atoi a = some pc') (new addr tracks) as pc ∧ pc.SendsPli a := by
  obtain ⟨pc, hrun, hsends⟩ : ∃ pc,
      Run (fun pc a pc' ↦ pc.step (fun _ _ ↦ []) (fun _ ↦ 0) a = some pc') (new .zero [])
        (firstMedia.take 2) pc ∧
      decide (pc.SendsPli (.packet friendly (0x80 :: 96 :: List.replicate 10 0))) = true :=
    exists_run_of_steps _ (by decide +kernel)
  have hearly : ∀ a ∈ firstMedia.take 2, ∀ pc : PeerConnection, ¬pc.SendsPli a :=
    List.forall_mem_cons.mpr ⟨not_sendsPli_of_stun (by decide),
      List.forall_mem_singleton.mpr (not_sendsPli_of_dtls (by decide))⟩
  have hsends : (pc.moved addr tracks).SendsPli (.packet friendly (0x80 :: 96 :: List.replicate 10 0)) :=
    of_decide_eq_true hsends
  exact ⟨_, _, _, run_moved hearly hrun, hsends⟩

/-- Whenever `SendPli` is executed the index is in range exactly if the publish
request has a track, and the first one has an SSRC. -/
theorem sendPli_indexed_iff {body : Bytes} {addr : InetAddress} {pc₀ : PeerConnection}
    (h : published body addr = some pc₀) :
    (∀ as pc a, Run (fun pc a pc' ↦ pc.step hmacSha1 atoi a = some pc') pc₀ as pc → pc.SendsPli a →
      Indexed pc.tracks) ↔ Indexed (ssrcGroups body) := by
  obtain ⟨-, h⟩ := Option.ite_none_left_eq_some.mp h
  obtain rfl := Option.some.inj h
  constructor
  · intro hall
    obtain ⟨as, pc, a, hrun, hsends⟩ := exists_sendsPli hmacSha1 atoi addr (ssrcGroups body)
    exact run_tracks hrun ▸ hall as pc a hrun hsends
  · intro hindexed as pc a hrun _
    exact (run_tracks hrun).symm ▸ hindexed

end Range

def oneTrack : Bytes :=
  [97, 61, 105, 99, 101, 45, 117, 102, 114, 97, 103, 58, 120, 13, 10, 109, 61, 118, 105, 100, 101, 111, 13, 10,
    97, 61, 115, 115, 114, 99, 58, 53, 32, 99, 13, 10]

theorem sendPli_indexed_oneTrack : ∃ pc₀, published oneTrack .zero = some pc₀ ∧
    ∀ as pc a, Run (fun pc a pc' ↦ pc.step (fun _ _ ↦ []) (fun _ ↦ 0) a = some pc') pc₀ as pc → pc.SendsPli a →
      Indexed pc.tracks := by
  have hgroups : ssrcGroups oneTrack = [[[53]]] := by
    rw [ssrcGroups, Sdp.decode_tracks_splitBy]
    decide +kernel
  have hpub : published oneTrack .zero = some (new .zero [[[53]]]) := by
    rw [published, decode_iceUfrag, if_neg (by decide +kernel), hgroups]
  refine ⟨_, hpub, (sendPli_indexed_iff hpub).mpr ?_⟩
  rw [hgroups]
  exact ⟨_, _, rfl, List.cons_ne_nil _ _⟩

def bareRequest : Bytes := [97, 61, 105, 99, 101, 45, 117, 102, 114, 97, 103, 58, 120, 13, 10]

/-- The request has no tracks; the connection that is made of it gets to `SendPli` all the same. -/
theorem sendPli_out_of_range : ∃ pc₀ as pc a, published bareRequest .zero = some pc₀ ∧
    Run (fun pc a pc' ↦ pc.step (fun _ _ ↦ []) (fun _ ↦ 0) a = some pc') pc₀ as pc ∧ pc.SendsPli a ∧
      pc.tracks = [] ∧ pc.step (fun _ _ ↦ []) (fun _ ↦ 0) a = none := by
  have hgroups : ssrcGroups bareRequest = [] := by
    rw [ssrcGroups, Sdp.decode_tracks_splitBy]
    decide +kernel
  have hpub : published bareRequest .zero = some (new .zero []) := by
    rw [published, decode_iceUfrag, if_neg (by decide +kernel), hgroups]
  obtain ⟨as, pc, a, hrun, hsends⟩ := exists_sendsPli (fun _ _ ↦ []) (fun _ ↦ 0) .zero []
  have htracks : pc.tracks = [] := run_tracks hrun
  refine ⟨_, as, pc, a, hpub, hrun, hsends, htracks, step_eq_none_of_sendsPli hsends ?_⟩
  rw [htracks, indexed_iff]
  exact not_not.mpr rfl

end PeerConnection

end Baize.Webrtc
