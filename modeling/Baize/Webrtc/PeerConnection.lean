import Baize.Dtls.Transport
import Baize.Rtcp.Packet
import Baize.Rtp.Packet
import Baize.Stun.Pack

namespace Baize.Webrtc

open Baize.Lib Baize.Net Baize.Stun Baize.Dtls

inductive IceState
  | new
  | connected
  deriving DecidableEq, Repr

structure IceServer where
  state : IceState
  icePassword : Bytes
  deriving DecidableEq, Repr

namespace IceServer

def isConnected (ice : IceServer) : Bool := ice.state = .connected

/-- What a `StunPacket` variable reads from a packet; the outer `none` means that `Parse` never returns. -/
def parsed (stunPacket : Bytes) : Option (Option StunPacket) :=
  StunPacket.parse (stunPacket.length + 1) (.fresh .request 0) stunPacket

def answers (packet : StunPacket) : Bool :=
  packet.method = Method.binding && (packet.hasFingerprint || packet.klass = .indication) &&
    packet.klass = .request &&
    !(!packet.hasMessageIntegrity || packet.priority = 0 || packet.username.isEmpty) && packet.iceControlled = 0

def response (addr : InetAddress) (icePassword : Bytes) (packet : StunPacket) : StunPacket :=
  { StunPacket.fresh .successResponse Method.binding with
    transactionId := packet.transactionId
    xorMappedAddress := addr
    password := icePassword }

def processStunPacket (hmacSha1 : Bytes → Bytes → Bytes) (ice : IceServer) (addr : InetAddress)
    (stunPacket : Bytes) : Option (Option Bytes × IceServer) :=
  (parsed stunPacket).map fun
    | none => (none, ice)
    | some packet =>
      if answers packet then
        (some ((response addr ice.icePassword packet).pack hmacSha1 []).1,
          if packet.hasUseCandidate then { ice with state := .connected } else ice)
      else (none, ice)

end IceServer

inductive Bound
  | inBound
  | outBound
  deriving DecidableEq, Repr

structure SrtpSession where
  type : Bound
  useSrtp : String
  key : Bytes
  deriving DecidableEq, Repr

def cipherKeyLen (useSrtp : String) : Option ℕ :=
  if useSrtp = "SRTP_AEAD_AES_128_GCM" then some 28
  else if useSrtp = "SRTP_AES128_CM_SHA1_80" then some 30
  else none

def SrtpSession.new (srtpCreate : Bool) (type : Bound) (useSrtp : String) (key : Bytes) : Option SrtpSession :=
  match cipherKeyLen useSrtp with
  | none => none
  | some len => if key.length ≠ len then none else if srtpCreate then some ⟨type, useSrtp, key⟩ else none

/-- What the SSL and the SRTP library answer in a call of `ProcessPacket`. The functions are
`srtp_protect`, `srtp_unprotect`, `srtp_protect_rtcp` and `srtp_unprotect_rtcp`. -/
structure Answers where
  sslNew : Bool
  sslDoHandshake : SslCall
  sslRead : SslRead
  srtpCreate : Bound → Bool
  srtpProtect : SrtpSession → Bytes → Option Bytes
  srtpUnprotect : SrtpSession → Bytes → Option Bytes
  srtpProtectRtcp : SrtpSession → Bytes → Option Bytes
  srtpUnprotectRtcp : SrtpSession → Bytes → Option Bytes

def SrtpSession.apply (session : SrtpSession) (f : SrtpSession → Bytes → Option Bytes) (packet : Bytes) :
    Option Bytes :=
  (f session packet).filter fun packet ↦ !packet.isEmpty

inductive Effect
  | stunResponse (packet : Bytes)
  | sendPli (packet : Bytes)
  | decryptRtcp (session : SrtpSession) (packet : Bytes)
  | processRtcp (calls : List (Rtcp.Decoder × Bytes))
  | decryptRtp (session : SrtpSession) (packet : Bytes)
  | forwardRtp (packet : Bytes)
  deriving DecidableEq, Repr

def Effect.isMedia : Effect → Bool
  | .stunResponse _ => false
  | _ => true

/-- `net::PeerConnection`. `tracks` holds the `ssrc_group_` of the tracks of `sdp_`, and `pliTimer` says
that `pli_timer_` runs. -/
structure PeerConnection where
  addr : InetAddress
  tracks : List (List Bytes)
  ice : Option IceServer
  dtls : Option DtlsTransport
  srtpSendSession : Option SrtpSession
  srtpRecvSession : Option SrtpSession
  established : Bool
  pliTimer : Bool
  deriving DecidableEq

structure Outcome where
  ret : ℤ
  effects : List Effect
  pc : PeerConnection
  deriving DecidableEq

/-- `ice_pwd_` of the local description, `0HK9scLUJ8kv2TiuDAPHccjb`. -/
def localPwd : Bytes :=
  [48, 72, 75, 57, 115, 99, 76, 85, 74, 56, 107, 118, 50, 84, 105, 117, 68, 65, 80, 72, 99, 99, 106, 98]

namespace PeerConnection

def new (addr : InetAddress) (tracks : List (List Bytes)) : PeerConnection where
  addr := addr
  tracks := tracks
  ice := none
  dtls := none
  srtpSendSession := none
  srtpRecvSession := none
  established := false
  pliTimer := false

def pliPacket (mediaSsrc : UInt32) : Bytes := [0x81, 206] ++ net2 2 ++ net4 1234 ++ net4 mediaSsrc

variable (hmacSha1 : Bytes → Bytes → Bytes) (atoi : Bytes → UInt32)

/-- `SendPli`, which reads the first SSRC of the first track; it sends whatever the encryption leaves. -/
def sendPli (pc : PeerConnection) (lib : Answers) (session : SrtpSession) : Option Effect :=
  (pc.tracks.head?.bind List.head?).map fun mediaSsrc ↦
    let packet := pliPacket (atoi mediaSsrc)
    .sendPli ((session.apply lib.srtpProtectRtcp packet).getD packet)

/-- The first packet after the handshake: `SendPli` and the start of `pli_timer_`. -/
def establish (pc : PeerConnection) (lib : Answers) (send : SrtpSession) :
    Option (List Effect × PeerConnection) :=
  if pc.established then some ([], pc)
  else (pc.sendPli atoi lib send).map fun e ↦ ([e], { pc with pliTimer := true, established := true })

def processRtcp (pc : PeerConnection) (lib : Answers) (recv : SrtpSession) (packet : Bytes) : Outcome :=
  match recv.apply lib.srtpUnprotectRtcp packet with
  | none => ⟨-1, [.decryptRtcp recv packet], pc⟩
  | some plain =>
    let outcome := Rtcp.processRtcp plain
    ⟨outcome.ret, [.decryptRtcp recv packet, .processRtcp outcome.calls], pc⟩

/-- The branch for RTP packets, which go back to the peer under another SSRC. -/
def processRtp (pc : PeerConnection) (lib : Answers) (send recv : SrtpSession) (packet : Bytes) :
    Option Outcome :=
  match recv.apply lib.srtpUnprotect packet with
  | none => some ⟨-1, [.decryptRtp recv packet], pc⟩
  | some plain =>
    match Rtp.RtpPacket.decode .fresh plain with
    | .error _ => none
    | .ok (val, _) =>
      if val < 0 then some ⟨0, [.decryptRtp recv packet], pc⟩
      else
        match send.apply lib.srtpProtect (memcpy plain 8 (net4 1234)) with
        | none => some ⟨-1, [.decryptRtp recv packet], pc⟩
        | some secured => some ⟨0, [.decryptRtp recv packet, .forwardRtp secured], pc⟩

def handleMedia (pc : PeerConnection) (lib : Answers) (send recv : SrtpSession) (packet : Bytes) :
    Option Outcome :=
  (pc.establish atoi lib send).bind fun (effects, pc) ↦
    Option.map (fun o ↦ { o with effects := effects ++ o.effects })
      (if Rtcp.isRtcp packet then some (pc.processRtcp lib recv packet)
      else
        match Rtp.isRtp packet with
        | .error _ => none
        | .ok true => pc.processRtp lib send recv packet
        | .ok false => some ⟨0, [], pc⟩)

def handleSrtp (pc : PeerConnection) (lib : Answers) (dtls : DtlsTransport) (packet : Bytes) : Option Outcome :=
  match pc.srtpSendSession <|>
      SrtpSession.new (lib.srtpCreate .outBound) .outBound dtls.useSrtp dtls.srtpLocalMaster with
  | none => some ⟨-1, [], pc⟩
  | some send =>
    let pc := { pc with srtpSendSession := some send }
    match pc.srtpRecvSession <|>
        SrtpSession.new (lib.srtpCreate .inBound) .inBound dtls.useSrtp dtls.srtpRemoteMaster with
    | none => some ⟨-1, [], pc⟩
    | some recv => { pc with srtpRecvSession := some recv }.handleMedia atoi lib send recv packet

/-- `dtls_`, created when there is none. Without an `SSL` the null pointer is dereferenced. -/
def dtlsTransport (pc : PeerConnection) (lib : Answers) : Option DtlsTransport :=
  match pc.dtls with
  | some dtls => some dtls
  | none =>
    if lib.sslNew then some ((DtlsTransport.fresh .server).initializeAs .server lib.sslDoHandshake []) else none

def handleDtls (pc : PeerConnection) (lib : Answers) (packet : Bytes) : Option Outcome :=
  (pc.dtlsTransport lib).bind fun dtls ↦
    let pc := { pc with dtls := some dtls }
    if isDtls packet then some ⟨0, [], { pc with dtls := some (dtls.processDtlsPacket lib.sslRead) }⟩
    else if !dtls.isRunning then some ⟨-1, [], pc⟩
    else if !dtls.isConnected then some ⟨0, [], pc⟩
    else pc.handleSrtp atoi lib dtls packet

def iceServer (pc : PeerConnection) : IceServer := pc.ice.getD ⟨.new, localPwd⟩

def processPacket (pc : PeerConnection) (lib : Answers) (packet : Bytes) : Option Outcome :=
  let ice := pc.iceServer
  let pc := { pc with ice := some ice }
  if StunPacket.isStun packet then
    (ice.processStunPacket hmacSha1 pc.addr packet).map fun (response, ice) ↦
      ⟨0, (response.map .stunResponse).toList, { pc with ice := some ice }⟩
  else if !ice.isConnected then some ⟨0, [], pc⟩
  else pc.handleDtls atoi lib packet

inductive Action
  | packet (lib : Answers) (packet : Bytes)
  | dtlsTimer (c : SslCall) (timeouts : List SslTimeout)
  | pliTimer (lib : Answers)

/-- Nothing happens any more once a call of the SSL library does not come back. -/
def stuck (pc : PeerConnection) : Bool := pc.dtls.any DtlsTransport.inCall

def step (pc : PeerConnection) (a : Action) : Option PeerConnection :=
  if pc.stuck then none
  else
    match a with
    | .packet lib packet => (pc.processPacket hmacSha1 atoi lib packet).map Outcome.pc
    | .dtlsTimer c timeouts => pc.dtls.map fun dtls ↦ { pc with dtls := some (dtls.onTimer c timeouts) }
    | .pliTimer lib =>
      if pc.pliTimer then (pc.srtpSendSession.bind (pc.sendPli atoi lib)).map fun _ ↦ pc else none

end PeerConnection

end Baize.Webrtc
