import Baize.Rtcp.Compound
import Baize.Rtcp.Reports
import Baize.Webrtc.Established

namespace Baize.Rtcp

open Lib

structure CommonHeader.InRange (h : CommonHeader) : Prop where
  version : h.version.toNat < 4
  padding : h.padding.toNat < 2
  count : h.count.toNat < 32

/-- The bytes at `&tmp_comm_header`, as a little-endian host lays out the bit fields. -/
def CommonHeader.bytes (h : CommonHeader) : Bytes :=
  UInt8.ofNat (h.version.toNat * 64 + h.padding.toNat * 32 + h.count.toNat) :: h.type :: net2 h.length

def FeedbackHeader.bytes (h : FeedbackHeader) : Bytes := net4 h.senderSsrc ++ net4 h.mediaSsrc

def PliPsFb.encode (this : PliPsFb) (packet : Bytes) : ℤ × Bytes :=
  let encodeLen := commonHeaderSize + feedbackHeaderSize
  if packet.length < encodeLen then (-1, packet)
  else (0, (this.commHeader.bytes ++ this.fbHeader.bytes ++ packet.drop encodeLen).take encodeLen)

theorem headerOf_fields (p : Bytes) : (headerOf p).version.toNat = (byte1 p 0).toNat / 64 ∧
    (headerOf p).padding.toNat = (byte1 p 0).toNat / 32 % 2 ∧
    (headerOf p).count.toNat = (byte1 p 0).toNat % 32 :=
  ⟨Rtp.versionBits_toNat _, Rtp.paddingBit_toNat _, count_toNat p⟩

theorem headerOf_inRange (p : Bytes) : (headerOf p).InRange := by
  obtain ⟨hversion, hpadding, hcount⟩ := headerOf_fields p
  have hlt : (byte1 p 0).toNat < 256 := (byte1 p 0).toNat_lt
  exact ⟨by omega, by omega, by omega⟩

theorem ofNat_fields (p : Bytes) :
    UInt8.ofNat ((headerOf p).version.toNat * 64 + (headerOf p).padding.toNat * 32 + (headerOf p).count.toNat) =
      byte1 p 0 := by
  obtain ⟨hversion, hpadding, hcount⟩ := headerOf_fields p
  have hlt : (byte1 p 0).toNat < 256 := (byte1 p 0).toNat_lt
  apply UInt8.toNat_inj.mp
  rw [Rtp.ofNat_toNat_of_lt (by omega)]
  omega

namespace PliPsFb

def bytes (m : PliPsFb) : Bytes := m.commHeader.bytes ++ m.fbHeader.bytes

theorem encode_of_room (m : PliPsFb) {packet : Bytes} (h : 12 ≤ packet.length) :
    m.encode packet = (0, m.bytes) := by
  rw [encode, if_neg (show ¬packet.length < commonHeaderSize + feedbackHeaderSize from not_lt.mpr h)]
  rfl

theorem decode_of_length (this : PliPsFb) {p : Bytes} (h : p.length = 12) :
    decode this p = .ok (0, ⟨headerOf p, ⟨byte4 p 4, byte4 p 8⟩⟩) := by
  rw [decode, if_neg (show ¬p.length ≠ commonHeaderSize + feedbackHeaderSize from not_not.mpr h),
    readCommonHeader_of (by omega), ok_bind,
    readSpan_of (show commonHeaderSize + feedbackHeaderSize ≤ _ from h.ge),
    ok_bind, load4_span (by decide), load4_span (by decide), networkToHost32_load4, networkToHost32_load4]
  rfl

theorem bytes_of_length {p : Bytes} (h : p.length = 12) :
    bytes ⟨headerOf p, ⟨byte4 p 4, byte4 p 8⟩⟩ = p := by
  have hall : p = byte1 p 0 :: byte1 p 1 ::
      (net2 (byte2 p 2) ++ (net4 (byte4 p 4) ++ (net4 (byte4 p 8) ++ p.drop 12))) := by
    rw [← drop_eq_net4_append (by omega), ← drop_eq_net4_append (by omega), ← drop_eq_net2_append (by omega),
      ← drop_eq_byte1_cons (by omega), ← drop_eq_byte1_cons (by omega), List.drop_zero]
  rw [List.drop_eq_nil_of_le h.le, List.append_nil] at hall
  rw [bytes, CommonHeader.bytes, ofNat_fields, FeedbackHeader.bytes, List.cons_append, List.cons_append]
  exact hall.symm

theorem fields_bytes {m : PliPsFb} (h : m.commHeader.InRange) :
    PliPsFb.mk (headerOf m.bytes) ⟨byte4 m.bytes 4, byte4 m.bytes 8⟩ = m := by
  have hsender : byte4 m.bytes 4 = m.fbHeader.senderSsrc := byte4_of_drop rfl
  have hmedia : byte4 m.bytes 8 = m.fbHeader.mediaSsrc := byte4_of_drop (q := []) rfl
  have hlength : byte2 m.bytes 2 = m.commHeader.length := byte2_of_drop rfl
  obtain ⟨hversion, hpadding, hcount⟩ := headerOf_fields m.bytes
  have := h.version
  have := h.padding
  have := h.count
  have hfirst : (byte1 m.bytes 0).toNat =
      m.commHeader.version.toNat * 64 + m.commHeader.padding.toNat * 32 + m.commHeader.count.toNat :=
    Rtp.ofNat_toNat_of_lt (by omega)
  have hv : (headerOf m.bytes).version = m.commHeader.version := UInt8.toNat_inj.mp (by omega)
  have hp : (headerOf m.bytes).padding = m.commHeader.padding := UInt8.toNat_inj.mp (by omega)
  have hc : (headerOf m.bytes).count = m.commHeader.count := UInt8.toNat_inj.mp (by omega)
  have hheader : headerOf m.bytes = m.commHeader := by
    calc headerOf m.bytes
        = ⟨(headerOf m.bytes).version, (headerOf m.bytes).padding, (headerOf m.bytes).count, m.commHeader.type,
            byte2 m.bytes 2⟩ := rfl
      _ = m.commHeader := by rw [hv, hp, hc, hlength]
  rw [hheader, hsender, hmedia]

/-- `Encode` and `Decode` undo each other: what is encoded into any buffer with room is decoded to the same
message, and what is decoded is encoded to the same twelve bytes. -/
theorem encode_decode_inverse :
    (∀ (m this : PliPsFb) (packet : Bytes), m.commHeader.InRange → 12 ≤ packet.length →
      ∃ p, m.encode packet = (0, p) ∧ decode this p = .ok (0, m)) ∧
    ∀ (m this : PliPsFb) (p packet : Bytes), decode this p = .ok (0, m) → 12 ≤ packet.length →
      m.commHeader.InRange ∧ m.encode packet = (0, p) := by
  constructor
  · intro m this packet hm hroom
    refine ⟨m.bytes, m.encode_of_room hroom, ?_⟩
    rw [decode_of_length this rfl, fields_bytes hm]
  · intro m this p packet hdecode hroom
    by_cases hlen : p.length = 12
    · rw [decode_of_length this hlen] at hdecode
      obtain rfl := (Prod.mk.inj (Except.ok.inj hdecode)).2
      refine ⟨headerOf_inRange p, ?_⟩
      rw [encode_of_room _ hroom, bytes_of_length hlen]
    · rw [decode, if_pos (show p.length ≠ commonHeaderSize + feedbackHeaderSize from hlen)] at hdecode
      cases hdecode

/-- A picture loss indication from 1234 about 5, there and back. -/
theorem encode_decode_inverse_five :
    decode ⟨.fresh, ⟨0, 0⟩⟩ [0x81, 206, 0, 2, 0, 0, 4, 210, 0, 0, 0, 5] =
        .ok (0, ⟨⟨2, 0, 1, 206, 2⟩, ⟨1234, 5⟩⟩) ∧
      encode ⟨⟨2, 0, 1, 206, 2⟩, ⟨1234, 5⟩⟩ (List.replicate 12 0) =
        (0, [0x81, 206, 0, 2, 0, 0, 4, 210, 0, 0, 0, 5]) := by
  have hdecode : decode ⟨.fresh, ⟨0, 0⟩⟩ [0x81, 206, 0, 2, 0, 0, 4, 210, 0, 0, 0, 5] =
      .ok (0, ⟨⟨2, 0, 1, 206, 2⟩, ⟨1234, 5⟩⟩) := by
    decide +kernel
  exact ⟨hdecode, (encode_decode_inverse.2 _ _ _ (List.replicate 12 0) hdecode (by decide)).2⟩

end PliPsFb

end Baize.Rtcp

namespace Baize.Webrtc.PeerConnection

open Baize.Lib Baize.Net Baize.Stun Baize.Dtls

def pli (mediaSsrc : UInt32) : Rtcp.PliPsFb := ⟨⟨2, 0, 1, 206, 2⟩, ⟨1234, mediaSsrc⟩⟩

theorem encode_pli (mediaSsrc : UInt32) :
    (pli mediaSsrc).encode (List.replicate 1500 0) = (0, pliPacket mediaSsrc) := by
  rw [Rtcp.PliPsFb.encode_of_room _ (by rw [List.length_replicate]; decide)]
  rfl

theorem decode_pliPacket (this : Rtcp.PliPsFb) (mediaSsrc : UInt32) :
    this.decode (pliPacket mediaSsrc) = .ok (0, pli mediaSsrc) := by
  have hrange : (pli mediaSsrc).commHeader.InRange :=
    ⟨show (2 : UInt8).toNat < 4 by decide, show (0 : UInt8).toNat < 2 by decide,
      show (1 : UInt8).toNat < 32 by decide⟩
  have hbytes : pliPacket mediaSsrc = (pli mediaSsrc).bytes := rfl
  rw [hbytes, Rtcp.PliPsFb.decode_of_length this rfl, Rtcp.PliPsFb.fields_bytes hrange]

theorem processRtcp_pliPacket (mediaSsrc : UInt32) :
    Rtcp.processRtcp (pliPacket mediaSsrc) = ⟨0, [(.pli, pliPacket mediaSsrc)]⟩ := by
  have hrtcp : Rtcp.isRtcp (pliPacket mediaSsrc) = true :=
    (Rtcp.isRtcp_append (t := [0x81, 206, 0, 2]) (by decide) _).trans (by decide)
  have hlen : Rtcp.packetLen (pliPacket mediaSsrc) = 12 := by
    rw [Rtcp.packetLen, byte2_of_drop (v := 2) rfl]
    rfl
  have hcount : Rtcp.count (pliPacket mediaSsrc) = 1 := by
    rw [Rtcp.count, show byte1 (pliPacket mediaSsrc) 0 = 0x81 from rfl]
    rfl
  have hdecoder : Rtcp.decoder (pliPacket mediaSsrc) = some .pli := by
    rw [Rtcp.decoder, show Rtcp.type (pliPacket mediaSsrc) = 206 from rfl, hcount]
    rfl
  have hnil : Rtcp.processLoop (pliPacket mediaSsrc) ((pliPacket mediaSsrc).drop 12) = ⟨0, []⟩ := by
    rw [Rtcp.processLoop]
    rfl
  rw [Rtcp.processRtcp, Rtcp.processLoop,
    if_neg (show ¬(pliPacket mediaSsrc).length = 0 from Nat.succ_ne_zero 11),
    hrtcp, Bool.not_true, if_neg Bool.false_ne_true, hlen,
    if_neg (show ¬(pliPacket mediaSsrc).length < 12 from Nat.lt_irrefl 12), hnil, hdecoder]

/-- The packet that `SendPli` sends under a session: the encryption's failure is not looked at. -/
def pliSent (lib : Answers) (send : SrtpSession) (mediaSsrc : UInt32) : Bytes :=
  (send.apply lib.srtpProtectRtcp (pliPacket mediaSsrc)).getD (pliPacket mediaSsrc)

def pliPackets (effects : List Effect) : List Bytes :=
  effects.filterMap fun
    | .sendPli packet => some packet
    | _ => none

variable (hmacSha1 : Bytes → Bytes → Bytes) (atoi : Bytes → UInt32)

def indications (pc : PeerConnection) : Action → List Bytes
  | .packet lib packet => (pc.processPacket hmacSha1 atoi lib packet).toList.flatMap (pliPackets ·.effects)
  | .dtlsTimer _ _ => []
  | .pliTimer lib =>
    if pc.pliTimer then pliPackets (pc.srtpSendSession.bind (pc.sendPli atoi lib)).toList else []

variable {hmacSha1 atoi} {pc pc' : PeerConnection} {lib : Answers} {packet : Bytes} {o : Outcome}
  {send recv : SrtpSession}

def SendsOne (atoi : Bytes → UInt32) (tracks : List (List Bytes)) (lib : Answers) (session : Option SrtpSession)
    (sent : List Bytes) : Prop :=
  ∃ ssrc group rest send, tracks = (ssrc :: group) :: rest ∧ session = some send ∧
    sent = [pliSent lib send (atoi ssrc)]

theorem sendPli_spec {e : Effect} (h : pc.sendPli atoi lib send = some e) :
    SendsOne atoi pc.tracks lib (some send) (pliPackets [e]) := by
  obtain ⟨ssrc, hssrc, rfl⟩ := Option.map_eq_some_iff.mp h
  obtain ⟨track, htrack, hssrc⟩ := Option.bind_eq_some_iff.mp hssrc
  obtain ⟨rest, hrest⟩ := List.head?_eq_some_iff.mp htrack
  obtain ⟨group, hgroup⟩ := List.head?_eq_some_iff.mp hssrc
  exact ⟨ssrc, group, rest, send, hgroup ▸ hrest, rfl, rfl⟩

theorem processRtcp_pliPackets : pliPackets (pc.processRtcp lib recv packet).effects = [] := by
  unfold processRtcp
  split
  · rfl
  · rfl

theorem processRtp_pliPackets (h : pc.processRtp lib send recv packet = some o) : pliPackets o.effects = [] := by
  unfold processRtp at h
  split at h
  · obtain rfl := Option.some.inj h
    rfl
  · split at h
    · cases h
    · split_ifs at h
      · obtain rfl := Option.some.inj h
        rfl
      · split at h
        · obtain rfl := Option.some.inj h
          rfl
        · obtain rfl := Option.some.inj h
          rfl

theorem handleMedia_pliPackets (h : pc.handleMedia atoi lib send recv packet = some o) :
    pc.established = true ∧ pliPackets o.effects = [] ∨
      pc.established = false ∧ SendsOne atoi pc.tracks lib (some send) (pliPackets o.effects) := by
  obtain ⟨⟨effects, pc₁⟩, hest, h⟩ := Option.bind_eq_some_iff.mp h
  obtain ⟨o₁, ho₁, rfl⟩ := Option.map_eq_some_iff.mp h
  have hrest : pliPackets o₁.effects = [] := by
    split_ifs at ho₁
    · obtain rfl := Option.some.inj ho₁
      exact processRtcp_pliPackets
    · split at ho₁
      · cases ho₁
      · exact processRtp_pliPackets ho₁
      · obtain rfl := Option.some.inj ho₁
        rfl
  have happend : pliPackets (effects ++ o₁.effects) = pliPackets effects := by
    rw [pliPackets, List.filterMap_append]
    exact (congrArg _ hrest).trans (List.append_nil _)
  rw [happend]
  obtain ⟨hflag, rfl, -⟩ | ⟨hflag, e, he, rfl, -⟩ := establish_eq_some hest
  · exact .inl ⟨hflag, rfl⟩
  · exact .inr ⟨hflag, sendPli_spec he⟩

theorem pliPackets_eq_nil {effects : List Effect} (h : ∀ e ∈ effects, e.isMedia = false) :
    pliPackets effects = [] := by
  refine List.filterMap_eq_nil_iff.mpr fun e he ↦ ?_
  cases e with
  | sendPli packet => cases h _ he
  | _ => rfl

/-- Exactly the first packet that gets through to the sessions executes `SendPli`. -/
theorem processPacket_pliPackets (h : pc.processPacket hmacSha1 atoi lib packet = some o) :
    ¬(pc.established = false ∧ pc.ReachesMedia lib packet) ∧ pliPackets o.effects = [] ∨
      (pc.established = false ∧ pc.ReachesMedia lib packet) ∧
        SendsOne atoi pc.tracks lib o.pc.srtpSendSession (pliPackets o.effects) := by
  by_cases hreach : pc.ReachesMedia lib packet
  · obtain ⟨d, send, recv, -, -, -, heq⟩ := hreach.processPacket hmacSha1 atoi
    have hmedia := heq.symm.trans h
    rw [(handleMedia_frame hmedia).send]
    obtain ⟨hest, hnone⟩ | ⟨hest, hone⟩ := handleMedia_pliPackets hmedia
    · have hest : pc.established = true := hest
      exact .inl ⟨fun hr ↦ Bool.noConfusion (hr.1.symm.trans hest), hnone⟩
    · exact .inr ⟨⟨hest, hreach⟩, hone⟩
  · exact .inl ⟨fun hr ↦ hreach hr.2, pliPackets_eq_nil (processPacket_of_not_reaches hreach h).1⟩

def Action.answers : Action → Option Answers
  | .packet lib _ => some lib
  | .dtlsTimer _ _ => none
  | .pliTimer lib => some lib

theorem step_indications {a : Action} (h : pc.step hmacSha1 atoi a = some pc') :
    ¬pc.SendsPli a ∧ pc.indications hmacSha1 atoi a = [] ∨
      pc.SendsPli a ∧ ∃ lib, a.answers = some lib ∧
        SendsOne atoi pc.tracks lib pc'.srtpSendSession (pc.indications hmacSha1 atoi a) := by
  obtain ⟨hstuck, h⟩ := Option.ite_none_left_eq_some.mp h
  have hstuck : pc.stuck = false := Bool.eq_false_iff.mpr hstuck
  cases a with
  | packet lib packet =>
    obtain ⟨o, ho, rfl⟩ := Option.map_eq_some_iff.mp h
    have hindications : pc.indications hmacSha1 atoi (.packet lib packet) = pliPackets o.effects := by
      rw [indications, ho, Option.toList_some, List.flatMap_singleton]
    rw [hindications]
    obtain ⟨hnot, hnone⟩ | ⟨hreach, hone⟩ := processPacket_pliPackets ho
    · exact .inl ⟨fun hr ↦ hnot hr.2, hnone⟩
    · exact .inr ⟨⟨hstuck, hreach⟩, lib, rfl, hone⟩
  | dtlsTimer c timeouts => exact .inl ⟨id, rfl⟩
  | pliTimer lib =>
    obtain ⟨htimer, h⟩ := Option.ite_none_right_eq_some.mp h
    obtain ⟨e, he, rfl⟩ := Option.map_eq_some_iff.mp h
    obtain ⟨send, hsend, hpli⟩ := Option.bind_eq_some_iff.mp he
    have hindications : pc.indications hmacSha1 atoi (.pliTimer lib) = pliPackets [e] := by
      rw [indications, if_pos htimer, he, Option.toList_some]
    rw [hindications, hsend]
    exact .inr ⟨⟨hstuck, htimer⟩, lib, rfl, sendPli_spec hpli⟩

/-- A packet that is the first to get through to the sessions, or a timeout of `pli_timer_`, which runs
from then on. -/
def Due (hmacSha1 : Bytes → Bytes → Bytes) (atoi : Bytes → UInt32) (s : PeerConnection) (as : List Action)
    (pc : PeerConnection) : Action → Prop
  | .packet lib packet => ¬Passes (step hmacSha1 atoi) Reaches s as ∧ pc.ReachesMedia lib packet
  | .dtlsTimer _ _ => False
  | .pliTimer _ => Passes (step hmacSha1 atoi) Reaches s as

theorem due_iff_sendsPli {addr : InetAddress} {tracks : List (List Bytes)} {as : List Action} {a : Action}
    (hrun : Run (fun pc a pc' ↦ pc.step hmacSha1 atoi a = some pc') (new addr tracks) as pc)
    (hstep : pc.step hmacSha1 atoi a = some pc') :
    Due hmacSha1 atoi (new addr tracks) as pc a ↔ pc.SendsPli a := by
  obtain ⟨hstuck, hstep⟩ := Option.ite_none_left_eq_some.mp hstep
  have hstuck : pc.stuck = false := Bool.eq_false_iff.mpr hstuck
  cases a with
  | packet lib packet =>
    rw [Due, SendsPli, ← run_established hrun, Bool.not_eq_true]
    exact (and_iff_right hstuck).symm
  | dtlsTimer c timeouts => exact Iff.rfl
  | pliTimer lib =>
    obtain ⟨htimer, -⟩ := Option.ite_none_right_eq_some.mp hstep
    rw [Due, SendsPli, ← run_established hrun, ← (run_flagged hrun).timer]
    exact iff_of_true htimer ⟨hstuck, htimer⟩

theorem Due.returns_iff {addr : InetAddress} {tracks : List (List Bytes)} {as : List Action} {a : Action}
    (hdue : Due hmacSha1 atoi (new addr tracks) as pc a)
    (hrun : Run (fun pc a pc' ↦ pc.step hmacSha1 atoi a = some pc') (new addr tracks) as pc)
    (hstuck : pc.stuck = false) : (∃ pc', pc.step hmacSha1 atoi a = some pc') ↔ Indexed tracks := by
  have hflagged := run_flagged hrun
  have htracks := run_tracks hrun
  cases a with
  | packet lib packet =>
    constructor
    · rintro ⟨pc', hstep⟩
      obtain ⟨hest, hflagged'⟩ := step_established hstep
      have hindexed := (hflagged' hflagged).indexed (hest.mpr (.inr hdue.2))
      rwa [step_tracks hstep, htracks] at hindexed
    · intro hindexed
      obtain ⟨o, ho⟩ := hdue.2.total (.inr (htracks ▸ hindexed)) hmacSha1 atoi
      rw [step, hstuck, if_neg Bool.false_ne_true, ho]
      exact ⟨_, rfl⟩
  | dtlsTimer c timeouts => exact hdue.elim
  | pliTimer lib =>
    have hest : pc.established = true := (run_established hrun).mpr hdue
    refine iff_of_true ?_ (htracks ▸ hflagged.indexed hest)
    obtain ⟨e, he⟩ := hflagged.sendPli_total hest atoi lib
    rw [step, hstuck, if_neg Bool.false_ne_true, if_pos (hflagged.timer.trans hest), he]
    exact ⟨_, rfl⟩

/-- In every run, a step has to send a picture loss indication exactly when it is a packet that gets
through to the sessions, as none has before it, or a timeout of `pli_timer_`. It comes back just if the
first track of the publish request has an SSRC, and has then sent one: it comes from 1234 and names this
SSRC. A connection whose session takes the protection off again reads those fields. -/
theorem run_indications {addr : InetAddress} {tracks : List (List Bytes)} {as : List Action} {a : Action}
    (hrun : Run (fun pc a pc' ↦ pc.step hmacSha1 atoi a = some pc') (new addr tracks) as pc) :
    (Due hmacSha1 atoi (new addr tracks) as pc a → pc.stuck = false →
      ((∃ pc', pc.step hmacSha1 atoi a = some pc') ↔ Indexed tracks)) ∧
    ∀ pc', pc.step hmacSha1 atoi a = some pc' →
      (¬Due hmacSha1 atoi (new addr tracks) as pc a → pc.indications hmacSha1 atoi a = []) ∧
      (Due hmacSha1 atoi (new addr tracks) as pc a →
        ∃ ssrc group rest lib send, tracks = (ssrc :: group) :: rest ∧ a.answers = some lib ∧
          pc'.srtpSendSession = some send ∧ pc.indications hmacSha1 atoi a = [pliSent lib send (atoi ssrc)] ∧
          ∀ (peer : PeerConnection) (lib' : Answers) (recv : SrtpSession),
            recv.apply lib'.srtpUnprotectRtcp (pliSent lib send (atoi ssrc)) = some (pliPacket (atoi ssrc)) →
            ∃ packet, peer.processRtcp lib' recv (pliSent lib send (atoi ssrc)) =
                ⟨0, [.decryptRtcp recv (pliSent lib send (atoi ssrc)), .processRtcp [(.pli, packet)]], peer⟩ ∧
              ∀ this : Rtcp.PliPsFb, this.decode packet = .ok (0, pli (atoi ssrc))) := by
  refine ⟨fun hdue hstuck ↦ hdue.returns_iff hrun hstuck, fun pc' hstep ↦ ?_⟩
  rw [due_iff_sendsPli hrun hstep]
  obtain ⟨hnot, hnone⟩ | ⟨hsends, lib, hlib, ssrc, group, rest, send, htracks, hsend, hone⟩ :=
    step_indications hstep
  · exact ⟨fun _ ↦ hnone, fun hr ↦ absurd hr hnot⟩
  · refine ⟨fun hnot ↦ absurd hsends hnot, fun _ ↦ ?_⟩
    rw [run_tracks hrun] at htracks
    refine ⟨ssrc, group, rest, lib, send, htracks, hlib, hsend, hone, fun peer lib' recv hplain ↦ ?_⟩
    refine ⟨pliPacket (atoi ssrc), ?_, fun this ↦ decode_pliPacket this _⟩
    rw [processRtcp, hplain]
    dsimp only
    rw [processRtcp_pliPacket]

theorem run_indications_timer : ∃ pc pc',
    Run (fun pc a pc' ↦ pc.step (fun _ _ ↦ List.replicate 20 0) (fun _ ↦ 7) a = some pc') (new .zero [[[55]]])
      firstMedia pc ∧
    pc.step (fun _ _ ↦ List.replicate 20 0) (fun _ ↦ 7) (.pliTimer friendly) = some pc' ∧
    Due (fun _ _ ↦ List.replicate 20 0) (fun _ ↦ 7) (new .zero [[[55]]]) firstMedia pc (.pliTimer friendly) ∧
    pc.indications (fun _ _ ↦ List.replicate 20 0) (fun _ ↦ 7) (.pliTimer friendly) = [pliPacket 7] := by
  let sends (pc : PeerConnection) : Option Bool :=
    (pc.step (fun _ _ ↦ List.replicate 20 0) (fun _ ↦ 7) (.pliTimer friendly)).map fun _ ↦
      decide (pc.SendsPli (.pliTimer friendly))
  have hsteps :
      (firstMedia.foldlM (step (fun _ _ ↦ List.replicate 20 0) (fun _ ↦ 7)) (new .zero [[[55]]])).map sends =
        some (some true) := by
    decide +kernel
  obtain ⟨pc, hrun, hsends⟩ := exists_run_of_steps sends hsteps
  obtain ⟨pc', hstep, hsends⟩ := Option.map_eq_some_iff.mp hsends
  have hdue := (due_iff_sendsPli hrun hstep).mpr (of_decide_eq_true hsends)
  refine ⟨pc, pc', hrun, hstep, hdue, ?_⟩
  obtain ⟨ssrc, group, rest, lib, send, -, hlib, -, hone, -⟩ := ((run_indications hrun).2 pc' hstep).2 hdue
  obtain rfl := Option.some.inj hlib
  exact hone

end Baize.Webrtc.PeerConnection
