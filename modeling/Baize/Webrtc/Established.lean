import Baize.Rtp.Acceptance
import Baize.Webrtc.Pli

namespace Baize.Webrtc.PeerConnection

open Baize.Lib Baize.Net Baize.Stun Baize.Dtls

variable {hmacSha1 : Bytes → Bytes → Bytes} {atoi : Bytes → UInt32} {pc pc' : PeerConnection} {lib : Answers}
  {packet : Bytes} {o : Outcome} {send recv : SrtpSession}

theorem indexed_of_sendPli {e : Effect} (h : pc.sendPli atoi lib send = some e) : Indexed pc.tracks := by
  refine indexed_iff.mpr fun hnone ↦ ?_
  rw [sendPli, hnone] at h
  cases h

theorem establish_total (h : pc.established = true ∨ Indexed pc.tracks) (atoi : Bytes → UInt32) (lib : Answers)
    (send : SrtpSession) : ∃ r, pc.establish atoi lib send = some r := by
  unfold establish
  split_ifs with hest
  · exact ⟨_, rfl⟩
  · obtain ⟨ssrc, hssrc⟩ := Option.ne_none_iff_exists'.mp (indexed_iff.mp (h.resolve_left hest))
    rw [sendPli, hssrc]
    exact ⟨_, rfl⟩

theorem processRtp_total (pc : PeerConnection) (lib : Answers) (send recv : SrtpSession) (packet : Bytes) :
    ∃ o, pc.processRtp lib send recv packet = some o := by
  unfold processRtp
  cases recv.apply lib.srtpUnprotect packet with
  | none => exact ⟨_, rfl⟩
  | some plain =>
    obtain ⟨⟨val, m⟩, hdecode⟩ := Rtp.RtpPacket.decode_total .fresh plain
    dsimp only
    rw [hdecode]
    dsimp only
    split_ifs
    · exact ⟨_, rfl⟩
    · split
      · exact ⟨_, rfl⟩
      · exact ⟨_, rfl⟩

theorem handleMedia_total (pc : PeerConnection) (h : pc.established = true ∨ Indexed pc.tracks)
    (atoi : Bytes → UInt32) (lib : Answers) (send recv : SrtpSession) (packet : Bytes) :
    ∃ o, pc.handleMedia atoi lib send recv packet = some o := by
  obtain ⟨⟨effects, pc₁⟩, hest⟩ := establish_total h atoi lib send
  rw [handleMedia, hest, Option.bind_some, Rtp.isRtp_eq]
  dsimp only
  split_ifs
  · exact ⟨_, rfl⟩
  · split
    · cases ‹Except.ok _ = Except.error _›
    · obtain ⟨o, ho⟩ := processRtp_total pc₁ lib send recv packet
      exact ⟨_, congrArg (Option.map _) ho⟩
    · exact ⟨_, rfl⟩

theorem ReachesMedia.total (h : pc.ReachesMedia lib packet) (hpli : pc.established = true ∨ Indexed pc.tracks)
    (hmacSha1 : Bytes → Bytes → Bytes) (atoi : Bytes → UInt32) :
    ∃ o, pc.processPacket hmacSha1 atoi lib packet = some o := by
  obtain ⟨d, send, recv, -, -, -, heq⟩ := h.processPacket hmacSha1 atoi
  rw [heq]
  exact handleMedia_total (pc.ready d send recv) hpli atoi lib send recv packet

theorem handleMedia_established (h : pc.handleMedia atoi lib send recv packet = some o) :
    o.pc.established = true ∧ (o.pc.pliTimer = true ∨ pc.established = true ∧ o.pc.pliTimer = pc.pliTimer) ∧
      (pc.established = true ∨ Indexed pc.tracks) := by
  obtain ⟨effects, hest⟩ := handleMedia_pc h
  obtain ⟨hest, -, heq⟩ | ⟨-, e, he, -, heq⟩ := establish_eq_some hest
  · rw [heq]
    exact ⟨hest, .inr ⟨hest, rfl⟩, .inl hest⟩
  · rw [heq]
    exact ⟨rfl, .inl rfl, .inr (indexed_of_sendPli he)⟩

/-- A packet that gets as far as the test of `established_`. -/
def Reaches (pc : PeerConnection) : Action → Prop
  | .packet lib packet => pc.ReachesMedia lib packet
  | .dtlsTimer _ _ => False
  | .pliTimer _ => False

/-- `pli_timer_` runs once `established_` is set, and then there are an SSRC and a session for `SendPli`. -/
structure Flagged (pc : PeerConnection) : Prop where
  timer : pc.pliTimer = pc.established
  indexed : pc.established = true → Indexed pc.tracks
  session : pc.established = true → pc.srtpSendSession.isSome = true

theorem processPacket_established (ho : pc.processPacket hmacSha1 atoi lib packet = some o) :
    (o.pc.established = true ↔ pc.established = true ∨ pc.ReachesMedia lib packet) ∧
    (pc.Flagged → o.pc.Flagged) := by
  have htracks := (handled_of_processPacket ho).tracks
  by_cases hreach : pc.ReachesMedia lib packet
  · obtain ⟨d, send, recv, -, -, -, heq⟩ := hreach.processPacket hmacSha1 atoi
    have hmedia := heq.symm.trans ho
    obtain ⟨hest, htimer, hindexed⟩ := handleMedia_established hmedia
    refine ⟨iff_of_true hest (.inr hreach), fun h ↦ ⟨?_, fun _ ↦ ?_, fun _ ↦ ?_⟩⟩
    · rw [hest]
      rcases htimer with htimer | ⟨hold, htimer⟩
      · exact htimer
      · exact (htimer.trans h.timer).trans hold
    · rw [htracks]
      exact hindexed.elim h.indexed id
    · rw [(handleMedia_frame hmedia).send]
      rfl
  · obtain ⟨-, hest, htimer, hsession⟩ := processPacket_of_not_reaches hreach ho
    rw [hest, or_iff_left hreach]
    refine ⟨Iff.rfl, fun h ↦ ⟨?_, fun hold ↦ ?_, fun hold ↦ ?_⟩⟩
    · rw [hest, htimer]
      exact h.timer
    · rw [htracks]
      exact h.indexed (hest.symm.trans hold)
    · exact hsession (h.session (hest.symm.trans hold))

theorem step_established {a : Action} (hstep : pc.step hmacSha1 atoi a = some pc') :
    (pc'.established = true ↔ pc.established = true ∨ pc.Reaches a) ∧ (pc.Flagged → pc'.Flagged) := by
  obtain ⟨-, hstep⟩ := Option.ite_none_left_eq_some.mp hstep
  cases a with
  | packet lib packet =>
    obtain ⟨o, ho, rfl⟩ := Option.map_eq_some_iff.mp hstep
    exact processPacket_established ho
  | dtlsTimer c timeouts =>
    obtain ⟨d, -, rfl⟩ := Option.map_eq_some_iff.mp hstep
    exact ⟨(or_iff_left id).symm, fun h ↦ ⟨h.timer, h.indexed, h.session⟩⟩
  | pliTimer lib =>
    obtain ⟨-, hstep⟩ := Option.ite_none_right_eq_some.mp hstep
    obtain ⟨_, -, rfl⟩ := Option.map_eq_some_iff.mp hstep
    exact ⟨(or_iff_left id).symm, id⟩

theorem Flagged.sendPli_total (h : pc.Flagged) (hest : pc.established = true) (atoi : Bytes → UInt32)
    (lib : Answers) : ∃ e, pc.srtpSendSession.bind (pc.sendPli atoi lib) = some e := by
  obtain ⟨send, hsend⟩ := Option.isSome_iff_exists.mp (h.session hest)
  obtain ⟨ssrc, hssrc⟩ := Option.ne_none_iff_exists'.mp (indexed_iff.mp (h.indexed hest))
  rw [hsend, Option.bind_some, sendPli, hssrc]
  exact ⟨_, rfl⟩

theorem new_flagged (addr : InetAddress) (tracks : List (List Bytes)) : (new addr tracks).Flagged :=
  ⟨rfl, fun h ↦ absurd h Bool.false_ne_true, fun h ↦ absurd h Bool.false_ne_true⟩

section Run

variable {addr : InetAddress} {tracks : List (List Bytes)} {as : List Action}
  (hrun : Run (fun pc a pc' ↦ pc.step hmacSha1 atoi a = some pc') (new addr tracks) as pc)

include hrun

theorem run_flagged : pc.Flagged :=
  hrun.invariant (I := Flagged) (fun _ _ _ h hstep ↦ (step_established hstep).2 h) (new_flagged addr tracks)

/-- `established_` says whether a packet of the run has got through to the sessions. -/
theorem run_established : pc.established = true ↔ Passes (step hmacSha1 atoi) Reaches (new addr tracks) as := by
  rw [hrun.flag_iff established fun _ _ _ hstep ↦ (step_established hstep).1]
  exact or_iff_right Bool.false_ne_true

end Run

end Baize.Webrtc.PeerConnection
