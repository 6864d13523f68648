import Baize.Net.InetAddress
import Baize.Sdp.Tracks

namespace Baize.Webrtc

open Lib StringPiece Sdp

/-- The members of `gt_sdp.net_` that are set. -/
structure LocalNet where
  ip : Bytes
  port : UInt16
  iceUfrag : Bytes
  icePwd : Bytes
  iceOption : Bytes
  fingerPrint : Bytes
  deriving DecidableEq, Repr

namespace LocalNet

def settings : LocalNet where
  ip := ascii "101.43.183.201"
  port := 6061
  iceUfrag := ascii "2eaP"
  icePwd := ascii "0HK9scLUJ8kv2TiuDAPHccjb"
  iceOption := ascii "ice-lite"
  fingerPrint :=
    ascii "3E:7B:7D:D0:03:75:8A:E1:D6:69:32:D3:A3:EE:57:D2:4B:11:13:F3:5F:F6:" ++
      ascii "3F:91:5D:DF:F6:E8:3A:0A:D2:09"

/-- What `%s` prints. -/
def cStr (s : Bytes) : Bytes := s.takeWhile (· ≠ 0)

def ssrc : ℕ := 1234

variable (n : LocalNet)

def optionsLine : Bytes := ascii "a=ice-options:" ++ cStr n.iceOption

def ufragLine : Bytes := ascii "a=" ++ (iceUfragMark ++ cStr n.iceUfrag)

def pwdLine : Bytes := ascii "a=" ++ (icePwdMark ++ cStr n.icePwd)

def fingerprintLine : Bytes := ascii "a=" ++ (fingerprintMark ++ (ascii "sha-256 " ++ cStr n.fingerPrint))

def candidateLine : Bytes :=
  ascii "a=candidate:1 1 udp 1 " ++ cStr n.ip ++ ascii " " ++ Net.decimal n.port.toNat ++ ascii " typ host"

/-- The lines up to `a=ice-options:`, and those from there to the media section. -/
def sessionLines : List Bytes :=
  [ascii "v=0", ascii "o=- 1495799811084970 1495799811084970 IN IP4 0.0.0.0", ascii "s=baize webrtc sfu server",
    ascii "c=IN IP4 0.0.0.0", ascii "t=0 0"]

def groupLines : List Bytes := [ascii "a=msid-semantic: WMS baize", ascii "a=group:BUNDLE 0"]

def videoLine : Bytes := ascii "video 9 RTP/SAVPF 127"

def formatLines : List Bytes :=
  [ascii "a=rtpmap:127 H264/90000", ascii "a=setup:passive", ascii "a=mid:0", ascii "a=sendrecv"]

def msidLine : Bytes := ascii "a=msid:baize baizev0"

def cnameLine : Bytes := ascii "a=ssrc:" ++ (Net.decimal ssrc ++ 32 :: (cnameMark ++ ascii "baizevideo"))

def trackLine : Bytes := ascii "a=ssrc:" ++ (Net.decimal ssrc ++ ascii " msid:baize baizev0")

def rtcpLines : List Bytes := [ascii "a=rtcp-mux", ascii "a=rtcp-rsize"]

def mediaLines : List Bytes :=
  formatLines ++ n.ufragLine :: n.pwdLine :: n.fingerprintLine :: msidLine :: cnameLine :: trackLine ::
    n.candidateLine :: rtcpLines

def opening : List Bytes := sessionLines ++ n.optionsLine :: groupLines

/-- What `snprintf` would write into a buffer without end. -/
def format : Bytes := text (n.opening ++ (mediaMark ++ videoLine) :: n.mediaLines)

def localSdpString : Bytes := n.format.take 8191

def marks : List Bytes :=
  [iceUfragMark, icePwdMark, fingerprintMark, cnameMark, mediaMark, ssrcGroupMark, ssrcMark]

/-- The settings are strings of one line, and no line of theirs has a mark other than its own. -/
structure Plain : Prop where
  nul : ∀ s ∈ [n.iceOption, n.iceUfrag, n.icePwd, n.fingerPrint, n.ip], 0 ∉ s
  clean : ∀ s ∈ [n.iceUfrag, n.icePwd, n.fingerPrint], 13 ∉ s
  options : ∀ w ∈ marks, ¬w <:+: n.optionsLine
  ufrag : ∀ w ∈ marks, w ≠ iceUfragMark → ¬w <:+: n.ufragLine
  pwd : ∀ w ∈ marks, w ≠ icePwdMark → ¬w <:+: n.pwdLine
  fingerprint : ∀ w ∈ marks, w ≠ fingerprintMark → ¬w <:+: n.fingerprintLine
  candidate : ∀ w ∈ marks, ¬w <:+: n.candidateLine

theorem sliceFragment_line {a z : List Bytes} {lead w r : Bytes} (hw : Unbordered w)
    (hcr : 13 ∉ w) (hlf : 10 ∉ w) (ha : ∀ l ∈ a, ¬w <:+: l) (hlead : ¬w <:+: lead) (hr : ¬Sdp.crlf <:+: r) :
    sliceFragment (text (a ++ (lead ++ (w ++ r)) :: z)) w Sdp.crlf = r := by
  have htext : text (a ++ (lead ++ (w ++ r)) :: z) = text a ++ (lead ++ (w ++ (r ++ (Sdp.crlf ++ text z)))) := by
    rw [text_append, text_cons]
    simp only [List.append_assoc]
  have hpos : find (text (a ++ (lead ++ (w ++ r)) :: z)) w = (text a).length + lead.length := by
    rw [htext, find_text hcr hlf ha, find, hw.search_append hlead]
  have hdrop : (text (a ++ (lead ++ (w ++ r)) :: z)).drop ((text a).length + lead.length + w.length) =
      r ++ (Sdp.crlf ++ text z) := by
    rw [htext, ← List.drop_drop, ← List.drop_drop, List.drop_left, List.drop_left, List.drop_left]
  have hend : find (r ++ (Sdp.crlf ++ text z)) Sdp.crlf = r.length := Sdp.crlf_unbordered.search_append hr _
  have hlt : (text a).length + lead.length ≠ (text (a ++ (lead ++ (w ++ r)) :: z)).length := by
    rw [htext]
    simp only [List.length_append, Sdp.crlf, List.length_cons]
    omega
  have hlt' : r.length ≠ (r ++ (Sdp.crlf ++ text z)).length := by
    simp only [List.length_append, Sdp.crlf, List.length_cons]
    omega
  rw [sliceFragment, hpos]
  dsimp only
  rw [if_neg hlt, hdrop, hend, if_neg hlt', List.take_left]

variable {n}

theorem cStr_eq {s : Bytes} (h : 0 ∉ s) : cStr s = s := by
  refine List.takeWhile_eq_self_iff.mpr fun c hc ↦ decide_eq_true ?_
  rintro rfl
  exact h hc

theorem not_crlf {s : Bytes} (h : 13 ∉ s) : ¬Sdp.crlf <:+: s := fun hin ↦ h (hin.subset List.mem_cons_self)

theorem not_mark_of_fixed :
    ∀ w ∈ marks, ∀ l ∈ sessionLines ++ groupLines ++ formatLines ++ msidLine :: rtcpLines, ¬w <:+: l := by
  decide +kernel

theorem not_mark_videoLine : ∀ w ∈ marks, ¬w <:+: videoLine := by decide +kernel

theorem not_mark_mediaLine : ∀ w ∈ marks, w ≠ mediaMark → ¬w <:+: mediaMark ++ videoLine := by decide +kernel

theorem not_mark_trackLine : ∀ w ∈ marks, w ≠ ssrcMark → ¬w <:+: trackLine := by decide +kernel

theorem not_mark_cnameLine : ∀ w ∈ marks, w ≠ ssrcMark → w ≠ cnameMark → ¬w <:+: cnameLine := by decide +kernel

section Quiet

variable {w : Bytes}

theorem not_mark_fixed (hw : w ∈ marks) {l : Bytes}
    (hl : l ∈ sessionLines ∨ l ∈ groupLines ∨ l ∈ formatLines ∨ l = msidLine ∨ l ∈ rtcpLines) : ¬w <:+: l := by
  refine not_mark_of_fixed w hw l ?_
  rw [List.mem_append, List.mem_append, List.mem_append, List.mem_cons, or_assoc, or_assoc]
  exact hl

theorem Plain.not_mark_opening (h : n.Plain) (hw : w ∈ marks) : ∀ l ∈ n.opening, ¬w <:+: l := by
  intro l hl
  rw [opening, List.mem_append, List.mem_cons] at hl
  obtain hl | rfl | hl := hl
  · exact not_mark_fixed hw (.inl hl)
  · exact h.options w hw
  · exact not_mark_fixed hw (.inr (.inl hl))

def front (n : LocalNet) : List Bytes := n.opening ++ (mediaMark ++ videoLine) :: formatLines

theorem Plain.not_mark_front (h : n.Plain) (hw : w ∈ marks) (hm : w ≠ mediaMark) : ∀ l ∈ n.front, ¬w <:+: l := by
  intro l hl
  rw [front, List.mem_append, List.mem_cons] at hl
  obtain hl | rfl | hl := hl
  · exact h.not_mark_opening hw l hl
  · exact not_mark_mediaLine w hw hm
  · exact not_mark_fixed hw (.inr (.inr (.inl hl)))

theorem format_eq (n : LocalNet) : n.format = text (n.front ++ n.ufragLine :: n.pwdLine :: n.fingerprintLine ::
    msidLine :: cnameLine :: trackLine :: n.candidateLine :: rtcpLines) := by
  rw [format, mediaLines, front, List.append_assoc, List.cons_append]

end Quiet

section Fields

theorem Plain.ufrag_eq (h : n.Plain) : sliceFragment n.format iceUfragMark Sdp.crlf = n.iceUfrag := by
  have hstr : cStr n.iceUfrag = n.iceUfrag := cStr_eq (h.nul _ (by simp))
  rw [format_eq, ufragLine, hstr]
  exact sliceFragment_line (by decide) (by decide) (by decide) (h.not_mark_front (by decide) (by decide))
    (by decide) (not_crlf (h.clean _ (by simp)))

theorem Plain.pwd_eq (h : n.Plain) : sliceFragment n.format icePwdMark Sdp.crlf = n.icePwd := by
  have hstr : cStr n.icePwd = n.icePwd := cStr_eq (h.nul _ (by simp))
  have hlines : ∀ l ∈ n.front ++ [n.ufragLine], ¬icePwdMark <:+: l := by
    rw [List.forall_mem_append, List.forall_mem_singleton]
    exact ⟨h.not_mark_front (by decide) (by decide), h.ufrag _ (by decide) (by decide)⟩
  rw [format_eq, List.append_cons, pwdLine, hstr]
  exact sliceFragment_line (by decide) (by decide) (by decide) hlines (by decide)
    (not_crlf (h.clean _ (by simp)))

theorem Plain.fingerprint_eq (h : n.Plain) :
    sliceFragment n.format fingerprintMark Sdp.crlf = ascii "sha-256 " ++ n.fingerPrint := by
  have hstr : cStr n.fingerPrint = n.fingerPrint := cStr_eq (h.nul _ (by simp))
  have hlines : ∀ l ∈ n.front ++ [n.ufragLine] ++ [n.pwdLine], ¬fingerprintMark <:+: l := by
    rw [List.forall_mem_append, List.forall_mem_append, List.forall_mem_singleton, List.forall_mem_singleton]
    exact ⟨⟨h.not_mark_front (by decide) (by decide), h.ufrag _ (by decide) (by decide)⟩,
      h.pwd _ (by decide) (by decide)⟩
  have hclean : 13 ∉ ascii "sha-256 " ++ n.fingerPrint := by
    rw [List.mem_append, not_or]
    exact ⟨by decide, h.clean _ (by simp)⟩
  rw [format_eq, List.append_cons, List.append_cons, fingerprintLine, hstr]
  exact sliceFragment_line (by decide) (by decide) (by decide) hlines (by decide) (not_crlf hclean)

theorem Plain.cname_eq (h : n.Plain) : sliceFragment n.format cnameMark Sdp.crlf = ascii "baizevideo" := by
  have hlines : ∀ l ∈ n.front ++ [n.ufragLine, n.pwdLine, n.fingerprintLine, msidLine], ¬cnameMark <:+: l := by
    rw [List.forall_mem_append]
    simp only [List.forall_mem_cons]
    exact ⟨h.not_mark_front (by decide) (by decide), h.ufrag _ (by decide) (by decide),
      h.pwd _ (by decide) (by decide), h.fingerprint _ (by decide) (by decide),
      not_mark_fixed (by decide) (.inr (.inr (.inr (.inl rfl)))), List.forall_mem_nil _⟩
  have hline : cnameLine = ascii "a=ssrc:1234 " ++ (cnameMark ++ ascii "baizevideo") := by decide +kernel
  have hsplit : n.front ++ n.ufragLine :: n.pwdLine :: n.fingerprintLine :: msidLine :: cnameLine :: trackLine ::
      n.candidateLine :: rtcpLines = n.front ++ [n.ufragLine, n.pwdLine, n.fingerprintLine, msidLine] ++
        cnameLine :: trackLine :: n.candidateLine :: rtcpLines := by
    rw [List.append_assoc]
    rfl
  rw [format_eq, hsplit, hline]
  exact sliceFragment_line (by decide) (by decide) (by decide) hlines (by decide) (by decide)

end Fields

theorem sections_single {a z : List Bytes} {l : Bytes} (ha : ∀ x ∈ a, ¬mediaMark <+: x) (hl : mediaMark <+: l)
    (hz : ∀ x ∈ z, ¬mediaMark <+: x) : sections (a ++ l :: z) = (a, [l :: z]) := by
  have hend : sections z = (z, []) := by
    induction z with
    | nil => rfl
    | cons x z ih =>
      obtain ⟨hx, hz⟩ := List.forall_mem_cons.mp hz
      rw [sections_cons_of_not_media hx, ih hz]
  induction a with
  | nil => rw [List.nil_append, sections_cons_of_media hl, hend]
  | cons x a ih =>
    obtain ⟨hx, ha⟩ := List.forall_mem_cons.mp ha
    rw [List.cons_append, sections_cons_of_not_media hx, ih ha]

theorem Plain.not_mark_mediaLines (h : n.Plain) {w : Bytes} (hw : w ∈ marks)
    (hne : w = mediaMark ∨ w = ssrcGroupMark) : ∀ l ∈ n.mediaLines, ¬w <:+: l := by
  have hother : w ≠ iceUfragMark ∧ w ≠ icePwdMark ∧ w ≠ fingerprintMark ∧ w ≠ cnameMark ∧ w ≠ ssrcMark := by
    obtain rfl | rfl := hne
    · decide
    · decide
  rw [mediaLines, List.forall_mem_append]
  simp only [List.forall_mem_cons]
  exact ⟨fun l hl ↦ not_mark_fixed hw (.inr (.inr (.inl hl))), h.ufrag _ hw hother.1, h.pwd _ hw hother.2.1,
    h.fingerprint _ hw hother.2.2.1, not_mark_fixed hw (.inr (.inr (.inr (.inl rfl)))),
    not_mark_cnameLine _ hw hother.2.2.2.2 hother.2.2.2.1, not_mark_trackLine _ hw hother.2.2.2.2,
    h.candidate _ hw, fun l hl ↦ not_mark_fixed hw (.inr (.inr (.inr (.inr hl))))⟩

theorem Plain.ssrcIds_eq (h : n.Plain) :
    TrackSdp.ssrcIds (text (videoLine :: n.mediaLines)) = [Net.decimal ssrc] := by
  have hsplit : videoLine :: n.mediaLines ++ [[]] = (videoLine :: formatLines ++
      [n.ufragLine, n.pwdLine, n.fingerprintLine, msidLine]) ++
        (ssrcLine ++ (Net.decimal ssrc ++ 32 :: (cnameMark ++ ascii "baizevideo"))) :: (trackLine ::
          n.candidateLine :: rtcpLines ++ [[]]) := by
    rw [List.append_assoc]
    rfl
  have hgroup : ∀ l ∈ videoLine :: n.mediaLines ++ [[]], ¬ssrcGroupMark <:+: l := by
    rw [List.forall_mem_append, List.forall_mem_cons, List.forall_mem_singleton]
    exact ⟨⟨not_mark_videoLine _ (by decide), h.not_mark_mediaLines (by decide) (.inr rfl)⟩, by decide⟩
  have hssrc : ∀ l ∈ videoLine :: formatLines ++ [n.ufragLine, n.pwdLine, n.fingerprintLine, msidLine],
      ¬ssrcMark <:+: l := by
    rw [List.forall_mem_append, List.forall_mem_cons]
    simp only [List.forall_mem_cons]
    exact ⟨⟨not_mark_videoLine _ (by decide), fun l hl ↦ not_mark_fixed (by decide) (.inr (.inr (.inl hl)))⟩,
      h.ufrag _ (by decide) (by decide), h.pwd _ (by decide) (by decide),
      h.fingerprint _ (by decide) (by decide),
      not_mark_fixed (by decide) (.inr (.inr (.inr (.inl rfl)))), List.forall_mem_nil _⟩
  have hbehind : behind ssrcMark (ssrcLine ++ (Net.decimal ssrc ++ 32 :: (cnameMark ++ ascii "baizevideo"))) =
      Net.decimal ssrc ++ 32 :: (cnameMark ++ ascii "baizevideo") := by
    decide +kernel
  rw [hsplit] at hgroup
  have hid : 32 ∉ Net.decimal ssrc := by decide
  rw [text_eq_intercalate, hsplit, ssrcIds_of_blank hgroup hssrc (by decide +kernel) hid
    (by rw [hbehind, List.append_assoc, List.cons_append])]
  decide +kernel

theorem Plain.tracks_eq (h : n.Plain) :
    (SdpMessage.fresh.decode n.format).2.tracks = [⟨.video, [Net.decimal ssrc]⟩] := by
  have hquiet : ∀ l ∈ n.opening ++ n.mediaLines, ¬mediaMark <:+: l :=
    List.forall_mem_append.mpr ⟨h.not_mark_opening (by decide), h.not_mark_mediaLines (by decide) (.inl rfl)⟩
  obtain ⟨hopening, hmedia⟩ := List.forall_mem_append.mp hquiet
  have hlines : ∀ l ∈ videoLine :: n.mediaLines, ¬mediaMark <:+: l :=
    List.forall_mem_cons.mpr ⟨not_mark_videoLine _ (by decide), hmedia⟩
  have hrest {ls : List Bytes} (hls : ∀ l ∈ ls, ¬mediaMark <:+: l) :
      (splitBy mediaMark (text ls)).tail.filterMap TrackSdp.ofItem = [] :=
    (filterMap_tail_eq_nil_iff _).mpr (quiet_text_iff.mpr fun l hl ↦ quiet_of_not_mention (hls l hl))
  have hitem : TrackSdp.ofItem (text (videoLine :: n.mediaLines)) = some ⟨.video, [Net.decimal ssrc]⟩ := by
    have haudio : startsWith (text (videoLine :: n.mediaLines)) audioMark = false := rfl
    have hvideo : startsWith (text (videoLine :: n.mediaLines)) videoMark = true := rfl
    rw [TrackSdp.ofItem, haudio, hvideo, h.ssrcIds_eq]
    rfl
  have hsections := sections_single (l := mediaMark ++ videoLine) (fun x hx hp ↦ hopening x hx hp.isInfix)
    (List.prefix_append _ _) (fun x hx hp ↦ hmedia x hx hp.isInfix)
  have hunmark : unmark ((mediaMark ++ videoLine) :: n.mediaLines) = videoLine :: n.mediaLines := rfl
  rw [format, decode_tracks_sections, hsections, hrest hopening, List.flatMap_singleton, hunmark,
    intercalate_seen hlines, hitem, hrest hlines]
  rfl

/-- What the server sends a client about itself is what a client of its own kind reads from it: the ICE
credentials, the CNAME and one video track with the SSRC, and the fingerprint together with the name of its
hash. -/
theorem decode_localSdpString {n : LocalNet} (h : n.Plain) (hfit : n.format.length < 8192) :
    SdpMessage.fresh.decode n.localSdpString =
      (0, ⟨ascii "baizevideo", [⟨.video, [Net.decimal ssrc]⟩],
        ⟨n.iceUfrag, n.icePwd, ascii "sha-256 " ++ n.fingerPrint⟩⟩) := by
  have hassign : ∀ s : Bytes, SdpMessage.assign [] s = s := by
    intro s
    rw [SdpMessage.assign]
    split
    · next hnil => exact hnil.symm
    · rfl
  have htracks := h.tracks_eq
  rw [localSdpString, List.take_of_length_le (by omega)]
  rw [SdpMessage.decode] at htracks ⊢
  dsimp only [SdpMessage.fresh] at htracks ⊢
  rw [htracks, h.ufrag_eq, h.pwd_eq, h.fingerprint_eq, h.cname_eq, hassign, hassign, hassign, hassign]

theorem decode_localSdpString_settings : settings.Plain ∧ SdpMessage.fresh.decode settings.localSdpString =
    (0, ⟨ascii "baizevideo", [⟨.video, [Net.decimal ssrc]⟩],
      ⟨settings.iceUfrag, settings.icePwd, ascii "sha-256 " ++ settings.fingerPrint⟩⟩) := by
  have h : settings.Plain := ⟨by decide +kernel, by decide +kernel, by decide +kernel, by decide +kernel,
    by decide +kernel, by decide +kernel, by decide +kernel⟩
  exact ⟨h, decode_localSdpString h (by decide +kernel)⟩

end LocalNet

end Baize.Webrtc
