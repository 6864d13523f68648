import Baize.Rtp.Datagram

namespace Baize.Rtp

open Lib

section Bits

variable (b : UInt8)

theorem versionBits_toNat : (versionBits b).toNat = b.toNat / 64 := by
  rw [versionBits, UInt8.toNat_shiftRight, Nat.shiftRight_eq_div_pow]
  rfl

theorem paddingBit_toNat : (paddingBit b).toNat = b.toNat / 32 % 2 := by
  rw [paddingBit, UInt8.toNat_and, UInt8.toNat_shiftRight, Nat.shiftRight_eq_div_pow,
    show (1 : UInt8).toNat = 2 ^ 1 - 1 from rfl, Nat.and_two_pow_sub_one_eq_mod]
  rfl

theorem extensionBit_toNat : (extensionBit b).toNat = b.toNat / 16 % 2 := by
  rw [extensionBit, UInt8.toNat_and, UInt8.toNat_shiftRight, Nat.shiftRight_eq_div_pow,
    show (1 : UInt8).toNat = 2 ^ 1 - 1 from rfl, Nat.and_two_pow_sub_one_eq_mod]
  rfl

theorem csrcCountBits_toNat : (csrcCountBits b).toNat = b.toNat % 16 := by
  rw [csrcCountBits, UInt8.toNat_and, show (0x0F : UInt8).toNat = 2 ^ 4 - 1 from rfl,
    Nat.and_two_pow_sub_one_eq_mod]

theorem markerBit_toNat : (markerBit b).toNat = b.toNat / 128 := by
  rw [markerBit, UInt8.toNat_shiftRight, Nat.shiftRight_eq_div_pow]
  rfl

theorem payloadTypeBits_toNat : (payloadTypeBits b).toNat = b.toNat % 128 := by
  rw [payloadTypeBits, UInt8.toNat_and, show (0x7F : UInt8).toNat = 2 ^ 7 - 1 from rfl,
    Nat.and_two_pow_sub_one_eq_mod]

variable {b}

theorem toNat_eq_of_ne_zero_iff {c : Bool} (hb : b.toNat < 2) (h : b ≠ 0 ↔ c = true) :
    c.toNat = b.toNat := by
  have h0 : b.toNat = 0 ↔ b = 0 := by rw [← UInt8.toNat_inj]; rfl
  cases c with
  | false => exact (h0.mpr (not_not.mp (mt h.mp Bool.false_ne_true))).symm
  | true =>
    have := mt h0.mp (h.mpr rfl)
    change 1 = _
    omega

theorem ofNat_toNat_of_lt {n : ℕ} (h : n < 256) : (UInt8.ofNat n).toNat = n :=
  UInt8.toNat_ofNat_of_lt' h

end Bits

def headerOf (p : Bytes) : Header where
  version := versionBits (byte1 p 0)
  padding := paddingBit (byte1 p 0)
  extension := extensionBit (byte1 p 0)
  csrcCount := csrcCountBits (byte1 p 0)
  marker := markerBit (byte1 p 1)
  payloadType := payloadTypeBits (byte1 p 1)
  sequenceNumber := byte2 p 2
  timestamp := byte4 p 4
  ssrc := byte4 p 8

theorem readHeader_of {p : Bytes} (h : 12 ≤ p.length) : readHeader p = .ok (headerOf p) := by
  rw [readHeader, read1_of (by omega), ok_bind, read1_of (by omega), ok_bind, read2_of (by omega),
    ok_bind, read4_of (by omega), ok_bind, read4_of (by omega), ok_bind]
  rfl

theorem isRtp_eq (p : Bytes) :
    isRtp p = .ok (decide (12 ≤ p.length ∧ versionBits (byte1 p 0) = 2)) := by
  unfold isRtp
  by_cases h : 12 ≤ p.length
  · have hver := versionBits_toNat (byte1 p 0)
    have hlt := (byte1 p 0).toNat_lt
    rw [if_pos (show kHeaderSize ≤ p.length from h), read1_of (by omega), ok_bind, pure_eq_ok]
    congr 1
    rw [Bool.eq_iff_iff]
    simp only [Bool.and_eq_true, decide_eq_true_eq, beq_iff_eq, UInt8.lt_iff_toNat_lt,
      ← UInt8.toNat_inj, hver, h, true_and]
    have h127 : (127 : UInt8).toNat = 127 := rfl
    have h192 : (192 : UInt8).toNat = 192 := rfl
    have h2 : (2 : UInt8).toNat = 2 := rfl
    rw [h2]
    constructor
    · exact fun hb ↦ hb.2
    · intro hb
      exact ⟨by show (127 : UInt8).toNat < _ ∧ _ < (192 : UInt8).toNat; omega, hb⟩
  · rw [if_neg (show ¬ kHeaderSize ≤ p.length from h), pure_eq_ok, decide_eq_false (fun hp ↦ h hp.1)]

theorem readCsrcs_of_drop {data : Bytes} (csrcs : List UInt32) {rest : Bytes} {offset : ℕ}
    (acc : List UInt32) (h : data.drop offset = csrcs.flatMap net4 ++ rest) :
    readCsrcs data csrcs.length offset acc = .ok (acc ++ csrcs) := by
  induction csrcs generalizing offset acc with
  | nil => rw [List.append_nil]; rfl
  | cons c cs ih =>
    rw [List.flatMap_cons, List.append_assoc] at h
    have hlen := congrArg List.length h
    rw [List.length_drop, List.length_append, net4_length] at hlen
    have hnext : data.drop (offset + 4) = cs.flatMap net4 ++ rest := by
      rw [← List.drop_drop, h]
      exact List.drop_left' rfl
    rw [List.length_cons, readCsrcs, read4_of (by omega), ok_bind, byte4_of_drop h, ih _ hnext,
      List.append_assoc]
    rfl

theorem length_flatMap_net4 (csrcs : List UInt32) :
    (csrcs.flatMap net4).length = csrcs.length * 4 := by
  rw [List.length_flatMap, List.map_congr_left (fun v _ ↦ net4_length v), List.map_const',
    List.sum_replicate, smul_eq_mul]

theorem exists_csrcs {data : Bytes} (n : ℕ) {offset : ℕ} (h : offset + n * 4 ≤ data.length) :
    ∃ csrcs : List UInt32, csrcs.length = n ∧
      data.drop offset = csrcs.flatMap net4 ++ data.drop (offset + n * 4) := by
  induction n generalizing offset with
  | zero => exact ⟨[], rfl, by rw [Nat.zero_mul]; rfl⟩
  | succ n ih =>
    have hrest : offset + 4 + n * 4 ≤ data.length := by omega
    obtain ⟨csrcs, hlen, hdrop⟩ := ih hrest
    refine ⟨byte4 data offset :: csrcs, by rw [List.length_cons, hlen], ?_⟩
    rw [List.flatMap_cons, List.append_assoc, drop_eq_net4_append (i := offset) (by omega), hdrop,
      show offset + 4 + n * 4 = offset + (n + 1) * 4 by omega]

namespace RtpPacket

theorem decode_eq (this : RtpPacket) (p : Bytes) :
    decode this p = if 12 ≤ p.length ∧ versionBits (byte1 p 0) = 2 then
      if p.length < 12 + (headerOf p).csrcCount.toNat * 4 then
        .ok (-1, { this with rtpHeader := headerOf p })
      else do
        let csrcs ← readCsrcs p (headerOf p).csrcCount.toNat 12 this.csrcs
        decodeExtension { this with rtpHeader := headerOf p, csrcs := csrcs } p (headerOf p)
          (12 + (headerOf p).csrcCount.toNat * 4) ((headerOf p).csrcCount.toNat * 4)
    else .ok (-1, this) := by
  rw [decode, isRtp_eq, ok_bind]
  by_cases h : 12 ≤ p.length ∧ versionBits (byte1 p 0) = 2
  · rw [if_pos h, decide_eq_true h, if_neg (by decide),
      if_neg (show ¬ p.length < kHeaderSize from not_lt.mpr h.1), readHeader_of h.1, ok_bind]
    dsimp only
    by_cases hcount : (headerOf p).csrcCount ≠ 0
    · rw [if_pos hcount]
      rfl
    · have hzero : (headerOf p).csrcCount.toNat = 0 := by rw [not_not.mp hcount]; rfl
      rw [if_neg hcount, hzero, if_neg (by omega)]
      rfl
  · rw [if_neg h, decide_eq_false h]
    rfl

theorem decode_total (this : RtpPacket) (p : Bytes) : ∃ r, decode this p = .ok r := by
  rw [decode_eq]
  split
  · split
    · exact ⟨_, rfl⟩
    next hfit =>
    obtain ⟨csrcs, hlen, hdrop⟩ := exists_csrcs (headerOf p).csrcCount.toNat (not_lt.mp hfit)
    rw [← hlen, readCsrcs_of_drop csrcs this.csrcs hdrop, ok_bind, hlen]
    exact decodeExtension_total _ _ (not_lt.mp hfit) rfl
  · exact ⟨_, rfl⟩

theorem decode_fresh_iff {p : Bytes} {m : RtpPacket} :
    decode fresh p = .ok (0, m) ↔ 12 ≤ p.length ∧ versionBits (byte1 p 0) = 2 ∧
      ∃ (csrcs : List UInt32) (ext : Option Extension) (payload : Bytes) (pad : Option Padding),
        csrcs.length = (headerOf p).csrcCount.toNat ∧
        p.drop 12 = csrcs.flatMap net4 ++ (ext.elim [] Extension.bytes ++
          (payload ++ pad.elim [] Padding.bytes)) ∧
        ((headerOf p).extension = 1 ↔ ext.isSome) ∧ ((headerOf p).padding ≠ 0 ↔ pad.isSome) ∧
        m = ⟨headerOf p, csrcs, ext.elim ⟨0, 0⟩ Extension.header, payload⟩ := by
  rw [decode_eq, ← and_assoc]
  by_cases hhead : 12 ≤ p.length ∧ versionBits (byte1 p 0) = 2
  · rw [if_pos hhead]
    constructor
    · intro h
      split at h
      · cases h
      next hfit =>
      obtain ⟨csrcs, hlen, hdrop⟩ := exists_csrcs (headerOf p).csrcCount.toNat (not_lt.mp hfit)
      rw [← hlen, readCsrcs_of_drop csrcs _ hdrop, ok_bind, hlen] at h
      obtain ⟨ext, payload, pad, hrest, hext, hpad, rfl⟩ :=
        (decodeExtension_iff (not_lt.mp hfit) rfl).mp h
      exact ⟨hhead, csrcs, ext, payload, pad, hlen, by rw [hdrop, hrest], hext, hpad, rfl⟩
    · rintro ⟨-, csrcs, ext, payload, pad, hlen, hdrop, hext, hpad, rfl⟩
      have hwords : (csrcs.flatMap net4).length = csrcs.length * 4 := length_flatMap_net4 csrcs
      have hsize := congrArg List.length hdrop
      rw [List.length_drop, List.length_append, hwords] at hsize
      have hrest : p.drop (12 + csrcs.length * 4) = ext.elim [] Extension.bytes ++
          (payload ++ pad.elim [] Padding.bytes) := by
        rw [← List.drop_drop, hdrop, List.drop_left' hwords]
      have hfit : 12 + csrcs.length * 4 ≤ p.length := by omega
      rw [← hlen, if_neg (not_lt.mpr hfit), readCsrcs_of_drop csrcs _ hdrop, ok_bind]
      exact (decodeExtension_iff hfit rfl).mpr ⟨ext, payload, pad, hrest, hext, hpad, rfl⟩
  · rw [if_neg hhead]
    constructor
    · intro h
      cases h
    · exact fun h ↦ absurd h.1 hhead

end RtpPacket

namespace Datagram

variable (r : Datagram)

theorem firstByte_toNat : r.firstByte.toNat =
    128 + r.padding.isSome.toNat * 32 + r.extension.isSome.toNat * 16 + r.csrcs.length := by
  have := r.length_csrcs
  have := r.padding.isSome.toNat_le
  have := r.extension.isSome.toNat_le
  exact ofNat_toNat_of_lt (by omega)

theorem secondByte_toNat : r.secondByte.toNat = r.marker.toNat * 128 + r.payloadType := by
  have := r.payloadType.isLt
  have := r.marker.toNat_le
  exact ofNat_toNat_of_lt (by omega)

theorem headerOf_bytes : headerOf r.bytes = r.header := by
  have hfirst := r.firstByte_toNat
  have hsecond := r.secondByte_toNat
  have hcsrcs := r.length_csrcs
  have hpad := r.padding.isSome.toNat_le
  have hext := r.extension.isSome.toNat_le
  have htype := r.payloadType.isLt
  have hmarker := r.marker.toNat_le
  have hseq : byte2 r.bytes 2 = r.sequenceNumber := byte2_of_drop rfl
  have htime : byte4 r.bytes 4 = r.timestamp := byte4_of_drop rfl
  have hssrc : byte4 r.bytes 8 = r.ssrc := byte4_of_drop rfl
  have h₀ : byte1 r.bytes 0 = r.firstByte := rfl
  have h₁ : byte1 r.bytes 1 = r.secondByte := rfl
  rw [headerOf, header, hseq, htime, hssrc, h₀, h₁]
  simp only [Header.mk.injEq, ← UInt8.toNat_inj, versionBits_toNat, paddingBit_toNat,
    extensionBit_toNat, csrcCountBits_toNat, markerBit_toNat, payloadTypeBits_toNat, hfirst, hsecond,
    and_true]
  refine ⟨?_, ?_, ?_, ?_, ?_, ?_⟩
  · change _ = 2
    omega
  · rw [ofNat_toNat_of_lt (by omega)]
    omega
  · rw [ofNat_toNat_of_lt (by omega)]
    omega
  · rw [ofNat_toNat_of_lt (by omega)]
    omega
  · rw [ofNat_toNat_of_lt (by omega)]
    omega
  · rw [ofNat_toNat_of_lt (by omega)]
    omega

theorem decode_bytes : RtpPacket.decode .fresh r.bytes = .ok (0, r.packet) := by
  have hver : versionBits (byte1 r.bytes 0) = 2 := congrArg Header.version r.headerOf_bytes
  have hsize : 12 ≤ r.bytes.length := by
    rw [show r.bytes.length = (r.csrcs.flatMap net4 ++ (r.extension.elim [] Extension.bytes ++
      (r.payload ++ r.padding.elim [] Padding.bytes))).length + 12 from rfl]
    omega
  have hcsrcs := r.length_csrcs
  refine RtpPacket.decode_fresh_iff.mpr ⟨hsize, hver, r.csrcs, r.extension, r.payload, r.padding,
    ?_, rfl, ?_, ?_, ?_⟩
  · rw [headerOf_bytes, header, ofNat_toNat_of_lt (by omega)]
  · rw [headerOf_bytes, header]
    cases r.extension <;> simp
  · rw [headerOf_bytes, header]
    cases r.padding <;> simp
  · rw [headerOf_bytes, packet]

/-- Every packet that `Decode` accepts is on the wire what it yields. -/
theorem exists_of_decode {p : Bytes} {m : RtpPacket} (h : RtpPacket.decode .fresh p = .ok (0, m)) :
    ∃ r : Datagram, p = r.bytes ∧ m = r.packet := by
  obtain ⟨hsize, hver, csrcs, ext, payload, pad, hlen, hdrop, hext, hpad, rfl⟩ :=
    RtpPacket.decode_fresh_iff.mp h
  have hcount := csrcCountBits_toNat (byte1 p 0)
  have hv := versionBits_toNat (byte1 p 0)
  have hp := paddingBit_toNat (byte1 p 0)
  have hx := extensionBit_toNat (byte1 p 0)
  have hm := markerBit_toNat (byte1 p 1)
  have ht := payloadTypeBits_toNat (byte1 p 1)
  have h₀ := (byte1 p 0).toNat_lt
  have h₁ := (byte1 p 1).toNat_lt
  change csrcs.length = (csrcCountBits (byte1 p 0)).toNat at hlen
  have hpad' : pad.isSome.toNat = (paddingBit (byte1 p 0)).toNat :=
    toNat_eq_of_ne_zero_iff (by omega) hpad
  have hext' : ext.isSome.toNat = (extensionBit (byte1 p 0)).toNat := by
    refine toNat_eq_of_ne_zero_iff (by omega) (Iff.trans ?_ hext)
    change extensionBit (byte1 p 0) ≠ 0 ↔ extensionBit (byte1 p 0) = 1
    rw [ne_eq, ← UInt8.toNat_inj, ← UInt8.toNat_inj, show (0 : UInt8).toNat = 0 from rfl,
      show (1 : UInt8).toNat = 1 from rfl]
    omega
  have hmarker : (decide (markerBit (byte1 p 1) ≠ 0)).toNat = (markerBit (byte1 p 1)).toNat :=
    toNat_eq_of_ne_zero_iff (by omega) decide_eq_true_iff.symm
  let r : Datagram := {
    marker := decide (markerBit (byte1 p 1) ≠ 0)
    payloadType := ⟨(payloadTypeBits (byte1 p 1)).toNat, by omega⟩
    sequenceNumber := byte2 p 2
    timestamp := byte4 p 4
    ssrc := byte4 p 8
    csrcs := csrcs
    length_csrcs := by omega
    extension := ext
    payload := payload
    padding := pad }
  have hfirst : r.firstByte = byte1 p 0 := by
    apply UInt8.toNat_inj.mp
    rw [firstByte_toNat]
    change 128 + pad.isSome.toNat * 32 + ext.isSome.toNat * 16 + csrcs.length = _
    rw [hver, show (2 : UInt8).toNat = 2 from rfl] at hv
    omega
  have hsecond : r.secondByte = byte1 p 1 := by
    apply UInt8.toNat_inj.mp
    rw [secondByte_toNat]
    change (decide (markerBit (byte1 p 1) ≠ 0)).toNat * 128 + (payloadTypeBits (byte1 p 1)).toNat = _
    omega
  have hbytes : p = r.bytes := by
    rw [bytes, hfirst, hsecond]
    change p = byte1 p 0 :: byte1 p 1 :: (net2 (byte2 p 2) ++ (net4 (byte4 p 4) ++
      (net4 (byte4 p 8) ++ (csrcs.flatMap net4 ++ (ext.elim [] Extension.bytes ++
        (payload ++ pad.elim [] Padding.bytes))))))
    rw [← hdrop, ← drop_eq_net4_append (by omega), ← drop_eq_net4_append (by omega),
      ← drop_eq_net2_append (by omega), ← drop_eq_byte1_cons (by omega),
      ← drop_eq_byte1_cons (by omega), List.drop_zero]
  refine ⟨r, hbytes, ?_⟩
  rw [hbytes, headerOf_bytes, packet]

/-- `Decode` accepts exactly the RTP packets of version 2, yields their fields,
and reads no byte outside the packet. -/
theorem decode_accepts_exactly :
    (∀ r : Datagram, RtpPacket.decode .fresh r.bytes = .ok (0, r.packet)) ∧
    (∀ p m, RtpPacket.decode .fresh p = .ok (0, m) → ∃ r : Datagram, p = r.bytes ∧ m = r.packet) ∧
    ∀ this p, ∃ ret, RtpPacket.decode this p = .ok ret :=
  ⟨decode_bytes, fun _ _ ↦ exists_of_decode, RtpPacket.decode_total⟩

end Datagram

end Baize.Rtp
