import Baize.Rtp.Packet

namespace Baize.Rtp

open Lib

structure Extension where
  profile : UInt16
  words : ℕ
  value : Bytes
  words_le : words ≤ 65535
  length_value : value.length = words * 4

def Extension.bytes (e : Extension) : Bytes :=
  net2 e.profile ++ net2 (UInt16.ofNat e.words) ++ e.value

def Extension.header (e : Extension) : HeaderExtension := ⟨e.profile, UInt16.ofNat e.words⟩

structure Padding where
  fill : Bytes
  length_fill : fill.length ≤ 254

def Padding.bytes (p : Padding) : Bytes := p.fill ++ [UInt8.ofNat (p.fill.length + 1)]

structure Datagram where
  marker : Bool
  payloadType : Fin 128
  sequenceNumber : UInt16
  timestamp : UInt32
  ssrc : UInt32
  csrcs : List UInt32
  length_csrcs : csrcs.length ≤ 15
  extension : Option Extension
  payload : Bytes
  padding : Option Padding

namespace Datagram

variable (r : Datagram)

def firstByte : UInt8 :=
  UInt8.ofNat (128 + r.padding.isSome.toNat * 32 + r.extension.isSome.toNat * 16 + r.csrcs.length)

def secondByte : UInt8 := UInt8.ofNat (r.marker.toNat * 128 + r.payloadType)

def bytes : Bytes :=
  r.firstByte :: r.secondByte :: (net2 r.sequenceNumber ++ (net4 r.timestamp ++ (net4 r.ssrc ++
    (r.csrcs.flatMap net4 ++ (r.extension.elim [] Extension.bytes ++
      (r.payload ++ r.padding.elim [] Padding.bytes))))))

def header : Header where
  version := 2
  padding := UInt8.ofNat r.padding.isSome.toNat
  extension := UInt8.ofNat r.extension.isSome.toNat
  csrcCount := UInt8.ofNat r.csrcs.length
  marker := UInt8.ofNat r.marker.toNat
  payloadType := UInt8.ofNat r.payloadType
  sequenceNumber := r.sequenceNumber
  timestamp := r.timestamp
  ssrc := r.ssrc

def packet : RtpPacket :=
  ⟨r.header, r.csrcs, r.extension.elim ⟨0, 0⟩ Extension.header, r.payload⟩

end Datagram

section Reads

variable {data : Bytes} {i : ℕ}

theorem read1_of (h : i < data.length) : read1 data i = .ok (byte1 data i) := by
  rw [read1, check_of h]
  rfl

theorem read2_of (h : i + 1 < data.length) : read2 data i = .ok (byte2 data i) := by
  rw [read2, check_of h]
  rfl

theorem read4_of (h : i + 3 < data.length) : read4 data i = .ok (byte4 data i) := by
  rw [read4, check_of h]
  rfl

end Reads

namespace RtpPacket

theorem assignPayload_eq (this : RtpPacket) {data : Bytes} {ptr : ℕ} {payloadLength : ℤ}
    {payloadPadding : UInt8} (h0 : 0 ≤ payloadLength)
    (h : ptr + payloadLength + payloadPadding.toNat = data.length) :
    assignPayload this data ptr ptr payloadLength payloadPadding =
      .ok (0, { this with payload := (data.drop ptr).take payloadLength.toNat }) := by
  have hin : 0 ≤ payloadLength ∧ ptr + payloadLength ≤ data.length := by omega
  rw [assignPayload, check_of hin, ok_bind]
  dsimp only
  rw [if_neg (not_not.mpr h)]
  rfl

theorem read_padding {data payload : Bytes} {ptr : ℕ} {pad : Padding}
    (h : data.drop ptr = payload ++ pad.bytes) :
    data.length = ptr + payload.length + pad.fill.length + 1 ∧
      read1 data (data.length - 1) = .ok (UInt8.ofNat (pad.fill.length + 1)) ∧
      (UInt8.ofNat (pad.fill.length + 1)).toNat = pad.fill.length + 1 := by
  have hlen := congrArg List.length h
  simp only [List.length_drop, List.length_append, Padding.bytes, List.length_singleton] at hlen
  have hlast : data.drop (ptr + (payload ++ pad.fill).length) =
      [UInt8.ofNat (pad.fill.length + 1)] := by
    rw [← List.drop_drop, h, Padding.bytes, ← List.append_assoc, List.drop_left]
  have hindex : data.length - 1 = ptr + (payload ++ pad.fill).length := by
    rw [List.length_append]
    omega
  refine ⟨by omega, ?_, ?_⟩
  · rw [read1_of (by omega), hindex, byte1_of_drop hlast]
  · have := pad.length_fill
    exact UInt8.toNat_ofNat_of_lt' (show _ < 256 by omega)

theorem exists_padding {data : Bytes} (h0 : (byte1 data (data.length - 1)).toNat ≠ 0)
    (hle : (byte1 data (data.length - 1)).toNat ≤ data.length) :
    ∃ pad : Padding, data.drop (data.length - (byte1 data (data.length - 1)).toNat) = pad.bytes := by
  generalize hk : (byte1 data (data.length - 1)).toNat = k at h0 hle
  have hlt := (byte1 data (data.length - 1)).toNat_lt
  have hlen : ((data.drop (data.length - k)).take (k - 1)).length = k - 1 := by
    rw [List.length_take, List.length_drop]
    omega
  have hlast : data.drop (data.length - 1) = [UInt8.ofNat (k - 1 + 1)] := by
    rw [drop_eq_byte1_cons (by omega), List.drop_eq_nil_of_le (by omega), Nat.sub_add_cancel (by omega),
      ← hk, UInt8.ofNat_toNat]
  refine ⟨⟨(data.drop (data.length - k)).take (k - 1), by omega⟩, ?_⟩
  simp only [Padding.bytes, hlen]
  rw [← hlast]
  conv_lhs => rw [← List.take_append_drop (k - 1) (data.drop (data.length - k)), List.drop_drop,
    show data.length - k + (k - 1) = data.length - 1 by omega]

theorem decodePayload_iff {this m : RtpPacket} {data : Bytes} {header : Header} {ptr : ℕ}
    (hptr : ptr ≤ data.length) :
    decodePayload this data header ptr ptr = .ok (0, m) ↔
      ∃ (payload : Bytes) (pad : Option Padding),
        data.drop ptr = payload ++ pad.elim [] Padding.bytes ∧
        (header.padding ≠ 0 ↔ pad.isSome) ∧ m = { this with payload := payload } := by
  unfold decodePayload
  dsimp only
  by_cases hpad : header.padding ≠ 0
  · rw [if_pos hpad]
    constructor
    · intro h
      split at h
      · cases h
      next hne =>
      rw [read1_of (by omega), ok_bind] at h
      split at h
      · cases h
      next hzero =>
      split at h
      · cases h
      next hfit =>
      rw [assignPayload_eq this (by omega) (by omega)] at h
      have hnonzero : (byte1 data (data.length - 1)).toNat ≠ 0 := fun h0 ↦ hzero (UInt8.toNat_inj.mp h0)
      obtain ⟨pad, hbytes⟩ := exists_padding hnonzero (by omega)
      refine ⟨_, some pad, ?_, by simp [hpad], (Prod.mk.inj (Except.ok.inj h)).2.symm⟩
      rw [Option.elim_some, ← hbytes]
      conv_lhs => rw [← List.take_append_drop
        ((data.length : ℤ) - ptr - (byte1 data (data.length - 1)).toNat).toNat (data.drop ptr),
        List.drop_drop]
      congr 2
      omega
    · rintro ⟨payload, pad, hdrop, hiff, rfl⟩
      obtain ⟨pad, rfl⟩ := Option.isSome_iff_exists.mp (hiff.mp hpad)
      obtain ⟨hlen, hread, hcount⟩ := read_padding hdrop
      have hne : UInt8.ofNat (pad.fill.length + 1) ≠ 0 := by
        intro h0
        rw [h0] at hcount
        exact absurd hcount (Nat.succ_ne_zero _).symm
      rw [if_neg (by omega), hread, ok_bind, if_neg hne, hcount, if_neg (by omega),
        assignPayload_eq this (by omega) (by omega), hdrop,
        List.take_left' (by omega)]
  · rw [if_neg hpad, assignPayload_eq this (by omega) (by simp)]
    have hall : (data.drop ptr).take ((data.length : ℤ) - ptr).toNat = data.drop ptr :=
      List.take_of_length_le (by rw [List.length_drop]; omega)
    rw [hall]
    constructor
    · intro h
      exact ⟨_, none, by rw [Option.elim_none, List.append_nil], by simp [hpad],
        (Prod.mk.inj (Except.ok.inj h)).2.symm⟩
    · rintro ⟨payload, pad, hdrop, hiff, rfl⟩
      cases pad with
      | none => rw [hdrop, Option.elim_none, List.append_nil]
      | some pad => exact absurd (hiff.mpr rfl) hpad

theorem decodePayload_total (this : RtpPacket) {data : Bytes} (header : Header) {ptr : ℕ}
    (hptr : ptr ≤ data.length) : ∃ r, decodePayload this data header ptr ptr = .ok r := by
  unfold decodePayload
  dsimp only
  split
  · split
    · exact ⟨_, rfl⟩
    rw [read1_of (by omega), ok_bind]
    split
    · exact ⟨_, rfl⟩
    split
    · exact ⟨_, rfl⟩
    · exact ⟨_, assignPayload_eq this (by omega) (by omega)⟩
  · exact ⟨_, assignPayload_eq this (by omega) (by simp)⟩

theorem length_extension {e : Extension} : e.bytes.length = 4 + e.words * 4 := by
  rw [Extension.bytes, List.length_append, List.length_append, net2_length, net2_length,
    e.length_value]

theorem words_toNat (e : Extension) : (UInt16.ofNat e.words).toNat = e.words :=
  UInt16.toNat_ofNat_of_lt' (show _ < 65536 by have := e.words_le; omega)

theorem read_extension {data rest : Bytes} {ptr : ℕ} {e : Extension}
    (h : data.drop ptr = e.bytes ++ rest) :
    ptr + (4 + e.words * 4) ≤ data.length ∧ data.drop (ptr + (4 + e.words * 4)) = rest ∧
      read2 data ptr = .ok e.profile ∧ read2 data (ptr + 2) = .ok (UInt16.ofNat e.words) := by
  have hlen := congrArg List.length h
  rw [List.length_drop, List.length_append, length_extension] at hlen
  have hvalue : data.drop (ptr + 2) = net2 (UInt16.ofNat e.words) ++ (e.value ++ rest) := by
    rw [← List.drop_drop, h, Extension.bytes, List.append_assoc, List.append_assoc]
    rfl
  rw [Extension.bytes, List.append_assoc, List.append_assoc] at h
  refine ⟨by omega, ?_, ?_, ?_⟩
  · rw [← Nat.add_assoc ptr, show ptr + 4 = ptr + 2 + 2 by rfl, ← List.drop_drop, ← List.drop_drop,
      hvalue, List.drop_left' (net2_length _), List.drop_left' e.length_value]
  · rw [read2_of (by omega), byte2_of_drop h]
  · rw [read2_of (by omega), byte2_of_drop hvalue]

theorem exists_extension {data : Bytes} {ptr : ℕ} (h4 : ptr + 4 ≤ data.length)
    (h : ptr + 4 + (byte2 data (ptr + 2)).toNat * 4 ≤ data.length) :
    ∃ e : Extension, data.drop ptr = e.bytes ++ data.drop (ptr + (4 + e.words * 4)) ∧
      e.words = (byte2 data (ptr + 2)).toNat ∧
      e.header = ⟨byte2 data ptr, byte2 data (ptr + 2)⟩ := by
  have hlt := (byte2 data (ptr + 2)).toNat_lt
  refine ⟨⟨byte2 data ptr, (byte2 data (ptr + 2)).toNat,
    (data.drop (ptr + 4)).take ((byte2 data (ptr + 2)).toNat * 4), by omega, ?_⟩, ?_, rfl, ?_⟩
  · rw [List.length_take, List.length_drop]
    omega
  · have hrest : data.drop (ptr + (4 + (byte2 data (ptr + 2)).toNat * 4)) =
        (data.drop (ptr + 4)).drop ((byte2 data (ptr + 2)).toNat * 4) := by
      rw [List.drop_drop, Nat.add_assoc]
    dsimp only [Extension.bytes]
    rw [UInt16.ofNat_toNat, List.append_assoc, List.append_assoc, hrest, List.take_append_drop,
      drop_eq_net2_append (i := ptr) (by omega),
      drop_eq_net2_append (i := ptr + 2) (by omega)]
  · rw [Extension.header, UInt16.ofNat_toNat]

theorem decodeExtension_iff {this m : RtpPacket} {data : Bytes} {header : Header}
    {ptr csrcListSize : ℕ} (hptr : ptr ≤ data.length) (hsize : kHeaderSize + csrcListSize = ptr) :
    decodeExtension this data header ptr csrcListSize = .ok (0, m) ↔
      ∃ (ext : Option Extension) (payload : Bytes) (pad : Option Padding),
        data.drop ptr = ext.elim [] Extension.bytes ++ (payload ++ pad.elim [] Padding.bytes) ∧
        (header.extension = 1 ↔ ext.isSome) ∧ (header.padding ≠ 0 ↔ pad.isSome) ∧
        m = { this with
          extension := ext.elim this.extension Extension.header
          payload := payload } := by
  unfold decodeExtension
  rw [hsize]
  by_cases hext : header.extension = 1
  · rw [if_pos hext]
    constructor
    · intro h
      split at h
      · cases h
      next h4 =>
      rw [read2_of (by omega), ok_bind] at h
      dsimp only at h
      split at h
      · cases h
      next hfit =>
      rw [read2_of (by omega), ok_bind] at h
      obtain ⟨e, hdrop, hwords, hheader⟩ := exists_extension (not_lt.mp h4) (not_lt.mp hfit)
      rw [← hwords, decodePayload_iff (by omega)] at h
      obtain ⟨payload, pad, hrest, hpad, rfl⟩ := h
      refine ⟨some e, payload, pad, ?_, by simp [hext], hpad, ?_⟩
      · rw [hdrop, hrest, Option.elim_some]
      · rw [Option.elim_some, hheader]
    · rintro ⟨ext, payload, pad, hdrop, hiff, hpad, rfl⟩
      obtain ⟨e, rfl⟩ := Option.isSome_iff_exists.mp (hiff.mp hext)
      obtain ⟨hlen, hrest, hprofile, hlength⟩ := read_extension hdrop
      rw [if_neg (by omega), hlength, ok_bind]
      dsimp only
      rw [words_toNat, if_neg (by omega), hprofile, ok_bind, decodePayload_iff hlen]
      exact ⟨payload, pad, hrest, hpad, rfl⟩
  · rw [if_neg hext, Nat.add_zero, decodePayload_iff hptr]
    constructor
    · rintro ⟨payload, pad, hdrop, hpad, rfl⟩
      exact ⟨none, payload, pad, hdrop, by simp [hext], hpad, rfl⟩
    · rintro ⟨ext, payload, pad, hdrop, hiff, hpad, rfl⟩
      cases ext with
      | none => exact ⟨payload, pad, hdrop, hpad, rfl⟩
      | some e => exact absurd (hiff.mpr rfl) hext

theorem decodeExtension_total (this : RtpPacket) {data : Bytes} (header : Header)
    {ptr csrcListSize : ℕ} (hptr : ptr ≤ data.length) (hsize : kHeaderSize + csrcListSize = ptr) :
    ∃ r, decodeExtension this data header ptr csrcListSize = .ok r := by
  unfold decodeExtension
  rw [hsize]
  split
  · split
    · exact ⟨_, rfl⟩
    rw [read2_of (by omega), ok_bind]
    dsimp only
    split
    · exact ⟨_, rfl⟩
    rw [read2_of (by omega), ok_bind]
    exact decodePayload_total _ header (by omega)
  · exact decodePayload_total this header hptr

end RtpPacket

end Baize.Rtp
