import Baize.Rtcp.Decode
import Baize.Rtp.Datagram

namespace Baize.Rtcp

open Lib
open Rtp (read4 read4_of)

def bigEndian (bytes : Bytes) : ℕ := bytes.foldl (fun n b ↦ n * 256 + b.toNat) 0

def field (p : Bytes) (i n : ℕ) : ℕ := bigEndian ((p.drop i).take n)

/-- The members of a report are the fields of the block at `p + i`. -/
structure Report.Agrees (item : Report) (p : Bytes) (i : ℕ) : Prop where
  ssrc : item.ssrc.toNat = field p i 4
  fractionLost : item.fractionLost.toNat = field p (i + 4) 1
  totalLost : item.totalLost.toNat = field p (i + 5) 3
  lastSeq : item.lastSeq.toNat = field p (i + 8) 4
  jitter : item.jitter.toNat = field p (i + 12) 4
  lsr : item.lsr.toNat = field p (i + 16) 4
  dlsr : item.dlsr.toNat = field p (i + 20) 4

structure ReportsAgree (p : Bytes) (base : ℕ) (reports : List Report) : Prop where
  length : reports.length = min ((byte1 p 0).toNat % 32) ((p.length - base) / 24)
  agrees : ∀ (k : ℕ) (item : Report), reports[k]? = some item → item.Agrees p (base + 24 * k)

structure SendInfo.Agrees (info : SendInfo) (p : Bytes) : Prop where
  ssrc : info.ssrc.toNat = field p 4 4
  ntpSec : info.ntpSec.toNat = field p 8 4
  ntpFrac : info.ntpFrac.toNat = field p 12 4
  rtpTs : info.rtpTs.toNat = field p 16 4
  packetCount : info.packetCount.toNat = field p 20 4
  octetCount : info.octetCount.toNat = field p 24 4

section Fields

variable {p : Bytes} {i : ℕ}

theorem byte1_toNat_eq_field (h : i < p.length) : (byte1 p i).toNat = field p i 1 := by
  rw [field, drop_eq_byte1_cons h]
  simp [bigEndian]

theorem byte3_toNat_eq_field (h : i + 2 < p.length) : (byte3 p i).toNat = field p i 3 := by
  rw [field, byte3_toNat, drop_eq_byte1_cons (by omega), drop_eq_byte1_cons (i := i + 1) (by omega),
    drop_eq_byte1_cons h]
  simp [bigEndian]
  omega

theorem byte4_toNat_eq_field (h : i + 3 < p.length) : (byte4 p i).toNat = field p i 4 := by
  rw [field, byte4_toNat, drop_eq_byte1_cons (by omega), drop_eq_byte1_cons (i := i + 1) (by omega),
    drop_eq_byte1_cons (i := i + 2) (by omega), drop_eq_byte1_cons h]
  simp [bigEndian]
  omega

end Fields

def headerOf (p : Bytes) : CommonHeader :=
  ⟨version p, byte1 p 0 >>> 5 &&& 1, count p, type p, byte2 p 2⟩

theorem readCommonHeader_of {p : Bytes} (h : 4 ≤ p.length) : readCommonHeader p = .ok (headerOf p) := by
  rw [readCommonHeader, readSpan_of (by rw [commonHeaderSize]; omega), ok_bind, pure_eq_ok]
  simp only [headerOf, version, count, type, byte2, commonHeaderSize, Nat.reduceAdd,
    byte1_span (show 0 < 4 by decide), byte1_span (show 1 < 4 by decide),
    byte1_span (show 2 < 4 by decide), byte1_span (show 3 < 4 by decide), Nat.zero_add]

theorem count_toNat (p : Bytes) : (count p).toNat = (byte1 p 0).toNat % 32 := by
  rw [count, UInt8.toNat_and, show (0x1F : UInt8).toNat = 2 ^ 5 - 1 from rfl,
    Nat.and_two_pow_sub_one_eq_mod]

theorem load4_toNat (p : Bytes) (i : ℕ) :
    (load4 p i).toNat = (byte1 p (i + 3)).toNat * 16777216 + (byte1 p (i + 2)).toNat * 65536 +
      (byte1 p (i + 1)).toNat * 256 + (byte1 p i).toNat := byte4_toNat _ 0

theorem lostUnit_ofMemory (m : Bytes) : (Report.ofMemory m).lostUnit = load4 m 4 := by
  have hv := (load4 m 4).toNat_lt
  have hlow : (Report.ofMemory m).fractionLost.toNat = (load4 m 4).toNat % 256 := UInt32.toNat_toUInt8 _
  have hhigh : (Report.ofMemory m).totalLost.toNat = (load4 m 4).toNat / 256 := by
    rw [Report.ofMemory, BitVec.toNat_ofNat, UInt32.toNat_shiftRight, Nat.shiftRight_eq_div_pow,
      show (8 : UInt32).toNat % 32 = 8 from rfl]
    omega
  have hwide : (UInt32.ofNat ((load4 m 4).toNat / 256)).toNat = (load4 m 4).toNat / 256 :=
    UInt32.toNat_ofNat_of_lt' (by rw [UInt32.size]; omega)
  apply UInt32.toNat_inj.mp
  rw [Report.lostUnit, UInt32.toNat_or, UInt32.toNat_shiftLeft, UInt8.toNat_toUInt32, hlow, hhigh, hwide,
    show (8 : UInt32).toNat % 32 = 8 from rfl,
    Nat.mod_eq_of_lt (a := _ <<< 8) (by rw [Nat.shiftLeft_eq]; omega), or_shiftLeft (by omega)]
  omega

theorem Report.toHost_lostUnit (item : Report) : item.toHost.lostUnit = item.lostUnit := rfl

def reportAt (p : Bytes) (i : ℕ) : Report where
  ssrc := byte4 p i
  fractionLost := byte1 p (i + 4)
  totalLost := BitVec.ofNat 24 (byte3 p (i + 5)).toNat
  lastSeq := byte4 p (i + 8)
  jitter := byte4 p (i + 12)
  lsr := byte4 p (i + 16)
  dlsr := byte4 p (i + 20)

theorem reportAt_agrees {p : Bytes} {i : ℕ} (h : i + 24 ≤ p.length) : (reportAt p i).Agrees p i where
  ssrc := byte4_toNat_eq_field (by omega)
  fractionLost := byte1_toNat_eq_field (by omega)
  totalLost := by
    have hlt : (byte3 p (i + 5)).toNat < 2 ^ 24 := by
      have h₀ := (byte1 p (i + 5)).toNat_lt
      have h₁ := (byte1 p (i + 5 + 1)).toNat_lt
      have h₂ := (byte1 p (i + 5 + 2)).toNat_lt
      rw [byte3_toNat]
      omega
    rw [reportAt, BitVec.toNat_ofNat, Nat.mod_eq_of_lt hlt, byte3_toNat_eq_field (by omega)]
  lastSeq := byte4_toNat_eq_field (by omega)
  jitter := byte4_toNat_eq_field (by omega)
  lsr := byte4_toNat_eq_field (by omega)
  dlsr := byte4_toNat_eq_field (by omega)

theorem byte3_memory {item : Report} {m : Bytes} (h : item.lostUnit = load4 m 4) :
    byte3 item.memory 5 = byte3 m 5 := by
  have hdrop : item.memory.drop 4 = memory4 item.lostUnit ++ (memory4 item.lastSeq ++
      memory4 item.jitter ++ memory4 item.lsr ++ memory4 item.dlsr) := by
    simp only [Report.memory, List.append_assoc]
    exact List.drop_left' (memory4_length item.ssrc)
  rw [← byte3_drop item.memory 4 1, hdrop, h, memory4_load4]
  rfl

theorem readReport_of {data : Bytes} {offset : ℕ} (h : offset + 24 ≤ data.length) :
    readReport data offset = .ok (reportAt data offset) := by
  have hunit : (Report.ofMemory ((data.drop offset).take 24)).toHost.lostUnit =
      load4 ((data.drop offset).take 24) 4 := by
    rw [Report.toHost_lostUnit, lostUnit_ofMemory]
  have hfraction : (load4 data (offset + 4)).toUInt8 = byte1 data (offset + 4) := by
    apply UInt8.toNat_inj.mp
    have := (byte1 data (offset + 4)).toNat_lt
    rw [UInt32.toNat_toUInt8, load4_toNat]
    omega
  have htotal : byte3 ((data.drop offset).take 24) 5 = byte3 data (offset + 5) := by
    simp only [byte3, byte1_span (show 5 < 24 by decide), byte1_span (show 6 < 24 by decide),
      byte1_span (show 7 < 24 by decide), Nat.add_assoc, Nat.reduceAdd]
  rw [readReport, kReportSize, readSpan_of h, ok_bind, pure_eq_ok, byte3_memory hunit, htotal]
  simp only [Report.toHost, Report.ofMemory, load4_span (show 0 + 3 < 24 by decide),
    load4_span (show 4 + 3 < 24 by decide), load4_span (show 8 + 3 < 24 by decide),
    load4_span (show 12 + 3 < 24 by decide), load4_span (show 16 + 3 < 24 by decide),
    load4_span (show 20 + 3 < 24 by decide), networkToHost32_load4, hfraction]
  rfl

theorem readReports_eq (data : Bytes) (count offset : ℕ) (reports : List Report) :
    readReports data count offset reports =
      .ok (reports ++ (List.range (min count ((data.length - offset) / 24))).map
        fun k ↦ reportAt data (offset + 24 * k)) := by
  induction count generalizing offset reports with
  | zero => simp [readReports]
  | succ count ih =>
    rw [readReports, kReportSize]
    by_cases hshort : data.length - offset < 24
    · have hnone : (data.length - offset) / 24 = 0 := Nat.div_eq_of_lt hshort
      rw [if_pos hshort, ite_self, hnone, Nat.min_zero]
      simp
    · have hmin : min (count + 1) ((data.length - offset) / 24) =
          min count ((data.length - (offset + 24)) / 24) + 1 := by omega
      rw [if_neg (by omega), if_neg hshort, readReport_of (by omega), ok_bind, ih, hmin,
        List.range_succ_eq_map, List.map_cons, List.map_map, List.append_assoc, List.singleton_append]
      congr 3
      apply List.map_congr_left
      intro k _
      congr 1
      omega

theorem reportsAgree (p : Bytes) (base : ℕ) :
    ReportsAgree p base ((List.range (min (count p).toNat ((p.length - base) / 24))).map
      fun k ↦ reportAt p (base + 24 * k)) where
  length := by rw [List.length_map, List.length_range, count_toNat]
  agrees k item hitem := by
    rw [List.getElem?_map, Option.map_eq_some_iff] at hitem
    obtain ⟨k', hk', rfl⟩ := hitem
    obtain ⟨hlt, rfl⟩ := List.getElem?_eq_some_iff.mp hk'
    rw [List.length_range] at hlt
    rw [List.getElem_range]
    apply reportAt_agrees
    omega

theorem RrPacket.decode_eq (this : RrPacket) {p : Bytes} (h : 8 ≤ p.length) :
    this.decode p = .ok (0, ⟨headerOf p, byte4 p 4, this.reports ++
      (List.range (min (count p).toNat ((p.length - 8) / 24))).map fun k ↦ reportAt p (8 + 24 * k)⟩) := by
  rw [decode, if_neg (by rw [commonHeaderSize]; omega), readCommonHeader_of (by omega), ok_bind,
    commonHeaderSize, read4_of (by omega), ok_bind, readReports_eq, ok_bind]
  rfl

theorem SrPacket.decode_eq (this : SrPacket) {p : Bytes} (h : 28 ≤ p.length) :
    this.decode p = .ok (0, ⟨headerOf p,
      ⟨byte4 p 4, byte4 p 8, byte4 p 12, byte4 p 16, byte4 p 20, byte4 p 24⟩, this.reports ++
      (List.range (min (count p).toNat ((p.length - 28) / 24))).map fun k ↦ reportAt p (28 + 24 * k)⟩) := by
  rw [decode, if_neg (by rw [commonHeaderSize, kSendInfoSize]; omega), readCommonHeader_of (by omega),
    ok_bind, commonHeaderSize, kSendInfoSize, readSpan_of (by omega), ok_bind, readReports_eq, ok_bind]
  simp only [SendInfo.toHost, SendInfo.ofMemory, load4_span (show 0 + 3 < 24 by decide),
    load4_span (show 4 + 3 < 24 by decide), load4_span (show 8 + 3 < 24 by decide),
    load4_span (show 12 + 3 < 24 by decide), load4_span (show 16 + 3 < 24 by decide),
    load4_span (show 20 + 3 < 24 by decide), networkToHost32_load4]
  rfl

/-- Both decoders agree with the big-endian reading of the packet. -/
theorem decode_reports_reference (p : Bytes) :
    (p.length < 8 → RrPacket.fresh.decode p = .ok (-1, .fresh)) ∧
    (8 ≤ p.length → ∃ rr, RrPacket.fresh.decode p = .ok (0, rr) ∧
      rr.senderSsrc.toNat = field p 4 4 ∧ ReportsAgree p 8 rr.reports) ∧
    (p.length < 28 → SrPacket.fresh.decode p = .ok (-1, .fresh)) ∧
    (28 ≤ p.length → ∃ sr, SrPacket.fresh.decode p = .ok (0, sr) ∧
      sr.sendInfo.Agrees p ∧ ReportsAgree p 28 sr.reports) := by
  refine ⟨fun h ↦ ?_, fun h ↦ ?_, fun h ↦ ?_, fun h ↦ ?_⟩
  · rw [RrPacket.decode, if_pos (show p.length < commonHeaderSize + 4 from h)]
    rfl
  · refine ⟨_, RrPacket.decode_eq _ h, byte4_toNat_eq_field (by omega), ?_⟩
    exact reportsAgree p 8
  · rw [SrPacket.decode, if_pos (show p.length < commonHeaderSize + kSendInfoSize from h)]
    rfl
  · refine ⟨_, SrPacket.decode_eq _ h, ?_, reportsAgree p 28⟩
    constructor <;> exact byte4_toNat_eq_field (by omega)

end Baize.Rtcp
