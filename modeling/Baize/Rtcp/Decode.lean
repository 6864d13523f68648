import Baize.Rtcp.Packet
import Baize.Rtp.Packet
import Baize.Util.Reads

namespace Baize.Rtcp

open Lib
open Rtp (read1 read2 read4)

structure CommonHeader where
  version : UInt8
  padding : UInt8
  count : UInt8
  type : UInt8
  length : UInt16
  deriving DecidableEq, Repr

def CommonHeader.fresh : CommonHeader := ⟨0, 0, 0, 0, 0⟩

def readCommonHeader (data : Bytes) : Checked CommonHeader := do
  let memory ← readSpan data 0 commonHeaderSize
  pure ⟨version memory, byte1 memory 0 >>> 5 &&& 1, count memory, type memory, byte2 memory 2⟩

def feedbackHeaderSize : ℕ := 8

structure FeedbackHeader where
  senderSsrc : UInt32
  mediaSsrc : UInt32
  deriving DecidableEq, Repr

structure PliPsFb where
  commHeader : CommonHeader
  fbHeader : FeedbackHeader
  deriving DecidableEq, Repr

def PliPsFb.fresh : PliPsFb := ⟨.fresh, ⟨0, 0⟩⟩

def PliPsFb.decode (this : PliPsFb) (packet : Bytes) : Checked (ℤ × PliPsFb) :=
  if packet.length ≠ commonHeaderSize + feedbackHeaderSize then pure (-1, this)
  else do
    let commHeader ← readCommonHeader packet
    let memory ← readSpan packet commonHeaderSize feedbackHeaderSize
    pure (0, ⟨commHeader, ⟨networkToHost32 (load4 memory 0), networkToHost32 (load4 memory 4)⟩⟩)

def kReportSize : ℕ := 24

/-- `RtcpReport::Report`: `fraction_lost` and `total_lost` share a 32-bit unit, of
which a little-endian host gives `fraction_lost` the low byte. -/
structure Report where
  ssrc : UInt32
  fractionLost : UInt8
  totalLost : BitVec 24
  lastSeq : UInt32
  jitter : UInt32
  lsr : UInt32
  dlsr : UInt32
  deriving DecidableEq, Repr

namespace Report

def lostUnit (item : Report) : UInt32 :=
  item.fractionLost.toUInt32 ||| UInt32.ofNat item.totalLost.toNat <<< 8

def memory (item : Report) : Bytes :=
  memory4 item.ssrc ++ memory4 item.lostUnit ++ memory4 item.lastSeq ++ memory4 item.jitter ++
    memory4 item.lsr ++ memory4 item.dlsr

def ofMemory (m : Bytes) : Report where
  ssrc := load4 m 0
  fractionLost := (load4 m 4).toUInt8
  totalLost := BitVec.ofNat 24 (load4 m 4 >>> 8).toNat
  lastSeq := load4 m 8
  jitter := load4 m 12
  lsr := load4 m 16
  dlsr := load4 m 20

def toHost (item : Report) : Report :=
  { item with
    ssrc := networkToHost32 item.ssrc
    lastSeq := networkToHost32 item.lastSeq
    jitter := networkToHost32 item.jitter
    lsr := networkToHost32 item.lsr
    dlsr := networkToHost32 item.dlsr }

end Report

def readReport (data : Bytes) (offset : ℕ) : Checked Report := do
  let memory ← readSpan data offset kReportSize
  let item := (Report.ofMemory memory).toHost
  pure { item with totalLost := BitVec.ofNat 24 (byte3 item.memory 5).toNat }

def readReports (data : Bytes) : ℕ → ℕ → List Report → Checked (List Report)
  | 0, _, reports => pure reports
  | count + 1, offset, reports =>
    if data.length ≤ offset then pure reports
    else if data.length - offset < kReportSize then pure reports
    else do
      let item ← readReport data offset
      readReports data count (offset + kReportSize) (reports ++ [item])

structure RrPacket where
  commHeader : CommonHeader
  senderSsrc : UInt32
  reports : List Report
  deriving DecidableEq, Repr

def RrPacket.fresh : RrPacket := ⟨.fresh, 0, []⟩

def RrPacket.decode (this : RrPacket) (packet : Bytes) : Checked (ℤ × RrPacket) :=
  if packet.length < commonHeaderSize + 4 then pure (-1, this)
  else do
    let commHeader ← readCommonHeader packet
    let senderSsrc ← read4 packet commonHeaderSize
    let reports ← readReports packet commHeader.count.toNat (commonHeaderSize + 4) this.reports
    pure (0, ⟨commHeader, senderSsrc, reports⟩)

def kSendInfoSize : ℕ := 24

structure SendInfo where
  ssrc : UInt32
  ntpSec : UInt32
  ntpFrac : UInt32
  rtpTs : UInt32
  packetCount : UInt32
  octetCount : UInt32
  deriving DecidableEq, Repr

def SendInfo.fresh : SendInfo := ⟨0, 0, 0, 0, 0, 0⟩

def SendInfo.ofMemory (m : Bytes) : SendInfo :=
  ⟨load4 m 0, load4 m 4, load4 m 8, load4 m 12, load4 m 16, load4 m 20⟩

def SendInfo.toHost (info : SendInfo) : SendInfo :=
  ⟨networkToHost32 info.ssrc, networkToHost32 info.ntpSec, networkToHost32 info.ntpFrac,
    networkToHost32 info.rtpTs, networkToHost32 info.packetCount, networkToHost32 info.octetCount⟩

structure SrPacket where
  commHeader : CommonHeader
  sendInfo : SendInfo
  reports : List Report
  deriving DecidableEq, Repr

def SrPacket.fresh : SrPacket := ⟨.fresh, .fresh, []⟩

def SrPacket.decode (this : SrPacket) (packet : Bytes) : Checked (ℤ × SrPacket) :=
  if packet.length < commonHeaderSize + kSendInfoSize then pure (-1, this)
  else do
    let commHeader ← readCommonHeader packet
    let memory ← readSpan packet commonHeaderSize kSendInfoSize
    let reports ← readReports packet commHeader.count.toNat (commonHeaderSize + kSendInfoSize) this.reports
    pure (0, ⟨commHeader, (SendInfo.ofMemory memory).toHost, reports⟩)

structure Item where
  type : UInt8
  length : UInt8
  value : Bytes
  deriving DecidableEq, Repr

def Item.size (item : Item) : ℕ := 2 + item.length.toNat

structure Chunk where
  ssrc : UInt32
  items : List Item
  deriving DecidableEq, Repr

def Chunk.size (chunk : Chunk) : ℕ := 4 + (chunk.items.map Item.size).sum

structure SdesPacket where
  commHeader : CommonHeader
  chunks : List Chunk
  deriving DecidableEq, Repr

def SdesPacket.fresh : SdesPacket := ⟨.fresh, []⟩

/-- `value.assign(reinterpret_cast<char*>(offset + 2), length)`: the number
`offset + 2` is taken for the address, so not one byte comes from the packet. -/
def assignValue (length : UInt8) : Checked Bytes := do
  check (length = 0) .outOfBounds
  pure []

/-- The loop of `DecodeItem`. The value is assigned before the type is looked at. -/
def decodeItems (data : Bytes) (offset : ℕ) (items : List Item) : Checked (List Item) :=
  if data.length ≤ offset then pure items
  else if data.length - offset < 2 then pure items
  else do
    let left ← read1 data 1
    if data.length - offset < 2 + left.toNat then pure items
    else
      let type ← read1 data offset
      let length ← read1 data (offset + 1)
      let value ← assignValue length
      if type = 0 then pure items
      else decodeItems data (offset + (2 + length.toNat)) (items ++ [⟨type, length, value⟩])
termination_by data.length - offset

def decodeItem (packet : Bytes) : Checked (List Item) := decodeItems packet 0 []

def decodeChunks (data : Bytes) : ℕ → ℕ → List Chunk → Checked (List Chunk)
  | 0, _, chunks => pure chunks
  | count + 1, offset, chunks =>
    if data.length ≤ offset then pure chunks
    else if data.length - offset < 4 then pure chunks
    else do
      let ssrc ← read4 data offset
      let items ← decodeItem (data.drop offset)
      let chunk : Chunk := ⟨ssrc, items⟩
      decodeChunks data count (offset + chunk.size) (chunks ++ [chunk])

def SdesPacket.decode (this : SdesPacket) (packet : Bytes) : Checked (ℤ × SdesPacket) :=
  if packet.length < commonHeaderSize then pure (-1, this)
  else do
    let commHeader ← readCommonHeader packet
    let chunks ← decodeChunks packet commHeader.count.toNat commonHeaderSize this.chunks
    pure (0, ⟨commHeader, chunks⟩)

end Baize.Rtcp
