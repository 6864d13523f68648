import Baize.Lib.Checked
import Baize.Util.Types

namespace Baize.Rtp

open Lib

structure Header where
  version : UInt8
  padding : UInt8
  extension : UInt8
  csrcCount : UInt8
  marker : UInt8
  payloadType : UInt8
  sequenceNumber : UInt16
  timestamp : UInt32
  ssrc : UInt32
  deriving DecidableEq, Repr

structure HeaderExtension where
  profile : UInt16
  length : UInt16
  deriving DecidableEq, Repr

structure RtpPacket where
  rtpHeader : Header
  csrcs : List UInt32
  extension : HeaderExtension
  payload : Bytes
  deriving DecidableEq, Repr

def RtpPacket.fresh : RtpPacket := ⟨⟨0, 0, 0, 0, 0, 0, 0, 0, 0⟩, [], ⟨0, 0⟩, []⟩

def kHeaderSize : ℕ := 12

def read1 (data : Bytes) (i : ℕ) : Checked UInt8 := do
  check (i < data.length) .outOfBounds
  pure (byte1 data i)

def read2 (data : Bytes) (i : ℕ) : Checked UInt16 := do
  check (i + 1 < data.length) .outOfBounds
  pure (byte2 data i)

def read4 (data : Bytes) (i : ℕ) : Checked UInt32 := do
  check (i + 3 < data.length) .outOfBounds
  pure (byte4 data i)

def versionBits (b : UInt8) : UInt8 := b >>> 6

def paddingBit (b : UInt8) : UInt8 := b >>> 5 &&& 1

def extensionBit (b : UInt8) : UInt8 := b >>> 4 &&& 1

def csrcCountBits (b : UInt8) : UInt8 := b &&& 0x0F

def markerBit (b : UInt8) : UInt8 := b >>> 7

def payloadTypeBits (b : UInt8) : UInt8 := b &&& 0x7F

def isRtp (packet : Bytes) : Checked Bool :=
  if kHeaderSize ≤ packet.length then do
    let b ← read1 packet 0
    pure ((b > 127 && b < 192) && versionBits b == 2)
  else pure false

def readHeader (data : Bytes) : Checked Header := do
  let b₀ ← read1 data 0
  let b₁ ← read1 data 1
  let sequenceNumber ← read2 data 2
  let timestamp ← read4 data 4
  let ssrc ← read4 data 8
  pure {
    version := versionBits b₀
    padding := paddingBit b₀
    extension := extensionBit b₀
    csrcCount := csrcCountBits b₀
    marker := markerBit b₁
    payloadType := payloadTypeBits b₁
    sequenceNumber := sequenceNumber
    timestamp := timestamp
    ssrc := ssrc }

def readCsrcs (data : Bytes) : ℕ → ℕ → List UInt32 → Checked (List UInt32)
  | 0, _, csrcs => pure csrcs
  | count + 1, offset, csrcs => do
    let csrc ← read4 data offset
    readCsrcs data count (offset + 4) (csrcs ++ [csrc])

namespace RtpPacket

def assignPayload (this : RtpPacket) (data : Bytes) (ptr size : ℕ) (payloadLength : ℤ)
    (payloadPadding : UInt8) : Checked (ℤ × RtpPacket) := do
  check (0 ≤ payloadLength ∧ ptr + payloadLength ≤ data.length) .outOfBounds
  let this := { this with payload := (data.drop ptr).take payloadLength.toNat }
  let packetLength : ℤ := size + payloadLength + payloadPadding.toNat
  if packetLength ≠ data.length then pure (-1, this) else pure (0, this)

/-- `Decode` from `// parse payload and padding` on. `size` is the part of
`packet_length` that has been parsed. -/
def decodePayload (this : RtpPacket) (data : Bytes) (header : Header) (ptr size : ℕ) :
    Checked (ℤ × RtpPacket) :=
  let payloadLength : ℤ := data.length - ptr
  if header.padding ≠ 0 then
    if payloadLength = 0 then pure (-1, this)
    else do
      let payloadPadding ← read1 data (data.length - 1)
      if payloadPadding = 0 then pure (-1, this)
      else if payloadLength < payloadPadding.toNat then pure (-1, this)
      else assignPayload this data ptr size (payloadLength - payloadPadding.toNat) payloadPadding
  else assignPayload this data ptr size payloadLength 0

def decodeExtension (this : RtpPacket) (data : Bytes) (header : Header) (ptr csrcListSize : ℕ) :
    Checked (ℤ × RtpPacket) :=
  if header.extension = 1 then
    if data.length < ptr + 4 then pure (-1, this)
    else do
      let length ← read2 data (ptr + 2)
      let extensionValueSize := length.toNat * 4
      if data.length < ptr + 4 + extensionValueSize then pure (-1, this)
      else
        let profile ← read2 data ptr
        let this := { this with extension := ⟨profile, length⟩ }
        decodePayload this data header (ptr + (4 + extensionValueSize))
          (kHeaderSize + csrcListSize + (4 + extensionValueSize))
  else decodePayload this data header ptr (kHeaderSize + csrcListSize + 0)

def decode (this : RtpPacket) (packet : Bytes) : Checked (ℤ × RtpPacket) := do
  let rtp ← isRtp packet
  if !rtp then pure (-1, this)
  else if packet.length < kHeaderSize then pure (-1, this)
  else
    let header ← readHeader packet
    let this := { this with rtpHeader := header }
    let ptr := kHeaderSize
    if header.csrcCount ≠ 0 then
      let csrcListSize := header.csrcCount.toNat * 4
      if packet.length < ptr + csrcListSize then pure (-1, this)
      else
        let csrcs ← readCsrcs packet header.csrcCount.toNat ptr this.csrcs
        let this := { this with csrcs := csrcs }
        decodeExtension this packet header (ptr + csrcListSize) csrcListSize
    else decodeExtension this packet header ptr 0

end RtpPacket

end Baize.Rtp
