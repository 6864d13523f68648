import Baize.Crypto.Crc32
import Baize.Net.InetAddress

namespace Baize.Stun

open Net Crypto

inductive Class
  | request
  | indication
  | successResponse
  | errorResponse
  deriving DecidableEq, Repr

def Class.toUInt16 : Class → UInt16
  | .request => 0
  | .indication => 1
  | .successResponse => 2
  | .errorResponse => 3

theorem Class.toUInt16_injective {a b : Class} (h : a.toUInt16.toNat = b.toUInt16.toNat) : a = b := by
  revert h
  cases a <;> cases b <;> decide

def Class.ofUInt16 (v : UInt16) : Class :=
  if v = 0 then .request else if v = 1 then .indication else if v = 2 then .successResponse
  else .errorResponse

namespace Method

def binding : UInt16 := 1

end Method

/-- The attribute types the code knows. `static_cast` admits every other value
too. -/
inductive Attribute
  | username
  | messageIntegrity
  | errorCode
  | xorMappedAddress
  | priority
  | useCandidate
  | fingerprint
  | iceControlled
  | iceControlling
  | nomination
  | other (code : UInt16)
  deriving DecidableEq, Repr

def Attribute.code : Attribute → UInt16
  | .username => 0x0006
  | .messageIntegrity => 0x0008
  | .errorCode => 0x0009
  | .xorMappedAddress => 0x0020
  | .priority => 0x0024
  | .useCandidate => 0x0025
  | .fingerprint => 0x8028
  | .iceControlled => 0x8029
  | .iceControlling => 0x802A
  | .nomination => 0xC001
  | .other code => code

def Attribute.known : List Attribute :=
  [.username, .messageIntegrity, .errorCode, .xorMappedAddress, .priority, .useCandidate, .fingerprint,
    .iceControlled, .iceControlling, .nomination]

def Attribute.ofCode (code : UInt16) : Attribute :=
  (Attribute.known.find? (·.code = code)).getD (.other code)

theorem Attribute.ofCode_code {a : Attribute} (h : a ∈ Attribute.known) : Attribute.ofCode a.code = a := by
  revert a
  decide

def magicCookie : Bytes := [0x21, 0x12, 0xA4, 0x42]

/-- `net::StunPacket`, less the copy of the whole packet that only `data()` reads. -/
structure StunPacket where
  klass : Class
  method : UInt16
  transactionId : Bytes
  username : Bytes
  priority : UInt32
  iceControlling : UInt64
  iceControlled : UInt64
  hasNomination : Bool
  nomination : UInt32
  hasUseCandidate : Bool
  messageIntegrity : Bytes
  hasFingerprint : Bool
  fingerprint : UInt32
  xorMappedAddress : InetAddress
  errorCode : UInt16
  password : Bytes
  deriving DecidableEq

namespace StunPacket

/-- A default-constructed packet. The constructor leaves class and method
uninitialised, so they are arguments here. -/
def fresh (klass : Class) (method : UInt16) : StunPacket where
  klass := klass
  method := method
  transactionId := []
  username := []
  priority := 0
  iceControlling := 0
  iceControlled := 0
  hasNomination := false
  nomination := 0
  hasUseCandidate := false
  messageIntegrity := []
  hasFingerprint := false
  fingerprint := 0
  xorMappedAddress := .zero
  errorCode := 0
  password := []

def hasMessageIntegrity (s : StunPacket) : Bool := !s.messageIntegrity.isEmpty

def isStun (p : Bytes) : Bool :=
  20 ≤ p.length && byte1 p 0 < 3 && byte1 p 4 == 0x21 && byte1 p 5 == 0x12 && byte1 p 6 == 0xA4 &&
    byte1 p 7 == 0x42

structure Scan where
  self : StunPacket
  pos : ℕ
  seenMessageIntegrity : Bool
  seenFingerprint : Bool
  fingerprintAttrPos : ℕ
  fingerprint : UInt32

def Scan.start (self : StunPacket) : Scan := ⟨self, 20, false, false, 0, 0⟩

def setAttribute (p : Bytes) (s : Scan) (attrType : Attribute) (attrLength : UInt16) : Option Scan :=
  let value := s.pos + 4
  match attrType with
  | .username =>
    some { s with self := { s.self with username := (p.drop value).take attrLength.toNat } }
  | .priority =>
    if attrLength ≠ 4 then none
    else some { s with self := { s.self with priority := byte4 p value } }
  | .iceControlling =>
    if attrLength ≠ 8 then none
    else some { s with self := { s.self with iceControlling := byte8 p value } }
  | .iceControlled =>
    if attrLength ≠ 8 then none
    else some { s with self := { s.self with iceControlled := byte8 p value } }
  | .useCandidate =>
    if attrLength ≠ 0 then none
    else some { s with self := { s.self with hasUseCandidate := true } }
  | .nomination =>
    if attrLength ≠ 4 then none
    else some { s with self := { s.self with hasNomination := true, nomination := byte4 p value } }
  | .messageIntegrity =>
    if attrLength ≠ 20 then none
    else some { s with
      self := { s.self with messageIntegrity := (p.drop value).take 20 }
      seenMessageIntegrity := true }
  | .fingerprint =>
    if attrLength ≠ 4 then none
    else some { s with
      self := { s.self with hasFingerprint := true, fingerprint := byte4 p value }
      seenFingerprint := true
      fingerprintAttrPos := s.pos
      fingerprint := byte4 p value }
  | .errorCode =>
    if attrLength < 4 then none
    else
      let errorClass := byte1 p (value + 2)
      let errorNumber := byte1 p (value + 3)
      some { s with
        self := { s.self with errorCode := errorClass.toUInt16 * 100 + errorNumber.toUInt16 } }
  | .xorMappedAddress | .other _ => some s

def parseAttribute (p : Bytes) (s : Scan) : Option Scan :=
  let attrType := Attribute.ofCode (byte2 p s.pos)
  let attrLength := byte2 p (s.pos + 2)
  if p.length < s.pos + 4 + attrLength.toNat then none
  else if s.seenFingerprint then none
  else if s.seenMessageIntegrity && attrType ≠ .fingerprint then none
  else
    (setAttribute p s attrType attrLength).map fun s' ↦
      { s' with pos := (align4 (UInt16.ofNat (s.pos + 4 + attrLength.toNat))).toNat }

/-- The attribute loop, for at most `fuel` turns: `none` means that it has not
ended by then, `some none` a `return -1` inside it. -/
def parseLoop (p : Bytes) : ℕ → Scan → Option (Option Scan)
  | 0, _ => none
  | fuel + 1, s =>
    if s.pos + 4 ≤ p.length then
      match parseAttribute p s with
      | none => some none
      | some s' => parseLoop p fuel s'
    else some (some s)

def methodOf (msgType : UInt16) : UInt16 :=
  (msgType &&& (0x000f : UInt16)) ||| (msgType &&& 0x00e0) >>> 1 ||| (msgType &&& 0x3E00) >>> 2

def classOf (p : Bytes) : Class :=
  .ofUInt16 (((byte1 p 0).toUInt16 &&& 0x01) <<< 1 ||| ((byte1 p 1).toUInt16 &&& 0x10) >>> 4)

def readHeader (self : StunPacket) (p : Bytes) : StunPacket :=
  { self with method := methodOf (byte2 p 0), klass := classOf p, transactionId := (p.drop 8).take 12 }

def finish (p : Bytes) (s : Scan) : Option StunPacket :=
  if s.pos ≠ p.length then none
  else if s.seenFingerprint && s.fingerprint ≠ crc32 (p.take s.fingerprintAttrPos) ^^^ 0x5354554e then
    none
  else some s.self

/-- `Parse`: `some (some s)` when it returns 0 with the packet in state `s`,
`some none` when it returns -1. -/
def parse (fuel : ℕ) (self : StunPacket) (p : Bytes) : Option (Option StunPacket) :=
  if !isStun p then some none
  else
    let msgLength := byte2 p 2
    if (msgLength.toNat : ℤ) ≠ p.length - 20 ∨ (msgLength &&& (0x03 : UInt16)) ≠ 0 then some none
    else (parseLoop p fuel (.start (self.readHeader p))).map fun r ↦ r.bind (finish p)

end StunPacket

end Baize.Stun
