import Baize.Stun.Packet

namespace Baize.Stun.StunPacket

open Net Crypto

variable (self : StunPacket)

/-- The length of the XOR-MAPPED-ADDRESS attribute, `none` when it is not added. -/
def xorMappedAddressPaddedLen : Option UInt16 :=
  if self.xorMappedAddress.family ≠ 0 ∧ self.method = Method.binding ∧ self.klass = .successResponse then
    if self.xorMappedAddress.family = afInet then some 8
    else if self.xorMappedAddress.family = afInet6 then some 20
    else none
  else none

def addErrorCode : Bool := self.errorCode ≠ 0 && self.klass = .errorResponse

def addMessageIntegrity : Bool := self.klass ≠ .errorResponse && self.password ≠ []

def usernamePaddedLen : UInt16 :=
  if self.username ≠ [] then align4 (UInt16.ofNat self.username.length) else 0

def packSize : ℕ :=
  20 + (if self.username ≠ [] then 4 + self.usernamePaddedLen.toNat else 0) +
    (if self.priority ≠ 0 then 4 + 4 else 0) +
    (if self.iceControlling ≠ 0 then 4 + 8 else 0) +
    (if self.iceControlled ≠ 0 then 4 + 8 else 0) +
    (if self.hasUseCandidate then 4 else 0) +
    (self.xorMappedAddressPaddedLen.elim 0 fun len ↦ 4 + len.toNat) +
    (if self.addErrorCode then 4 + 4 else 0) +
    (if self.addMessageIntegrity then 4 + 20 else 0) + (4 + 4)

def typeField : UInt16 :=
  (self.method &&& (0x0f80 : UInt16)) <<< 2 ||| (self.method &&& (0x0070 : UInt16)) <<< 1 |||
    (self.method &&& (0x000f : UInt16)) ||| (self.klass.toUInt16 &&& (0x02 : UInt16)) <<< 7 |||
    (self.klass.toUInt16 &&& (0x01 : UInt16)) <<< 4

def packAttribute (ty : Attribute) (len : UInt16) (value : Bytes) : Bytes :=
  net2 ty.code ++ net2 len ++ value

def xorMappedAddressValue : Bytes :=
  let addr := self.xorMappedAddress
  let port := (net2 addr.port).zipWith (· ^^^ ·) magicCookie
  if addr.family = afInet then [0, 0x01] ++ port ++ (net4 addr.sinAddr).zipWith (· ^^^ ·) magicCookie
  else [0, 0x02] ++ port ++ addr.sin6Addr.zipWith (· ^^^ ·) (magicCookie ++ self.transactionId)

def errorCodeValue : Bytes :=
  let codeClass := (self.errorCode / 100).toUInt8
  net2 0 ++ [codeClass, UInt8.ofNat (self.errorCode.toNat - codeClass.toNat * 100)]

def packHead : Bytes :=
  net2 self.typeField ++ net2 (UInt16.ofNat (self.packSize - 20)) ++ magicCookie ++
    self.transactionId ++
    (if self.usernamePaddedLen ≠ 0 then
      packAttribute .username (UInt16.ofNat self.username.length) self.username else []) ++
    (if self.priority ≠ 0 then packAttribute .priority 4 (net4 self.priority) else []) ++
    (if self.iceControlling ≠ 0 then packAttribute .iceControlling 8 (net8 self.iceControlling) else []) ++
    (if self.iceControlled ≠ 0 then packAttribute .iceControlled 8 (net8 self.iceControlled) else []) ++
    (if self.hasUseCandidate then packAttribute .useCandidate 0 [] else []) ++
    (self.xorMappedAddressPaddedLen.elim [] fun len ↦
      packAttribute .xorMappedAddress len self.xorMappedAddressValue) ++
    (if self.addErrorCode then packAttribute .errorCode 4 self.errorCodeValue else [])

/-- `Pack` on a buffer whose readable bytes are `buf`. The length field is that of
the packet without FINGERPRINT while the HMAC is computed. -/
def pack (hmacSha1 : Bytes → Bytes → Bytes) (buf : Bytes) : Bytes × StunPacket :=
  let buf := buf ++ self.packHead
  let buf :=
    if self.addMessageIntegrity then
      let buf := setByte2 buf 2 (UInt16.ofNat (self.packSize - 20 - 8))
      let computedMessageIntegrity := hmacSha1 self.password buf
      setByte2 (buf ++ packAttribute .messageIntegrity 20 computedMessageIntegrity) 2
        (UInt16.ofNat (self.packSize - 20))
    else buf
  let computedFingerprint := crc32 buf ^^^ 0x5354554e
  (buf ++ packAttribute .fingerprint 4 (net4 computedFingerprint), { self with hasFingerprint := true })

end Baize.Stun.StunPacket
