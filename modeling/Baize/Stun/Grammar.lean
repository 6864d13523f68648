import Baize.Lib.Framing
import Baize.Stun.Packet

namespace Baize.Stun

open Lib Crypto

def attributes : Format UInt8 where
  header := 4
  size t := 4 + ((byte2 t 2).toNat + 3) / 4 * 4
  header_pos := word_pos
  header_le _ := Nat.le_add_right _ _
  size_append p q h := by rw [byte2_append h]

def attrType (t : Bytes) : Attribute := .ofCode (byte2 t 0)

def attrLength (t : Bytes) : UInt16 := byte2 t 2

def attrValue (t : Bytes) : Bytes := (t.drop 4).take (attrLength t).toNat

def lengthOk : Attribute → UInt16 → Bool
  | .priority, n | .nomination, n | .fingerprint, n => n = 4
  | .iceControlling, n | .iceControlled, n => n = 8
  | .useCandidate, n => n = 0
  | .messageIntegrity, n => n = 20
  | .errorCode, n => 4 ≤ n
  | .username, _ | .xorMappedAddress, _ | .other _, _ => true

/-- Nothing follows FINGERPRINT, and only FINGERPRINT follows MESSAGE-INTEGRITY. -/
def MayFollow (a b : Bytes) : Prop :=
  attrType a ≠ .fingerprint ∧
    (attrType a = .messageIntegrity → attrType b = .fingerprint)

def FingerprintOk (p : Bytes) (attrs : List Bytes) : Prop :=
  ∀ pre t post, attrs = pre ++ t :: post → attrType t = .fingerprint →
    byte4 (attrValue t) 0 = crc32 (p.take (20 + pre.flatten.length)) ^^^ 0x5354554e

/-- The byte strings that `Parse` is meant to accept, with their attributes. -/
structure Grammar (p : Bytes) (attrs : List Bytes) : Prop where
  header : 20 ≤ p.length
  first : byte1 p 0 < 3
  cookie : (p.drop 4).take 4 = magicCookie
  length : (byte2 p 2).toNat = p.length - 20
  length_mod : (byte2 p 2).toNat % 4 = 0
  tiling : p.drop 20 = attrs.flatten
  frames : ∀ t ∈ attrs, attributes.Frame t
  lengths : ∀ t ∈ attrs, lengthOk (attrType t) (attrLength t)
  order : attrs.Pairwise MayFollow
  fingerprint : FingerprintOk p attrs

def lastValue (attrs : List Bytes) (ty : Attribute) : Option Bytes :=
  (attrs.filter (attrType · = ty)).getLast?.map attrValue

structure Getters (p : Bytes) (attrs : List Bytes) (s : StunPacket) : Prop where
  klass : s.klass.toUInt16.toNat = (byte2 p 0).toNat / 256 % 2 * 2 + (byte2 p 0).toNat / 16 % 2
  method : s.method.toNat = (byte2 p 0).toNat / 512 % 32 * 128 + (byte2 p 0).toNat / 32 % 8 * 16 +
    (byte2 p 0).toNat % 16
  transactionId : s.transactionId = (p.drop 8).take 12
  username : s.username = (lastValue attrs .username).getD []
  priority : s.priority = (lastValue attrs .priority).elim 0 (byte4 · 0)
  iceControlling : s.iceControlling = (lastValue attrs .iceControlling).elim 0 (byte8 · 0)
  iceControlled : s.iceControlled = (lastValue attrs .iceControlled).elim 0 (byte8 · 0)
  hasUseCandidate : s.hasUseCandidate = (lastValue attrs .useCandidate).isSome
  hasNomination : s.hasNomination = (lastValue attrs .nomination).isSome
  nomination : s.nomination = (lastValue attrs .nomination).elim 0 (byte4 · 0)
  errorCode : s.errorCode.toNat = (lastValue attrs .errorCode).elim 0
    fun v ↦ (byte1 v 2).toNat * 100 + (byte1 v 3).toNat
  messageIntegrity : s.messageIntegrity = (lastValue attrs .messageIntegrity).getD []
  hasFingerprint : s.hasFingerprint = (lastValue attrs .fingerprint).isSome

namespace StunPacket

def store (self : StunPacket) (t : Bytes) : StunPacket :=
  let v := attrValue t
  match attrType t with
  | .username => { self with username := v }
  | .priority => { self with priority := byte4 v 0 }
  | .iceControlling => { self with iceControlling := byte8 v 0 }
  | .iceControlled => { self with iceControlled := byte8 v 0 }
  | .useCandidate => { self with hasUseCandidate := true }
  | .nomination => { self with hasNomination := true, nomination := byte4 v 0 }
  | .messageIntegrity => { self with messageIntegrity := v }
  | .fingerprint => { self with hasFingerprint := true, fingerprint := byte4 v 0 }
  | .errorCode => { self with errorCode := (byte1 v 2).toUInt16 * 100 + (byte1 v 3).toUInt16 }
  | .xorMappedAddress | .other _ => self

def Scan.next (s : Scan) (t : Bytes) : Scan where
  self := s.self.store t
  pos := s.pos + t.length
  seenMessageIntegrity := s.seenMessageIntegrity || attrType t = .messageIntegrity
  seenFingerprint := s.seenFingerprint || attrType t = .fingerprint
  fingerprintAttrPos := if attrType t = .fingerprint then s.pos else s.fingerprintAttrPos
  fingerprint := if attrType t = .fingerprint then byte4 (attrValue t) 0 else s.fingerprint

def Scan.allows (s : Scan) (t : Bytes) : Bool :=
  !s.seenFingerprint && (!s.seenMessageIntegrity || attrType t = .fingerprint) &&
    lengthOk (attrType t) (attrLength t)

end StunPacket

end Baize.Stun
