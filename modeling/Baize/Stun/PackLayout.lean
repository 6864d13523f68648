import Baize.Stun.Acceptance
import Baize.Stun.Pack

namespace Baize.Stun.StunPacket

open Lib Net Crypto

section Attribute

variable {ty : Attribute} {len : UInt16} {value : Bytes}

theorem attrLength_packAttribute : attrLength (packAttribute ty len value) = len :=
  byte2_of_drop (q := value) (by rw [packAttribute, List.append_assoc]; rfl)

theorem attrType_packAttribute (hty : ty ∈ Attribute.known) :
    attrType (packAttribute ty len value) = ty := by
  have hcode : byte2 (packAttribute ty len value) 0 = ty.code :=
    byte2_of_drop (q := net2 len ++ value) (by rw [packAttribute, List.append_assoc]; rfl)
  rw [attrType, hcode, Attribute.ofCode_code hty]

theorem attrValue_packAttribute (hlen : len.toNat = value.length) :
    attrValue (packAttribute ty len value) = value := by
  rw [attrValue, attrLength_packAttribute, hlen]
  exact List.take_length

theorem frame_packAttribute (hlen : len.toNat = value.length) (hmod : value.length % 4 = 0) :
    attributes.Frame (packAttribute ty len value) := by
  rw [Format.Frame, attributes_size, attrLength_packAttribute, packAttribute]
  simp only [List.length_append, net2_length]
  omega

end Attribute

structure Part where
  add : Bool
  ty : Attribute
  len : UInt16
  value : Bytes

namespace Part

def attrs (a : Part) : List Bytes := if a.add then [packAttribute a.ty a.len a.value] else []

theorem attrs_of_add {a : Part} (h : a.add = true) : a.attrs = [packAttribute a.ty a.len a.value] :=
  if_pos h

theorem attrs_of_not_add {a : Part} (h : ¬a.add = true) : a.attrs = [] := if_neg h

def size (a : Part) : ℕ := if a.add then 4 + a.value.length else 0

theorem length_flatten_attrs (a : Part) : a.attrs.flatten.length = a.size := by
  unfold attrs size
  split
  · simp only [packAttribute, List.flatten_cons, List.flatten_nil, List.length_append, net2_length,
      List.length_nil]
    omega
  · rfl

structure Ok (a : Part) : Prop where
  known : a.ty ∈ Attribute.known
  length : a.len.toNat = a.value.length
  padded : a.value.length % 4 = 0
  lengthOk : lengthOk a.ty a.len

theorem of_mem_attrs {a : Part} {t : Bytes} (ht : t ∈ a.attrs) :
    a.add = true ∧ t = packAttribute a.ty a.len a.value := by
  unfold attrs at ht
  split at ht
  · next hadd => exact ⟨hadd, List.mem_singleton.mp ht⟩
  · cases ht

theorem Ok.frame {a : Part} (h : a.Ok) : attributes.Frame (packAttribute a.ty a.len a.value) :=
  frame_packAttribute h.length h.padded

theorem Ok.attrType {a : Part} (h : a.Ok) : attrType (packAttribute a.ty a.len a.value) = a.ty :=
  attrType_packAttribute h.known

theorem lastValue_attrs {a : Part} (h : a.add = true → a.Ok) (ty : Attribute) :
    lastValue a.attrs ty = if a.add = true ∧ a.ty = ty then some a.value else none := by
  unfold attrs
  cases hadd : a.add with
  | false => rfl
  | true =>
    have hok := h hadd
    rw [if_pos rfl, ← List.nil_append [packAttribute a.ty a.len a.value], lastValue_concat,
      hok.attrType, attrValue_packAttribute hok.length]
    simp [lastValue]

end Part

theorem Part.length_flatten_flatMap (ps : List Part) :
    (ps.flatMap Part.attrs).flatten.length = (ps.map Part.size).sum := by
  induction ps with
  | nil => rfl
  | cons a ps ih =>
    rw [List.flatMap_cons, List.flatten_append, List.length_append, ih, List.map_cons, List.sum_cons,
      Part.length_flatten_attrs]

theorem lastValue_append (as bs : List Bytes) (ty : Attribute) :
    lastValue (as ++ bs) ty = (lastValue bs ty).or (lastValue as ty) := by
  induction bs using List.reverseRecOn with
  | nil => rw [List.append_nil]; rfl
  | append_singleton bs b ih =>
    rw [← List.append_assoc, lastValue_concat, lastValue_concat, ih]
    split <;> rfl

theorem length_flatten_mod {ts : List Bytes} (h : ∀ t ∈ ts, attributes.Frame t) :
    ts.flatten.length % 4 = 0 := by
  induction ts with
  | nil => rfl
  | cons t ts ih =>
    obtain ⟨ht, hts⟩ := List.forall_mem_cons.mp h
    have := length_of_frame ht
    have := ih hts
    rw [List.flatten_cons, List.length_append]
    omega

namespace Part

variable {ps : List Part} (hok : ∀ a ∈ ps, a.add = true → a.Ok)

include hok

theorem of_mem_flatMap {t : Bytes} (ht : t ∈ ps.flatMap attrs) :
    ∃ a ∈ ps, a.Ok ∧ t = packAttribute a.ty a.len a.value := by
  obtain ⟨a, ha, hta⟩ := List.mem_flatMap.mp ht
  obtain ⟨hadd, rfl⟩ := of_mem_attrs hta
  exact ⟨a, ha, hok a ha hadd, rfl⟩

theorem lastValue_of_notMem {ty : Attribute} (hty : ty ∉ ps.map Part.ty) :
    lastValue (ps.flatMap attrs) ty = none := by
  rw [lastValue, List.filter_eq_nil_iff.mpr]
  · rfl
  · intro t ht
    obtain ⟨a, ha, haok, rfl⟩ := of_mem_flatMap hok ht
    rw [haok.attrType, decide_eq_true_eq]
    rintro rfl
    exact hty (List.mem_map_of_mem ha)

theorem lastValue_of_mem (hnodup : (ps.map Part.ty).Nodup) {a : Part} (ha : a ∈ ps) :
    lastValue (ps.flatMap attrs) a.ty = if a.add then some a.value else none := by
  induction ps with
  | nil => cases ha
  | cons b ps ih =>
    obtain ⟨hb, hps⟩ := List.forall_mem_cons.mp hok
    rw [List.map_cons, List.nodup_cons] at hnodup
    rw [List.flatMap_cons, lastValue_append, lastValue_attrs hb]
    cases ha with
    | head => simp [lastValue_of_notMem hps hnodup.1]
    | tail _ ha =>
      have hne : b.ty ≠ a.ty := fun h ↦ hnodup.1 (h ▸ List.mem_map_of_mem ha)
      rw [ih hps hnodup.2 ha, if_neg (show ¬(b.add = true ∧ b.ty = a.ty) from fun h ↦ hne h.2),
        Option.or_none]

end Part

/-- The packets the round trip is about. -/
structure Valid (s : StunPacket) : Prop where
  transactionId : s.transactionId.length = 12
  method : s.method.toNat < 4096
  username : s.username.length ≤ 512
  errorCode : s.klass = .errorResponse → 300 ≤ s.errorCode.toNat ∧ s.errorCode.toNat ≤ 699

variable (self : StunPacket)

def parts : List Part := [
  ⟨self.usernamePaddedLen ≠ 0, .username, UInt16.ofNat self.username.length, self.username⟩,
  ⟨self.priority ≠ 0, .priority, 4, net4 self.priority⟩,
  ⟨self.iceControlling ≠ 0, .iceControlling, 8, net8 self.iceControlling⟩,
  ⟨self.iceControlled ≠ 0, .iceControlled, 8, net8 self.iceControlled⟩,
  ⟨self.hasUseCandidate, .useCandidate, 0, []⟩,
  ⟨self.xorMappedAddressPaddedLen.isSome, .xorMappedAddress, self.xorMappedAddressPaddedLen.getD 0,
    self.xorMappedAddressValue⟩,
  ⟨self.addErrorCode, .errorCode, 4, self.errorCodeValue⟩]

def header (length : UInt16) : Bytes :=
  net2 self.typeField ++ net2 length ++ magicCookie ++ self.transactionId

theorem packHead_eq :
    self.packHead = self.header (UInt16.ofNat (self.packSize - 20)) ++
      (self.parts.flatMap Part.attrs).flatten := by
  unfold packHead header parts
  simp only [List.flatMap_cons, List.flatMap_nil, Part.attrs, List.flatten_append, List.append_assoc,
    apply_ite List.flatten, List.flatten_cons, List.flatten_nil, List.append_nil, decide_eq_true_eq]
  cases self.xorMappedAddressPaddedLen <;> rfl

def integrityPart (hmacSha1 : Bytes → Bytes → Bytes) : Part where
  add := self.addMessageIntegrity
  ty := .messageIntegrity
  len := 20
  value := hmacSha1 self.password (self.header (UInt16.ofNat (self.packSize - 20 - 8)) ++
    (self.parts.flatMap Part.attrs).flatten)

def fingerprintPart (covered : Bytes) : Part where
  add := true
  ty := .fingerprint
  len := 4
  value := net4 (crc32 covered ^^^ 0x5354554e)

theorem setByte2_header (rest : Bytes) (length length' : UInt16) :
    setByte2 (self.header length ++ rest) 2 length' = self.header length' ++ rest := rfl

def covered (hmacSha1 : Bytes → Bytes → Bytes) : Bytes :=
  self.header (UInt16.ofNat (self.packSize - 20)) ++
    ((self.parts ++ [self.integrityPart hmacSha1]).flatMap Part.attrs).flatten

theorem pack_eq (hmacSha1 : Bytes → Bytes → Bytes) :
    (self.pack hmacSha1 []).1 =
      self.covered hmacSha1 ++ (fingerprintPart (self.covered hmacSha1)).attrs.flatten := by
  have hcovered : self.covered hmacSha1 = self.header (UInt16.ofNat (self.packSize - 20)) ++
      ((self.parts.flatMap Part.attrs).flatten ++ (self.integrityPart hmacSha1).attrs.flatten) := by
    simp only [covered, List.flatMap_append, List.flatten_append, List.flatMap_cons, List.flatMap_nil,
      List.append_nil]
  unfold pack
  simp only [List.nil_append, packHead_eq, setByte2_header, List.append_assoc]
  split
  · next h =>
    rw [hcovered, Part.attrs_of_add (a := self.integrityPart hmacSha1) h, Part.attrs_of_add rfl]
    simp [fingerprintPart, integrityPart]
  · next h =>
    rw [hcovered, Part.attrs_of_not_add (a := self.integrityPart hmacSha1) h, Part.attrs_of_add rfl]
    simp [fingerprintPart]

theorem typeField_toNat {self : StunPacket} (h : self.method.toNat < 4096) :
    self.typeField.toNat = self.method.toNat / 128 * 512 + self.klass.toUInt16.toNat / 2 * 256 +
      self.method.toNat / 16 % 8 * 32 + self.klass.toUInt16.toNat % 2 * 16 + self.method.toNat % 16 := by
  have hk : self.klass.toUInt16.toNat < 4 := by cases self.klass <;> decide
  have t₁ : ((self.method &&& 0x0f80) <<< 2).toNat = (self.method.toNat / 128 % 32) <<< 9 :=
    toNat_field_shiftLeft (n := 5) (j := 7) rfl 2 (by decide) (by decide)
  have t₂ : ((self.method &&& 0x0070) <<< 1).toNat = (self.method.toNat / 16 % 8) <<< 5 :=
    toNat_field_shiftLeft (n := 3) (j := 4) rfl 1 (by decide) (by decide)
  have t₃ : (self.method &&& 0x000f).toNat = (self.method.toNat / 1 % 16) <<< 0 :=
    toNat_and_field (n := 4) (j := 0) rfl
  have t₄ : ((self.klass.toUInt16 &&& 0x02) <<< 7).toNat = (self.klass.toUInt16.toNat / 2 % 2) <<< 8 :=
    toNat_field_shiftLeft (n := 1) (j := 1) rfl 7 (by decide) (by decide)
  have t₅ : ((self.klass.toUInt16 &&& 0x01) <<< 4).toNat = (self.klass.toUInt16.toNat / 1 % 2) <<< 4 :=
    toNat_field_shiftLeft (n := 1) (j := 0) rfl 4 (by decide) (by decide)
  rw [Nat.div_one, Nat.shiftLeft_zero] at t₃
  rw [Nat.div_one] at t₅
  rw [Nat.mod_eq_of_lt (by omega)] at t₁ t₄
  rw [typeField, UInt16.toNat_or, UInt16.toNat_or, UInt16.toNat_or, UInt16.toNat_or, t₁, t₂, t₃, t₄, t₅]
  generalize self.method.toNat = m at *
  generalize self.klass.toUInt16.toNat = k at *
  -- the fields are disjoint: sort them from the lowest bit up
  calc (m / 128) <<< 9 ||| (m / 16 % 8) <<< 5 ||| m % 16 ||| (k / 2) <<< 8 ||| (k % 2) <<< 4
      = m % 16 ||| (k % 2) <<< 4 ||| (m / 16 % 8) <<< 5 ||| (k / 2) <<< 8 ||| (m / 128) <<< 9 := by
        ac_rfl
    _ = _ := by
        rw [or_shiftLeft (by omega) (k % 2), or_shiftLeft (by omega) (m / 16 % 8),
          or_shiftLeft (by omega) (k / 2), or_shiftLeft (by omega) (m / 128)]
        omega

theorem fields_of_typeField {a b c d e : ℕ} (ha : a < 32) (hb : b < 8) (hc : c < 16) (hd : d < 2)
    (he : e < 2) :
    (a * 512 + d * 256 + b * 32 + e * 16 + c) / 512 % 32 * 128 +
        (a * 512 + d * 256 + b * 32 + e * 16 + c) / 32 % 8 * 16 +
        (a * 512 + d * 256 + b * 32 + e * 16 + c) % 16 = a * 128 + b * 16 + c ∧
      (a * 512 + d * 256 + b * 32 + e * 16 + c) / 256 % 2 * 2 +
        (a * 512 + d * 256 + b * 32 + e * 16 + c) / 16 % 2 = d * 2 + e := by
  have h₁ : (a * 512 + d * 256 + b * 32 + e * 16 + c) / 512 = a := by omega
  have h₂ : (a * 512 + d * 256 + b * 32 + e * 16 + c) / 32 = a * 16 + d * 8 + b := by omega
  have h₃ : (a * 512 + d * 256 + b * 32 + e * 16 + c) / 256 = a * 2 + d := by omega
  have h₄ : (a * 512 + d * 256 + b * 32 + e * 16 + c) / 16 = a * 32 + d * 16 + b * 2 + e := by omega
  have h₅ : (a * 512 + d * 256 + b * 32 + e * 16 + c) % 16 = c := by omega
  rw [h₁, h₂, h₃, h₄, h₅]
  clear h₁ h₂ h₃ h₄ h₅
  omega

theorem typeField_fields {self : StunPacket} (h : self.method.toNat < 4096) :
    self.typeField.toNat / 512 % 32 * 128 + self.typeField.toNat / 32 % 8 * 16 +
        self.typeField.toNat % 16 = self.method.toNat ∧
      self.typeField.toNat / 256 % 2 * 2 + self.typeField.toNat / 16 % 2 =
        self.klass.toUInt16.toNat := by
  have hk : self.klass.toUInt16.toNat < 4 := by cases self.klass <;> decide
  obtain ⟨hm', hk'⟩ := fields_of_typeField (a := self.method.toNat / 128)
    (b := self.method.toNat / 16 % 8) (c := self.method.toNat % 16) (d := self.klass.toUInt16.toNat / 2)
    (e := self.klass.toUInt16.toNat % 2) (by omega) (by omega) (by omega) (by omega) (by omega)
  rw [typeField_toNat h, hm', hk']
  clear hm' hk'
  omega

def allParts (hmacSha1 : Bytes → Bytes → Bytes) : List Part :=
  self.parts ++ [self.integrityPart hmacSha1, fingerprintPart (self.covered hmacSha1)]

theorem pack_eq_allParts (hmacSha1 : Bytes → Bytes → Bytes) :
    (self.pack hmacSha1 []).1 = self.header (UInt16.ofNat (self.packSize - 20)) ++
      ((self.allParts hmacSha1).flatMap Part.attrs).flatten := by
  rw [pack_eq]
  conv_lhs => arg 1; rw [covered]
  simp only [allParts, List.flatMap_append, List.flatten_append, List.append_assoc, List.flatMap_cons,
    List.flatMap_nil, List.append_nil]

end Baize.Stun.StunPacket
