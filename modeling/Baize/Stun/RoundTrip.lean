import Baize.Stun.PackLayout

namespace Baize.Stun.StunPacket

open Lib Net Crypto

section Valid

variable {self : StunPacket} {hmacSha1 : Bytes → Bytes → Bytes} (hv : self.Valid)
  (hmac : ∀ key data, (hmacSha1 key data).length = 20)

include hv

theorem length_header (length : UInt16) : (self.header length).length = 20 := by
  simp [header, magicCookie, hv.transactionId]

omit hv in
@[simp] theorem errorCodeValue_length : self.errorCodeValue.length = 4 := rfl

theorem ofNat_username_toNat : (UInt16.ofNat self.username.length).toNat = self.username.length :=
  UInt16.toNat_ofNat_of_lt' (hv.username.trans_lt (by decide))

theorem usernamePaddedLen_toNat :
    self.usernamePaddedLen.toNat = (self.username.length + 3) / 4 * 4 := by
  have hlen := ofNat_username_toNat hv
  have := hv.username
  unfold usernamePaddedLen
  split
  · rw [align4_toNat _ (by omega), hlen]
  · next h =>
    rw [not_not.mp h]
    rfl

theorem length_xorMappedAddressValue {len : UInt16} (h : self.xorMappedAddressPaddedLen = some len) :
    self.xorMappedAddressValue.length = len.toNat ∧ len.toNat % 4 = 0 := by
  unfold xorMappedAddressPaddedLen at h
  unfold xorMappedAddressValue
  split_ifs at h with _ h4 h6
  · cases h
    rw [if_pos h4]
    exact ⟨rfl, rfl⟩
  · cases h
    rw [if_neg h4]
    simp [magicCookie, hv.transactionId, self.xorMappedAddress.sin6Addr_length]

include hmac

theorem allParts_ok (hu : 4 ∣ self.username.length) :
    ∀ a ∈ self.allParts hmacSha1, a.add = true → a.Ok := by
  have hu' : self.username.length % 4 = 0 := Nat.mod_eq_zero_of_dvd hu
  have fixed {add : Bool} {ty : Attribute} {len : UInt16} {value : Bytes} (hty : ty ∈ Attribute.known)
      (hlen : len.toNat = value.length) (hmod : value.length % 4 = 0) (hok : lengthOk ty len = true) :
      (Part.mk add ty len value).add = true → (Part.mk add ty len value).Ok :=
    fun _ ↦ ⟨hty, hlen, hmod, hok⟩
  simp only [allParts, parts, List.cons_append, List.nil_append, List.forall_mem_cons]
  refine ⟨fixed (by decide) (ofNat_username_toNat hv) hu' rfl, fixed (by decide) rfl (by simp) rfl,
    fixed (by decide) rfl (by simp) rfl, fixed (by decide) rfl (by simp) rfl,
    fixed (by decide) rfl (by simp) rfl, ?_,
    fixed (by decide) rfl (by simp) rfl, ?_, fun _ ↦ fixed (by decide) rfl (by simp) rfl rfl,
    fun _ ha ↦ absurd ha List.not_mem_nil⟩
  · intro h
    obtain ⟨len, hlen⟩ := Option.isSome_iff_exists.mp h
    obtain ⟨h1, h2⟩ := length_xorMappedAddressValue hv hlen
    refine fixed (by decide) ?_ (h1 ▸ h2) rfl h
    rw [hlen, Option.getD_some, h1]
  · intro h
    have h20 := hmac self.password (self.header (UInt16.ofNat (self.packSize - 20 - 8)) ++
      (self.parts.flatMap Part.attrs).flatten)
    exact fixed (by decide) h20.symm (by rw [h20]) rfl h

theorem packSize_eq (hu : 4 ∣ self.username.length) :
    self.packSize = 20 + ((self.allParts hmacSha1).flatMap Part.attrs).flatten.length := by
  have hu' : self.username.length % 4 = 0 := Nat.mod_eq_zero_of_dvd hu
  have hpad := usernamePaddedLen_toNat hv
  have husername : (if self.username ≠ [] then 4 + self.usernamePaddedLen.toNat else 0) =
      if self.usernamePaddedLen ≠ 0 then 4 + self.username.length else 0 := by
    have hzero : self.usernamePaddedLen = 0 ↔ self.username = [] := by
      rw [← UInt16.toNat_inj, hpad, ← List.length_eq_zero_iff, UInt16.toNat_zero]
      omega
    simp only [ne_eq, hzero, hpad]
    congr 2
    omega
  have hxor : (self.xorMappedAddressPaddedLen.elim 0 fun len ↦ 4 + len.toNat) =
      if self.xorMappedAddressPaddedLen.isSome then 4 + self.xorMappedAddressValue.length else 0 := by
    cases hlen : self.xorMappedAddressPaddedLen with
    | none => rfl
    | some len => rw [(length_xorMappedAddressValue hv hlen).1]; rfl
  rw [Part.length_flatten_flatMap]
  unfold packSize allParts parts
  simp only [List.map_cons, List.cons_append, List.nil_append, List.map_nil, List.sum_cons, List.sum_nil,
    decide_eq_true_eq, net4_length, net8_length, List.length_nil, husername, hxor, errorCodeValue_length,
    integrityPart, fingerprintPart, hmac, if_true, Part.size, Nat.add_zero]
  omega

omit hmac in
theorem packSize_lt : self.packSize < 1000 := by
  have := hv.username
  have hpad := usernamePaddedLen_toNat hv
  have hle (c : Prop) [Decidable c] (n : ℕ) : (if c then n else 0) ≤ n := by split <;> omega
  have hxor : (self.xorMappedAddressPaddedLen.elim 0 fun len ↦ 4 + len.toNat) ≤ 24 := by
    unfold xorMappedAddressPaddedLen
    split_ifs <;> decide
  have h₁ := hle (self.username ≠ []) (4 + self.usernamePaddedLen.toNat)
  have h₂ := hle (self.priority ≠ 0) (4 + 4)
  have h₃ := hle (self.iceControlling ≠ 0) (4 + 8)
  have h₄ := hle (self.iceControlled ≠ 0) (4 + 8)
  have h₅ := hle (self.hasUseCandidate = true) 4
  have h₆ := hle (self.addErrorCode = true) (4 + 4)
  have h₇ := hle (self.addMessageIntegrity = true) (4 + 20)
  unfold packSize
  omega

theorem order_allParts (hu : 4 ∣ self.username.length) :
    ((self.allParts hmacSha1).flatMap Part.attrs).Pairwise MayFollow := by
  have hok := allParts_ok hv hmac hu
  have hplain : ∀ t ∈ self.parts.flatMap Part.attrs, ∀ b, MayFollow t b := by
    intro t ht b
    obtain ⟨a, ha, haok, rfl⟩ := Part.of_mem_flatMap (fun a ha ↦ hok a (List.mem_append_left _ ha)) ht
    have hty : a.ty ∈ self.parts.map Part.ty := List.mem_map_of_mem ha
    have hnotMem : Attribute.fingerprint ∉ self.parts.map Part.ty ∧
        Attribute.messageIntegrity ∉ self.parts.map Part.ty := by
      simp [parts]
    rw [MayFollow, haok.attrType]
    exact ⟨fun h ↦ hnotMem.1 (h ▸ hty), fun h ↦ absurd (h ▸ hty) hnotMem.2⟩
  rw [allParts, List.flatMap_append, List.pairwise_append]
  refine ⟨List.pairwise_of_forall_mem_list fun t ht b _ ↦ hplain t ht b, ?_, fun t ht b _ ↦ hplain t ht b⟩
  rw [List.flatMap_cons, List.flatMap_singleton, List.pairwise_append]
  refine ⟨?_, List.pairwise_singleton _ _, ?_⟩
  · unfold Part.attrs
    split
    · exact List.pairwise_singleton _ _
    · exact List.Pairwise.nil
  · intro t ht b hb
    obtain ⟨-, rfl⟩ := Part.of_mem_attrs ht
    obtain ⟨-, rfl⟩ := Part.of_mem_attrs hb
    rw [MayFollow, attrType_packAttribute (by simp [integrityPart, Attribute.known]),
      attrType_packAttribute (by simp [fingerprintPart, Attribute.known])]
    exact ⟨Attribute.noConfusion, fun _ ↦ rfl⟩

omit hmac in
theorem firstByte_toNat : (byte1 (self.pack hmacSha1 []).1 0).toNat =
    self.method.toNat / 128 * 2 + self.klass.toUInt16.toNat / 2 := by
  have hbyte : byte1 (self.pack hmacSha1 []).1 0 = (self.typeField >>> 8).toUInt8 := by
    rw [pack_eq_allParts]
    rfl
  have hk : self.klass.toUInt16.toNat < 4 := by cases self.klass <;> decide
  have := hv.method
  rw [hbyte, UInt16.toNat_toUInt8, UInt16.toNat_shiftRight, typeField_toNat hv.method,
    show (8 : UInt16).toNat % 16 = 8 from rfl, Nat.shiftRight_eq_div_pow]
  omega

omit hmac in
theorem lengthField_toNat : (byte2 (self.pack hmacSha1 []).1 2).toNat = self.packSize - 20 := by
  have hlt := packSize_lt hv
  have hfield : byte2 (self.pack hmacSha1 []).1 2 = UInt16.ofNat (self.packSize - 20) := by
    rw [pack_eq_allParts]
    exact byte2_of_drop (q := magicCookie ++ self.transactionId ++
      ((self.allParts hmacSha1).flatMap Part.attrs).flatten) rfl
  rw [hfield]
  exact UInt16.toNat_ofNat_of_lt' (show _ < 65536 by omega)

theorem length_pack (hu : 4 ∣ self.username.length) :
    (self.pack hmacSha1 []).1.length = self.packSize := by
  rw [pack_eq_allParts, List.length_append, length_header hv, packSize_eq hv hmac hu]

theorem grammar_pack (hu : 4 ∣ self.username.length)
    (hfirst : self.method.toNat / 128 * 2 + self.klass.toUInt16.toNat / 2 < 3) :
    Grammar (self.pack hmacSha1 []).1 ((self.allParts hmacSha1).flatMap Part.attrs) := by
  have hok := allParts_ok hv hmac hu
  have hsize := packSize_eq hv hmac hu
  have hheader := length_header hv (UInt16.ofNat (self.packSize - 20))
  have hp := self.pack_eq_allParts hmacSha1
  have hframes : ∀ t ∈ (self.allParts hmacSha1).flatMap Part.attrs, attributes.Frame t := by
    intro t ht
    obtain ⟨a, -, haok, rfl⟩ := Part.of_mem_flatMap hok ht
    exact haok.frame
  have hlength : (byte2 (self.pack hmacSha1 []).1 2).toNat = self.packSize - 20 := lengthField_toNat hv
  constructor
  case header => rw [hp, List.length_append, hheader]; omega
  case first =>
    have hbyte : (byte1 (self.pack hmacSha1 []).1 0).toNat < 3 := by rwa [firstByte_toNat hv]
    exact hbyte
  case cookie => rw [hp]; rfl
  case length => rw [hlength, hp, List.length_append, hheader]; omega
  case length_mod =>
    have := length_flatten_mod hframes
    rw [hlength, hsize]
    omega
  case tiling => rw [hp, List.drop_left' hheader]
  case frames => exact hframes
  case lengths =>
    intro t ht
    obtain ⟨a, -, haok, rfl⟩ := Part.of_mem_flatMap hok ht
    rw [haok.attrType, attrLength_packAttribute]
    exact haok.lengthOk
  case order => exact order_allParts hv hmac hu
  case fingerprint =>
    have horder := order_allParts hv hmac hu
    have hlast : (self.allParts hmacSha1).flatMap Part.attrs =
        (self.parts ++ [self.integrityPart hmacSha1]).flatMap Part.attrs ++
          [packAttribute .fingerprint 4 (net4 (crc32 (self.covered hmacSha1) ^^^ 0x5354554e))] := by
      simp [allParts, fingerprintPart, Part.attrs]
    rw [hlast] at horder ⊢
    rw [fingerprintOk_concat horder]
    intro _
    have hcovered : (self.covered hmacSha1).length = 20 +
        ((self.parts ++ [self.integrityPart hmacSha1]).flatMap Part.attrs).flatten.length := by
      rw [covered, List.length_append, hheader]
    rw [attrValue_packAttribute rfl, byte4_of_drop (q := []) (List.append_nil _).symm, pack_eq,
      List.take_left' hcovered]

/-- The fields that a parsed packet is to share with the packet that was packed. -/
structure Recovered (s r : StunPacket) : Prop where
  klass : r.klass = s.klass
  method : r.method = s.method
  transactionId : r.transactionId = s.transactionId
  username : r.username = s.username
  priority : r.priority = s.priority
  iceControlling : r.iceControlling = s.iceControlling
  iceControlled : r.iceControlled = s.iceControlled
  hasUseCandidate : r.hasUseCandidate = s.hasUseCandidate
  errorCode : s.klass = .errorResponse → r.errorCode = s.errorCode
  messageIntegrity : r.hasMessageIntegrity = true ↔ s.password ≠ [] ∧ s.klass ≠ .errorResponse
  fingerprint : r.hasFingerprint = true

omit hv hmac in
theorem errorCodeValue_toNat (h : self.errorCode.toNat ≤ 699) :
    (byte1 self.errorCodeValue 2).toNat * 100 + (byte1 self.errorCodeValue 3).toNat =
      self.errorCode.toNat := by
  have hclass : (self.errorCode / 100).toUInt8.toNat = self.errorCode.toNat / 100 := by
    rw [UInt16.toNat_toUInt8, UInt16.toNat_div, show (100 : UInt16).toNat = 100 from rfl]
    omega
  have h2 : byte1 self.errorCodeValue 2 = (self.errorCode / 100).toUInt8 := rfl
  have h3 : byte1 self.errorCodeValue 3 =
      UInt8.ofNat (self.errorCode.toNat - (self.errorCode / 100).toUInt8.toNat * 100) := rfl
  rw [h2, h3, hclass, UInt8.toNat_ofNat_of_lt' (show _ < 256 by omega)]
  omega

theorem recovered_of_getters (hu : 4 ∣ self.username.length) {r : StunPacket}
    (h : Getters (self.pack hmacSha1 []).1 ((self.allParts hmacSha1).flatMap Part.attrs) r) :
    Recovered self r := by
  have hok := allParts_ok hv hmac hu
  have hnodup : ((self.allParts hmacSha1).map Part.ty).Nodup := by
    simp [allParts, parts, integrityPart, fingerprintPart]
  have hlast : ∀ a ∈ self.allParts hmacSha1, _ := fun a ha ↦ Part.lastValue_of_mem hok hnodup ha
  generalize (self.allParts hmacSha1).flatMap Part.attrs = attrs at h hlast
  simp only [allParts, parts, List.cons_append, List.nil_append, List.forall_mem_cons, decide_eq_true_eq]
    at hlast
  obtain ⟨husername, hpriority, hcontrolling, hcontrolled, huse, -, herror, hintegrity, hfingerprint, -⟩ :=
    hlast
  have htype : byte2 (self.pack hmacSha1 []).1 0 = self.typeField := by
    rw [pack_eq_allParts]
    exact byte2_of_drop (q := net2 (UInt16.ofNat (self.packSize - 20)) ++ magicCookie ++
      self.transactionId ++ ((self.allParts hmacSha1).flatMap Part.attrs).flatten) rfl
  constructor
  case klass =>
    apply Class.toUInt16_injective
    rw [h.klass, htype, (typeField_fields hv.method).2]
  case method =>
    apply UInt16.toNat_inj.mp
    rw [h.method, htype, (typeField_fields hv.method).1]
  case transactionId =>
    rw [h.transactionId, pack_eq_allParts]
    exact List.take_left' hv.transactionId
  case username =>
    rw [h.username, husername]
    split
    · rfl
    · next h0 =>
      have hpad := usernamePaddedLen_toNat hv
      rw [not_not.mp h0, UInt16.toNat_zero] at hpad
      exact (List.length_eq_zero_iff.mp (by omega)).symm
  case priority =>
    rw [h.priority, hpriority]
    split
    · exact byte4_of_drop (q := []) (List.append_nil _).symm
    · next h0 => exact (not_not.mp h0).symm
  case iceControlling =>
    rw [h.iceControlling, hcontrolling]
    split
    · exact byte8_of_drop (q := []) (List.append_nil _).symm
    · next h0 => exact (not_not.mp h0).symm
  case iceControlled =>
    rw [h.iceControlled, hcontrolled]
    split
    · exact byte8_of_drop (q := []) (List.append_nil _).symm
    · next h0 => exact (not_not.mp h0).symm
  case hasUseCandidate =>
    rw [h.hasUseCandidate, huse]
    cases self.hasUseCandidate <;> rfl
  case errorCode =>
    intro hklass
    obtain ⟨hlo, hhi⟩ := hv.errorCode hklass
    have hadd : self.addErrorCode = true := by
      have : self.errorCode ≠ 0 := fun h0 ↦ by rw [h0] at hlo; exact absurd hlo (by decide)
      simp [addErrorCode, this, hklass]
    apply UInt16.toNat_inj.mp
    rw [h.errorCode, herror, if_pos hadd]
    exact errorCodeValue_toNat hhi
  case messageIntegrity =>
    have hne (data : Bytes) : (hmacSha1 self.password data).isEmpty = false := by
      rw [List.isEmpty_eq_false_iff]
      exact List.ne_nil_of_length_pos (by rw [hmac]; decide)
    rw [hasMessageIntegrity, h.messageIntegrity, show lastValue attrs .messageIntegrity = _ from hintegrity]
    by_cases hadd : self.addMessageIntegrity = true
    · rw [if_pos (show (self.integrityPart hmacSha1).add = true from hadd), Option.getD_some,
        integrityPart, hne]
      simpa [addMessageIntegrity, and_comm] using hadd
    · rw [if_neg (show ¬(self.integrityPart hmacSha1).add = true from hadd)]
      have hnot : ¬(self.password ≠ [] ∧ self.klass ≠ .errorResponse) := by
        simpa [addMessageIntegrity, and_comm] using hadd
      exact ⟨fun h0 ↦ absurd h0 Bool.false_ne_true, fun h0 ↦ absurd h0 hnot⟩
  case fingerprint =>
    rw [h.hasFingerprint, show lastValue attrs .fingerprint = _ from hfingerprint]
    rfl

theorem exists_parse_pack (hu : 4 ∣ self.username.length)
    (hfirst : self.method.toNat / 128 * 2 + self.klass.toUInt16.toNat / 2 < 3) (klass : Class) (method : UInt16)
    {fuel : ℕ} (hf : (self.pack hmacSha1 []).1.length < fuel) :
    ∃ r, parse fuel (fresh klass method) (self.pack hmacSha1 []).1 = some (some r) ∧ Recovered self r := by
  have hlen := length_pack hv hmac hu
  have hlt := packSize_lt hv
  obtain ⟨r, hr, hspec⟩ := parse_spec (fresh klass method) (by omega) hf
  have hgrammar := grammar_pack hv hmac hu hfirst
  refine ⟨_, hr.trans (congrArg some ((hspec _).mpr ⟨_, hgrammar, rfl⟩)), ?_⟩
  exact recovered_of_getters hv hmac hu (getters_foldl klass method _ _)

theorem parse_pack (hu : 4 ∣ self.username.length) (klass : Class) (method : UInt16) {fuel : ℕ}
    (hf : (self.pack hmacSha1 []).1.length < fuel) :
    (byte2 (self.pack hmacSha1 []).1 2).toNat + 20 = (self.pack hmacSha1 []).1.length ∧
      (byte1 (self.pack hmacSha1 []).1 0).toNat = self.method.toNat / 128 * 2 + self.klass.toUInt16.toNat / 2 ∧
      (self.method.toNat / 128 * 2 + self.klass.toUInt16.toNat / 2 < 3 →
        ∃ r, parse fuel (fresh klass method) (self.pack hmacSha1 []).1 = some (some r) ∧
          Recovered self r) ∧
      (3 ≤ self.method.toNat / 128 * 2 + self.klass.toUInt16.toNat / 2 →
        parse fuel (fresh klass method) (self.pack hmacSha1 []).1 = some none) := by
  refine ⟨?_, firstByte_toNat hv, ?_, ?_⟩
  · rw [lengthField_toNat hv, length_pack hv hmac hu, packSize_eq hv hmac hu]
    omega
  · intro hfirst
    exact exists_parse_pack hv hmac hu hfirst klass method hf
  · intro hfirst
    have hnot : isStun (self.pack hmacSha1 []).1 = false := by
      rw [← Bool.not_eq_true, isStun_iff]
      rintro ⟨-, h0, -⟩
      have h3 : (byte1 (self.pack hmacSha1 []).1 0).toNat < 3 := h0
      rw [firstByte_toNat hv] at h3
      omega
    rw [parse, hnot]
    rfl

end Valid

def plainRequest (method : UInt16) (username : Bytes) : StunPacket :=
  { fresh .request method with transactionId := [1, 2, 3, 4, 5, 6, 7, 8, 9, 10, 11, 12], username := username }

theorem valid_plainRequest {method : UInt16} {username : Bytes} (hm : method.toNat < 4096)
    (hu : username.length ≤ 512) : (plainRequest method username).Valid :=
  ⟨rfl, hm, hu, nofun⟩

theorem parse_pack_binding :
    let p := ((plainRequest 1 [0x61, 0x3a, 0x62, 0x63]).pack (fun _ _ ↦ List.replicate 20 0) []).1
    p.length = 36 ∧ (byte2 p 2).toNat + 20 = p.length ∧ (byte1 p 0).toNat = 0 ∧
      ∃ r, parse 37 (fresh .request 0) p = some (some r) ∧
        Recovered (plainRequest 1 [0x61, 0x3a, 0x62, 0x63]) r := by
  have hvalid : (plainRequest 1 [0x61, 0x3a, 0x62, 0x63]).Valid := valid_plainRequest (by decide) (by decide)
  have hlen : ((plainRequest 1 [0x61, 0x3a, 0x62, 0x63]).pack (fun _ _ ↦ List.replicate 20 0) []).1.length
      < 37 := by decide
  have h := parse_pack hvalid (fun _ _ ↦ rfl) (by decide) .request 0 hlen
  exact ⟨rfl, h.1, h.2.1, h.2.2.1 (by decide)⟩

/-- The guard on the first byte turns down method 256, and the username of one byte
is written without its three bytes of padding. -/
theorem parse_pack_rejected :
    (∀ fuel, parse fuel (fresh .request 0)
      ((plainRequest 256 []).pack (fun _ _ ↦ List.replicate 20 0) []).1 = some none) ∧
    (∀ fuel, parse fuel (fresh .request 0)
      ((plainRequest 1 [0x61]).pack (fun _ _ ↦ List.replicate 20 0) []).1 = some none) ∧
    (plainRequest 256 []).Valid ∧ (plainRequest 1 [0x61]).Valid := by
  refine ⟨fun fuel ↦ ?_, fun fuel ↦ ?_, valid_plainRequest (by decide) (by decide),
    valid_plainRequest (by decide) (by decide)⟩
  · have hstun : isStun ((plainRequest 256 []).pack (fun _ _ ↦ List.replicate 20 0) []).1 = false := by
      decide
    rw [parse, hstun]
    rfl
  · have hlen : (byte2 ((plainRequest 1 [0x61]).pack (fun _ _ ↦ List.replicate 20 0) []).1 2).toNat = 16 := by
      decide
    rw [parse, if_neg (by decide)]
    exact if_pos (Or.inl (by rw [hlen]; decide))

end Baize.Stun.StunPacket
