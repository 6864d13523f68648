import Baize.Stun.Bounds
import Baize.Stun.RoundTrip
import Baize.Webrtc.MediaGate

namespace Baize.Webrtc

open Baize.Lib Baize.Net Baize.Stun Baize.Crypto

def unmask (mask bytes : Bytes) : Bytes := bytes.zipWith (· ^^^ ·) mask

/-- The family code, the port and the address in the value of XOR-MAPPED-ADDRESS. -/
def readXorMappedAddress (transactionId value : Bytes) : UInt8 × UInt16 × Bytes :=
  (byte1 value 1, byte2 (unmask magicCookie ((value.drop 2).take 2)) 0,
    unmask (magicCookie ++ transactionId) (value.drop 4))

def mappedAddress (addr : InetAddress) : UInt8 × UInt16 × Bytes :=
  if addr.family = afInet then (0x01, addr.port, net4 addr.sinAddr) else (0x02, addr.port, addr.sin6Addr)

structure AnswersRequest (hmacSha1 : Bytes → Bytes → Bytes) (icePassword transactionId : Bytes)
    (addr : InetAddress) (p a m f : Bytes) : Prop where
  accepted : ∃ r, IceServer.parsed p = some (some r) ∧ r.klass = .successResponse ∧
    r.method = Method.binding ∧ r.transactionId = transactionId
  attrs : attributes.split (p.drop 20) = ([a, m, f], [])
  types : attrType a = .xorMappedAddress ∧ attrType m = .messageIntegrity ∧ attrType f = .fingerprint
  address : readXorMappedAddress transactionId (attrValue a) = mappedAddress addr
  -- the length field counts the attributes up to MESSAGE-INTEGRITY
  integrity : attrValue m = hmacSha1 icePassword
    (setByte2 (p.take (20 + a.length)) 2 (UInt16.ofNat (a.length + m.length)))
  fingerprint : byte4 (attrValue f) 0 = crc32 (p.take (20 + a.length + m.length)) ^^^ 0x5354554e

theorem unmask_zipWith (plain mask : Bytes) (h : plain.length ≤ mask.length) :
    unmask mask (plain.zipWith (· ^^^ ·) mask) = plain := by
  induction plain generalizing mask with
  | nil => rfl
  | cons a plain ih =>
    cases mask with
    | nil => cases h
    | cons b mask =>
      have hrest := ih mask (Nat.le_of_succ_le_succ h)
      rw [unmask] at hrest ⊢
      rw [List.zipWith_cons_cons, List.zipWith_cons_cons, hrest, UInt8.xor_assoc, UInt8.xor_self,
        UInt8.xor_zero]

theorem transactionId_of_setAttribute {p : Bytes} {s s' : StunPacket.Scan} {attrType : Attribute}
    {attrLength : UInt16} (h : StunPacket.setAttribute p s attrType attrLength = some s') :
    s'.self.transactionId = s.self.transactionId := by
  unfold StunPacket.setAttribute at h
  cases attrType with
  | username | xorMappedAddress | other => rw [← Option.some.inj h]
  | _ =>
    dsimp only at h
    split at h
    · cases h
    · rw [← Option.some.inj h]

theorem transactionId_of_parsed {p : Bytes} {packet : StunPacket}
    (h : IceServer.parsed p = some (some packet)) :
    packet.transactionId = (p.drop 8).take 12 ∧ 20 ≤ p.length := by
  by_cases hheader : StunPacket.HeaderOk p
  swap
  · rw [IceServer.parsed, StunPacket.parse_of_not_headerOk hheader] at h
    cases h
  refine ⟨?_, hheader.header_le⟩
  rw [IceServer.parsed, StunPacket.parse_of_headerOk hheader, Option.map_eq_some_iff] at h
  obtain ⟨r, hloop, hfinish⟩ := h
  obtain ⟨s, rfl, hs⟩ := Option.bind_eq_some_iff.mp hfinish
  have hself : packet = s.self := by
    unfold StunPacket.finish at hs
    split at hs
    · cases hs
    split at hs
    · cases hs
    · exact (Option.some.inj hs).symm
  rw [hself]
  refine StunPacket.parseLoop_invariant (P := fun s ↦ s.self.transactionId = (p.drop 8).take 12) ?_ hloop rfl
  intro s s' _ hturn hs
  obtain ⟨-, t, ht, rfl⟩ := StunPacket.parseAttribute_eq_some hturn
  exact (transactionId_of_setAttribute ht).trans hs

section Response

open StunPacket

variable (hmacSha1 : Bytes → Bytes → Bytes) (addr : InetAddress) (icePassword : Bytes) (packet : StunPacket)

theorem valid_response (hid : packet.transactionId.length = 12) :
    (IceServer.response addr icePassword packet).Valid where
  transactionId := hid
  method := show (1 : UInt16).toNat < 4096 by decide
  username := Nat.zero_le _
  errorCode h := by cases h

theorem paddedLen_response (hfamily : addr.family = afInet ∨ addr.family = afInet6) :
    ∃ len, (IceServer.response addr icePassword packet).xorMappedAddressPaddedLen = some len := by
  have hfam : (IceServer.response addr icePassword packet).xorMappedAddress.family = addr.family := rfl
  rw [xorMappedAddressPaddedLen, hfam]
  rcases hfamily with h | h <;> rw [h]
  · exact ⟨8, rfl⟩
  · exact ⟨20, rfl⟩

theorem addMessageIntegrity_response (hpassword : icePassword ≠ []) :
    (IceServer.response addr icePassword packet).addMessageIntegrity = true := by
  simp [addMessageIntegrity, IceServer.response, StunPacket.fresh, hpassword]

theorem readXorMappedAddress_value (hid : packet.transactionId.length = 12) :
    readXorMappedAddress packet.transactionId
      (IceServer.response addr icePassword packet).xorMappedAddressValue = mappedAddress addr := by
  have hport : byte2 (unmask magicCookie ((net2 addr.port).zipWith (· ^^^ ·) magicCookie)) 0 = addr.port := by
    rw [unmask_zipWith (net2 addr.port) magicCookie (by rw [net2_length]; decide)]
    exact byte2_of_drop (q := []) (List.append_nil _).symm
  have hvalue : (IceServer.response addr icePassword packet).xorMappedAddressValue =
      if addr.family = afInet then
        [0, 0x01] ++ (net2 addr.port).zipWith (· ^^^ ·) magicCookie ++
          (net4 addr.sinAddr).zipWith (· ^^^ ·) magicCookie
      else [0, 0x02] ++ (net2 addr.port).zipWith (· ^^^ ·) magicCookie ++
          addr.sin6Addr.zipWith (· ^^^ ·) (magicCookie ++ packet.transactionId) := rfl
  rw [hvalue, mappedAddress]
  by_cases h4 : addr.family = afInet
  · have haddr := unmask_zipWith (net4 addr.sinAddr) magicCookie (by rw [net4_length]; decide)
    rw [if_pos h4, if_pos h4, readXorMappedAddress]
    exact Prod.ext rfl (Prod.ext hport haddr)
  · have haddr := unmask_zipWith addr.sin6Addr (magicCookie ++ packet.transactionId)
      (by rw [addr.sin6Addr_length, List.length_append, hid]; decide)
    rw [if_neg h4, if_neg h4, readXorMappedAddress]
    exact Prod.ext rfl (Prod.ext hport haddr)

variable {addr icePassword packet}

theorem parts_response {len : UInt16}
    (hlen : (IceServer.response addr icePassword packet).xorMappedAddressPaddedLen = some len) :
    (IceServer.response addr icePassword packet).parts.flatMap Part.attrs =
      [packAttribute .xorMappedAddress len
        (IceServer.response addr icePassword packet).xorMappedAddressValue] := by
  rw [parts, hlen]
  rfl

theorem attrs_response {len : UInt16} (hpassword : icePassword ≠ [])
    (hlen : (IceServer.response addr icePassword packet).xorMappedAddressPaddedLen = some len) :
    ((IceServer.response addr icePassword packet).allParts hmacSha1).flatMap Part.attrs =
      [packAttribute .xorMappedAddress len
          (IceServer.response addr icePassword packet).xorMappedAddressValue,
        packAttribute .messageIntegrity 20
          ((IceServer.response addr icePassword packet).integrityPart hmacSha1).value,
        packAttribute .fingerprint 4
          (fingerprintPart ((IceServer.response addr icePassword packet).covered hmacSha1)).value] := by
  rw [allParts, List.flatMap_append, parts_response hlen, List.flatMap_cons, List.flatMap_singleton,
    Part.attrs_of_add (addMessageIntegrity_response addr icePassword packet hpassword),
    Part.attrs_of_add rfl]
  rfl

theorem length_packAttribute (ty : Attribute) (len : UInt16) (value : Bytes) :
    (packAttribute ty len value).length = 4 + value.length := by
  simp only [packAttribute, List.length_append, net2_length]

variable {hmacSha1}

theorem answersRequest_pack (hmac : ∀ key data, (hmacSha1 key data).length = 20)
    (hfamily : addr.family = afInet ∨ addr.family = afInet6) (hpassword : icePassword ≠ [])
    (hid : packet.transactionId.length = 12) :
    ∃ a m f, AnswersRequest hmacSha1 icePassword packet.transactionId addr
      ((IceServer.response addr icePassword packet).pack hmacSha1 []).1 a m f := by
  obtain ⟨len, hlen⟩ := paddedLen_response addr icePassword packet hfamily
  have hattrs := attrs_response hmacSha1 hpassword hlen
  have hparts := parts_response hlen
  have haddress := readXorMappedAddress_value addr icePassword packet hid
  have hvalid := valid_response addr icePassword packet hid
  have hid' : (IceServer.response addr icePassword packet).transactionId = packet.transactionId := rfl
  have hpw : (IceServer.response addr icePassword packet).password = icePassword := rfl
  have hfirst : (IceServer.response addr icePassword packet).method.toNat / 128 * 2 +
      (IceServer.response addr icePassword packet).klass.toUInt16.toNat / 2 < 3 :=
    show (1 : UInt16).toNat / 128 * 2 + (2 : UInt16).toNat / 2 < 3 by decide
  have hdvd : 4 ∣ (IceServer.response addr icePassword packet).username.length := Nat.dvd_zero 4
  have hkind : (IceServer.response addr icePassword packet).klass = .successResponse ∧
      (IceServer.response addr icePassword packet).method = Method.binding := ⟨rfl, rfl⟩
  generalize IceServer.response addr icePassword packet = s at *
  have hvalue := (length_xorMappedAddressValue hvalid hlen).1
  have hmacLength : (s.integrityPart hmacSha1).value.length = 20 := hmac _ _
  have hfour : (fingerprintPart (s.covered hmacSha1)).value.length = 4 := rfl
  have hheader := length_header hvalid (UInt16.ofNat (s.packSize - 20))
  have hsize := packSize_eq hvalid hmac hdvd
  have hpack := s.pack_eq_allParts hmacSha1
  have hgrammar := grammar_pack hvalid hmac hdvd hfirst
  rw [hattrs] at hsize hpack
  refine ⟨_, _, _, ?_, hgrammar.split.trans (Prod.ext hattrs rfl), ?_, ?_, ?_, ?_⟩
  · obtain ⟨r, hr, hrec⟩ := exists_parse_pack hvalid hmac hdvd hfirst .request 0 (Nat.lt_succ_self _)
    exact ⟨r, hr, hrec.klass.trans hkind.1, hrec.method.trans hkind.2, hrec.transactionId.trans hid'⟩
  · exact ⟨attrType_packAttribute (by decide), attrType_packAttribute (by decide),
      attrType_packAttribute (by decide)⟩
  · rw [attrValue_packAttribute hvalue.symm, haddress]
  · have htake : (s.pack hmacSha1 []).1.take (20 + (packAttribute .xorMappedAddress len
        s.xorMappedAddressValue).length) = s.header (UInt16.ofNat (s.packSize - 20)) ++
        packAttribute .xorMappedAddress len s.xorMappedAddressValue := by
      rw [hpack, List.flatten_cons, ← List.append_assoc]
      exact List.take_left' (by rw [List.length_append, hheader])
    have hfield : s.packSize - 20 - 8 = (packAttribute .xorMappedAddress len
        s.xorMappedAddressValue).length +
        (packAttribute .messageIntegrity 20 (s.integrityPart hmacSha1).value).length := by
      simp only [List.flatten_cons, List.flatten_nil, List.length_append, List.length_nil,
        length_packAttribute, hmacLength, hfour] at hsize ⊢
      omega
    rw [attrValue_packAttribute (show (20 : UInt16).toNat = _ from hmacLength.symm), htake, setByte2_header,
      ← hfield, integrityPart, hparts, hpw, List.flatten_cons, List.flatten_nil, List.append_nil]
  · have htake : (s.pack hmacSha1 []).1.take (20 + (packAttribute .xorMappedAddress len
        s.xorMappedAddressValue).length + (packAttribute .messageIntegrity 20
        (s.integrityPart hmacSha1).value).length) = s.covered hmacSha1 := by
      have hlast : (fingerprintPart (s.covered hmacSha1)).attrs.flatten.length = 8 :=
        Part.length_flatten_attrs _
      have hlength := congrArg List.length ((s.pack_eq hmacSha1).symm.trans hpack)
      simp only [List.flatten_cons, List.flatten_nil, List.length_append, List.length_nil, hheader, hlast,
        length_packAttribute, hfour] at hlength
      rw [s.pack_eq]
      apply List.take_left'
      simp only [length_packAttribute]
      omega
    rw [htake, attrValue_packAttribute rfl]
    exact byte4_of_drop (q := []) (List.append_nil _).symm

end Response

/-- A binding request that is answered gets the response that it should, whatever the address of
the peer, the password and the HMAC. -/
theorem processStunPacket_answers (hmacSha1 : Bytes → Bytes → Bytes)
    (hmac : ∀ key data, (hmacSha1 key data).length = 20) (ice : IceServer) (addr : InetAddress)
    (stunPacket : Bytes) (packet : StunPacket) (hparsed : IceServer.parsed stunPacket = some (some packet))
    (hanswers : IceServer.answers packet = true)
    (hfamily : addr.family = afInet ∨ addr.family = afInet6) (hpassword : ice.icePassword ≠ []) :
    ∃ p ice', ice.processStunPacket hmacSha1 addr stunPacket = some (some p, ice') ∧
      ∃ a m f, AnswersRequest hmacSha1 ice.icePassword ((stunPacket.drop 8).take 12) addr p a m f := by
  obtain ⟨hid, hlen⟩ := transactionId_of_parsed hparsed
  have hid12 : packet.transactionId.length = 12 := by
    rw [hid, List.length_take, List.length_drop]
    omega
  have hrun : ice.processStunPacket hmacSha1 addr stunPacket =
      some (some ((IceServer.response addr ice.icePassword packet).pack hmacSha1 []).1,
        if packet.hasUseCandidate then { ice with state := .connected } else ice) := by
    rw [IceServer.processStunPacket, hparsed, Option.map_some]
    dsimp only
    rw [if_pos hanswers]
  rw [← hid]
  exact ⟨_, _, hrun, answersRequest_pack hmac hfamily hpassword hid12⟩

theorem processStunPacket_answers_nominating :
    ∃ p ice', IceServer.processStunPacket (fun _ _ ↦ List.replicate 20 0) ⟨.new, localPwd⟩
        ⟨afInet6, 4000, 0, List.replicate 16 7, rfl⟩ PeerConnection.nominating = some (some p, ice') ∧
      ∃ a m f, AnswersRequest (fun _ _ ↦ List.replicate 20 0) localPwd [1, 2, 3, 4, 5, 6, 7, 8, 9, 10, 11, 12]
        ⟨afInet6, 4000, 0, List.replicate 16 7, rfl⟩ p a m f := by
  have hnominating : ((IceServer.parsed PeerConnection.nominating).bind id).any IceServer.answers = true := by
    decide +kernel
  obtain ⟨packet, hpacket, hanswers⟩ := (Option.any_eq_true _ _).mp hnominating
  obtain ⟨r, hparsed, rfl⟩ := Option.bind_eq_some_iff.mp hpacket
  exact processStunPacket_answers _ (fun _ _ ↦ rfl) ⟨.new, localPwd⟩ _ PeerConnection.nominating packet hparsed
    hanswers (Or.inr rfl) (by decide)

end Baize.Webrtc
