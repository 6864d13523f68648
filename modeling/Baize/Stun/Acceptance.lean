import Baize.Stun.Grammar

namespace Baize.Stun

open Lib Crypto

theorem attributes_size (t : Bytes) :
    attributes.size t = 4 + ((attrLength t).toNat + 3) / 4 * 4 := rfl

theorem length_of_frame {t : Bytes} (ht : attributes.Frame t) :
    t.length = 4 + ((attrLength t).toNat + 3) / 4 * 4 :=
  ht.symm

theorem length_attrValue {t : Bytes} (ht : attributes.Frame t) :
    (attrValue t).length = (attrLength t).toNat := by
  have := length_of_frame ht
  rw [attrValue, List.length_take, List.length_drop]
  omega

theorem drop_value {p t q : Bytes} {i : ℕ} (h : p.drop i = t ++ q) (ht : attributes.Frame t) :
    ∃ r, p.drop (i + 4) = attrValue t ++ r := by
  have := length_of_frame ht
  refine ⟨(t.drop 4).drop (attrLength t).toNat ++ q, ?_⟩
  rw [← List.append_assoc, attrValue, List.take_append_drop, ← List.drop_drop, h,
    List.drop_append_of_le_length (by omega)]

theorem Grammar.split {p : Bytes} {attrs : List Bytes} (h : Grammar p attrs) :
    attributes.split (p.drop 20) = (attrs, []) := by
  have := Format.split_flatten h.frames []
  rwa [List.append_nil, ← h.tiling, Format.split_nil, List.append_nil] at this

namespace StunPacket

section Attribute

variable {p t q r : Bytes} {s : Scan} (hd : p.drop (s.pos + 4) = attrValue t ++ r)
  (hv : (attrValue t).length = (attrLength t).toNat)

include hd hv

theorem take_value : (p.drop (s.pos + 4)).take (attrLength t).toNat = attrValue t := by
  rw [hd, ← hv, List.take_left]

theorem byte1_value {k : ℕ} (hk : k < (attrLength t).toNat) :
    byte1 p (s.pos + 4 + k) = byte1 (attrValue t) k := by
  rw [← byte1_drop, hd, byte1_append (hv ▸ hk)]

theorem byte4_value (hl : attrLength t = 4) : byte4 p (s.pos + 4) = byte4 (attrValue t) 0 := by
  rw [← Nat.add_zero (s.pos + 4), ← byte4_drop, hd, byte4_append (by rw [hv, hl]; decide)]

theorem byte8_value (hl : attrLength t = 8) : byte8 p (s.pos + 4) = byte8 (attrValue t) 0 := by
  rw [← Nat.add_zero (s.pos + 4), ← byte8_drop, hd, byte8_append (by rw [hv, hl]; decide)]

theorem setAttribute_eq :
    setAttribute p s (attrType t) (attrLength t) =
      if lengthOk (attrType t) (attrLength t) then some { s.next t with pos := s.pos } else none := by
  unfold setAttribute lengthOk Scan.next store
  cases hty : attrType t with
  | username | xorMappedAddress | other => simp [take_value hd hv]
  | priority | nomination | fingerprint =>
    by_cases hl : attrLength t = 4
    · simp [hl, byte4_value hd hv hl]
    · simp [hl]
  | iceControlling | iceControlled =>
    by_cases hl : attrLength t = 8
    · simp [hl, byte8_value hd hv hl]
    · simp [hl]
  | useCandidate => by_cases hl : attrLength t = 0 <;> simp [hl]
  | messageIntegrity =>
    by_cases hl : attrLength t = 20
    · have := take_value hd hv
      rw [hl] at this
      simpa [hl] using this
    · simp [hl]
  | errorCode =>
    by_cases hl : attrLength t < 4
    · simp [hl]
    · have hl' : 4 ≤ (attrLength t).toNat := UInt16.le_iff_toNat_le.mp (UInt16.not_lt.mp hl)
      simp [hl, UInt16.not_lt.mp hl, byte1_value hd hv (show 2 < _ by omega),
        byte1_value hd hv (show 3 < _ by omega)]

end Attribute

theorem parseAttribute_eq {p t q : Bytes} {s : Scan} (hp : p.length < 65536) (hpos : s.pos % 4 = 0)
    (hd : p.drop s.pos = t ++ q) (ht : attributes.Frame t) :
    parseAttribute p s = if s.allows t then some (s.next t) else none := by
  have hlen := length_of_frame ht
  have htype : byte2 p s.pos = byte2 t 0 := by
    rw [← Nat.add_zero s.pos, ← byte2_drop, hd, byte2_append (by omega)]
  have hattr : byte2 p (s.pos + 2) = attrLength t := by
    rw [← byte2_drop, hd, byte2_append (by omega), attrLength]
  have hfit : s.pos + t.length ≤ p.length := by
    have := congrArg List.length hd
    rw [List.length_drop, List.length_append] at this
    omega
  have hnext : (align4 (UInt16.ofNat (s.pos + 4 + (attrLength t).toNat))).toNat = s.pos + t.length := by
    have hsize : (UInt16.ofNat (s.pos + 4 + (attrLength t).toNat)).toNat =
        s.pos + 4 + (attrLength t).toNat := UInt16.toNat_ofNat_of_lt' (show _ < 65536 by omega)
    rw [align4_toNat _ (by omega), hsize]
    omega
  obtain ⟨r, hr⟩ := drop_value hd ht
  have hset := setAttribute_eq hr (length_attrValue ht)
  unfold parseAttribute
  simp only [htype, hattr, ← attrType.eq_1, hset, hnext]
  rw [if_neg (by omega)]
  unfold Scan.allows
  cases s.seenFingerprint <;> cases s.seenMessageIntegrity <;>
    by_cases hf : attrType t = .fingerprint <;>
    by_cases hl : lengthOk (attrType t) (attrLength t) <;> simp [hf, hl, Scan.next]

theorem parseAttribute_of_lt {p : Bytes} {s : Scan} (hpos : s.pos % 4 = 0) (hmod : p.length % 4 = 0)
    (hs : s.pos ≤ p.length) (h : (p.drop s.pos).length < attributes.size (p.drop s.pos)) :
    parseAttribute p s = none := by
  unfold parseAttribute
  rw [attributes_size, attrLength, byte2_drop, List.length_drop] at h
  rw [if_pos (by omega)]

def Scan.run (s : Scan) (ts : List Bytes) : Option Scan :=
  ts.foldlM (fun s t ↦ if s.allows t then some (s.next t) else none) s

theorem Scan.run_cons (s : Scan) (t : Bytes) (ts : List Bytes) :
    s.run (t :: ts) = if s.allows t then (s.next t).run ts else none := by
  simp only [Scan.run, List.foldlM_cons]
  split <;> rfl

theorem parseLoop_eq {p : Bytes} {s : Scan} {fuel : ℕ} (hp : p.length < 65536) (hmod : p.length % 4 = 0)
    (hpos : s.pos % 4 = 0) (hs : s.pos ≤ p.length) (hf : p.length - s.pos < fuel) :
    parseLoop p fuel s = some (if (attributes.split (p.drop s.pos)).2 = [] then
      s.run (attributes.split (p.drop s.pos)).1 else none) := by
  induction fuel generalizing s with
  | zero => omega
  | succ fuel ih =>
    have hlen : (p.drop s.pos).length = p.length - s.pos := List.length_drop
    by_cases h : attributes.size (p.drop s.pos) ≤ (p.drop s.pos).length
    · obtain ⟨t, q, hd, ht⟩ : ∃ t q, p.drop s.pos = t ++ q ∧ attributes.Frame t :=
        ⟨_, _, (List.take_append_drop _ _).symm, Format.frame_take h⟩
      have ht4 := length_of_frame ht
      have hq : p.drop (s.next t).pos = q := by
        rw [Scan.next, ← List.drop_drop, hd, List.drop_left]
      have hnext : (s.next t).pos = s.pos + t.length := rfl
      have hle : s.pos + t.length ≤ p.length := by
        rw [hd, List.length_append] at hlen
        omega
      rw [hd, Format.split_frame_append ht, Scan.run_cons, parseLoop, if_pos (by omega),
        parseAttribute_eq hp hpos hd ht]
      by_cases hallow : s.allows t = true
      · simp only [hallow, if_true]
        rw [ih (by omega) (by omega) (by omega), hq]
      · simp only [if_neg hallow, ite_self]
    · rw [Format.split_of_lt (not_le.mp h), parseLoop]
      by_cases hend : s.pos = p.length
      · rw [if_neg (by omega), if_pos (List.drop_eq_nil_of_le hend.ge)]
        rfl
      · rw [if_pos (by omega), parseAttribute_of_lt hpos hmod hs (not_le.mp h),
          if_neg (show p.drop s.pos ≠ [] from List.ne_nil_of_length_pos (by omega))]

theorem Scan.allows_next (s : Scan) (a b : Bytes) :
    (s.next a).allows b = true ↔ s.allows b = true ∧ MayFollow a b := by
  simp only [Scan.allows, Scan.next, MayFollow, Bool.and_eq_true, Bool.or_eq_true, Bool.not_eq_true',
    Bool.or_eq_false_iff, decide_eq_true_eq, decide_eq_false_iff_not]
  tauto

theorem Scan.run_eq_some {s s' : Scan} {ts : List Bytes} :
    s.run ts = some s' ↔
      (∀ t ∈ ts, s.allows t = true) ∧ ts.Pairwise MayFollow ∧ ts.foldl Scan.next s = s' := by
  induction ts generalizing s with
  | nil => simp [Scan.run]
  | cons t ts ih =>
    rw [Scan.run_cons, List.foldl_cons, List.pairwise_cons, List.forall_mem_cons]
    by_cases hallow : s.allows t = true
    · rw [if_pos hallow, ih]
      simp only [Scan.allows_next, forall_and, hallow, true_and, and_assoc]
    · rw [if_neg hallow]
      simp [hallow]

section Fold

variable (s : Scan) (ts : List Bytes)

theorem foldl_next_self : (ts.foldl Scan.next s).self = ts.foldl store s.self := by
  induction ts generalizing s with
  | nil => rfl
  | cons t ts ih => exact ih _

theorem foldl_next_pos : (ts.foldl Scan.next s).pos = s.pos + ts.flatten.length := by
  induction ts generalizing s with
  | nil => rfl
  | cons t ts ih =>
    rw [List.foldl_cons, ih, List.flatten_cons, List.length_append, Scan.next, Nat.add_assoc]

theorem foldl_next_seenFingerprint (hts : ∀ t ∈ ts, attrType t ≠ .fingerprint) :
    (ts.foldl Scan.next s).seenFingerprint = s.seenFingerprint := by
  induction ts generalizing s with
  | nil => rfl
  | cons t ts ih =>
    obtain ⟨ht, hts⟩ := List.forall_mem_cons.mp hts
    rw [List.foldl_cons, ih _ hts, Scan.next, decide_eq_false ht, Bool.or_false]

end Fold

theorem fingerprintOk_concat {p t : Bytes} {ts : List Bytes} (horder : (ts ++ [t]).Pairwise MayFollow) :
    FingerprintOk p (ts ++ [t]) ↔ (attrType t = .fingerprint →
      byte4 (attrValue t) 0 = crc32 (p.take (20 + ts.flatten.length)) ^^^ 0x5354554e) := by
  constructor
  · intro h hty
    exact h ts t [] rfl hty
  · intro h pre t' post heq hty
    rw [heq, List.pairwise_append, List.pairwise_cons] at horder
    cases post with
    | nil =>
      obtain ⟨rfl, h1⟩ := List.append_inj' heq rfl
      obtain rfl := List.singleton_inj.mp h1
      exact h hty
    | cons b post => exact absurd hty (horder.2.1.1 b List.mem_cons_self).1

theorem finish_foldl {p : Bytes} {s : Scan} {ts : List Bytes} {self' : StunPacket} (hpos : s.pos = 20)
    (hs : s.seenFingerprint = false) (htile : p.length = 20 + ts.flatten.length)
    (horder : ts.Pairwise MayFollow) :
    finish p (ts.foldl Scan.next s) = some self' ↔
      FingerprintOk p ts ∧ ts.foldl store s.self = self' := by
  have hend : (ts.foldl Scan.next s).pos = p.length := by rw [foldl_next_pos, hpos, htile]
  unfold finish
  rw [if_neg (not_not.mpr hend), foldl_next_self]
  cases ts using List.reverseRecOn with
  | nil => simp [FingerprintOk, hs]
  | append_singleton ts t =>
    rw [fingerprintOk_concat horder, List.foldl_concat]
    have hpre : (ts.foldl Scan.next s).seenFingerprint = false := by
      rw [foldl_next_seenFingerprint, hs]
      intro a ha
      exact ((List.pairwise_append.mp horder).2.2 a ha t (List.mem_singleton_self t)).1
    have hat : (ts.foldl Scan.next s).pos = 20 + ts.flatten.length := by rw [foldl_next_pos, hpos]
    by_cases hty : attrType t = .fingerprint
    · simp [Scan.next, hty, hat]
    · simp [Scan.next, hty, hpre]

theorem lastValue_concat (ts : List Bytes) (t : Bytes) (ty : Attribute) :
    lastValue (ts ++ [t]) ty = if attrType t = ty then some (attrValue t) else lastValue ts ty := by
  by_cases h : attrType t = ty <;> simp [lastValue, List.filter_append, h]

theorem foldl_store {β : Type} (field : StunPacket → β) {ty : Attribute} {get : Bytes → β}
    (hstore : ∀ self t, field (store self t) = if attrType t = ty then get (attrValue t) else field self)
    (self : StunPacket) (ts : List Bytes) :
    field (ts.foldl store self) = (lastValue ts ty).elim (field self) get := by
  induction ts using List.reverseRecOn with
  | nil => rfl
  | append_singleton ts t ih =>
    rw [List.foldl_concat, hstore, ih, lastValue_concat]
    split <;> rfl

theorem methodOf_toNat (t : UInt16) :
    (methodOf t).toNat = t.toNat / 512 % 32 * 128 + t.toNat / 32 % 8 * 16 + t.toNat % 16 := by
  have t₁ : (t &&& 0x000f).toNat = (t.toNat / 1 % 16) <<< 0 := toNat_and_field (n := 4) (j := 0) rfl
  have t₂ : ((t &&& 0x00e0) >>> 1).toNat = (t.toNat / 32 % 8) <<< 4 :=
    toNat_field_shiftRight (n := 3) (j := 5) rfl 1 (by decide) (by decide)
  have t₃ : ((t &&& 0x3E00) >>> 2).toNat = (t.toNat / 512 % 32) <<< 7 :=
    toNat_field_shiftRight (n := 5) (j := 9) rfl 2 (by decide) (by decide)
  rw [Nat.div_one, Nat.shiftLeft_zero] at t₁
  rw [methodOf, UInt16.toNat_or, UInt16.toNat_or, t₁, t₂, t₃, or_shiftLeft (by omega) (t.toNat / 32 % 8),
    or_shiftLeft (by omega)]
  omega

theorem classOf_toNat (p : Bytes) :
    (classOf p).toUInt16.toNat = (byte2 p 0).toNat / 256 % 2 * 2 + (byte2 p 0).toNat / 16 % 2 := by
  have hof (v : UInt16) (hv : v.toNat < 4) : (Class.ofUInt16 v).toUInt16 = v := by
    have : v = 0 ∨ v = 1 ∨ v = 2 ∨ v = 3 := by
      simp only [← UInt16.toNat_inj]
      simp
      omega
    rcases this with rfl | rfl | rfl | rfl <;> rfl
  have h0 := (byte1 p 0).toNat_lt
  have h1 := (byte1 p 1).toNat_lt
  have t₁ : (((byte1 p 0).toUInt16 &&& 0x01) <<< 1).toNat = ((byte1 p 0).toUInt16.toNat / 1 % 2) <<< 1 :=
    toNat_field_shiftLeft (n := 1) (j := 0) rfl 1 (by decide) (by decide)
  have t₂ : (((byte1 p 1).toUInt16 &&& 0x10) >>> 4).toNat = ((byte1 p 1).toUInt16.toNat / 16 % 2) <<< 0 :=
    toNat_field_shiftRight (n := 1) (j := 4) rfl 4 (by decide) (by decide)
  rw [Nat.div_one, UInt8.toNat_toUInt16] at t₁
  rw [Nat.shiftLeft_zero, UInt8.toNat_toUInt16] at t₂
  have hbits : (((byte1 p 0).toUInt16 &&& 0x01) <<< 1 ||| ((byte1 p 1).toUInt16 &&& 0x10) >>> 4).toNat =
      (byte1 p 0).toNat % 2 * 2 + (byte1 p 1).toNat / 16 % 2 := by
    rw [UInt16.toNat_or, t₁, t₂, Nat.or_comm, or_shiftLeft (by omega)]
    omega
  rw [classOf, hof _ (by omega), hbits, byte2_toNat, Nat.zero_add]
  omega

theorem isStun_iff {p : Bytes} :
    isStun p = true ↔ 20 ≤ p.length ∧ byte1 p 0 < 3 ∧ (p.drop 4).take 4 = magicCookie := by
  have htake (h : 20 ≤ p.length) :
      (p.drop 4).take 4 = [byte1 p 4, byte1 p 5, byte1 p 6, byte1 p 7] := by
    match p, h with
    | _ :: _ :: _ :: _ :: _ :: _ :: _ :: _ :: _, _ => rfl
  simp only [isStun, Bool.and_eq_true, decide_eq_true_eq, beq_iff_eq]
  constructor
  · rintro ⟨⟨⟨⟨⟨hlen, h0⟩, h4⟩, h5⟩, h6⟩, h7⟩
    refine ⟨hlen, h0, ?_⟩
    rw [htake hlen, h4, h5, h6, h7, magicCookie]
  · rintro ⟨hlen, h0, hcookie⟩
    rw [htake hlen, magicCookie] at hcookie
    simpa [hlen, h0, and_assoc] using hcookie

theorem length_check_iff {p : Bytes} (h : 20 ≤ p.length) :
    (((byte2 p 2).toNat : ℤ) ≠ p.length - 20 ∨ (byte2 p 2 &&& (0x03 : UInt16)) ≠ 0) ↔
      ¬((byte2 p 2).toNat = p.length - 20 ∧ (byte2 p 2).toNat % 4 = 0) := by
  have h3 : (byte2 p 2 &&& (0x03 : UInt16)) = 0 ↔ (byte2 p 2).toNat % 4 = 0 := by
    rw [← toNat_and_three, ← UInt16.toNat_inj, UInt16.toNat_zero]
  rw [Ne, Ne, h3]
  omega

theorem Scan.start_pos (self : StunPacket) : (Scan.start self).pos = 20 := rfl

theorem Scan.start_allows (self : StunPacket) (t : Bytes) :
    (Scan.start self).allows t = lengthOk (attrType t) (attrLength t) := by
  simp [Scan.allows, Scan.start]

/-- With enough turns for the loop `Parse` returns, and it accepts exactly the
grammar. -/
theorem parse_spec {p : Bytes} {fuel : ℕ} (self : StunPacket) (hp : p.length < 65536)
    (hf : p.length < fuel) :
    ∃ r, parse fuel self p = some r ∧ ∀ self', r = some self' ↔
      ∃ attrs, Grammar p attrs ∧ attrs.foldl store (self.readHeader p) = self' := by
  unfold parse
  by_cases hstun : isStun p = true
  swap
  · refine ⟨none, by simp [hstun], fun self' ↦ ⟨nofun, ?_⟩⟩
    rintro ⟨attrs, h, -⟩
    exact absurd (isStun_iff.mpr ⟨h.header, h.first, h.cookie⟩) hstun
  obtain ⟨hheader, hfirst, hcookie⟩ := isStun_iff.mp hstun
  simp only [hstun, Bool.not_true, Bool.false_eq_true, if_false, length_check_iff hheader]
  by_cases hlen : (byte2 p 2).toNat = p.length - 20 ∧ (byte2 p 2).toNat % 4 = 0
  swap
  · refine ⟨none, if_pos hlen, fun self' ↦ ⟨nofun, ?_⟩⟩
    rintro ⟨attrs, h, -⟩
    exact absurd ⟨h.length, h.length_mod⟩ hlen
  have hdrop : (p.drop 20).length = p.length - 20 := List.length_drop
  have hturns : p.length - (Scan.start (self.readHeader p)).pos < fuel := by
    rw [Scan.start_pos]
    omega
  have hloop := parseLoop_eq hp (by omega) (by rw [Scan.start_pos]) hheader hturns
  rw [if_neg (not_not.mpr hlen), hloop, Scan.start_pos]
  refine ⟨_, rfl, fun self' ↦ ?_⟩
  rw [Option.bind_eq_some_iff]
  constructor
  · rintro ⟨s', hrun, hfin⟩
    split at hrun
    case isFalse => cases hrun
    case isTrue hrest =>
      obtain ⟨hallow, horder, rfl⟩ := Scan.run_eq_some.mp hrun
      have htile := attributes.split_append (p.drop 20)
      rw [hrest, List.append_nil] at htile
      obtain ⟨hfp, hself⟩ := (finish_foldl rfl rfl (by rw [htile]; omega) horder).mp hfin
      simp only [Scan.start_allows] at hallow
      exact ⟨_, ⟨hheader, hfirst, hcookie, hlen.1, hlen.2, htile.symm,
        fun t ↦ Format.frame_of_mem_split, hallow, horder, hfp⟩, hself⟩
  · rintro ⟨attrs, h, hself⟩
    rw [h.split, if_pos rfl]
    refine ⟨_, Scan.run_eq_some.mpr ⟨?_, h.order, rfl⟩, ?_⟩
    · simpa only [Scan.start_allows] using h.lengths
    · refine (finish_foldl rfl rfl ?_ h.order).mpr ⟨h.fingerprint, hself⟩
      rw [← h.tiling]
      omega

theorem foldl_store_of_eq {β : Type} (field : StunPacket → β)
    (hstore : ∀ self t, field (store self t) = field self) (self : StunPacket) (ts : List Bytes) :
    field (ts.foldl store self) = field self := by
  induction ts generalizing self with
  | nil => rfl
  | cons t ts ih => rw [List.foldl_cons, ih, hstore]

theorem errorCode_toNat (c n : UInt8) :
    (c.toUInt16 * 100 + n.toUInt16).toNat = c.toNat * 100 + n.toNat := by
  have := c.toNat_lt
  have := n.toNat_lt
  rw [UInt16.toNat_add, UInt16.toNat_mul, UInt8.toNat_toUInt16, UInt8.toNat_toUInt16,
    show (100 : UInt16).toNat = 100 from rfl]
  omega

theorem getters_foldl (k : Class) (m : UInt16) (p : Bytes) (attrs : List Bytes) :
    Getters p attrs (attrs.foldl store ((fresh k m).readHeader p)) := by
  have isSome (ty : Attribute) :
      (lastValue attrs ty).isSome = (lastValue attrs ty).elim false fun _ ↦ true := by
    cases lastValue attrs ty <;> rfl
  have getD (ty : Attribute) : (lastValue attrs ty).getD [] = (lastValue attrs ty).elim [] id := by
    cases lastValue attrs ty <;> rfl
  constructor
  case klass =>
    rw [foldl_store_of_eq (fun s ↦ s.klass) (by intro _ t; unfold store; cases attrType t <;> rfl)]
    exact classOf_toNat p
  case method =>
    rw [foldl_store_of_eq (fun s ↦ s.method) (by intro _ t; unfold store; cases attrType t <;> rfl)]
    exact methodOf_toNat _
  case transactionId =>
    exact foldl_store_of_eq (fun s ↦ s.transactionId)
      (by intro _ t; unfold store; cases attrType t <;> rfl) _ _
  case errorCode =>
    refine foldl_store (fun s ↦ s.errorCode.toNat) ?_ _ _
    intro _ t
    unfold store
    cases attrType t with
    | errorCode => exact errorCode_toNat _ _
    | _ => rfl
  all_goals
    first | rw [isSome] | rw [getD] | skip
    refine foldl_store _ ?_ _ _
    intro _ t
    unfold store
    cases attrType t <;> rfl

theorem parse_accepts_grammar (klass : Class) (method : UInt16) {p : Bytes} {fuel : ℕ}
    (hp : p.length < 65536) (hf : p.length < fuel) :
    ∃ r, parse fuel (fresh klass method) p = some r ∧ (r.isSome ↔ ∃ attrs, Grammar p attrs) ∧
      ∀ self attrs, r = some self → Grammar p attrs → Getters p attrs self := by
  obtain ⟨r, hr, hspec⟩ := parse_spec (fresh klass method) hp hf
  refine ⟨r, hr, ?_, ?_⟩
  · rw [Option.isSome_iff_exists]
    constructor
    · rintro ⟨self, hself⟩
      obtain ⟨attrs, h, -⟩ := (hspec self).mp hself
      exact ⟨attrs, h⟩
    · rintro ⟨attrs, h⟩
      exact ⟨_, (hspec _).mpr ⟨attrs, h, rfl⟩⟩
  · intro self attrs hself h
    obtain ⟨attrs', h', rfl⟩ := (hspec self).mp hself
    obtain rfl : attrs' = attrs := congrArg Prod.fst (h'.split.symm.trans h.split)
    exact getters_foldl klass method p attrs'

def priorityRequest : Bytes :=
  [0x00, 0x01, 0x00, 0x08] ++ magicCookie ++ [1, 2, 3, 4, 5, 6, 7, 8, 9, 10, 11, 12] ++
    [0x00, 0x24, 0x00, 0x04, 0x6E, 0x00, 0x1E, 0xFF]

theorem parse_accepts_grammar_priorityRequest :
    priorityRequest.length = 28 ∧
      ∃ r, parse 29 (fresh .request 1) priorityRequest = some r ∧
        (r.isSome ↔ ∃ attrs, Grammar priorityRequest attrs) ∧
        ∀ self attrs, r = some self → Grammar priorityRequest attrs → Getters priorityRequest attrs self :=
  ⟨rfl, parse_accepts_grammar .request 1 (by decide) (by decide)⟩

end StunPacket

end Baize.Stun
