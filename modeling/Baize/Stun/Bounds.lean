import Baize.Stun.Acceptance
import Baize.Rtp.Datagram
import Baize.Util.Reads

namespace Baize.Stun

open Lib Crypto
open Rtp (read1 read2 read4 read1_of read2_of read4_of)

namespace StunPacket

def read8 (data : Bytes) (i : ℕ) : Checked UInt64 := do
  let high ← read4 data i
  let low ← read4 data (i + 4)
  pure (high.toUInt64 <<< 32 ||| low.toUInt64)

def isStunReads (p : Bytes) : Checked Bool :=
  if 20 ≤ p.length then do
    let b₀ ← read1 p 0
    let b₄ ← read1 p 4
    let b₅ ← read1 p 5
    let b₆ ← read1 p 6
    let b₇ ← read1 p 7
    pure (b₀ < 3 && b₄ == 0x21 && b₅ == 0x12 && b₆ == 0xA4 && b₇ == 0x42)
  else pure false

def setAttributeReads (p : Bytes) (s : Scan) (attrType : Attribute) (attrLength : UInt16) :
    Checked (Option Scan) :=
  let value := s.pos + 4
  match attrType with
  | .username => do
    let username ← readSpan p value attrLength.toNat
    pure (some { s with self := { s.self with username := username } })
  | .priority =>
    if attrLength ≠ 4 then pure none
    else do
      let priority ← read4 p value
      pure (some { s with self := { s.self with priority := priority } })
  | .iceControlling =>
    if attrLength ≠ 8 then pure none
    else do
      let iceControlling ← read8 p value
      pure (some { s with self := { s.self with iceControlling := iceControlling } })
  | .iceControlled =>
    if attrLength ≠ 8 then pure none
    else do
      let iceControlled ← read8 p value
      pure (some { s with self := { s.self with iceControlled := iceControlled } })
  | .useCandidate =>
    if attrLength ≠ 0 then pure none
    else pure (some { s with self := { s.self with hasUseCandidate := true } })
  | .nomination =>
    if attrLength ≠ 4 then pure none
    else do
      let nomination ← read4 p value
      pure (some { s with self := { s.self with hasNomination := true, nomination := nomination } })
  | .messageIntegrity =>
    if attrLength ≠ 20 then pure none
    else do
      let messageIntegrity ← readSpan p value 20
      pure (some { s with
        self := { s.self with messageIntegrity := messageIntegrity }
        seenMessageIntegrity := true })
  | .fingerprint =>
    if attrLength ≠ 4 then pure none
    else do
      let fingerprint ← read4 p value
      pure (some { s with
        self := { s.self with hasFingerprint := true, fingerprint := fingerprint }
        seenFingerprint := true
        fingerprintAttrPos := s.pos
        fingerprint := fingerprint })
  | .errorCode =>
    if attrLength < 4 then pure none
    else do
      let errorClass ← read1 p (value + 2)
      let errorNumber ← read1 p (value + 3)
      pure (some { s with
        self := { s.self with errorCode := errorClass.toUInt16 * 100 + errorNumber.toUInt16 } })
  | .xorMappedAddress | .other _ => pure (some s)

def parseAttributeReads (p : Bytes) (s : Scan) : Checked (Option Scan) := do
  let code ← read2 p s.pos
  let attrLength ← read2 p (s.pos + 2)
  let attrType := Attribute.ofCode code
  if p.length < s.pos + 4 + attrLength.toNat then pure none
  else if s.seenFingerprint then pure none
  else if s.seenMessageIntegrity && attrType ≠ .fingerprint then pure none
  else do
    let scan ← setAttributeReads p s attrType attrLength
    pure (scan.map fun s' ↦
      { s' with pos := (align4 (UInt16.ofNat (s.pos + 4 + attrLength.toNat))).toNat })

def parseLoopReads (p : Bytes) : ℕ → Scan → Checked (Option (Option Scan))
  | 0, _ => pure none
  | fuel + 1, s =>
    if s.pos + 4 ≤ p.length then do
      let scan ← parseAttributeReads p s
      match scan with
      | none => pure (some none)
      | some s' => parseLoopReads p fuel s'
    else pure (some (some s))

def readHeaderReads (self : StunPacket) (p : Bytes) : Checked StunPacket := do
  let msgType ← read2 p 0
  let b₀ ← read1 p 0
  let b₁ ← read1 p 1
  let transactionId ← readSpan p 8 12
  pure { self with
    method := methodOf msgType
    klass := .ofUInt16 ((b₀.toUInt16 &&& 0x01) <<< 1 ||| (b₁.toUInt16 &&& 0x10) >>> 4)
    transactionId := transactionId }

def finishReads (p : Bytes) (s : Scan) : Checked (Option StunPacket) :=
  if s.pos ≠ p.length then pure none
  else if s.seenFingerprint then do
    let covered ← readSpan p 0 s.fingerprintAttrPos
    if s.fingerprint ≠ crc32 covered ^^^ 0x5354554e then pure none else pure (some s.self)
  else pure (some s.self)

def parseReads (fuel : ℕ) (self : StunPacket) (p : Bytes) : Checked (Option (Option StunPacket)) := do
  let stun ← isStunReads p
  if !stun then pure (some none)
  else
    let msgLength ← read2 p 2
    if (msgLength.toNat : ℤ) ≠ p.length - 20 ∨ (msgLength &&& (0x03 : UInt16)) ≠ 0 then pure (some none)
    else
      let self ← readHeaderReads self p
      let scan ← parseLoopReads p fuel (.start self)
      match scan with
      | none => pure none
      | some none => pure (some none)
      | some (some s) => do
        let result ← finishReads p s
        pure (some result)

section Reads

variable {p : Bytes} {s : Scan}

theorem read8_of {i : ℕ} (h : i + 7 < p.length) : read8 p i = .ok (byte8 p i) := by
  rw [read8, read4_of (by omega), ok_bind, read4_of (by omega), ok_bind]
  rfl

theorem isStunReads_eq (p : Bytes) : isStunReads p = .ok (isStun p) := by
  unfold isStunReads isStun
  by_cases h : 20 ≤ p.length
  · rw [if_pos h, read1_of (by omega), ok_bind, read1_of (by omega), ok_bind, read1_of (by omega), ok_bind,
      read1_of (by omega), ok_bind, read1_of (by omega), ok_bind, decide_eq_true h]
    rfl
  · rw [if_neg h, decide_eq_false h]
    rfl

theorem setAttributeReads_eq {attrLength : UInt16} (h : s.pos + 4 + attrLength.toNat ≤ p.length)
    (attrType : Attribute) :
    setAttributeReads p s attrType attrLength = .ok (setAttribute p s attrType attrLength) := by
  unfold setAttributeReads setAttribute
  cases attrType with
  | username =>
    dsimp only
    rw [readSpan_of h]
    rfl
  | priority | nomination | fingerprint =>
    dsimp only
    split
    · rfl
    next hl =>
      rw [not_not] at hl
      rw [hl] at h
      rw [read4_of (Nat.lt_of_succ_le h)]
      rfl
  | iceControlling | iceControlled =>
    dsimp only
    split
    · rfl
    next hl =>
      rw [not_not] at hl
      rw [hl] at h
      rw [read8_of (Nat.lt_of_succ_le h)]
      rfl
  | useCandidate =>
    dsimp only
    split <;> rfl
  | messageIntegrity =>
    dsimp only
    split
    · rfl
    next hl =>
      rw [not_not] at hl
      rw [hl] at h
      rw [readSpan_of (n := 20) h]
      rfl
  | errorCode =>
    dsimp only
    split
    · rfl
    next hl =>
      have hl4 : 4 ≤ attrLength.toNat := UInt16.le_iff_toNat_le.mp (UInt16.not_lt.mp hl)
      rw [read1_of (by omega), ok_bind, read1_of (by omega)]
      rfl
  | xorMappedAddress | other => rfl

theorem parseAttributeReads_eq (h : s.pos + 4 ≤ p.length) :
    parseAttributeReads p s = .ok (parseAttribute p s) := by
  unfold parseAttributeReads parseAttribute
  rw [read2_of (by omega), ok_bind, read2_of (by omega), ok_bind]
  dsimp only
  split
  · rfl
  next hfit =>
  rw [setAttributeReads_eq (not_lt.mp hfit), ok_bind]
  split
  · rfl
  split
  · rfl
  · rfl

theorem parseLoopReads_eq (p : Bytes) (fuel : ℕ) (s : Scan) :
    parseLoopReads p fuel s = .ok (parseLoop p fuel s) := by
  induction fuel generalizing s with
  | zero => rfl
  | succ fuel ih =>
    rw [parseLoopReads, parseLoop]
    by_cases h : s.pos + 4 ≤ p.length
    · rw [if_pos h, if_pos h, parseAttributeReads_eq h, ok_bind]
      cases parseAttribute p s with
      | none => rfl
      | some s' => exact ih s'
    · rw [if_neg h, if_neg h]
      rfl

theorem readHeaderReads_eq (self : StunPacket) (h : 20 ≤ p.length) :
    readHeaderReads self p = .ok (readHeader self p) := by
  rw [readHeaderReads, read2_of (by omega), ok_bind, read1_of (by omega), ok_bind, read1_of (by omega),
    ok_bind, readSpan_of (by omega)]
  rfl

theorem finishReads_eq (h : s.fingerprintAttrPos ≤ p.length) : finishReads p s = .ok (finish p s) := by
  unfold finishReads finish
  rw [readSpan_of (by omega), ok_bind, List.drop_zero]
  split
  · rfl
  cases s.seenFingerprint with
  | false => rfl
  | true =>
    simp only [if_true, Bool.true_and, decide_eq_true_eq]
    split <;> rfl

theorem fingerprintAttrPos_of_setAttribute {s' : Scan} {attrType : Attribute} {attrLength : UInt16}
    (h : setAttribute p s attrType attrLength = some s') :
    s'.fingerprintAttrPos = s.fingerprintAttrPos ∨ s'.fingerprintAttrPos = s.pos := by
  unfold setAttribute at h
  cases attrType with
  | username | xorMappedAddress | other => exact Or.inl (by rw [← Option.some.inj h])
  | fingerprint =>
    dsimp only at h
    split at h
    · cases h
    · exact Or.inr (by rw [← Option.some.inj h])
  | _ =>
    dsimp only at h
    split at h
    · cases h
    · exact Or.inl (by rw [← Option.some.inj h])

theorem parseAttribute_eq_some {s' : Scan} (h : parseAttribute p s = some s') :
    s.pos + 4 + (byte2 p (s.pos + 2)).toNat ≤ p.length ∧
      ∃ t, setAttribute p s (.ofCode (byte2 p s.pos)) (byte2 p (s.pos + 2)) = some t ∧
        s' = { t with
          pos := (align4 (UInt16.ofNat (s.pos + 4 + (byte2 p (s.pos + 2)).toNat))).toNat } := by
  unfold parseAttribute at h
  dsimp only at h
  split at h
  · cases h
  next hfit =>
  split at h
  · cases h
  split at h
  · cases h
  obtain ⟨t, ht, rfl⟩ := Option.map_eq_some_iff.mp h
  exact ⟨not_lt.mp hfit, t, ht, rfl⟩

theorem parseLoop_invariant {P : Scan → Prop}
    (hturn : ∀ s s', s.pos + 4 ≤ p.length → parseAttribute p s = some s' → P s → P s') {fuel : ℕ}
    {s' : Scan} (h : parseLoop p fuel s = some (some s')) (hs : P s) : P s' := by
  induction fuel generalizing s with
  | zero => cases h
  | succ fuel ih =>
    rw [parseLoop] at h
    split at h
    · next hin =>
      cases hnext : parseAttribute p s with
      | none =>
        rw [hnext] at h
        cases h
      | some s₁ =>
        rw [hnext] at h
        exact ih h (hturn s s₁ hin hnext hs)
    · rwa [← Option.some.inj (Option.some.inj h)]

theorem fingerprintAttrPos_of_parseLoop {fuel : ℕ} {s' : Scan} (h : parseLoop p fuel s = some (some s'))
    (hs : s.fingerprintAttrPos ≤ p.length) : s'.fingerprintAttrPos ≤ p.length := by
  refine parseLoop_invariant (P := fun s ↦ s.fingerprintAttrPos ≤ p.length) ?_ h hs
  intro s s' hin hturn hs
  obtain ⟨-, t, ht, rfl⟩ := parseAttribute_eq_some hturn
  rcases fingerprintAttrPos_of_setAttribute ht with heq | heq
  · exact heq.trans_le hs
  · exact heq.trans_le (by omega)

theorem parseReads_eq (fuel : ℕ) (self : StunPacket) (p : Bytes) :
    parseReads fuel self p = .ok (parse fuel self p) := by
  rw [parseReads, isStunReads_eq, ok_bind, parse]
  by_cases hstun : isStun p = true
  swap
  · rw [Bool.not_eq_true] at hstun
    rw [hstun]
    rfl
  have h20 := (isStun_iff.mp hstun).1
  rw [hstun, if_neg (by decide), if_neg (by decide), read2_of (by omega), ok_bind]
  dsimp only
  split
  · rfl
  rw [readHeaderReads_eq self h20, ok_bind, parseLoopReads_eq, ok_bind]
  cases hloop : parseLoop p fuel (.start (self.readHeader p)) with
  | none => rfl
  | some r =>
    cases r with
    | none => rfl
    | some s =>
      have hcovered := fingerprintAttrPos_of_parseLoop hloop (Nat.zero_le _)
      dsimp only
      rw [finishReads_eq hcovered]
      rfl

end Reads

structure HeaderOk (p : Bytes) : Prop where
  stun : isStun p = true
  length : (byte2 p 2).toNat = p.length - 20
  length_mod : (byte2 p 2).toNat % 4 = 0

/-- The states in which the condition of the loop is evaluated. -/
inductive Reached (self : StunPacket) (p : Bytes) : Scan → Prop
  | start (h : HeaderOk p) : Reached self p (.start (self.readHeader p))
  | turn {s s' : Scan} (hs : Reached self p s) (hin : s.pos + 4 ≤ p.length)
      (h : parseAttribute p s = some s') : Reached self p s'

/-- `Parse` ends, its position moves forward inside the packet, and so do its reads. -/
structure Bounded (init : StunPacket) (p : Bytes) : Prop where
  terminates : ∃ fuel, parse fuel init p ≠ none
  increases : ∀ s s', Reached init p s → s.pos + 4 ≤ p.length → parseAttribute p s = some s' →
    s.pos < s'.pos ∧ s'.pos ≤ p.length
  reads : ∀ fuel, parseReads fuel init p = .ok (parse fuel init p)

/-- No attribute that is taken ends where the 16-bit position cannot follow. -/
def Followed (self : StunPacket) (p : Bytes) : Prop :=
  ∀ s s', Reached self p s → s.pos + 4 ≤ p.length → parseAttribute p s = some s' →
    s.pos + 4 + (byte2 p (s.pos + 2)).toNat ≤ 65532

theorem HeaderOk.header_le {p : Bytes} (h : HeaderOk p) : 20 ≤ p.length := (isStun_iff.mp h.stun).1

theorem HeaderOk.length_le {p : Bytes} (h : HeaderOk p) : p.length ≤ 65552 := by
  have := (byte2 p 2).toNat_lt
  have := h.length
  have := h.length_mod
  omega

theorem Reached.headerOk {self : StunPacket} {p : Bytes} {s : Scan} (h : Reached self p s) : HeaderOk p := by
  induction h with
  | start h => exact h
  | turn _ _ _ ih => exact ih

theorem parse_of_headerOk {p : Bytes} (h : HeaderOk p) (fuel : ℕ) (self : StunPacket) :
    parse fuel self p =
      (parseLoop p fuel (.start (self.readHeader p))).map fun r ↦ r.bind (finish p) := by
  have hlen : ¬¬((byte2 p 2).toNat = p.length - 20 ∧ (byte2 p 2).toNat % 4 = 0) :=
    not_not.mpr ⟨h.length, h.length_mod⟩
  rw [parse, h.stun, if_neg (by decide), if_neg (by rwa [length_check_iff h.header_le])]

theorem parse_of_not_headerOk {p : Bytes} (h : ¬HeaderOk p) (fuel : ℕ) (self : StunPacket) :
    parse fuel self p = some none := by
  unfold parse
  by_cases hstun : isStun p = true
  · have hlen : ¬((byte2 p 2).toNat = p.length - 20 ∧ (byte2 p 2).toNat % 4 = 0) :=
      fun hlen ↦ h ⟨hstun, hlen.1, hlen.2⟩
    rw [hstun, if_neg (by decide), if_pos ((length_check_iff (isStun_iff.mp hstun).1).mpr hlen)]
  · rw [Bool.not_eq_true] at hstun
    rw [hstun]
    rfl

theorem pos_of_parseAttribute {p : Bytes} {s s' : Scan} (h : parseAttribute p s = some s') :
    s.pos + 4 + (byte2 p (s.pos + 2)).toNat ≤ p.length ∧
      s'.pos = (align4 (UInt16.ofNat (s.pos + 4 + (byte2 p (s.pos + 2)).toNat))).toNat := by
  obtain ⟨hfit, t, -, rfl⟩ := parseAttribute_eq_some h
  exact ⟨hfit, rfl⟩

theorem align4_of_followed {n : ℕ} (h : n ≤ 65532) : (align4 (UInt16.ofNat n)).toNat = (n + 3) / 4 * 4 := by
  have hn : (UInt16.ofNat n).toNat = n := UInt16.toNat_ofNat_of_lt' (show n < 65536 by omega)
  rw [align4_toNat _ (by omega), hn]

/-- Beyond that the position starts again in the header. -/
theorem align4_of_not_followed {n : ℕ} (hl : 65532 < n) (hu : n ≤ 65552) :
    (align4 (UInt16.ofNat n)).toNat ≤ 16 := by
  interval_cases n <;> decide

theorem Reached.aligned {self : StunPacket} {p : Bytes} {s : Scan} (h : Reached self p s)
    (hf : Followed self p) : 20 ≤ s.pos ∧ s.pos ≤ p.length ∧ s.pos % 4 = 0 := by
  induction h with
  | start h =>
    rw [Scan.start_pos]
    exact ⟨le_rfl, h.header_le, rfl⟩
  | turn hs hin hturn ih =>
    obtain ⟨hfit, hpos⟩ := pos_of_parseAttribute hturn
    have hmod := hs.headerOk.length_mod
    have hlen := hs.headerOk.length
    have hle := hs.headerOk.header_le
    rw [align4_of_followed (hf _ _ hs hin hturn)] at hpos
    omega

theorem increases_of_followed {self : StunPacket} {p : Bytes} {s s' : Scan} (hf : Followed self p)
    (hs : Reached self p s) (hin : s.pos + 4 ≤ p.length) (h : parseAttribute p s = some s') :
    s.pos < s'.pos ∧ s'.pos ≤ p.length := by
  obtain ⟨-, hpos⟩ := pos_of_parseAttribute h
  have hnext := (Reached.turn hs hin h).aligned hf
  rw [align4_of_followed (hf s s' hs hin h)] at hpos
  omega

theorem parseLoop_ne_none {self : StunPacket} {p : Bytes}
    (hincr : ∀ s s', Reached self p s → s.pos + 4 ≤ p.length → parseAttribute p s = some s' →
      s.pos < s'.pos ∧ s'.pos ≤ p.length) {fuel : ℕ} {s : Scan} (hs : Reached self p s)
    (hpos : s.pos ≤ p.length) (hfuel : p.length < s.pos + fuel) : parseLoop p fuel s ≠ none := by
  induction fuel generalizing s with
  | zero => omega
  | succ fuel ih =>
    rw [parseLoop]
    by_cases hin : s.pos + 4 ≤ p.length
    · rw [if_pos hin]
      cases hturn : parseAttribute p s with
      | none => exact Option.some_ne_none _
      | some s' =>
        obtain ⟨hlt, hle⟩ := hincr s s' hs hin hturn
        exact ih (hs.turn hin hturn) hle (by omega)
    · rw [if_neg hin]
      exact Option.some_ne_none _

theorem bounded_of_followed {self : StunPacket} {p : Bytes} (hf : Followed self p) : Bounded self p where
  terminates := by
    by_cases hheader : HeaderOk p
    · have hloop := parseLoop_ne_none (fun s s' ↦ increases_of_followed hf) (.start hheader)
        hheader.header_le (show p.length < 20 + p.length by omega)
      refine ⟨p.length, ?_⟩
      rwa [parse_of_headerOk hheader, Ne, Option.map_eq_none_iff]
    · exact ⟨0, by rw [parse_of_not_headerOk hheader]; exact Option.some_ne_none _⟩
  increases _ _ := increases_of_followed hf
  reads fuel := parseReads_eq fuel self p

theorem followed_of_increases {self : StunPacket} {p : Bytes}
    (h : ∀ s s', Reached self p s → s.pos + 4 ≤ p.length → parseAttribute p s = some s' →
      s.pos < s'.pos ∧ s'.pos ≤ p.length) : Followed self p := by
  have hpos : ∀ s, Reached self p s → 20 ≤ s.pos := by
    intro s hs
    induction hs with
    | start _ => exact le_rfl
    | turn hs hin hturn ih => exact ih.trans (h _ _ hs hin hturn).1.le
  intro s s' hs hin hturn
  by_contra hlast
  obtain ⟨hfit, hnext⟩ := pos_of_parseAttribute hturn
  have hlen := hs.headerOk.length_le
  have hwrap := align4_of_not_followed (not_le.mp hlast) (hfit.trans hlen)
  have hlow := hpos s hs
  have hstep := (h s s' hs hin hturn).1
  omega

theorem followed_of_lt {self : StunPacket} {p : Bytes} (hp : p.length < 65536) : Followed self p := by
  intro s s' hs hin hturn
  have hfit := (pos_of_parseAttribute hturn).1
  have hlen := hs.headerOk.length
  have hmod := hs.headerOk.length_mod
  have hle := hs.headerOk.header_le
  omega

/-- The loop is bounded by the packet exactly when no attribute that it takes ends behind byte
65532, as in every packet of less than 65536 bytes. -/
theorem bounded_iff (self : StunPacket) (p : Bytes) :
    (Bounded self p ↔ Followed self p) ∧ (p.length < 65536 → Bounded self p) :=
  ⟨⟨fun h ↦ followed_of_increases h.increases, bounded_of_followed⟩,
    fun hp ↦ bounded_of_followed (followed_of_lt hp)⟩

def revolving : Bytes :=
  [0x00, 0x01, 0xFF, 0xFC, 0x21, 0x12, 0xA4, 0x42, 1, 2, 3, 4, 5, 6, 7, 8, 9, 10, 11, 12, 0x00, 0x01, 0xFF,
    0xE8] ++ List.replicate 65528 0

theorem revolving_length : revolving.length = 65552 := by
  rw [revolving, List.length_append, List.length_replicate]
  rfl

theorem byte2_revolving : byte2 revolving 0 = 1 ∧ byte2 revolving 2 = 65532 ∧
    byte2 revolving 20 = 1 ∧ byte2 revolving 22 = 65512 := ⟨rfl, rfl, rfl, rfl⟩

theorem parseAttribute_other {p : Bytes} (self : StunPacket) {pos : ℕ} {length : UInt16}
    (htype : byte2 p pos = 1) (hlength : byte2 p (pos + 2) = length)
    (hfit : pos + 4 + length.toNat ≤ p.length) :
    parseAttribute p ⟨self, pos, false, false, 0, 0⟩ =
      some ⟨self, (align4 (UInt16.ofNat (pos + 4 + length.toNat))).toNat, false, false, 0, 0⟩ := by
  unfold parseAttribute
  dsimp only
  rw [htype, hlength, if_neg (not_lt.mpr hfit)]
  rfl

theorem parseLoop_revolving (self : StunPacket) (fuel : ℕ) :
    parseLoop revolving fuel ⟨self, 0, false, false, 0, 0⟩ = none := by
  induction fuel with
  | zero => rfl
  | succ fuel ih =>
    have hturn := parseAttribute_other self byte2_revolving.1 byte2_revolving.2.1
      (by rw [revolving_length]; decide)
    rw [parseLoop, if_pos (show 0 + 4 ≤ revolving.length by rw [revolving_length]; decide), hturn]
    exact ih

/-- The first attribute leads to the header of the packet, and the header, read as an attribute,
to itself: the loop does not end. -/
theorem parse_revolving (self : StunPacket) (fuel : ℕ) : parse fuel self revolving = none := by
  have hheader : HeaderOk revolving := by
    refine ⟨?_, ?_, by rw [byte2_revolving.2.1]; rfl⟩
    · rw [isStun, revolving_length]
      rfl
    · rw [byte2_revolving.2.1, revolving_length]
      rfl
  rw [parse_of_headerOk hheader, Option.map_eq_none_iff]
  cases fuel with
  | zero => rfl
  | succ fuel =>
    have hturn := parseAttribute_other (self.readHeader revolving) byte2_revolving.2.2.1
      byte2_revolving.2.2.2 (by rw [revolving_length]; decide)
    rw [Scan.start, parseLoop, if_pos (show 20 + 4 ≤ revolving.length by rw [revolving_length]; decide), hturn]
    exact parseLoop_revolving _ fuel

theorem parse_revolving_endless :
    revolving.length = 65552 ∧ ¬∃ fuel r, parse fuel (.fresh .request 0) revolving = some r := by
  refine ⟨revolving_length, fun h ↦ ?_⟩
  obtain ⟨fuel, r, h⟩ := h
  cases (parse_revolving _ fuel).symm.trans h

end StunPacket

end Baize.Stun
