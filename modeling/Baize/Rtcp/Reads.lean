import Baize.Rtcp.Compound
import Baize.Rtcp.Sdes

namespace Baize.Rtcp

open Lib
open Rtp (read1 read2 read1_of read2_of)

/-- `IsRtcp` with its reads. The length is looked at first. -/
def isRtcpReads (packet : Bytes) : Checked Bool :=
  if commonHeaderSize ≤ packet.length then do
    let b₀ ← read1 packet 0
    let b₁ ← read1 packet 1
    pure ((b₀ > 127 && b₀ < 192) && b₀ >>> 6 == 2 && (b₁ ≥ 192 && b₁ ≤ 223))
  else pure false

def decodeReads (d : Decoder) (packet : Bytes) : Checked Unit :=
  match d with
  | .sr => discard (SrPacket.fresh.decode packet)
  | .rr => discard (RrPacket.fresh.decode packet)
  | .sdes => discard (SdesPacket.fresh.decode packet)
  | .pli => discard (PliPsFb.fresh.decode packet)

def dispatchReads (packet : Bytes) (data : ℕ) : Checked Unit := do
  let type ← read1 packet (data + 1)
  if type = 200 then decodeReads .sr packet
  else if type = 201 then decodeReads .rr packet
  else if type = 202 then decodeReads .sdes packet
  else if type = 206 then do
    let b ← read1 packet data
    if b &&& 0x1F = 1 then decodeReads .pli packet else pure ()
  else pure ()

/-- `ProcessRtcp` with all its reads: `data` is the position of the pointer. -/
def processLoopReads (packet : Bytes) (data : ℕ) : Checked ℤ :=
  if data < packet.length then do
    let rtcp ← isRtcpReads packet
    if !rtcp then pure (-1)
    else
      let length ← read2 packet (data + 2)
      if packet.length - data < (length.toNat + 1) * 4 then pure (-1)
      else
        dispatchReads packet data
        processLoopReads packet (data + (length.toNat + 1) * 4)
  else pure 0
termination_by packet.length - data

def processRtcpReads (packet : Bytes) : Checked ℤ := processLoopReads packet 0

theorem isRtcpReads_eq (packet : Bytes) : isRtcpReads packet = .ok (isRtcp packet) := by
  unfold isRtcpReads isRtcp
  by_cases h : commonHeaderSize ≤ packet.length
  · have h4 : 4 ≤ packet.length := h
    rw [if_pos h, read1_of (by omega), ok_bind, read1_of (by omega), ok_bind, decide_eq_true h]
    rfl
  · rw [if_neg h, decide_eq_false h]
    rfl

theorem dispatchReads_of {packet : Bytes} {data : ℕ} (h : data + 1 < packet.length) :
    dispatchReads packet data =
      match decoder (packet.drop data) with
      | some d => decodeReads d packet
      | none => .ok () := by
  have htype : type (packet.drop data) = byte1 packet (data + 1) := byte1_drop _ _ _
  have hcount : count (packet.drop data) = byte1 packet data &&& 0x1F := by
    rw [count, byte1_drop, Nat.add_zero]
  rw [dispatchReads, read1_of h, ok_bind, decoder, htype, hcount, read1_of (by omega), ok_bind]
  split_ifs <;> rfl

/-- An offset at which `DecodeItem`, on its way from `start`, assigns a value. -/
inductive ItemFrom (data : Bytes) : ℕ → ℕ → Prop
  | here {start : ℕ} (h : start + 2 + (byte1 data 1).toNat ≤ data.length) : ItemFrom data start start
  | next {start i : ℕ} (h : start + 2 + (byte1 data 1).toNat ≤ data.length)
      (htype : byte1 data start ≠ 0)
      (hi : ItemFrom data (start + 2 + (byte1 data (start + 1)).toNat) i) : ItemFrom data start i

/-- The offset at which `DecodeItem`, on its way from `start`, stops: the bytes do not suffice, or the
type is zero. -/
inductive ItemsEnd (data : Bytes) : ℕ → ℕ → Prop
  | short {start : ℕ} (h : data.length < start + 2 + (byte1 data 1).toNat) : ItemsEnd data start start
  | null {start : ℕ} (h : start + 2 + (byte1 data 1).toNat ≤ data.length) (htype : byte1 data start = 0) :
      ItemsEnd data start start
  | item {start stop : ℕ} (h : start + 2 + (byte1 data 1).toNat ≤ data.length) (htype : byte1 data start ≠ 0)
      (hstop : ItemsEnd data (start + 2 + (byte1 data (start + 1)).toNat) stop) : ItemsEnd data start stop

/-- An offset at which `SdesPacket::Decode`, with `count` turns to go, finds a chunk. The items are looked
for from the SSRC on, and the next chunk four bytes behind their end. -/
inductive ChunkFrom (data : Bytes) : ℕ → ℕ → ℕ → Prop
  | here {count offset : ℕ} (h : offset + 4 ≤ data.length) : ChunkFrom data (count + 1) offset offset
  | next {count offset stop i : ℕ} (h : offset + 4 ≤ data.length) (hstop : ItemsEnd (data.drop offset) 0 stop)
      (hi : ChunkFrom data count (offset + (4 + stop)) i) : ChunkFrom data (count + 1) offset i

def Valueless (p : Bytes) : Prop :=
  ∀ c, ChunkFrom p (count p).toNat 4 c → ∀ i, ItemFrom (p.drop c) 0 i → byte1 (p.drop c) (i + 1) = 0

theorem decodeItems_ok_iff (data : Bytes) (start : ℕ) (items : List Item) :
    (∃ result, decodeItems data start items = .ok result) ↔
      ∀ i, ItemFrom data start i → byte1 data (i + 1) = 0 := by
  induction hn : data.length - start using Nat.strong_induction_on generalizing start items with
  | _ n ih =>
    rw [decodeItems_eq]
    by_cases hfit : data.length < start + 2 + (byte1 data 1).toNat
    · rw [if_pos hfit]
      refine iff_of_true ⟨_, rfl⟩ fun i hi ↦ ?_
      cases hi with
      | here h => omega
      | next h => omega
    rw [if_neg hfit]
    by_cases hlength : byte1 data (start + 1) = 0
    · rw [if_neg (not_not.mpr hlength)]
      by_cases htype : byte1 data start = 0
      · rw [if_pos htype]
        refine iff_of_true ⟨_, rfl⟩ fun i hi ↦ ?_
        cases hi with
        | here _ => exact hlength
        | next _ hne _ => exact absurd htype hne
      · rw [if_neg htype, ih _ (by omega) _ _ rfl]
        constructor
        · intro hall i hi
          cases hi with
          | here _ => exact hlength
          | next _ _ hi =>
            rw [hlength] at hi
            exact hall i hi
        · intro hall i hi
          refine hall i (.next (not_lt.mp hfit) htype ?_)
          rw [hlength]
          exact hi
    · rw [if_pos hlength]
      refine iff_of_false (fun h ↦ ?_) fun hall ↦ ?_
      · obtain ⟨_, h⟩ := h
        cases h
      · exact hlength (hall start (.here (not_lt.mp hfit)))

section ItemsEnd

variable {data : Bytes} {start stop : ℕ}

theorem itemsEnd_of_short (h : data.length < start + 2 + (byte1 data 1).toNat) :
    ItemsEnd data start stop ↔ stop = start := by
  constructor
  · intro hstop
    cases hstop with
    | short _ => rfl
    | null hle _ => omega
    | item hle _ _ => omega
  · rintro rfl
    exact .short h

theorem itemsEnd_of_null (h : start + 2 + (byte1 data 1).toNat ≤ data.length) (htype : byte1 data start = 0) :
    ItemsEnd data start stop ↔ stop = start := by
  constructor
  · intro hstop
    cases hstop with
    | short _ => rfl
    | null _ _ => rfl
    | item _ hne _ => exact absurd htype hne
  · rintro rfl
    exact .null h htype

theorem itemsEnd_of_item (h : start + 2 + (byte1 data 1).toNat ≤ data.length) (htype : byte1 data start ≠ 0) :
    ItemsEnd data start stop ↔ ItemsEnd data (start + 2 + (byte1 data (start + 1)).toNat) stop := by
  constructor
  · intro hstop
    cases hstop with
    | short hlt => omega
    | null _ hnull => exact absurd hnull htype
    | item _ _ hstop => exact hstop
  · exact .item h htype

theorem itemsEnd_iff {items result : List Item} (h : decodeItems data start items = .ok result) :
    ItemsEnd data start stop ↔ stop + (items.map Item.size).sum = start + (result.map Item.size).sum := by
  induction hn : data.length - start using Nat.strong_induction_on generalizing start items with
  | _ n ih =>
    rw [decodeItems_eq] at h
    split_ifs at h with hshort hlength htype
    · obtain rfl := Except.ok.inj h
      rw [itemsEnd_of_short hshort, Nat.add_right_cancel_iff]
    · obtain rfl := Except.ok.inj h
      rw [itemsEnd_of_null (not_lt.mp hshort) htype, Nat.add_right_cancel_iff]
    · have hzero : (byte1 data (start + 1)).toNat = 0 := congrArg UInt8.toNat (not_not.mp hlength)
      have hsize : (items.map Item.size ++ [2]).sum = (items.map Item.size).sum + 2 := List.sum_append
      rw [itemsEnd_of_item (not_lt.mp hshort) htype, hzero, Nat.add_zero, ih _ (by omega) h rfl, List.map_append,
        show List.map Item.size [⟨byte1 data start, 0, []⟩] = [2] from rfl, hsize]
      omega

end ItemsEnd

theorem decodeChunks_ok_iff (data : Bytes) (count offset : ℕ) (chunks : List Chunk) :
    (∃ result, decodeChunks data count offset chunks = .ok result) ↔
      ∀ c, ChunkFrom data count offset c → ∀ i, ItemFrom (data.drop c) 0 i →
        byte1 (data.drop c) (i + 1) = 0 := by
  induction count generalizing offset chunks with
  | zero => exact iff_of_true ⟨_, rfl⟩ fun c hc ↦ by cases hc
  | succ count ih =>
    rw [decodeChunks_succ]
    by_cases hshort : data.length < offset + 4
    · rw [if_pos hshort]
      refine iff_of_true ⟨_, rfl⟩ fun c hc ↦ ?_
      cases hc with
      | here h => omega
      | next h => omega
    rw [if_neg hshort]
    have hfirst := decodeItems_ok_iff (data.drop offset) 0 []
    constructor
    · intro h c hc
      obtain ⟨result, h⟩ := h
      obtain ⟨items, hitems, hrest⟩ := bind_eq_ok.mp h
      cases hc with
      | here _ => exact hfirst.mp ⟨items, hitems⟩
      | next _ hstop hc =>
        have hstop := (itemsEnd_iff hitems).mp hstop
        rw [List.map_nil, List.sum_nil, Nat.add_zero, Nat.zero_add] at hstop
        rw [hstop] at hc
        exact (ih _ _).mp ⟨result, hrest⟩ c hc
    · intro hall
      obtain ⟨items, hitems⟩ := hfirst.mpr (hall offset (.here (not_lt.mp hshort)))
      have hrest := (ih (offset + Chunk.size ⟨byte4 data offset, items⟩)
        (chunks ++ [⟨byte4 data offset, items⟩])).mpr
        fun c hc ↦ hall c (.next (not_lt.mp hshort) ((itemsEnd_iff hitems).mpr (Nat.zero_add _).symm) hc)
      rw [show decodeItem (data.drop offset) = .ok items from hitems, ok_bind]
      exact hrest

theorem discard_ok_iff {α : Type} {x : Checked α} : discard x = .ok () ↔ ∃ a, x = .ok a := by
  cases x with
  | error fault =>
    refine iff_of_false (fun h ↦ by cases h) fun h ↦ ?_
    obtain ⟨_, h⟩ := h
    cases h
  | ok a => exact iff_of_true rfl ⟨a, rfl⟩

theorem SdesPacket.decode_ok_iff {p : Bytes} (h : 4 ≤ p.length) :
    (∃ result, SdesPacket.fresh.decode p = .ok result) ↔ Valueless p := by
  rw [Valueless, ← decodeChunks_ok_iff p (count p).toNat 4 [], SdesPacket.decode,
    if_neg (by rw [commonHeaderSize]; omega), readCommonHeader_of h, ok_bind]
  constructor
  · intro h
    obtain ⟨result, hresult⟩ := h
    obtain ⟨chunks, hchunks, -⟩ := bind_eq_ok.mp hresult
    exact ⟨chunks, hchunks⟩
  · intro h
    obtain ⟨chunks, hchunks⟩ := h
    exact ⟨_, bind_eq_ok.mpr ⟨chunks, hchunks, rfl⟩⟩

theorem RrPacket.decode_ok (this : RrPacket) (p : Bytes) : ∃ result, this.decode p = .ok result := by
  by_cases h : 8 ≤ p.length
  · exact ⟨_, decode_eq this h⟩
  · exact ⟨_, if_pos (not_le.mp h)⟩

theorem SrPacket.decode_ok (this : SrPacket) (p : Bytes) : ∃ result, this.decode p = .ok result := by
  by_cases h : 28 ≤ p.length
  · exact ⟨_, decode_eq this h⟩
  · exact ⟨_, if_pos (not_le.mp h)⟩

theorem PliPsFb.decode_ok (this : PliPsFb) (p : Bytes) : ∃ result, this.decode p = .ok result := by
  by_cases h : p.length = 12
  · rw [decode, if_neg (not_not.mpr (show p.length = commonHeaderSize + feedbackHeaderSize from h)),
      readCommonHeader_of (by omega), ok_bind, readSpan_of (le_of_eq h.symm), ok_bind]
    exact ⟨_, rfl⟩
  · exact ⟨_, if_pos h⟩

theorem decodeReads_ok_iff {p : Bytes} (h : 4 ≤ p.length) (d : Decoder) :
    decodeReads d p = .ok () ↔ (d = .sdes → Valueless p) := by
  cases d with
  | sr => exact iff_of_true (discard_ok_iff.mpr (SrPacket.decode_ok _ p)) fun h ↦ by cases h
  | rr => exact iff_of_true (discard_ok_iff.mpr (RrPacket.decode_ok _ p)) fun h ↦ by cases h
  | sdes =>
    rw [← SdesPacket.decode_ok_iff h]
    exact discard_ok_iff.trans ⟨fun h _ ↦ h, fun h ↦ h rfl⟩
  | pli => exact iff_of_true (discard_ok_iff.mpr (PliPsFb.decode_ok _ p)) fun h ↦ by cases h

theorem dispatchReads_ok_iff {packet : Bytes} {data : ℕ} (h4 : 4 ≤ packet.length)
    (h : data + 1 < packet.length) :
    dispatchReads packet data = .ok () ↔ (decoder (packet.drop data) = some .sdes → Valueless packet) := by
  rw [dispatchReads_of h]
  cases hd : decoder (packet.drop data) with
  | none => exact iff_of_true rfl fun h ↦ by cases h
  | some d =>
    rw [Option.some.injEq]
    exact decodeReads_ok_iff h4 d

theorem processLoopReads_of_lt {packet : Bytes} {data : ℕ} (h : isRtcp packet = true)
    (hdata : data < packet.length) :
    processLoopReads packet data = read2 packet (data + 2) >>= fun length ↦
      if packet.length - data < (length.toNat + 1) * 4 then .ok (-1)
      else dispatchReads packet data >>= fun _ ↦
        processLoopReads packet (data + (length.toNat + 1) * 4) := by
  rw [processLoopReads, if_pos hdata, isRtcpReads_eq, h, ok_bind, if_neg (by decide)]
  rfl

theorem processLoopReads_iff {packet : Bytes} (h : isRtcp packet = true) (rest : Bytes) {data : ℕ}
    (hdata : packet.drop data = rest) (ret : ℤ) :
    processLoopReads packet data = .ok ret ↔ ret = (processLoop packet rest).ret ∧
      ((subPackets.split rest).2 = [] ∨ 4 ≤ (subPackets.split rest).2.length) ∧
      ∀ t ∈ (subPackets.split rest).1, decoder t = some .sdes → Valueless packet := by
  have h4 : 4 ≤ packet.length := by
    unfold isRtcp at h
    simp only [Bool.and_eq_true, decide_eq_true_eq] at h
    exact h.1.1.1
  rw [processLoop_eq h]
  induction rest using subPackets.split_induction generalizing data with
  | rest p hp =>
    have hlen := congrArg List.length hdata
    rw [List.length_drop] at hlen
    rw [Format.split_of_lt hp]
    by_cases hnil : p = []
    · subst hnil
      rw [List.length_nil] at hlen
      rw [processLoopReads, if_neg (by omega)]
      simp [eq_comm]
    have hpos : p.length ≠ 0 := fun h0 ↦ hnil (List.length_eq_zero_iff.mp h0)
    rw [processLoopReads_of_lt h (by omega), if_neg hnil]
    by_cases hfour : 4 ≤ p.length
    · have hsize : p.length < ((byte2 packet (data + 2)).toNat + 1) * 4 := by
        have hp' : p.length < packetLen p := hp
        rwa [packetLen, ← hdata, byte2_drop, hdata] at hp'
      rw [read2_of (by omega), ok_bind, if_pos (by omega)]
      simp [hfour, eq_comm]
    · rw [read2, check, if_neg (by omega), error_bind, error_bind]
      simp [hnil, hfour]
  | frame t q ht ih =>
    have ht4 : 4 ≤ t.length := ht.header_le_length
    have hlen := congrArg List.length hdata
    rw [List.length_drop, List.length_append] at hlen
    have hsize : ((byte2 packet (data + 2)).toNat + 1) * 4 = t.length := by
      have hsize : packetLen (t ++ q) = t.length := ht.size_append q
      rwa [packetLen, ← hdata, byte2_drop] at hsize
    have hnext : packet.drop (data + t.length) = q := by
      rw [← List.drop_drop, hdata, List.drop_left]
    rw [processLoopReads_of_lt h (by omega), read2_of (by omega), ok_bind, if_neg (by omega), hsize,
      Format.split_frame_append ht, bind_eq_ok]
    have hdispatch := dispatchReads_ok_iff h4 (show data + 1 < packet.length by omega)
    rw [hdata, decoder_append ht4] at hdispatch
    rw [List.forall_mem_cons, ← hdispatch]
    have hih := ih hnext
    constructor
    · intro hrun
      obtain ⟨_, hfirst, hrest⟩ := hrun
      obtain ⟨hret, hleft, hparts⟩ := hih.mp hrest
      exact ⟨hret, hleft, hfirst, hparts⟩
    · intro hall
      obtain ⟨hret, hleft, hfirst, hparts⟩ := hall
      exact ⟨(), hfirst, hih.mpr ⟨hret, hleft, hparts⟩⟩

/-- `ProcessRtcp` stays inside the packet exactly when the walk over the sub-packets does not
stop within a header, and no source description is decoded that has an item with a value. -/
theorem processRtcpReads_ok_iff (p : Bytes) (h : isRtcp p = true) :
    (∃ ret, processRtcpReads p = .ok ret) ↔
      ((subPackets.split p).2 = [] ∨ 4 ≤ (subPackets.split p).2.length) ∧
      ((∃ t ∈ (subPackets.split p).1, decoder t = some .sdes) → Valueless p) := by
  simp only [processRtcpReads, processLoopReads_iff h p List.drop_zero, exists_eq_left,
    forall_exists_index, and_imp]

theorem processRtcpReads_receiverReport :
    isRtcp receiverReport = true ∧ ∃ ret, processRtcpReads receiverReport = .ok ret := by
  have hrtcp : isRtcp receiverReport = true := by decide
  have hframe : subPackets.Frame receiverReport := rfl
  have hsplit := Format.split_frame_append hframe []
  rw [List.append_nil, Format.split_nil] at hsplit
  refine ⟨hrtcp, (processRtcpReads_ok_iff receiverReport hrtcp).mpr ⟨?_, ?_⟩⟩
  · rw [hsplit]
    exact Or.inl rfl
  · rw [hsplit]
    intro h
    obtain ⟨t, ht, hdecoder⟩ := h
    rw [List.mem_singleton.mp ht] at hdecoder
    exact absurd hdecoder (by decide)

/-- A BYE with one byte behind it: the header of the next part is read at the last byte. And a
source description with the CNAME `a`. -/
theorem processRtcpReads_outOfBounds :
    isRtcp [0x80, 203, 0, 0, 0] = true ∧
      processRtcpReads [0x80, 203, 0, 0, 0] = .error .outOfBounds ∧
    isRtcp cname = true ∧ processRtcpReads cname = .error .outOfBounds := by
  refine ⟨by decide, ?_, by decide, ?_⟩
  · rw [processRtcpReads, processLoopReads_of_lt (by decide) (by decide), read2_of (by decide), ok_bind,
      if_neg (by decide), show dispatchReads _ 0 = .ok () from rfl, ok_bind,
      processLoopReads_of_lt (by decide) (by decide)]
    rfl
  · rw [processRtcpReads, processLoopReads_of_lt (by decide) (by decide), read2_of (by decide), ok_bind,
      if_neg (by decide), dispatchReads_of (by decide)]
    rw [show decoder (cname.drop 0) = some .sdes from rfl]
    simp only [decodeReads, decode_cname]
    rfl

end Baize.Rtcp
