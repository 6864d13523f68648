import Baize.Rtcp.Reports

namespace Baize.Rtcp

open Lib
open Rtp (read1 read4 read1_of read4_of)

structure Item.Valid (item : Item) : Prop where
  type_pos : 1 ≤ item.type.toNat
  type_le : item.type.toNat ≤ 8
  length_value : item.value.length = item.length.toNat

theorem Item.Valid.type_ne_zero {item : Item} (h : item.Valid) : item.type ≠ 0 := by
  intro h0
  have hpos := h.type_pos
  rw [h0, UInt8.toNat_zero] at hpos
  omega

def Item.bytes (item : Item) : Bytes := item.type :: item.length :: item.value

def Chunk.body (chunk : Chunk) : Bytes :=
  net4 chunk.ssrc ++ (chunk.items.map Item.bytes).flatten ++ [0]

def Chunk.bytes (chunk : Chunk) : Bytes :=
  chunk.body ++ List.replicate ((4 - chunk.body.length % 4) % 4) 0

def chunksBytes (chunks : List Chunk) : Bytes := (chunks.map Chunk.bytes).flatten

def serialise (chunks : List Chunk) : Bytes :=
  [0x80 ||| UInt8.ofNat chunks.length, 202] ++
    net2 (UInt16.ofNat ((chunksBytes chunks).length / 4)) ++ chunksBytes chunks

theorem decodeItems_eq (data : Bytes) (offset : ℕ) (items : List Item) :
    decodeItems data offset items =
      if data.length < offset + 2 + (byte1 data 1).toNat then .ok items
      else if byte1 data (offset + 1) ≠ 0 then .error .outOfBounds
      else if byte1 data offset = 0 then .ok items
      else decodeItems data (offset + 2) (items ++ [⟨byte1 data offset, 0, []⟩]) := by
  rw [decodeItems]
  by_cases hshort : data.length - offset < 2
  · rw [if_pos hshort, ite_self, if_pos (by omega)]
    rfl
  rw [if_neg (by omega), if_neg hshort, read1_of (by omega), ok_bind]
  by_cases hleft : data.length < offset + 2 + (byte1 data 1).toNat
  · rw [if_pos (by omega), if_pos hleft]
    rfl
  rw [if_neg (by omega), if_neg hleft, read1_of (by omega), ok_bind, read1_of (by omega), ok_bind, assignValue]
  by_cases hlength : byte1 data (offset + 1) = 0
  · rw [check_of hlength, if_neg (not_not.mpr hlength), hlength]
    rfl
  · rw [check, if_neg hlength, if_pos hlength]
    rfl

theorem decodeChunks_succ (data : Bytes) (count offset : ℕ) (chunks : List Chunk) :
    decodeChunks data (count + 1) offset chunks =
      if data.length < offset + 4 then .ok chunks
      else decodeItem (data.drop offset) >>= fun items ↦
        decodeChunks data count (offset + Chunk.size ⟨byte4 data offset, items⟩)
          (chunks ++ [⟨byte4 data offset, items⟩]) := by
  rw [decodeChunks]
  by_cases hshort : data.length - offset < 4
  · rw [if_pos hshort, ite_self]
    by_cases hlen : data.length < offset + 4
    · rw [if_pos hlen]
      rfl
    · omega
  · rw [if_neg (by omega), if_neg hshort, if_neg (by omega), read4_of (by omega), ok_bind]

theorem decodeItems_extends {data : Bytes} {offset : ℕ} {items result : List Item}
    (h : decodeItems data offset items = .ok result) :
    ∃ more, result = items ++ more ∧ ∀ item ∈ more, item = ⟨item.type, 0, []⟩ := by
  induction hn : data.length - offset using Nat.strong_induction_on generalizing offset items with
  | _ n ih =>
    rw [decodeItems_eq] at h
    split at h
    · exact ⟨[], by rw [List.append_nil]; exact (Except.ok.inj h).symm, List.forall_mem_nil _⟩
    split at h
    · cases h
    split at h
    · exact ⟨[], by rw [List.append_nil]; exact (Except.ok.inj h).symm, List.forall_mem_nil _⟩
    next hleft _ _ =>
    obtain ⟨more, hmore, hzero⟩ := ih _ (by omega) h rfl
    refine ⟨⟨byte1 data offset, 0, []⟩ :: more, ?_, ?_⟩
    · rw [hmore, List.append_assoc, List.singleton_append]
    · exact List.forall_mem_cons.mpr ⟨rfl, hzero⟩

theorem decodeChunks_extends {data : Bytes} {count offset : ℕ} {chunks result : List Chunk}
    (h : decodeChunks data count offset chunks = .ok result) : chunks <+: result := by
  induction count generalizing offset chunks with
  | zero =>
    rw [decodeChunks] at h
    rw [Except.ok.inj h]
  | succ count ih =>
    rw [decodeChunks_succ] at h
    split at h
    · rw [Except.ok.inj h]
    · obtain ⟨items, -, h⟩ := bind_eq_ok.mp h
      exact (List.prefix_append _ _).trans (ih h)

theorem valueless_of_decodeItem {data : Bytes} {items : List Item} (h : decodeItem data = .ok items) :
    ∀ item ∈ items, item = ⟨item.type, 0, []⟩ := by
  obtain ⟨more, rfl, hmore⟩ := decodeItems_extends h
  exact hmore

theorem decodeItem_of_zero {data : Bytes} (h₀ : byte1 data 0 = 0) (h₁ : byte1 data 1 = 0) :
    decodeItem data = .ok [] := by
  rw [decodeItem, decodeItems_eq, h₀]
  simp [h₁]

theorem decodeItems_run {data q : Bytes} {offset : ℕ} {items more : List Item}
    (hone : byte1 data 1 = 0) (hmore : ∀ item ∈ more, item = ⟨item.type, 0, []⟩ ∧ item.type ≠ 0)
    (h : data.drop offset = (more.map Item.bytes).flatten ++ q) :
    decodeItems data offset items = decodeItems data (offset + 2 * more.length) (items ++ more) := by
  induction more generalizing offset items with
  | nil => simp
  | cons item more ih =>
    obtain ⟨⟨hitem, htype⟩, hmore⟩ := List.forall_mem_cons.mp hmore
    rw [List.map_cons, List.flatten_cons, List.append_assoc, Item.bytes, hitem] at h
    have hlen := congrArg List.length h
    have h₁ := drop_succ_of_drop h
    have h₂ := drop_succ_of_drop h₁
    rw [List.length_drop] at hlen
    simp only [List.length_append, List.length_cons] at hlen
    rw [decodeItems_eq, hone, byte1_of_drop h, byte1_of_drop h₁, if_neg (by rw [UInt8.toNat_zero]; omega),
      if_neg (by simp), if_neg htype, ih hmore h₂, ← hitem, List.append_assoc, List.singleton_append,
      List.length_cons]
    congr 1
    omega

def emptyChunk : Chunk := ⟨0, []⟩

/-- The lists that come back. `DecodeItem` is handed the bytes from the SSRC on, and
the next chunk is looked for right behind the SSRC and the items. -/
inductive Recoverable : List Chunk → Prop
  | nil : Recoverable []
  -- the second byte of the SSRC is taken for a length that does not fit
  | silent (s : UInt32) (n : ℕ) (h : 8 * (n + 1) < 2 + s.toNat / 65536 % 256) :
      Recoverable (⟨s, []⟩ :: List.replicate n emptyChunk)
  -- the SSRC is taken for the end of the items
  | ended (s : UInt32) (n : ℕ) (h : s.toNat < 65536) :
      Recoverable (⟨s, []⟩ :: List.replicate n emptyChunk)
  -- the SSRC is taken for the item
  | mistaken (s : UInt32) (t : UInt8) (n : ℕ) (h : s.toNat = t.toNat * 16777216) :
      Recoverable (⟨s, [⟨t, 0, []⟩]⟩ :: List.replicate n emptyChunk)

theorem Chunk.bytes_nil (s : UInt32) : Chunk.bytes ⟨s, []⟩ = net4 s ++ List.replicate 4 0 := by
  simp [bytes, body]

theorem Chunk.bytes_singleton (s : UInt32) (t : UInt8) :
    Chunk.bytes ⟨s, [⟨t, 0, []⟩]⟩ = net4 s ++ [t, 0] ++ List.replicate 2 0 := by
  simp [bytes, body, Item.bytes]

theorem Chunk.le_length_bytes (chunk : Chunk) : 8 ≤ chunk.bytes.length := by
  have hbody : 5 ≤ chunk.body.length := by
    simp only [body, List.length_append, net4_length, List.length_singleton]
    omega
  rw [bytes, List.length_append, List.length_replicate]
  omega

theorem chunksBytes_cons (c : Chunk) (cs : List Chunk) :
    chunksBytes (c :: cs) = c.bytes ++ chunksBytes cs := rfl

theorem chunksBytes_empty (n : ℕ) :
    chunksBytes (List.replicate n emptyChunk) = List.replicate (8 * n) 0 := by
  induction n with
  | zero => rfl
  | succ n ih =>
    rw [List.replicate_succ, chunksBytes_cons, ih, show emptyChunk.bytes = List.replicate 8 0 from rfl,
      List.replicate_append_replicate]
    congr 1
    omega

theorem decodeChunks_zeros {data : Bytes} {offset z : ℕ} (h : data.drop offset = List.replicate z 0)
    {n : ℕ} (hn : 4 * n ≤ z) (chunks : List Chunk) :
    decodeChunks data n offset chunks = .ok (chunks ++ List.replicate n emptyChunk) := by
  induction n generalizing offset z chunks with
  | zero => simp [decodeChunks]
  | succ n ih =>
    have hsplit : data.drop offset = List.replicate 4 0 ++ List.replicate (z - 4) 0 := by
      rw [h, List.replicate_append_replicate, Nat.add_sub_cancel' (by omega)]
    have hlen := congrArg List.length h
    rw [List.length_drop, List.length_replicate] at hlen
    have hitems : decodeItem (data.drop offset) = .ok [] := by
      rw [hsplit]
      exact decodeItem_of_zero rfl rfl
    have hssrc : byte4 data offset = 0 := byte4_of_drop hsplit
    have hnext : data.drop (offset + 4) = List.replicate (z - 4) 0 := by
      rw [← List.drop_drop, hsplit]
      rfl
    rw [decodeChunks_succ, if_neg (by omega), hitems, ok_bind, hssrc]
    rw [show Chunk.size ⟨0, []⟩ = 4 from rfl, ih hnext (by omega), List.append_assoc]
    rfl

theorem decodeChunks_empty {data : Bytes} {offset z n : ℕ}
    (h : data.drop offset = List.replicate z 0 ++ chunksBytes (List.replicate n emptyChunk))
    (chunks : List Chunk) :
    decodeChunks data n offset chunks = .ok (chunks ++ List.replicate n emptyChunk) := by
  rw [chunksBytes_empty, List.replicate_append_replicate] at h
  exact decodeChunks_zeros h (by omega) chunks

theorem net4_of_lt {s : UInt32} (h : s.toNat < 65536) :
    net4 s = List.replicate 2 (0 : UInt8) ++ [(s >>> 8).toUInt8, s.toUInt8] := by
  simp only [net4, List.replicate, List.cons_append, List.nil_append, List.cons.injEq, and_true,
    ← UInt8.toNat_inj, UInt32.toNat_toUInt8, UInt32.toNat_shiftRight, Nat.shiftRight_eq_div_pow,
    UInt8.toNat_zero]
  rw [show (16 : UInt32).toNat % 32 = 16 from rfl, show (24 : UInt32).toNat % 32 = 24 from rfl]
  omega

theorem net4_of_high {s : UInt32} {t : UInt8} (h : s.toNat = t.toNat * 16777216) :
    net4 s = [t, 0, 0, 0] := by
  have ht := t.toNat_lt
  simp only [net4, List.cons.injEq, and_true, ← UInt8.toNat_inj, UInt32.toNat_toUInt8,
    UInt32.toNat_shiftRight, Nat.shiftRight_eq_div_pow, UInt8.toNat_zero]
  rw [show (8 : UInt32).toNat % 32 = 8 from rfl, show (16 : UInt32).toNat % 32 = 16 from rfl,
    show (24 : UInt32).toNat % 32 = 24 from rfl]
  omega

theorem emptyChunk_of_decodeChunks {data : Bytes} {offset z : ℕ} {chunks rest : List Chunk}
    (hz : 2 ≤ z) (hdrop : data.drop offset = List.replicate z 0 ++ chunksBytes rest)
    (h : decodeChunks data rest.length offset chunks = .ok (chunks ++ rest)) :
    rest = List.replicate rest.length emptyChunk := by
  induction rest generalizing offset z chunks with
  | nil => rfl
  | cons c rest ih =>
    rw [chunksBytes_cons] at hdrop
    have hz2 : data.drop offset = 0 :: 0 :: (List.replicate (z - 2) 0 ++ (c.bytes ++ chunksBytes rest)) := by
      rw [hdrop, ← Nat.add_sub_cancel' hz, Nat.add_comm, List.replicate_succ, List.replicate_succ]
      rfl
    have hlen := congrArg List.length hdrop
    have hc := c.le_length_bytes
    rw [List.length_drop] at hlen
    simp only [List.length_append, List.length_replicate] at hlen
    have hitems : decodeItem (data.drop offset) = .ok [] := by
      rw [hz2]
      exact decodeItem_of_zero rfl rfl
    rw [List.length_cons, decodeChunks_succ, if_neg (by omega), hitems, ok_bind] at h
    have hfirst : (⟨byte4 data offset, []⟩ : Chunk) = c := by
      obtain ⟨more, hmore⟩ := decodeChunks_extends h
      rw [List.append_assoc, List.append_cancel_left_eq] at hmore
      exact (List.cons.inj hmore).1
    have hsmall : (byte4 data offset).toNat < 65536 := by
      have h₂ := (byte1 data (offset + 2)).toNat_lt
      have h₃ := (byte1 data (offset + 3)).toNat_lt
      rw [byte4_toNat, byte1_of_drop hz2, byte1_of_drop (drop_succ_of_drop hz2), UInt8.toNat_zero]
      omega
    have hssrc : byte4 data offset = 0 := by
      rw [← hfirst, Chunk.bytes_nil, net4_of_lt hsmall] at hdrop
      rw [List.append_assoc, List.append_assoc, ← List.append_assoc, List.replicate_append_replicate,
        show z + 2 = 4 + (z - 2) by omega, ← List.replicate_append_replicate, List.append_assoc] at hdrop
      exact byte4_of_drop hdrop
    obtain rfl : c = emptyChunk := by rw [← hfirst, hssrc]; rfl
    have hnext : data.drop (offset + 4) = List.replicate (z + 4) 0 ++ chunksBytes rest := by
      rw [← List.drop_drop, hdrop, show emptyChunk.bytes = List.replicate 8 0 from rfl, ← List.append_assoc,
        List.replicate_append_replicate, List.drop_append_of_le_length (by rw [List.length_replicate]; omega),
        List.drop_replicate]
      congr 1
    rw [hssrc, show Chunk.size ⟨0, []⟩ = 4 from rfl] at h
    rw [List.length_cons, List.replicate_succ, ← ih (by omega) hnext (by rw [h, List.append_assoc]; rfl)]

theorem decodeItems_ne {data q : Bytes} {i₁ i₂ : Item} {items : List Item} (hone : byte1 data 1 = 0)
    (hitems : ∀ item ∈ items, item = ⟨item.type, 0, []⟩ ∧ item.type ≠ 0)
    (hdrop : data.drop 4 = (items.map Item.bytes).flatten ++ q) :
    decodeItems data 4 [i₁, i₂] ≠ .ok items := by
  intro h
  rw [decodeItems_run hone hitems hdrop] at h
  obtain ⟨more, hmore, -⟩ := decodeItems_extends h
  have hlen := congrArg List.length hmore
  simp only [List.length_append, List.length_cons, List.length_nil] at hlen
  omega

theorem count_serialise {chunks : List Chunk} (h : chunks.length ≤ 31) :
    (count (serialise chunks)).toNat = chunks.length := by
  have hcount : byte1 (serialise chunks) 0 = 0x80 ||| UInt8.ofNat chunks.length := rfl
  interval_cases hn : chunks.length <;> rw [count, hcount] <;> rfl

theorem drop_serialise (chunks : List Chunk) : (serialise chunks).drop 4 = chunksBytes chunks := rfl

theorem decode_serialise {chunks : List Chunk} (h : chunks.length ≤ 31) :
    (∃ sdes, SdesPacket.fresh.decode (serialise chunks) = .ok (0, sdes) ∧ sdes.chunks = chunks) ↔
      decodeChunks (serialise chunks) chunks.length 4 [] = .ok chunks := by
  have hlen : 4 ≤ (serialise chunks).length := by
    simp only [serialise, List.length_append, net2_length, List.length_cons, List.length_nil]
    omega
  have hheader : (headerOf (serialise chunks)).count.toNat = chunks.length := count_serialise h
  rw [SdesPacket.decode, if_neg (by rw [commonHeaderSize]; omega), readCommonHeader_of hlen, ok_bind, hheader]
  constructor
  · intro hdec
    obtain ⟨sdes, hsdes, hsame⟩ := hdec
    obtain ⟨chunks', hchunks, heq⟩ := bind_eq_ok.mp hsdes
    have hresult : chunks' = sdes.chunks := congrArg (fun r ↦ r.2.chunks) (Except.ok.inj heq)
    rw [hresult, hsame] at hchunks
    exact hchunks
  · intro hchunks
    refine ⟨⟨headerOf (serialise chunks), chunks⟩, ?_, rfl⟩
    rw [show SdesPacket.fresh.chunks = [] from rfl, commonHeaderSize, hchunks]
    rfl

section FirstChunk

variable {data : Bytes} {c : Chunk} {rest : List Chunk} (hdrop : data.drop 4 = c.bytes ++ chunksBytes rest)

include hdrop

theorem ssrc_drop : data.drop 4 = net4 c.ssrc ++ (data.drop 8) := by
  rw [show 8 = 4 + 4 from rfl, ← List.drop_drop, hdrop, Chunk.bytes, Chunk.body]
  simp only [List.append_assoc]
  rw [List.drop_left' (net4_length c.ssrc)]

theorem ssrc_toNat :
    c.ssrc.toNat = (byte1 (data.drop 4) 0).toNat * 16777216 + (byte1 (data.drop 4) 1).toNat * 65536 +
      (byte1 (data.drop 4) 2).toNat * 256 + (byte1 (data.drop 4) 3).toNat := by
  have hssrc : byte4 (data.drop 4) 0 = c.ssrc := by
    apply byte4_of_drop
    exact ssrc_drop hdrop
  rw [← hssrc, byte4_toNat]

theorem decodeChunks_first :
    decodeChunks data (rest.length + 1) 4 [] = decodeItem (data.drop 4) >>= fun items ↦
      decodeChunks data rest.length (4 + Chunk.size ⟨c.ssrc, items⟩) [⟨c.ssrc, items⟩] := by
  have hlen := congrArg List.length hdrop
  have hc := c.le_length_bytes
  rw [List.length_drop, List.length_append] at hlen
  rw [decodeChunks_succ, if_neg (by omega), byte4_of_drop (ssrc_drop hdrop)]
  rfl

theorem decodeChunks_first_iff :
    decodeChunks data (rest.length + 1) 4 [] = .ok (c :: rest) ↔
      decodeItem (data.drop 4) = .ok c.items ∧
        decodeChunks data rest.length (4 + c.size) [c] = .ok (c :: rest) := by
  rw [decodeChunks_first hdrop, bind_eq_ok]
  constructor
  · intro hdec
    obtain ⟨items, hitems, h⟩ := hdec
    obtain ⟨more, hmore⟩ := decodeChunks_extends h
    have hc : (⟨c.ssrc, items⟩ : Chunk) = c := (List.cons.inj hmore).1
    rw [hc] at h
    exact ⟨by rw [hitems, ← hc], h⟩
  · intro hdec
    obtain ⟨hitems, h⟩ := hdec
    exact ⟨c.items, hitems, h⟩

end FirstChunk

theorem drop_chunk_nil {data q : Bytes} {s : UInt32} (h : data.drop 4 = Chunk.bytes ⟨s, []⟩ ++ q) :
    data.drop 8 = List.replicate 4 0 ++ q := by
  rw [show 8 = 4 + 4 from rfl, ← List.drop_drop, h, Chunk.bytes_nil, List.append_assoc]
  rfl

theorem drop_chunk_singleton {data q : Bytes} {s : UInt32} {t : UInt8}
    (h : data.drop 4 = Chunk.bytes ⟨s, [⟨t, 0, []⟩]⟩ ++ q) : data.drop 10 = List.replicate 2 0 ++ q := by
  rw [show 10 = 4 + 6 from rfl, ← List.drop_drop, h, Chunk.bytes_singleton, List.append_assoc,
    List.drop_left' (by rfl)]

theorem Chunk.size_nil (s : UInt32) : Chunk.size ⟨s, []⟩ = 4 := rfl

theorem Chunk.size_singleton (s : UInt32) (t : UInt8) : Chunk.size ⟨s, [⟨t, 0, []⟩]⟩ = 6 := rfl

theorem length_chunks_nil (s : UInt32) (n : ℕ) :
    (chunksBytes (⟨s, []⟩ :: List.replicate n emptyChunk)).length = 8 * (n + 1) := by
  rw [chunksBytes_cons, chunksBytes_empty, Chunk.bytes_nil, List.length_append, List.length_append,
    List.length_replicate, List.length_replicate, net4_length]
  omega

theorem recoverable_of_items_nil {data : Bytes} {s : UInt32} {rest : List Chunk}
    (hdrop : data.drop 4 = Chunk.bytes ⟨s, []⟩ ++ chunksBytes rest)
    (h : decodeChunks data rest.length (4 + Chunk.size ⟨s, []⟩) [⟨s, []⟩] = .ok (⟨s, []⟩ :: rest))
    (hs : (chunksBytes (⟨s, []⟩ :: rest)).length < 2 + s.toNat / 65536 % 256 ∨ s.toNat < 65536) :
    Recoverable (⟨s, []⟩ :: rest) := by
  rw [Chunk.size_nil] at h
  rw [emptyChunk_of_decodeChunks (by decide) (drop_chunk_nil hdrop) h] at hs ⊢
  rw [length_chunks_nil] at hs
  rcases hs with hs | hs
  · exact .silent s _ hs
  · exact .ended s _ hs

theorem recoverable_of_singleton {data : Bytes} {s : UInt32} {t : UInt8} {rest : List Chunk}
    (hdrop : data.drop 4 = Chunk.bytes ⟨s, [⟨t, 0, []⟩]⟩ ++ chunksBytes rest)
    (h : decodeChunks data rest.length (4 + Chunk.size ⟨s, [⟨t, 0, []⟩]⟩) [⟨s, [⟨t, 0, []⟩]⟩] =
      .ok (⟨s, [⟨t, 0, []⟩]⟩ :: rest))
    (hs : s.toNat = t.toNat * 16777216) : Recoverable (⟨s, [⟨t, 0, []⟩]⟩ :: rest) := by
  rw [Chunk.size_singleton] at h
  rw [emptyChunk_of_decodeChunks (by decide) (drop_chunk_singleton hdrop) h]
  exact .mistaken s t _ hs

theorem recoverable_of_decodeChunks {data : Bytes} {c : Chunk} {rest : List Chunk}
    (hvalid : ∀ item ∈ c.items, item.Valid) (hdrop : data.drop 4 = c.bytes ++ chunksBytes rest)
    (h : decodeChunks data (rest.length + 1) 4 [] = .ok (c :: rest)) : Recoverable (c :: rest) := by
  obtain ⟨hitems, hrest⟩ := (decodeChunks_first_iff hdrop).mp h
  obtain ⟨s, items⟩ := c
  have hvalueless := valueless_of_decodeItem hitems
  have hssrc : s.toNat = _ := ssrc_toNat hdrop
  have hlen : 8 ≤ (data.drop 4).length := by
    have := Chunk.le_length_bytes ⟨s, items⟩
    rw [hdrop, List.length_append]
    omega
  have h₁ := (byte1 (data.drop 4) 1).toNat_lt
  have h₂ := (byte1 (data.drop 4) 2).toNat_lt
  have h₃ := (byte1 (data.drop 4) 3).toNat_lt
  rw [decodeItem, decodeItems_eq] at hitems
  split at hitems
  · next hfit =>
    obtain rfl : items = [] := (Except.ok.inj hitems).symm
    refine recoverable_of_items_nil hdrop hrest (Or.inl ?_)
    rw [chunksBytes_cons, ← hdrop]
    omega
  split at hitems
  · cases hitems
  next hone =>
  rw [not_not] at hone
  rw [hone, UInt8.toNat_zero] at hssrc
  split at hitems
  · next hzero =>
    obtain rfl : items = [] := (Except.ok.inj hitems).symm
    rw [hzero, UInt8.toNat_zero] at hssrc
    exact recoverable_of_items_nil hdrop hrest (Or.inr (by omega))
  rw [decodeItems_eq, hone] at hitems
  split at hitems
  · next hfit =>
    rw [UInt8.toNat_zero] at hfit
    omega
  split at hitems
  · cases hitems
  next hthree =>
  rw [not_not] at hthree
  rw [hthree, UInt8.toNat_zero] at hssrc
  split at hitems
  · next htwo =>
    rw [htwo, UInt8.toNat_zero] at hssrc
    generalize byte1 (data.drop 4) 0 = t at hitems hssrc
    obtain rfl : items = [⟨t, 0, []⟩] := (Except.ok.inj hitems).symm
    exact recoverable_of_singleton hdrop hrest (by simpa using hssrc)
  · -- all items of the chunk are decoded behind the two that stand in the place of the SSRC
    have hzero : ∀ item ∈ items, item = ⟨item.type, 0, []⟩ ∧ item.type ≠ 0 :=
      fun item hitem ↦ ⟨hvalueless item hitem, (hvalid item hitem).type_ne_zero⟩
    have hfrom : (data.drop 4).drop 4 = (items.map Item.bytes).flatten ++ ([0] ++
        (List.replicate ((4 - (Chunk.body ⟨s, items⟩).length % 4) % 4) 0 ++ chunksBytes rest)) := by
      rw [hdrop, Chunk.bytes, Chunk.body]
      simp only [List.append_assoc]
      exact List.drop_left' (net4_length s)
    exact absurd hitems (decodeItems_ne hone hzero hfrom)

theorem decodeChunks_of_recoverable {c : Chunk} {rest : List Chunk} {data : Bytes}
    (hvalid : ∀ item ∈ c.items, item.Valid) (hdrop : data.drop 4 = c.bytes ++ chunksBytes rest)
    (h : Recoverable (c :: rest)) : decodeChunks data (rest.length + 1) 4 [] = .ok (c :: rest) := by
  rw [decodeChunks_first_iff hdrop]
  have hssrc := ssrc_toNat hdrop
  have h₁ := (byte1 (data.drop 4) 1).toNat_lt
  have h₂ := (byte1 (data.drop 4) 2).toNat_lt
  have h₃ := (byte1 (data.drop 4) 3).toNat_lt
  cases h with
  | silent s n h =>
    refine ⟨?_, ?_⟩
    · have hlen := length_chunks_nil s n
      rw [chunksBytes_cons, ← hdrop] at hlen
      dsimp only at hssrc
      rw [decodeItem, decodeItems_eq, if_pos (by omega)]
    · rw [List.length_replicate, Chunk.size_nil, decodeChunks_empty (drop_chunk_nil hdrop)]
      rfl
  | ended s n h =>
    refine ⟨?_, ?_⟩
    · dsimp only at hssrc
      apply decodeItem_of_zero <;> rw [← UInt8.toNat_inj, UInt8.toNat_zero] <;> omega
    · rw [List.length_replicate, Chunk.size_nil, decodeChunks_empty (drop_chunk_nil hdrop)]
      rfl
  | mistaken s t n h =>
    refine ⟨?_, ?_⟩
    · have htype : t ≠ 0 := by
        rintro rfl
        exact absurd (hvalid _ List.mem_cons_self).type_pos (by decide)
      rw [Chunk.bytes_singleton, net4_of_high h] at hdrop
      rw [hdrop, decodeItem, decodeItems_eq, decodeItems_eq]
      simp [byte1, htype]
    · rw [List.length_replicate, Chunk.size_singleton, decodeChunks_empty (drop_chunk_singleton hdrop)]
      rfl

theorem decode_serialise_iff (chunks : List Chunk) (hcount : chunks.length ≤ 31)
    (hvalid : ∀ c ∈ chunks, ∀ item ∈ c.items, item.Valid) :
    (∃ sdes, SdesPacket.fresh.decode (serialise chunks) = .ok (0, sdes) ∧ sdes.chunks = chunks) ↔
      Recoverable chunks := by
  rw [decode_serialise hcount]
  cases chunks with
  | nil => exact iff_of_true rfl .nil
  | cons c rest =>
    have hdrop := drop_serialise (c :: rest)
    have hc := hvalid c List.mem_cons_self
    rw [chunksBytes_cons] at hdrop
    exact ⟨recoverable_of_decodeChunks hc hdrop, decodeChunks_of_recoverable hc hdrop⟩

/-- One chunk whose SSRC begins with a zero byte pair, without items. -/
theorem decode_serialise_quiet :
    ∃ sdes, SdesPacket.fresh.decode (serialise [⟨7, []⟩]) = .ok (0, sdes) ∧ sdes.chunks = [⟨7, []⟩] := by
  refine (decode_serialise_iff [⟨7, []⟩] (by decide) ?_).mpr (.ended 7 0 (by decide))
  intro c hc item hitem
  obtain rfl := List.mem_singleton.mp hc
  cases hitem

def cname : Bytes := [0x81, 202, 0, 2, 1, 1, 1, 1, 1, 1, 97, 0]

theorem decode_cname : SdesPacket.fresh.decode cname = .error .outOfBounds := by
  rw [SdesPacket.decode, if_neg (by decide), readCommonHeader_of (by decide), ok_bind,
    show (headerOf cname).count.toNat = 0 + 1 from rfl, decodeChunks_succ, if_neg (by decide), decodeItem,
    decodeItems_eq, if_neg (by decide), if_pos (by decide)]
  rfl

/-- A chunk with the CNAME `a`, whose value is not read from the packet; and a chunk with
an empty CNAME, whose SSRC is decoded as two more items. -/
theorem decode_serialise_fails :
    SdesPacket.fresh.decode (serialise [⟨0x01010101, [⟨1, 1, [97]⟩]⟩]) = .error .outOfBounds ∧
    (SdesPacket.fresh.decode (serialise [⟨0x01000200, [⟨1, 0, []⟩]⟩])).map (·.2.chunks) =
      .ok [⟨0x01000200, [⟨1, 0, []⟩, ⟨2, 0, []⟩, ⟨1, 0, []⟩]⟩] := by
  have hcname : serialise [⟨0x01010101, [⟨1, 1, [97]⟩]⟩] = cname := by decide
  have hempty : serialise [⟨0x01000200, [⟨1, 0, []⟩]⟩] =
      [0x81, 202, 0, 2, 1, 0, 2, 0, 1, 0, 0, 0] := by decide
  constructor
  · rw [hcname, decode_cname]
  · rw [hempty, SdesPacket.decode, if_neg (by decide), readCommonHeader_of (by decide), ok_bind,
      show (headerOf _).count.toNat = 0 + 1 from rfl, decodeChunks_succ, if_neg (by decide), decodeItem]
    rw [decodeItems_eq, if_neg (by decide), if_neg (by decide), if_neg (by decide)]
    rw [decodeItems_eq, if_neg (by decide), if_neg (by decide), if_neg (by decide)]
    rw [decodeItems_eq, if_neg (by decide), if_neg (by decide), if_neg (by decide)]
    rw [decodeItems_eq, if_neg (by decide), if_neg (by decide), if_pos (by decide)]
    rfl

end Baize.Rtcp
