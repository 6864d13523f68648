import Baize.Lib.Checked
import Baize.Util.StringPiece

namespace Baize.Transfer

open Lib StringPiece

def bzfthead : Bytes := [98, 122, 102, 116, 104, 101, 97, 100]

def bzftbody : Bytes := [98, 122, 102, 116, 98, 111, 100, 121]

structure Header where
  filename : Bytes
  filemd5 : Bytes
  fileSize : UInt64
  deriving DecidableEq

namespace Header

def pieces (h : Header) : List Bytes :=
  [bzfthead, [UInt8.ofNat h.filename.length], h.filename, [UInt8.ofNat h.filemd5.length], h.filemd5, bzftbody,
    net8 h.fileSize]

/-- The header at the start of `msg`, with its length; `none` where the client gives up. -/
def parse (msg : Bytes) : Option (Header × ℕ) :=
  if msg.take 8 ≠ bzfthead then none
  else
    let leftLen := msg.length - 8
    let filenameLen := (byte1 msg 8).toNat
    if leftLen < filenameLen + 1 then none
    else
      let filename := (msg.drop 9).take filenameLen
      let pos := 9 + filenameLen
      let leftLen := leftLen - 1 - filenameLen
      -- this byte may lie behind the message; `left_len` is zero then, and less than any length takes
      let filemd5Len := (byte1 msg pos).toNat
      if leftLen < filemd5Len + 1 then none
      else
        let filemd5 := (msg.drop (pos + 1)).take filemd5Len
        let pos := pos + 1 + filemd5Len
        let leftLen := leftLen - 1 - filemd5Len
        if leftLen < 8 + 8 then none
        else if (msg.drop pos).take 8 ≠ bzftbody then none
        else some (⟨filename, filemd5, byte8 msg (pos + 8)⟩, pos + 16)

def encode (h : Header) : Bytes := h.pieces.flatten

structure Short (h : Header) : Prop where
  filename : h.filename.length ≤ 255
  filemd5 : h.filemd5.length ≤ 255

variable {h : Header}

theorem encode_eq (h : Header) : h.encode = bzfthead ++ UInt8.ofNat h.filename.length :: (h.filename ++
    UInt8.ofNat h.filemd5.length :: (h.filemd5 ++ (bzftbody ++ net8 h.fileSize))) := by
  simp [encode, pieces]

theorem length_encode (h : Header) : h.encode.length = 26 + h.filename.length + h.filemd5.length := by
  simp only [encode_eq, List.length_append, List.length_cons, net8_length, bzfthead, bzftbody, List.length_nil]
  omega

structure Laid (h : Header) (s : Bytes) : Prop where
  head : s.take 8 = bzfthead
  filenameLen : (byte1 s 8).toNat = h.filename.length
  filename : (s.drop 9).take h.filename.length = h.filename
  filemd5Len : (byte1 s (9 + h.filename.length)).toNat = h.filemd5.length
  filemd5 : (s.drop (10 + h.filename.length)).take h.filemd5.length = h.filemd5
  body : (s.drop (10 + h.filename.length + h.filemd5.length)).take 8 = bzftbody
  fileSize : byte8 s (18 + h.filename.length + h.filemd5.length) = h.fileSize

theorem toNat_ofNat_length {l : Bytes} (hl : l.length ≤ 255) : (UInt8.ofNat l.length).toNat = l.length :=
  UInt8.toNat_ofNat_of_lt' (Nat.lt_succ_of_le hl)

theorem laid_encode (hshort : h.Short) (rest : Bytes) : h.Laid (h.encode ++ rest) := by
  have hskip {s a t : Bytes} {i : ℕ} (hi : s.drop i = a ++ t) : s.drop (i + a.length) = t := by
    rw [← List.drop_drop, hi, List.drop_left]
  have h0 : (h.encode ++ rest).drop 0 = bzfthead ++ (UInt8.ofNat h.filename.length :: (h.filename ++
      UInt8.ofNat h.filemd5.length :: (h.filemd5 ++ (bzftbody ++ (net8 h.fileSize ++ rest))))) := by
    simp [encode_eq]
  have h8 := hskip h0
  have h9 := drop_succ_of_drop h8
  have hlen := hskip h9
  have h10 := drop_succ_of_drop hlen
  have hbody := hskip h10
  have hsize := hskip hbody
  simp only [bzfthead, bzftbody, List.length_cons, List.length_nil, Nat.zero_add] at h8 h9 hlen h10 hbody hsize
  refine ⟨?_, ?_, ?_, ?_, ?_, ?_, ?_⟩
  · rw [← List.drop_zero (l := h.encode ++ rest), h0]
    rfl
  · rw [byte1_of_drop h8, toNat_ofNat_length hshort.filename]
  · rw [h9, List.take_left]
  · rw [byte1_of_drop hlen, toNat_ofNat_length hshort.filemd5]
  · rw [show 10 + h.filename.length = 9 + h.filename.length + 1 by omega, h10, List.take_left]
  · rw [show 10 + h.filename.length = 9 + h.filename.length + 1 by omega, hbody]
    rfl
  · rw [show 18 + h.filename.length + h.filemd5.length =
      9 + h.filename.length + 1 + h.filemd5.length + 8 by omega]
    exact byte8_of_drop hsize

theorem take_drop_of_prefix {p s : Bytes} (hp : p <+: s) {i k : ℕ} (hik : i + k ≤ p.length) :
    (p.drop i).take k = (s.drop i).take k := by
  obtain ⟨t, rfl⟩ := hp
  rw [List.drop_append_of_le_length (by omega), List.take_append_of_le_length]
  rw [List.length_drop]
  omega

theorem parse_of_prefix (hshort : h.Short) {p rest : Bytes} (hp : p <+: h.encode ++ rest) :
    parse p = if h.encode.length ≤ p.length then some (h, h.encode.length) else none := by
  have hl := laid_encode hshort rest
  have hslice {i k : ℕ} (hik : i + k ≤ p.length) := take_drop_of_prefix hp hik
  obtain ⟨t, ht⟩ := hp
  have hbyte {i : ℕ} (hi : i < p.length) : byte1 p i = byte1 (h.encode ++ rest) i := by
    rw [← ht, byte1_append hi]
  rw [length_encode]
  unfold parse
  dsimp only
  by_cases h8 : p.length ≤ 8
  · have hless : ¬26 + h.filename.length + h.filemd5.length ≤ p.length := by omega
    rw [if_neg hless]
    split
    · rfl
    · rw [if_pos (by omega)]
  have hhead := hslice (i := 0) (k := 8) (by omega)
  rw [List.drop_zero, List.drop_zero, hl.head] at hhead
  rw [hhead, if_neg (not_not.mpr rfl), hbyte (i := 8) (by omega), hl.filenameLen]
  by_cases h9 : p.length < 9 + h.filename.length
  · rw [if_pos (by omega), if_neg (by omega)]
  rw [if_neg (by omega)]
  by_cases hlen : p.length = 9 + h.filename.length
  · rw [if_pos (by omega), if_neg (by omega)]
  rw [hbyte (i := 9 + h.filename.length) (by omega), hl.filemd5Len]
  by_cases h10 : p.length < 10 + h.filename.length + h.filemd5.length
  · rw [if_pos (by omega), if_neg (by omega)]
  rw [if_neg (by omega)]
  by_cases hsize : p.length < 26 + h.filename.length + h.filemd5.length
  · rw [if_pos (by omega), if_neg (by omega)]
  have hname := hslice (i := 9) (k := h.filename.length) (by omega)
  have hmd5 := hslice (i := 9 + h.filename.length + 1) (k := h.filemd5.length) (by omega)
  have hbody := hslice (i := 9 + h.filename.length + 1 + h.filemd5.length) (k := 8) (by omega)
  have hlast : byte8 p (9 + h.filename.length + 1 + h.filemd5.length + 8) = h.fileSize := by
    rw [← byte8_append (q := t) (by omega), ht, ← hl.fileSize]
    congr 1
    omega
  rw [hl.filename] at hname
  rw [show 9 + h.filename.length + 1 = 10 + h.filename.length by omega] at hmd5 hbody hlast ⊢
  rw [hl.filemd5] at hmd5
  rw [hl.body] at hbody
  rw [if_neg (by omega), hbody, if_neg (not_not.mpr rfl), if_pos (by omega), hname, hmd5, hlast]
  congr 2
  omega

theorem encode_length_le (hshort : h.Short) : h.encode.length ≤ 536 := by
  have hname := hshort.filename
  have hmd5 := hshort.filemd5
  rw [length_encode]
  omega

end Header

end Baize.Transfer
