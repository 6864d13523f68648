import Baize.Lib.Run
import Baize.Net.Buffer

namespace Baize.Net.Buffer

open Lib

structure Layout (b : Buffer) (pre q post : Bytes) : Prop where
  buffer_eq : b.buffer = pre ++ q ++ post
  reader_eq : b.readerIndex = pre.length
  writer_eq : b.writerIndex = pre.length + q.length
  prepend_le : 8 ≤ pre.length
  size_lt : b.buffer.length < 2147483648

/-- `b` is a well-formed buffer whose readable bytes are `q`. -/
def Holds (b : Buffer) (q : Bytes) : Prop := ∃ pre post, Layout b pre q post

section Layout

variable {b : Buffer} {pre q post : Bytes}

theorem Layout.length_eq (h : Layout b pre q post) :
    b.buffer.length = pre.length + q.length + post.length := by
  rw [h.buffer_eq, List.length_append, List.length_append]

theorem Layout.writable_eq (h : Layout b pre q post) : b.writableBytes = post.length := by
  have hl := h.length_eq
  have hw := h.writer_eq
  simp only [writableBytes]
  omega

theorem Layout.readable_eq (h : Layout b pre q post) : b.readableBytes = q.length := by
  have hr := h.reader_eq
  have hw := h.writer_eq
  simp only [readableBytes]
  omega

theorem Layout.slice_eq (h : Layout b pre q post) : b.slice = q := by
  have hr : b.readerIndex.toNat = pre.length := by rw [h.reader_eq]; rfl
  have hq : b.readableBytes.toNat = q.length := by rw [h.readable_eq]; rfl
  rw [slice, hr, hq, h.buffer_eq, List.append_assoc, List.drop_left, List.take_left]

end Layout

theorem Holds.slice_eq {b : Buffer} {q : Bytes} (h : Holds b q) : b.slice = q := by
  obtain ⟨pre, post, hl⟩ := h
  exact hl.slice_eq

theorem Holds.readable_eq {b : Buffer} {q : Bytes} (h : Holds b q) : b.readableBytes = q.length := by
  obtain ⟨pre, post, hl⟩ := h
  exact hl.readable_eq

theorem Holds.size_lt {b : Buffer} {q : Bytes} (h : Holds b q) : b.buffer.length < 2147483648 := by
  obtain ⟨pre, post, hl⟩ := h
  exact hl.size_lt

theorem Holds.length_add_le {b : Buffer} {q : Bytes} (h : Holds b q) : q.length + 8 ≤ b.buffer.length := by
  obtain ⟨pre, post, hl⟩ := h
  have hlen := hl.length_eq
  have hp := hl.prepend_le
  omega

theorem Holds.length_le {b : Buffer} {q : Bytes} (h : Holds b q) : q.length ≤ b.buffer.length :=
  (Nat.le_add_right _ 8).trans h.length_add_le

theorem Holds.indices {b : Buffer} {q : Bytes} (h : Holds b q) :
    kCheapPrepend ≤ b.readerIndex ∧ b.readerIndex ≤ b.writerIndex ∧
      b.writerIndex ≤ b.buffer.length := by
  obtain ⟨pre, post, hl⟩ := h
  have hlen := hl.length_eq
  have hp := hl.prepend_le
  simp only [kCheapPrepend, hl.reader_eq, hl.writer_eq]
  omega

theorem exists_holds {p : Bytes} (h : p.length + 8 < 2147483648) : ∃ b, Holds b p := by
  refine ⟨⟨List.replicate 8 0 ++ p, 8, 8 + p.length⟩, List.replicate 8 0, [], ?_, ?_, ?_, ?_, ?_⟩
  · rw [List.append_nil]
  · rfl
  · rfl
  · exact Nat.le_refl 8
  · rw [List.length_append, List.length_replicate]
    omega

theorem make_spec {n : ℕ} (hn : n + 8 < 2147483648) :
    ∃ b, make n = .ok b ∧ Holds b [] ∧ b.buffer.length = n + 8 := by
  have hint : int (kCheapPrepend + n) = .ok (kCheapPrepend + n) :=
    int_of (by simp only [kCheapPrepend]; omega) (by simp only [kCheapPrepend]; omega)
  have hsize : (kCheapPrepend + (n : ℤ)).toNat = n + 8 := by simp only [kCheapPrepend]; omega
  have hlay : Layout ⟨List.replicate (n + 8) 0, kCheapPrepend, kCheapPrepend⟩
      (List.replicate 8 0) [] (List.replicate n 0) := by
    refine ⟨?_, ?_, ?_, ?_, ?_⟩
    · rw [List.append_nil, List.replicate_append_replicate, Nat.add_comm]
    · simp [kCheapPrepend]
    · simp [kCheapPrepend]
    · simp
    · simpa using hn
  refine ⟨_, ?_, ⟨_, _, hlay⟩, by simp⟩
  have hr := hlay.readable_eq
  have hw := hlay.writable_eq
  rw [List.length_nil, Nat.cast_zero] at hr
  rw [List.length_replicate] at hw
  have hp : (⟨List.replicate (n + 8) 0, kCheapPrepend, kCheapPrepend⟩ : Buffer).prependableBytes =
      kCheapPrepend := rfl
  simp only [make, hint, ok_bind, hsize, check_of hr, check_of hw, check_of hp, pure_eq_ok]

theorem copyInto_eq (pre mid post d : Bytes) (hd : d.length = mid.length) :
    copyInto (pre ++ mid ++ post) pre.length d = .ok (pre ++ d ++ post) := by
  have hin : 0 ≤ (pre.length : ℤ) ∧
      (pre.length : ℤ) + d.length ≤ ((pre ++ mid ++ post).length : ℤ) := by
    simp only [List.length_append]
    omega
  rw [copyInto, check_of hin, ok_bind, pure_eq_ok, Int.toNat_natCast, hd, ← List.length_append,
    List.drop_left, List.append_assoc pre mid, List.take_left]

/-- The size of the vector once `ensureWritableBytes len` has made room. -/
def sizeFor (b : Buffer) (len : ℤ) : ℤ :=
  if b.writableBytes < len ∧ b.writableBytes + b.prependableBytes < len + kCheapPrepend then
    b.writerIndex + len
  else b.buffer.length

theorem sizeFor_congr {b c : Buffer} (hl : b.buffer.length = c.buffer.length)
    (hr : b.readerIndex = c.readerIndex) (hw : b.writerIndex = c.writerIndex) (len : ℤ) :
    b.sizeFor len = c.sizeFor len := by
  unfold sizeFor writableBytes prependableBytes
  rw [hl, hr, hw]

theorem resize_layout {b : Buffer} {pre q post : Bytes} (h : Layout b pre q post) (n : ℕ)
    (hn : b.buffer.length ≤ n) (hlt : n < 2147483648) :
    Layout { b with buffer := resize b.buffer n } pre q
      (post ++ List.replicate (n - b.buffer.length) 0) := by
  have he : resize b.buffer n = pre ++ q ++ (post ++ List.replicate (n - b.buffer.length) 0) := by
    rw [resize, List.take_of_length_le hn, ← List.append_assoc, ← h.buffer_eq]
  refine ⟨he, h.reader_eq, h.writer_eq, h.prepend_le, ?_⟩
  have hl := h.length_eq
  simp only [he, List.length_append, List.length_replicate]
  omega

theorem slide_layout {b : Buffer} {pre q post : Bytes} (h : Layout b pre q post) :
    ∃ moved post', copyInto b.buffer kCheapPrepend b.slice = .ok moved ∧
      Layout ⟨moved, kCheapPrepend, kCheapPrepend + b.readableBytes⟩ (pre.take 8) q post' ∧
      moved.length = b.buffer.length ∧ post'.length + 8 = pre.length + post.length := by
  have hp := h.prepend_le
  have hl := h.length_eq
  have htake : (pre.take 8).length = 8 := List.length_take_of_le hp
  let tail := pre.drop 8 ++ q ++ post
  have hsplit : b.buffer = pre.take 8 ++ tail.take q.length ++ tail.drop q.length := by
    rw [List.append_assoc, List.take_append_drop, h.buffer_eq]
    simp only [tail, ← List.append_assoc, List.take_append_drop]
  have htail : tail.length = pre.length - 8 + q.length + post.length := by
    simp only [tail, List.length_append, List.length_drop]
  have hcopy := copyInto_eq (pre.take 8) (tail.take q.length) (tail.drop q.length) q
    (by rw [List.length_take]; omega)
  refine ⟨_, tail.drop q.length, ?_, ⟨rfl, ?_, ?_, ?_, ?_⟩, ?_, ?_⟩
  · rw [h.slice_eq, kCheapPrepend]
    conv_lhs => rw [hsplit]
    rw [htake] at hcopy
    exact hcopy
  · simp only [kCheapPrepend, htake]; rfl
  · simp only [kCheapPrepend, h.readable_eq, htake]; rfl
  · omega
  · have := h.size_lt
    simp only [List.length_append, List.length_drop, htake]
    omega
  · simp only [List.length_append, List.length_drop, htake]
    omega
  · simp only [List.length_drop]
    omega

theorem makeSpace_spec {b : Buffer} {pre q post : Bytes} (h : Layout b pre q post) {len : ℤ}
    (hneed : b.writableBytes < len) (hsize : b.sizeFor len < 2147483648) :
    ∃ b' pre' post', makeSpace b len = .ok b' ∧ Layout b' pre' q post' ∧ len ≤ post'.length ∧
      (b'.buffer.length : ℤ) = b.sizeFor len := by
  have hl := h.length_eq
  have hp := h.prepend_le
  have hlt := h.size_lt
  have hw := h.writable_eq
  have hwi := h.writer_eq
  have hr := h.reader_eq
  have hroom : int (b.writableBytes + b.prependableBytes) =
      .ok (b.writableBytes + b.prependableBytes) :=
    int_of (by simp only [prependableBytes]; omega) (by simp only [prependableBytes]; omega)
  rw [makeSpace, hroom, ok_bind]
  by_cases hgrow : b.writableBytes + b.prependableBytes < len + kCheapPrepend
  · have hs : b.sizeFor len = b.writerIndex + len := if_pos ⟨hneed, hgrow⟩
    rw [hs] at hsize
    rw [int_of (by simp only [kCheapPrepend]; omega) (by simp only [kCheapPrepend]; omega), ok_bind,
      if_pos hgrow, int_of (by omega) (by omega), ok_bind, pure_eq_ok]
    have hres := resize_layout h (b.writerIndex + len).toNat (by omega) (by omega)
    refine ⟨_, _, _, rfl, hres, ?_, ?_⟩
    · simp only [List.length_append, List.length_replicate]
      omega
    · have hl' := hres.length_eq
      simp only [List.length_append, List.length_replicate] at hl'
      rw [hl', hs]
      omega
  · have hs : b.sizeFor len = b.buffer.length := if_neg (fun hc ↦ hgrow hc.2)
    obtain ⟨moved, post', hcopy, hlay, hsame, hpost⟩ := slide_layout h
    have hgrow' : len + 8 ≤ b.writableBytes + b.readerIndex := not_lt.mp hgrow
    have hneed' : int (len + kCheapPrepend) = .ok (len + kCheapPrepend) :=
      int_of (by simp only [kCheapPrepend]; omega) (by simp only [kCheapPrepend]; omega)
    have hread : b.readableBytes =
        (⟨moved, kCheapPrepend, kCheapPrepend + b.readableBytes⟩ : Buffer).readableBytes := by
      rw [hlay.readable_eq, h.readable_eq]
    have hslid : kCheapPrepend < b.readerIndex := by simp only [kCheapPrepend]; omega
    refine ⟨_, _, _, ?_, hlay, by omega, ?_⟩
    · simp only [hneed', ok_bind, if_neg hgrow, check_of hslid, hcopy, check_of hread, pure_eq_ok]
    · rw [hs, ← hsame]

theorem ensureWritableBytes_spec {b : Buffer} {pre q post : Bytes} (h : Layout b pre q post)
    {len : ℤ} (hsize : b.sizeFor len < 2147483648) :
    ∃ b' pre' post', ensureWritableBytes b len = .ok b' ∧ Layout b' pre' q post' ∧
      len ≤ post'.length ∧ (b'.buffer.length : ℤ) = b.sizeFor len := by
  rw [ensureWritableBytes]
  by_cases hneed : b.writableBytes < len
  · obtain ⟨b', pre', post', he, hl, hroom, hs⟩ := makeSpace_spec h hneed hsize
    have hok : len ≤ b'.writableBytes := by rw [hl.writable_eq]; exact hroom
    refine ⟨b', pre', post', ?_, hl, hroom, hs⟩
    simp only [if_pos hneed, he, ok_bind, check_of hok, pure_eq_ok]
  · have hroom : len ≤ post.length := by rw [← h.writable_eq]; omega
    refine ⟨b, pre, post, ?_, h, hroom, (if_neg (fun hc ↦ hneed hc.1)).symm⟩
    simp only [if_neg hneed, pure_eq_ok, ok_bind, check_of (not_lt.mp hneed)]

theorem Layout.extend {b : Buffer} {pre q post : Bytes} (h : Layout b pre q post) (d : Bytes)
    (hd : d.length ≤ post.length) :
    copyInto b.buffer b.writerIndex d = .ok (pre ++ q ++ (d ++ post.drop d.length)) ∧
      Layout ⟨pre ++ q ++ (d ++ post.drop d.length), b.readerIndex, b.writerIndex + d.length⟩
        pre (q ++ d) (post.drop d.length) := by
  have hl := h.length_eq
  have hlt := h.size_lt
  constructor
  · have hc := copyInto_eq (pre ++ q) (post.take d.length) (post.drop d.length) d
      (List.length_take_of_le hd).symm
    rw [List.append_assoc, List.take_append_drop] at hc
    rw [h.buffer_eq, h.writer_eq, ← Nat.cast_add, ← List.length_append, hc, List.append_assoc (pre ++ q)]
  · refine ⟨by simp only [List.append_assoc], h.reader_eq, ?_, h.prepend_le, ?_⟩
    · simp only [h.writer_eq, List.length_append, Nat.cast_add]
      omega
    · simp only [List.length_append, List.length_drop]
      omega

theorem append_spec {b : Buffer} {q data : Bytes} (h : Holds b q) {len : ℤ}
    (hlen : len ≤ data.length) (hsize : b.sizeFor len < 2147483648) :
    ∃ b', append b data len = .ok b' ∧ Holds b' (q ++ data.take len.toNat) ∧
      (b'.buffer.length : ℤ) = b.sizeFor len := by
  obtain ⟨pre, post, hl⟩ := h
  rw [append]
  by_cases hpos : 0 < len
  · obtain ⟨b', pre', post', he, hl', hroom, hs⟩ := ensureWritableBytes_spec hl hsize
    have hd : (data.take len.toNat).length = len.toNat := List.length_take_of_le (by omega)
    obtain ⟨hcopy, hext⟩ := hl'.extend (data.take len.toNat) (by omega)
    have hw := hl'.writer_eq
    have hlen' := hl'.length_eq
    have hlt := hl'.size_lt
    rw [if_pos hpos, he, ok_bind, hcopy, ok_bind, int_of (by omega) (by omega), ok_bind, pure_eq_ok]
    rw [show ((data.take len.toNat).length : ℤ) = len by omega] at hext
    refine ⟨_, rfl, ⟨_, _, hext⟩, ?_⟩
    rw [← hs, hlen']
    simp only [List.length_append, List.length_drop]
    omega
  · have hz : len.toNat = 0 := by omega
    rw [if_neg hpos, pure_eq_ok, hz, List.take_zero, List.append_nil]
    have hw := hl.writable_eq
    exact ⟨b, rfl, ⟨pre, post, hl⟩, (if_neg (fun hc ↦ by omega)).symm⟩

theorem ensureWritableBytes_room {b b' : Buffer} {len : ℤ} (he : ensureWritableBytes b len = .ok b') :
    len ≤ b'.writableBytes := by
  have hlast : ∀ x : Checked Buffer, (x >>= fun b₁ ↦ check (len ≤ b₁.writableBytes) .assertion >>=
      fun _ ↦ pure b₁) = .ok b' → len ≤ b'.writableBytes := by
    intro x hx
    obtain ⟨b₁, -, hx⟩ := bind_eq_ok.mp hx
    obtain ⟨u, hroom, hx⟩ := bind_eq_ok.mp hx
    obtain rfl : b₁ = b' := Except.ok.inj hx
    exact check_eq_ok hroom
  rw [ensureWritableBytes] at he
  split at he
  · exact hlast _ he
  · exact hlast _ he

/-- The vector is asked to grow in `int`, so a size of 2 GiB is never reached. -/
theorem sizeFor_lt_of_ensureWritableBytes {b b' : Buffer} {len : ℤ} (hlt : b.buffer.length < 2147483648)
    (he : ensureWritableBytes b len = .ok b') : b.sizeFor len < 2147483648 := by
  by_cases hgrow : b.writableBytes < len ∧ b.writableBytes + b.prependableBytes < len + kCheapPrepend
  · obtain ⟨hneed, hroom⟩ := hgrow
    rw [ensureWritableBytes, if_pos hneed, makeSpace] at he
    obtain ⟨b₂, he, -⟩ := bind_eq_ok.mp he
    obtain ⟨room, hr, he⟩ := bind_eq_ok.mp he
    obtain ⟨need, hn, he⟩ := bind_eq_ok.mp he
    rw [← int_eq_ok hr, ← int_eq_ok hn, if_pos hroom] at he
    obtain ⟨size, hs, -⟩ := bind_eq_ok.mp he
    rw [sizeFor, if_pos ⟨hneed, hroom⟩]
    exact isInt_of_int hs
  · rw [sizeFor, if_neg hgrow]
    exact_mod_cast hlt

theorem sizeFor_lt_of_append {b b' : Buffer} {q data : Bytes} (h : Holds b q) {len : ℤ}
    (he : append b data len = .ok b') : b.sizeFor len < 2147483648 := by
  rw [append] at he
  by_cases hpos : 0 < len
  · rw [if_pos hpos] at he
    obtain ⟨b₁, he, -⟩ := bind_eq_ok.mp he
    exact sizeFor_lt_of_ensureWritableBytes h.size_lt he
  · obtain ⟨-, -, hw⟩ := h.indices
    have hsize := h.size_lt
    rw [sizeFor, if_neg (fun hc ↦ by simp only [writableBytes] at hc; omega)]
    exact_mod_cast hsize

theorem append_holds {b b' : Buffer} {q data : Bytes} (h : Holds b q)
    (he : append b data data.length = .ok b') : Holds b' (q ++ data) := by
  obtain ⟨b₁, he₁, hh, -⟩ := append_spec h (le_refl _) (sizeFor_lt_of_append h he)
  obtain rfl : b₁ = b' := Except.ok.inj (he₁.symm.trans he)
  rwa [Int.toNat_natCast, List.take_length] at hh

theorem foldlM_append_holds {b b' : Buffer} {q : Bytes} (h : Holds b q) (ds : List Bytes)
    (he : ds.foldlM (fun b (d : Bytes) ↦ append b d d.length) b = .ok b') :
    Holds b' (q ++ ds.flatten) := by
  have hh := foldlM_keeps (f := fun q d ↦ q ++ id d) (R := Holds) (fun _ _ _ _ h hd ↦ append_holds h hd) ds h he
  rwa [List.foldl_append_eq_append, List.map_id] at hh

theorem foldlM_append_grows {b : Buffer} {q : Bytes} (h : Holds b q) (ds : List Bytes)
    (hsize : b.buffer.length + ds.flatten.length < 2147483648) :
    ∃ b', ds.foldlM (fun b (d : Bytes) ↦ append b d d.length) b = .ok b' ∧ Holds b' (q ++ ds.flatten) ∧
      b.buffer.length ≤ b'.buffer.length ∧ b'.buffer.length ≤ b.buffer.length + ds.flatten.length := by
  induction ds generalizing b q with
  | nil => exact ⟨b, rfl, by simpa using h, Nat.le_refl _, Nat.le_refl _⟩
  | cons d ds ih =>
    rw [List.flatten_cons, List.length_append] at hsize ⊢
    have hgrow : (b.buffer.length : ℤ) ≤ b.sizeFor d.length ∧
        b.sizeFor d.length ≤ b.buffer.length + d.length := by
      obtain ⟨-, -, hw⟩ := h.indices
      unfold sizeFor writableBytes
      split_ifs <;> omega
    have hlen : (d.length : ℤ) ≤ d.length := le_refl _
    obtain ⟨b₁, he₁, hh₁, hs₁⟩ := append_spec h hlen (by omega)
    rw [Int.toNat_natCast, List.take_length] at hh₁
    obtain ⟨b₂, he₂, hh₂, hlow, hup⟩ := ih hh₁ (by omega)
    refine ⟨b₂, ?_, by rwa [← List.append_assoc], by omega, by omega⟩
    rw [List.foldlM_cons, he₁]
    exact he₂

end Baize.Net.Buffer
