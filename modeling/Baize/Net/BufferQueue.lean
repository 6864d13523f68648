import Baize.Lib.Fifo
import Baize.Lib.Run
import Baize.Net.BufferLayout

namespace Baize.Net.Buffer

open Lib

def reserve (b : Buffer) : Checked Buffer :=
  if b.writableBytes < 1024 then
    if (b.buffer.length : ℤ) < 65536 then ensureWritableBytes b b.buffer.length
    else ensureWritableBytes b 65536
  else pure b

def reserveSize (b : Buffer) : ℤ :=
  if b.writableBytes < 1024 then
    if (b.buffer.length : ℤ) < 65536 then b.sizeFor b.buffer.length else b.sizeFor 65536
  else b.buffer.length

theorem reserveSize_congr {b c : Buffer} (hl : b.buffer.length = c.buffer.length)
    (hr : b.readerIndex = c.readerIndex) (hw : b.writerIndex = c.writerIndex) :
    b.reserveSize = c.reserveSize := by
  unfold reserveSize writableBytes
  rw [sizeFor_congr hl hr hw, sizeFor_congr hl hr hw, hl, hw]

def growth (size : ℕ) : ℕ := if size < 65536 then size else 65536

theorem reserve_eq {b : Buffer} (hlow : b.writableBytes < 1024) :
    reserve b = ensureWritableBytes b (growth b.buffer.length) := by
  rw [reserve, if_pos hlow, growth]
  split_ifs with hz hn
  · rfl
  · omega
  · omega
  · rfl

theorem reserveSize_eq {b : Buffer} (hlow : b.writableBytes < 1024) :
    b.reserveSize = b.sizeFor (growth b.buffer.length) := by
  rw [reserveSize, if_pos hlow, growth]
  split_ifs with hz hn
  · rfl
  · omega
  · omega
  · rfl

theorem reserve_spec {b : Buffer} {pre q post : Bytes} (h : Layout b pre q post)
    (hsize : b.reserveSize < 2147483648) :
    ∃ b', reserve b = .ok b' ∧ Holds b' q ∧ (b'.buffer.length : ℤ) = b.reserveSize := by
  by_cases hlow : b.writableBytes < 1024
  · rw [reserveSize_eq hlow] at hsize ⊢
    rw [reserve_eq hlow]
    obtain ⟨b', pre', post', he, hl', -, hsz⟩ := ensureWritableBytes_spec h hsize
    exact ⟨b', he, ⟨pre', post', hl'⟩, hsz⟩
  · rw [reserve, reserveSize, if_neg hlow, if_neg hlow]
    exact ⟨b, rfl, ⟨pre, post, h⟩, rfl⟩

theorem addReadableLength_eq {b : Buffer} {len : ℤ} (hpos : 0 < len) (hroom : len ≤ b.writableBytes)
    (hint : int (b.writerIndex + len) = .ok (b.writerIndex + len)) :
    addReadableLength b len = reserve { b with writerIndex := b.writerIndex + len } := by
  have hens : ensureWritableBytes b len = .ok b := by
    simp only [ensureWritableBytes, if_neg (not_lt.mpr hroom), pure_eq_ok, ok_bind, check_of hroom]
  simp only [addReadableLength, if_neg (not_le.mpr hpos), hens, ok_bind, hint]
  rfl

theorem fill_addReadableLength {b : Buffer} {q d : Bytes} (h : Holds b q) {len : ℤ} (hd : d.length = len.toNat)
    (hpos : 0 < len) (hroom : len ≤ b.writableBytes) :
    ∃ b₁ b₂, fill b d = .ok b₁ ∧ addReadableLength b₁ len = reserve b₂ ∧ Holds b₂ (q ++ d) ∧
      b₂.buffer.length = b.buffer.length ∧ b₂.writerIndex = b.writerIndex + len ∧
      b₂.reserveSize = reserveSize { b with writerIndex := b.writerIndex + len } := by
  obtain ⟨pre, post, hl⟩ := h
  have hw := hl.writer_eq
  have hlen := hl.length_eq
  have hlt := hl.size_lt
  rw [hl.writable_eq] at hroom
  obtain ⟨hcopy, hext⟩ := hl.extend d (by omega)
  rw [show (d.length : ℤ) = len by omega] at hext
  have hsame : (pre ++ q ++ (d ++ post.drop d.length)).length = b.buffer.length := by
    simp only [List.length_append, List.length_drop]
    omega
  refine ⟨{ b with buffer := pre ++ q ++ (d ++ post.drop d.length) }, _, ?_, ?_, ⟨_, _, hext⟩, hsame, rfl,
    reserveSize_congr hsame rfl rfl⟩
  · simp only [fill, hcopy, ok_bind, pure_eq_ok]
  · refine addReadableLength_eq hpos ?_ (int_of (by dsimp only; omega) (by dsimp only; omega))
    simp only [writableBytes]
    omega

theorem addReadableLength_spec {b : Buffer} {q d : Bytes} (h : Holds b q) {len : ℤ}
    (hd : d.length = len.toNat) (hroom : len ≤ b.writableBytes)
    (hsize : 0 < len → reserveSize { b with writerIndex := b.writerIndex + len } < 2147483648) :
    ∃ b₁ b', fill b d = .ok b₁ ∧ addReadableLength b₁ len = .ok b' ∧ Holds b' (q ++ d) ∧
      (b'.buffer.length : ℤ) =
        if 0 < len then reserveSize { b with writerIndex := b.writerIndex + len }
        else b.buffer.length := by
  by_cases hpos : 0 < len
  · obtain ⟨b₁, b₂, hfill, hadd, ⟨pre, post, hl⟩, -, -, hres⟩ := fill_addReadableLength h hd hpos hroom
    obtain ⟨b', he, hh, hsz⟩ := reserve_spec hl (by rw [hres]; exact hsize hpos)
    exact ⟨b₁, b', hfill, hadd.trans he, hh, by rw [if_pos hpos, ← hres, hsz]⟩
  · obtain rfl : d = [] := List.eq_nil_of_length_eq_zero (by omega)
    obtain ⟨pre, post, hl⟩ := h
    have hfill : fill b [] = .ok b := by
      simp only [fill, (hl.extend [] (Nat.zero_le _)).1, ok_bind, pure_eq_ok]
      simp only [List.length_nil, List.drop_zero, List.nil_append, ← hl.buffer_eq]
    refine ⟨b, b, hfill, if_pos (by omega), ?_, by rw [if_neg hpos]⟩
    rw [List.append_nil]
    exact ⟨pre, post, hl⟩

/-- The size of the vector after `readFd`. Only bytes that spilled into
`g_extrabuf` can make it grow. -/
def readFdSize (b : Buffer) (d : Bytes) : ℤ :=
  if (d.length : ℤ) ≤ b.writableBytes then b.buffer.length
  else sizeFor { b with writerIndex := (b.buffer.length : ℤ) } (d.length - b.writableBytes)

theorem readFd_spec {b : Buffer} {q d : Bytes} (h : Holds b q)
    (hsize : b.readFdSize d < 2147483648) :
    ∃ b', readFd b (some d) = .ok b' ∧ Holds b' (q ++ d) ∧
      (b'.buffer.length : ℤ) = b.readFdSize d := by
  obtain ⟨pre, post, hl⟩ := h
  have hw := hl.writable_eq
  have hwi := hl.writer_eq
  have hlen := hl.length_eq
  have hlt := hl.size_lt
  have htake : (d.take b.writableBytes.toNat).length = min post.length d.length := by
    rw [List.length_take, hw, Int.toNat_natCast]
  obtain ⟨hcopy, hext⟩ := hl.extend (d.take b.writableBytes.toNat) (by omega)
  unfold readFdSize at hsize ⊢
  by_cases hfit : (d.length : ℤ) ≤ b.writableBytes
  · have hall : d.take b.writableBytes.toNat = d := List.take_of_length_le (by omega)
    rw [hall] at hcopy hext
    refine ⟨_, ?_, ⟨_, _, hext⟩, ?_⟩
    · simp only [readFd, fill, hall, hcopy, ok_bind, pure_eq_ok, if_pos hfit]
      rw [int_of (by omega) (by omega), ok_bind]
    · rw [if_pos hfit]
      simp only [List.length_append, List.length_drop]
      omega
  · rw [if_neg hfit] at hsize ⊢
    have hfull : (d.take b.writableBytes.toNat).length = post.length := by omega
    have hnil : post.drop (d.take b.writableBytes.toNat).length = [] :=
      List.drop_eq_nil_of_le (by omega)
    rw [hnil, List.append_nil] at hcopy hext
    have hsame : (pre ++ q ++ d.take b.writableBytes.toNat).length = b.buffer.length := by
      simp only [List.length_append]
      omega
    rw [show b.writerIndex + ((d.take b.writableBytes.toNat).length : ℤ) = b.buffer.length by omega,
      ← hsame] at hext
    have hsz : sizeFor { b with writerIndex := (b.buffer.length : ℤ) } (d.length - b.writableBytes) =
        sizeFor ⟨pre ++ q ++ d.take b.writableBytes.toNat, b.readerIndex,
          ((pre ++ q ++ d.take b.writableBytes.toNat).length : ℤ)⟩ (d.length - b.writableBytes) := by
      apply sizeFor_congr <;> simp only [hsame]
    rw [hsz] at hsize ⊢
    have hrest : ((d.length : ℤ) - b.writableBytes) ≤ ((d.drop b.writableBytes.toNat).length : ℕ) := by
      rw [List.length_drop]
      omega
    obtain ⟨b', he, hh, hs⟩ := append_spec ⟨_, _, hext⟩ hrest hsize
    refine ⟨b', ?_, ?_, hs⟩
    · simp only [readFd, fill, hcopy, ok_bind, pure_eq_ok, if_neg hfit]
      exact he
    · have hdrop : (d.drop b.writableBytes.toNat).take (d.length - b.writableBytes).toNat =
          d.drop b.writableBytes.toNat := List.take_of_length_le (by rw [List.length_drop]; omega)
      rw [hdrop, List.append_assoc, List.take_append_drop] at hh
      exact hh

theorem takeAll_holds {b : Buffer} {q : Bytes} (h : Holds b q) : Holds b.takeAll [] := by
  obtain ⟨pre, post, hl⟩ := h
  have hp : (pre.take 8).length = 8 := List.length_take_of_le hl.prepend_le
  refine ⟨pre.take 8, pre.drop 8 ++ q ++ post, ?_, ?_, ?_, by omega, hl.size_lt⟩
  · simp only [takeAll, hl.buffer_eq, List.append_nil, ← List.append_assoc, List.take_append_drop]
  · rw [hp]; rfl
  · rw [hp]; rfl

theorem take_spec {b : Buffer} {q : Bytes} (h : Holds b q) {len : ℤ} (hlen : len ≤ q.length) :
    ∃ b', take b len = .ok b' ∧ Holds b' (q.drop len.toNat) ∧ b'.buffer.length = b.buffer.length := by
  obtain ⟨pre, post, hl⟩ := h
  have hr := hl.readable_eq
  have hlt := hl.size_lt
  have hl' := hl.length_eq
  have hre := hl.reader_eq
  unfold take
  by_cases hpos : 0 < len
  · have hle : len ≤ b.readableBytes := by omega
    by_cases hpart : len < b.readableBytes
    · refine ⟨{ b with readerIndex := b.readerIndex + len }, ?_, ?_, rfl⟩
      · simp only [if_pos hpos, check_of hle, ok_bind, if_pos hpart, pure_eq_ok]
        rw [int_of (by omega) (by omega), ok_bind]
      · have htake : (q.take len.toNat).length = len.toNat := List.length_take_of_le (by omega)
        refine ⟨pre ++ q.take len.toNat, post, ?_, ?_, ?_, ?_, hl.size_lt⟩
        · rw [List.append_assoc pre, List.take_append_drop, hl.buffer_eq]
        · simp only [List.length_append, htake, Nat.cast_add]
          omega
        · simp only [List.length_append, htake, List.length_drop, Nat.cast_add, hl.writer_eq]
          omega
        · have := hl.prepend_le
          simp only [List.length_append]
          omega
    · refine ⟨b.takeAll, ?_, ?_, rfl⟩
      · simp only [if_pos hpos, check_of hle, ok_bind, if_neg hpart, pure_eq_ok]
      · rw [List.drop_eq_nil_of_le (by omega)]
        exact takeAll_holds ⟨pre, post, hl⟩
  · refine ⟨b, by rw [if_neg hpos, pure_eq_ok], ?_, rfl⟩
    rw [show len.toNat = 0 by omega, List.drop_zero]
    exact ⟨pre, post, hl⟩

theorem takeUntil_spec {b : Buffer} {q : Bytes} (h : Holds b q) {off : ℤ} (h0 : 0 ≤ off)
    (hlen : off ≤ q.length) :
    ∃ b', takeUntil b (b.readerIndex + off) = .ok b' ∧ Holds b' (q.drop off.toNat) ∧
      b'.buffer.length = b.buffer.length := by
  obtain ⟨pre, post, hl⟩ := id h
  have hw := hl.writer_eq
  have hre := hl.reader_eq
  obtain ⟨b', he, hh, hs⟩ := take_spec h hlen
  refine ⟨b', ?_, hh, hs⟩
  have hlow : b.readerIndex ≤ b.readerIndex + off := by omega
  have hup : b.readerIndex + off ≤ b.writerIndex := by omega
  simp only [takeUntil, check_of hlow, check_of hup, ok_bind, add_sub_cancel_left]
  exact he

inductive Op
  | append (data : Bytes) (len : ℤ)
  | readFd (r : Option Bytes)
  | addReadableLength (written : Bytes) (len : ℤ)
  | take (len : ℤ)
  | takeUntil (off : ℤ)
  | takeAll
  deriving DecidableEq, Repr

def exec (b : Buffer) : Op → Checked Buffer
  | .append data len => append b data len
  | .readFd r => readFd b r
  | .addReadableLength written len => fill b written >>= fun b ↦ addReadableLength b len
  | .take len => take b len
  | .takeUntil off => takeUntil b (b.readerIndex + off)
  | .takeAll => pure b.takeAll

def sizeAfter (b : Buffer) : Op → ℤ
  | .append _ len => b.sizeFor len
  | .readFd (some d) => b.readFdSize d
  | .addReadableLength _ len =>
    if 0 < len then reserveSize { b with writerIndex := b.writerIndex + len } else b.buffer.length
  | .readFd none | .take _ | .takeUntil _ | .takeAll => b.buffer.length

/-- What a caller has to respect, the vector staying below 2 GiB included. -/
def Pre (b : Buffer) (op : Op) : Prop :=
  b.sizeAfter op < 2147483648 ∧
    match op with
    | .append data len => len ≤ data.length
    | .readFd none => True
    | .readFd (some d) => (d.length : ℤ) ≤ b.readvLimit
    | .addReadableLength written len => written.length = len.toNat ∧ len ≤ b.writableBytes
    | .take len => len ≤ b.readableBytes
    | .takeUntil off => 0 ≤ off ∧ off ≤ b.readableBytes
    | .takeAll => True

instance (b : Buffer) (op : Op) : Decidable (Pre b op) := by
  unfold Pre
  split <;> infer_instance

def queueStep (q : Fifo UInt8) : Op → Fifo UInt8
  | .append data len => q.push (data.take len.toNat)
  | .readFd r => q.push (r.getD [])
  | .addReadableLength written _ => q.push written
  | .take len => q.pop len.toNat
  | .takeUntil off => q.pop off.toNat
  | .takeAll => q.clear

/-- `b` is well formed, within 2 GiB, and its slice is the content of `q`. -/
def Refines (b : Buffer) (q : Fifo UInt8) : Prop := Holds b q.contents

/-- Under its precondition no call faults; it does what it does on the queue. -/
theorem exec_spec (b : Buffer) (q : Fifo UInt8) (op : Op) (h : Refines b q) (hpre : Pre b op) :
    ∃ b', exec b op = .ok b' ∧ Refines b' (queueStep q op) ∧ (b'.buffer.length : ℤ) = b.sizeAfter op := by
  have hread : b.readableBytes = q.contents.length := Holds.readable_eq h
  obtain ⟨hsize, hpre⟩ := hpre
  unfold Refines at h ⊢
  cases op with
  | append data len =>
    rw [queueStep, Fifo.contents_push]
    exact append_spec h hpre hsize
  | readFd r =>
    rw [queueStep, Fifo.contents_push]
    cases r with
    | none => exact ⟨b, rfl, by simpa using h, rfl⟩
    | some d => exact readFd_spec h hsize
  | addReadableLength written len =>
    obtain ⟨b₁, b', hf, he, hh, hs⟩ := addReadableLength_spec h hpre.1 hpre.2 (fun hpos ↦ by
      simpa only [sizeAfter, if_pos hpos] using hsize)
    refine ⟨b', ?_, by rw [queueStep, Fifo.contents_push]; exact hh, hs⟩
    rw [exec, hf, ok_bind, he]
  | take len =>
    obtain ⟨b', he, hh, hs⟩ := take_spec h (hread ▸ hpre)
    exact ⟨b', he, by rw [queueStep, Fifo.contents_pop]; exact hh, congrArg _ hs⟩
  | takeUntil off =>
    obtain ⟨b', he, hh, hs⟩ := takeUntil_spec h hpre.1 (hread ▸ hpre.2)
    exact ⟨b', he, by rw [queueStep, Fifo.contents_pop]; exact hh, congrArg _ hs⟩
  | takeAll =>
    exact ⟨b.takeAll, rfl, by rw [queueStep, Fifo.contents_clear]; exact takeAll_holds h, rfl⟩

/-- Whatever the sequence of calls, and however `makeSpace` made room, the
buffer never faults and its slice is what a byte queue would hold. -/
theorem run_refines_queue (initialSize : ℕ) (hinit : initialSize + 8 < 2147483648) :
    ∃ b₀, make initialSize = .ok b₀ ∧ ∀ ops, Admissible exec Pre b₀ ops →
      ∃ b, ops.foldlM exec b₀ = .ok b ∧
        kCheapPrepend ≤ b.readerIndex ∧ b.readerIndex ≤ b.writerIndex ∧
        b.writerIndex ≤ b.buffer.length ∧
        b.slice = (ops.foldl queueStep Fifo.empty).contents := by
  obtain ⟨b₀, hmake, hh, -⟩ := make_spec hinit
  refine ⟨b₀, hmake, fun ops ha ↦ ?_⟩
  obtain ⟨b, hb, hr⟩ := foldlM_simulates (R := Refines) (fun b q op h hp ↦
    let ⟨b', he, hr, _⟩ := exec_spec b q op h hp
    ⟨b', he, hr⟩) ops b₀ Fifo.empty hh ha
  obtain ⟨h₁, h₂, h₃⟩ := Holds.indices hr
  exact ⟨b, hb, h₁, h₂, h₃, Holds.slice_eq hr⟩

/-- A buffer of three bytes that grows, slides and spills. -/
theorem run_refines_queue_small :
    ∃ b₀ b, make 3 = .ok b₀ ∧
      [Op.append [1, 2, 3, 4] 4, .take 3, .append [5, 6] 2, .readFd (some [7, 8, 9]),
        .addReadableLength [] 0, .takeUntil 2].foldlM exec b₀ = .ok b ∧ b.slice = [6, 7, 8, 9] := by
  obtain ⟨b₀, hmake, hrun⟩ := run_refines_queue 3 (by decide)
  have hb₀ : b₀ = ⟨List.replicate 11 0, 8, 8⟩ := Except.ok.inj (hmake.symm.trans rfl)
  subst hb₀
  obtain ⟨b, hb, -, -, -, hs⟩ := hrun [Op.append [1, 2, 3, 4] 4, .take 3, .append [5, 6] 2,
    .readFd (some [7, 8, 9]), .addReadableLength [] 0, .takeUntil 2] (by decide)
  exact ⟨_, b, hmake, hb, hs⟩

end Baize.Net.Buffer
